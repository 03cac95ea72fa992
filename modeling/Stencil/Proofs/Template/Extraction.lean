import Stencil.Proofs.Markup.Document
import Stencil.Proofs.Template.FilledAssembly
import Stencil.Proofs.Template.TreeAssembly

/-!
Taking a body out of a template. A body that opens nothing it does not close is put together the
same way wherever it stands: in the place of a hole, or in a definition before the template. So a
template with the body in it and a template that calls the body by name compile alike, and what they
compile to differs in nothing but that hole.
-/

set_option autoImplicit false

namespace Stencil

variable {δ : Dialect}

/-- A name that markers can define, close and call a partial by. -/
structure Language.Names (l : Language δ) (name : Text) : Prop where
  defines : l.split ('<' :: name) = (.inlineTemplate, name)
  closes : l.split ('/' :: name) = (.close, name)
  calls : l.split ('>' :: name) = (.call, name)
  nonempty : name ≠ []
  notElse : name ≠ "else"
  undivided : Draft.splitCall name = (name, [])

/-- Events one after the other. Where text meets text it may be read as one, if that makes no
character reference of its two ends. -/
inductive Event.Joins : List Event → List Event → List Event → Prop
  | append (xs ys : List Event) : Joins xs ys (xs ++ ys)
  | text (xs : List Event) {s t : Text}
      (h : Text.unescapeText (s ++ t) = Text.unescapeText s ++ Text.unescapeText t)
      (ys : List Event) :
      Joins (xs ++ [.chars s]) (.chars t :: ys) (xs ++ .chars (s ++ t) :: ys)

def Located.definition (name : Text) (opening closing : Spot) (ls : List Located) : List Located :=
  [⟨opening, .marker ('<' :: name)⟩] ++ ls ++ [⟨closing, .marker ('/' :: name)⟩]

def Located.call (name : Text) (spot : Spot) : Located := ⟨spot, .marker ('>' :: name)⟩

/-- Events that could be a template of their own, which comes to the body and has neither calls nor
a definition of the name. -/
structure Balanced (o : Options δ) (name : Text) (ls : List Located) (ps : Body δ) : Prop where
  reads : Position.start.Reads ls .start
  calls : ∀ k ∈ ls, k.event.CallsNothing o.language
  compiles : ∃ a, ls.foldlM (Assembly.step o) .empty = .ok a ∧ a.markup.finish = .ok ps ∧
    Dict.find? a.partials name = none

/-- A template that defines the body as a partial, and calls it between what was around it. -/
def extracted (name body before after : Text) : Text :=
  Marker.written ('<' :: name) ++ body ++ Marker.written ('/' :: name) ++ before ++
    Marker.written ('>' :: name) ++ after

/-- The scanner reads the same pieces wherever the body stands: those of the body, those before the
hole and those after it. -/
structure ReadsApart (o : Options δ) (name body before after : Text) (ls ks ms : List Located) :
    Prop where
  extracted : ∃ opening closing spot, scan (o.clean (extracted name body before after)) =
    Located.definition name opening closing ls ++ ks ++ Located.call name spot :: ms
  direct : ∃ front, Event.Joins (ks.map Located.event) (ls.map Located.event) front ∧
    Event.Joins front (ms.map Located.event)
      ((scan (o.clean (before ++ body ++ after))).map Located.event)

def Filling.whole (r : δ.Expr → δ.Expr → Prop) (name : Text) : Filling δ :=
  ⟨r, name, fun _ => False⟩

def Filling.holding (r : δ.Expr → δ.Expr → Prop) (name : Text) (ps : Body δ) : Filling δ :=
  ⟨r, name, Part.FilledAll (.whole r name) ps⟩

/-- The first view has a body where the second calls it by name, and the second has a partial of
that name that comes from the same body, unless the first has one already. -/
inductive View.Inlines (r : δ.Expr → δ.Expr → Prop) (name : Text) : View δ → View δ → Prop
  | template (serial : Nat) (filename : Option Text) {ps qs b b' : Body δ}
      {partials partials' : Dict (Body δ)} (h : Part.FilledAll (.holding r name ps) b b')
      (hqs : Part.FilledAll (.whole r name) ps qs)
      (hpartials : Dict.find? partials name = none → Dict.find? partials' name = some qs)
      (hn : partials'.names.Nodup) :
      Inlines r name (.template serial b partials filename) (.template serial b' partials' filename)

theorem Position.Moves.within {p q : Position} {e : Event} (h : p.Moves e q)
    (hdone : e ≠ .done) (ts : List Text) :
    Position.Moves ⟨p.place, p.openTags ++ ts⟩ e ⟨q.place, q.openTags ++ ts⟩ := by
  cases h with
  | tagStart tag unary us => exact .tagStart tag unary _
  | tagEndUnary tag us => exact .tagEndUnary tag _
  | tagEnd tag us => exact .tagEnd tag _
  | close place tag us => exact .close place tag _
  | attrStart t name us => exact .attrStart t name _
  | attrValue t name value us => exact .attrValue t name value _
  | attrEnd t name us => exact .attrEnd t name _
  | chars place content us hp => exact .chars place content _ hp
  | marker place body us hp => exact .marker place body _ hp
  | comment content us => exact .comment content _
  | done place => exact absurd rfl hdone

theorem Position.Reads.within {p q : Position} {ls : List Located} (h : p.Reads ls q)
    (hq : q.place ≠ .ended) (ts : List Text) :
    Position.Reads ⟨p.place, p.openTags ++ ts⟩ ls ⟨q.place, q.openTags ++ ts⟩ := by
  induction h with
  | nil p => exact .nil _
  | @cons p q r l ls m t ih =>
    refine .cons (m.within (fun hdone => ?_) ts) (ih hq)
    rw [hdone] at m
    cases m
    exact t.not_ended hq rfl

theorem Part.FilledAll.pushAll_eq {F : Filling δ} {ps qs : Body δ} (h : Part.FilledAll F ps qs) :
    Part.pushAll [] qs = qs := by
  match h with
  | .nil => rfl
  | .push hs _ => rw [Part.pushAll_push, hs.pushAll_eq]
  | .fill hs _ => rw [Part.pushAll_push, hs.pushAll_eq]

theorem Position.Reads.of_events {p q : Position} {ls ms : List Located} (h : p.Reads ls q)
    (hsame : ms.map Located.event = ls.map Located.event) : p.Reads ms q := by
  induction h generalizing ms with
  | nil p =>
    obtain rfl := List.map_eq_nil_iff.1 hsame
    exact .nil p
  | cons m t ih =>
    obtain ⟨l, ms, rfl, hevent, hsame⟩ := List.map_eq_cons_iff.1 hsame
    exact .cons (hevent ▸ m) (ih hsame)

namespace MarkupDraft.Over

variable {F : Filling δ} {base d d' : MarkupDraft δ} {around os os' : List (Opening δ)}

theorem of_finish (h : Over F base around d os d' os') {ps : Body δ} (hfinish : d.finish = .ok ps) :
    ∃ qs, Part.FilledAll F ps qs ∧ d' = base.addAll qs ∧ os' = around := by
  cases h with
  | root h =>
    cases hfinish
    exact ⟨_, h, rfl, rfl⟩
  | marker => cases hfinish
  | @element d d' os os' hd hos head head' hhead ps' qs' =>
    rw [d.finish_withElement ⟨head, ps'⟩] at hfinish
    cases hfinish

theorem finish (h : Over F .empty around d os d' os') :
    SucceedAlike (Part.FilledAll F) d.finish d'.finish := by
  cases h with
  | root h =>
    rw [finish_addAll_empty, h.pushAll_eq]
    exact .ok h
  | marker => exact .error _ _
  | @element d d' os os' hd hos head head' hhead ps qs =>
    rw [d.finish_withElement ⟨head, ps⟩, d'.finish_withElement ⟨head', qs⟩]
    exact .error _ _

end MarkupDraft.Over

namespace Assembly

/-- Text that is read as one is taken in as its two parts are. -/
theorem step_chars_append {s t : Text}
    (h : Text.unescapeText (s ++ t) = Text.unescapeText s ++ Text.unescapeText t) (o : Options δ)
    (a : Assembly δ) (spot : Spot) :
    step o a ⟨spot, .chars (s ++ t)⟩ =
      step o a ⟨spot, .chars s⟩ >>= fun b => step o b ⟨spot, .chars t⟩ := by
  obtain ⟨markup, tag, attr, openings, ns, rawText, partials, warnings, lastLine⟩ := a
  cases rawText with
  | none =>
    have hmarkup := markup.addText_addText (Text.unescapeText s) (Text.unescapeText t)
    simp [step, chars, bind, Except.bind, h, hmarkup]
  | some draft =>
    have hdraft := draft.addText_addText s t
    simp [step, chars, bind, Except.bind, hdraft]

theorem foldlM_joins {xs ys zs : List Event} (h : Event.Joins xs ys zs) (o : Options δ)
    {ns : List Located} (hns : ns.map Located.event = zs) :
    ∃ ks ls : List Located, ks.map Located.event = xs ∧ ls.map Located.event = ys ∧
      ∀ a, ns.foldlM (step o) a = (ks ++ ls).foldlM (step o) a := by
  cases h with
  | append =>
    obtain ⟨ks, ls, rfl, hks, hls⟩ := List.map_eq_append_iff.1 hns
    exact ⟨ks, ls, hks, hls, fun _ => rfl⟩
  | @text xs s t htext ys =>
    obtain ⟨ks, ns, rfl, hks, hns⟩ := List.map_eq_append_iff.1 hns
    obtain ⟨⟨spot, event⟩, ls, rfl, rfl, hls⟩ := List.map_eq_cons_iff.1 hns
    refine ⟨ks ++ [⟨spot, .chars s⟩], ⟨spot, .chars t⟩ :: ls, by simp [hks], by simp [hls],
      fun a => ?_⟩
    simp only [List.foldlM_append, List.foldlM_cons, List.foldlM_nil, step_chars_append htext,
      bind_assoc, bind_pure]

theorem Lockstep.inContent {o : Options δ} {a : Assembly δ} {ts : List Text}
    (h : Lockstep o a ⟨.content, ts⟩) : a.InContent :=
  ⟨h.place.1, h.place.2, h.rawText_eq_none (by simp)⟩

theorem Over.inContent {F : Filling δ} {base : MarkupDraft δ} {around : List (Opening δ)}
    {found : Option (Body δ)} {a a' : Assembly δ} (h : a.Over F base around found a')
    (hc : a.InContent) : a'.InContent := by
  have htag := h.tag
  have hattr := h.attr
  rw [hc.tag] at htag
  rw [hc.attr] at hattr
  refine ⟨?_, ?_, h.rawText_eq_none hc.rawText⟩
  · generalize a'.tag = t at htag
    cases htag
    rfl
  · generalize a'.attr = t at hattr
    cases hattr
    rfl

theorem Over.start (F : Filling δ) {a : Assembly δ} (hc : a.InContent)
    (hn : a.partials.names.Nodup) :
    Over F a.markup a.openings (Dict.find? a.partials F.name) .empty a where
  markup := .root .nil
  tag := by rw [hc.tag]; exact .none
  attr := by rw [hc.attr]; exact .none
  rawText := by rw [hc.rawText]; exact .none
  holds := False.elim
  held := nofun
  partials _ := rfl
  nodup := List.nodup_nil
  nodup' := hn

/-- The assembly with a body added where it stands. Of what it has defined the name is left alone,
and its warnings may be others. -/
structure Holds (a : Assembly δ) (name : Text) (qs : Body δ) (b : Assembly δ) : Prop where
  markup : b.markup = a.markup.addAll qs
  openings : b.openings = a.openings
  inContent : b.InContent
  partials : Dict.find? b.partials name = Dict.find? a.partials name
  nodup : b.partials.names.Nodup

end Assembly

theorem Event.callsNothing_of_events {l : Language δ} {ls ms : List Located}
    (h : ∀ k ∈ ls, k.event.CallsNothing l)
    (hsame : ms.map Located.event = ls.map Located.event) : ∀ k ∈ ms, k.event.CallsNothing l := by
  intro m hm
  have hevent : m.event ∈ ls.map Located.event := hsame ▸ List.mem_map_of_mem hm
  obtain ⟨k, hk, hkm⟩ := List.mem_map.1 hevent
  exact hkm ▸ h k hk

theorem Assembly.Over.fill {F : Filling δ} {base : MarkupDraft δ} {around : List (Opening δ)}
    {found : Option (Body δ)} {a a' b : Assembly δ} (h : a.Over F base around found a')
    (hc : a.InContent) {qs : Body δ} (hqs : F.body qs) (hb : a.Holds F.name qs b) (line : Nat) :
    b.Over F base around found
      { a' with markup := a'.markup.add (.call ⟨F.name, none⟩), lastLine := line } := by
  have hc' := h.inContent hc
  have hholds := h.not_insideText hc.rawText
  refine ⟨?_, ?_, ?_, ?_, ?_, ?_, ?_, hb.nodup, h.nodup'⟩
  · rw [hb.markup, hb.openings]
    exact h.markup.fill hholds hqs
  · rw [hb.inContent.tag, hc'.tag]
    exact .none
  · rw [hb.inContent.attr, hc'.attr]
    exact .none
  · rw [hb.inContent.rawText, hc'.rawText]
    exact .none
  · rw [hb.openings]
    exact fun ht => absurd ht hholds
  · rw [hb.inContent.rawText]
    exact nofun
  · rw [hb.partials]
    exact h.partials

theorem Balanced.run {o : Options δ} {r : δ.Expr → δ.Expr → Prop} {name : Text}
    {ls ms : List Located} {ps : Body δ} (h : Balanced o name ls ps) (ho : o.handlers = .empty)
    (hl : o.language.Uniform r) (hsame : ms.map Located.event = ls.map Located.event)
    {a : Assembly δ} (hc : a.InContent) (hn : a.partials.names.Nodup) :
    ∃ b qs, ms.foldlM (Assembly.step o) a = .ok b ∧ Part.FilledAll (.whole r name) ps qs ∧
      a.Holds name qs b := by
  obtain ⟨s, hs, hfinish, hnone⟩ := h.compiles
  -- what is around the body is not its own to close, but the body closes nothing of it
  have hstart := Assembly.Over.start (.whole r name) hc hn
  have hrun : Follows False _ (ls.foldlM (Assembly.step o) .empty) (ms.foldlM _ a) :=
    hstart.run False.elim hl ho h.reads Assembly.lockstep_start hsame h.calls
  obtain ⟨b, hb, hover, hlock⟩ := hrun.exists_ok hs
  obtain ⟨qs, hqs, hmarkup, hopenings⟩ := hover.markup.of_finish hfinish
  exact ⟨b, qs, hb, hqs, hmarkup, hopenings, hover.inContent hlock.inContent,
    hover.partials hnone, hover.nodup'⟩

namespace Assembly

variable {o : Options δ} {name : Text} {a : Assembly δ} {spot : Spot}

theorem step_defines (hname : o.language.Names name) (hc : a.InContent) :
    step o a ⟨spot, .marker ('<' :: name)⟩ = .ok { a with
      markup := a.markup.withSection (.inlineTemplate name) [] none
      openings := .marker name :: a.openings
      lastLine := spot.line } := by
  simp only [step, marker, hname.defines, if_neg hname.notElse, hc.tag, hc.attr, markerInContent,
    hc.rawText]
  rfl

theorem step_calls (hname : o.language.Names name) (hc : a.InContent) :
    step o a ⟨spot, .marker ('>' :: name)⟩ =
      .ok { a with markup := a.markup.add (.call ⟨name, none⟩), lastLine := spot.line } := by
  have hempty : name.isEmpty = false := by simpa using hname.nonempty
  simp only [step, marker, hname.calls, if_neg hname.notElse, hc.tag, hc.attr, markerInContent,
    hc.rawText, Draft.apply, hname.undivided, hempty]
  rfl

theorem step_closes (hname : o.language.Names name) (hc : a.InContent) {d : MarkupDraft δ}
    {ps : Body δ} {os : List (Opening δ)}
    (hmarkup : a.markup = d.withSection (.inlineTemplate name) ps none)
    (hopenings : a.openings = .marker name :: os) :
    step o a ⟨spot, .marker ('/' :: name)⟩ = .ok { a with
      markup := d, openings := os, partials := a.partials.insert name ps
      lastLine := spot.line } := by
  have hclose (line : Nat) :
      Draft.close (d.withSection (.inlineTemplate name) ps none) name line =
        .ok (d, .closed (some (name, ps))) := by
    rw [MarkupDraft.close_withInline, if_neg (by simpa using hname.nonempty)]
  simp only [step, marker, hname.closes, if_neg hname.notElse, hc.tag, hc.attr, markerInContent,
    hc.rawText, hmarkup, Draft.apply, hclose, bind, Except.bind, record, follow, hopenings]
  simp [pure, Except.pure]

end Assembly

section

variable {o : Options δ} (ho : o.handlers = .empty) {r : δ.Expr → δ.Expr → Prop}
  (hl : o.language.Uniform r) {name : Text} (hname : o.language.Names name) {ls : List Located}
  {ps : Body δ} (hbody : Balanced o name ls ps)

include ho hl hname hbody

theorem Balanced.takes_definition (opening closing : Spot) :
    ∃ a qs, Assembly.Takes o .empty (Located.definition name opening closing ls) a ∧
      Part.FilledAll (.whole r name) ps qs ∧ a.markup = .empty ∧ a.openings = [] ∧ a.InContent ∧
      Dict.find? a.partials name = some qs ∧ a.partials.names.Nodup := by
  let a₁ : Assembly δ := { Assembly.empty with
    markup := MarkupDraft.empty.withSection (.inlineTemplate name) [] none
    openings := [.marker name], lastLine := opening.line }
  have ha₁ : a₁.InContent := ⟨rfl, rfl, rfl⟩
  obtain ⟨b, qs, hb, hqs, hholds⟩ := hbody.run ho hl rfl ha₁ List.nodup_nil
  have hmarkup : b.markup = MarkupDraft.empty.withSection (.inlineTemplate name) qs none := by
    rw [hholds.markup, MarkupDraft.addAll_withSection, hqs.pushAll_eq]
  have hopens : Assembly.Takes o .empty [⟨opening, .marker ('<' :: name)⟩] a₁ :=
    .single (Assembly.step_defines hname ⟨rfl, rfl, rfl⟩)
  have hcloses : Assembly.step o b ⟨closing, .marker ('/' :: name)⟩ = _ :=
    Assembly.step_closes hname hholds.inContent hmarkup hholds.openings
  refine ⟨_, qs, (hopens.append hb).append (.single hcloses), hqs, rfl, rfl, ?_, ?_, ?_⟩
  · exact ⟨hholds.inContent.tag, hholds.inContent.attr, hholds.inContent.rawText⟩
  · exact Dict.find?_insert_self _ _ _
  · exact Dict.nodup_names_insert hholds.nodup _ _

theorem compileEvents_extract {ks ms ls' ks' ms' : List Located} {ts : List Text} {q : Position}
    (hhole : Position.start.Reads ks ⟨.content, ts⟩)
    (hrest : Position.Reads ⟨.content, ts⟩ ms q)
    (hcalls : ∀ k ∈ ks ++ ms, k.event.CallsNothing o.language)
    (hls : ls'.map Located.event = ls.map Located.event)
    (hks : ks'.map Located.event = ks.map Located.event)
    (hms : ms'.map Located.event = ms.map Located.event) (serial : Nat)
    (opening closing spot : Spot) :
    SucceedAlike (fun c c' => c.view.Inlines r name c'.view)
      (compileEvents o serial (ks ++ ls' ++ ms))
      (compileEvents o serial
        (Located.definition name opening closing ls ++ ks' ++ Located.call name spot :: ms')) := by
  rw [List.forall_mem_append] at hcalls
  obtain ⟨a, qs, htakes, hqs, hmarkup, hopenings, ha, hfound, hn⟩ :=
    hbody.takes_definition ho hl hname opening closing
  have hroot : True → (MarkupDraft.empty : MarkupDraft δ) = .empty ∧
      ([] : List (Opening δ)) = [] := fun _ => ⟨rfl, rfl⟩
  have hstart := Assembly.Over.start (.holding r name ps) ha hn
  rw [hmarkup, hopenings] at hstart
  have hbefore := hstart.run hroot hl ho hhole Assembly.lockstep_start hks hcalls.1
  have hread : Position.Reads ⟨.content, ts⟩ ls' ⟨.content, ts⟩ :=
    (hbody.reads.of_events hls).within (by simp [Position.start]) ts
  have hrun : SucceedAlike
      (Assembly.Over (.holding r name ps) .empty [] (Dict.find? a.partials name))
      ((ks ++ ls' ++ ms).foldlM (Assembly.step o) .empty)
      ((Located.definition name opening closing ls ++ ks' ++
        Located.call name spot :: ms').foldlM (Assembly.step o) .empty) := by
    rw [List.append_assoc, List.append_assoc, List.foldlM_append, List.foldlM_append, htakes]
    change SucceedAlike _ _ ((ks' ++ _).foldlM _ a)
    rw [List.foldlM_append]
    refine hbefore.succeedAlike.bind fun b b' hb => ?_
    obtain ⟨hover, hlock⟩ := hb
    have hc := hlock.inContent
    obtain ⟨c, us, hrun, hus, hholds⟩ := hbody.run ho hl hls hc hover.nodup
    have hfilled := hover.fill hc hus hholds spot.line
    have hcall : Assembly.step o b' (Located.call name spot) = _ :=
      Assembly.step_calls hname (hover.inContent hc)
    rw [List.foldlM_append, List.foldlM_cons, hrun, hcall]
    have hafter := hfilled.run hroot hl ho hrest (hlock.run hread hrun) hms hcalls.2
    exact hafter.succeedAlike.mono fun _ _ h => h.1
  unfold compileEvents
  refine hrun.bind fun b b' hb => ?_
  have hfinish : SucceedAlike (Part.FilledAll (.holding r name ps)) b.finish b'.finish :=
    hb.markup.finish.atLine _ _ _ _
  refine hfinish.bind fun us us' hus => .ok ?_
  exact .template serial o.filename hus hqs (fun hnone => (hb.partials hnone).trans hfound)
    hb.nodup'

/-- Taking a balanced body out of the content of a template, into a partial that is called in its
place, compiles alike, if the scanner reads the same pieces in both. -/
theorem compile_extract {body before after : Text} {ks ms : List Located}
    (hpieces : ReadsApart o name body before after ls ks ms)
    (hhole : ∃ ts, Position.start.Reads ks ⟨.content, ts⟩)
    (hcalls : ∀ k ∈ ks ++ ms, k.event.CallsNothing o.language) (serial : Nat) :
    SucceedAlike (fun c c' => c.view.Inlines r name c'.view)
      (compile o serial (before ++ body ++ after))
      (compile o serial (extracted name body before after)) := by
  obtain ⟨opening, closing, spot, hextracted⟩ := hpieces.extracted
  obtain ⟨front, hfront, hdirect⟩ := hpieces.direct
  obtain ⟨ts, hhole⟩ := hhole
  -- the scanner stands at the hole again after the call
  have hdefinition : Position.start.Reads (Located.definition name opening closing ls) .start :=
    (Position.Reads.single (.marker .content _ [] (by simp))).append hbody.reads |>.append
      (.single (.marker .content _ [] (by simp)))
  have hscan := reads_scan (o.clean (extracted name body before after))
  rw [hextracted] at hscan
  obtain ⟨p, hp, hrest⟩ := hscan.of_append
  obtain rfl : p = ⟨.content, ts⟩ := hp.unique (hdefinition.append hhole)
  have hrest : Position.Reads ⟨.content, ts⟩ ms ⟨.ended, []⟩ := by
    cases hrest with
    | cons hmarker hrest =>
      cases hmarker
      exact hrest
  -- the template with the body in it is taken in piece by piece
  obtain ⟨ns, ms', hns, hms, hback⟩ := Assembly.foldlM_joins hdirect o rfl
  obtain ⟨ks', ls', hks, hls, hfold⟩ := Assembly.foldlM_joins hfront o hns
  have hevents : compileEvents o serial (scan (o.clean (before ++ body ++ after))) =
      compileEvents o serial (ks' ++ ls' ++ ms') := by
    unfold compileEvents
    rw [hback, List.foldlM_append, hfold, ← List.foldlM_append]
  have hcalls' : ∀ k ∈ ks' ++ ms', k.event.CallsNothing o.language :=
    Event.callsNothing_of_events hcalls (by simp [hks, hms])
  unfold compile
  rw [hevents, hextracted]
  exact (compileEvents_extract ho hl hname hbody (hhole.of_events hks) (hrest.of_events hms) hcalls'
    hls hks.symm hms.symm serial opening closing spot).mapError _

end

end Stencil
