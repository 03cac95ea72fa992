import Stencil.Proofs.Expression.Lookup
import Stencil.Proofs.Markup.Bounded
import Stencil.Proofs.Markup.EventSpots
import Stencil.Proofs.Template.Nesting

/-!
A template compiles if and only if it is well nested. The assembly goes through the events of a
source in step with one stack of open constructs, and it stops at the first event that the stack
does not allow, or at the end if something is still open.
-/

set_option autoImplicit false

namespace Stencil

variable {δ : Dialect}

/-- The expression compiles wherever it stands. -/
def Language.Compiles (l : Language δ) (mode : Mode) (expression : Text) : Prop :=
  ∀ site, ∃ e, l.compile mode expression site = .ok e

/-- A marker of a mode has what it needs: its expression compiles, or the name of its partial is
there and the context after it compiles. Closing markers, comments and definitions need nothing. -/
def Language.Accepts (l : Language δ) (mode : Mode) (expression : Text) : Prop :=
  match mode with
  | .close | .inlineTemplate | .comment => True
  | .call =>
    (Draft.splitCall expression).1 ≠ [] ∧
      ((Draft.splitCall expression).2 = [] ∨ l.Compiles .escaped (Draft.splitCall expression).2)
  | .escaped | .unescaped | .branch | .inverse => l.Compiles mode expression

def Options.Accepts (o : Options δ) (body : Text) : Prop :=
  (o.language.split body).2 = "else" ∨
    o.language.Accepts (o.language.split body).1 (o.language.split body).2

namespace Assembly

section

variable {a : Assembly δ} {os : List (Opening δ)} {cs : List Construct}

theorem endRawText_takeElement (tag : Text) {t : Text}
    (h : Nests a.markup (.element t :: os) (.element t :: cs))
    (hraw : ∀ d, a.rawText = some d → d.sections = []) (line : Nat) :
    ∃ m e d, a.endRawText tag line =
        .ok { a with rawText := if Tag.holdsText tag then none else a.rawText, markup := m } ∧
      m.takeElement? = some (e, d) ∧ Nests d os cs := by
  obtain ⟨markup, tagDraft, attr, openings, namespaces, rawText, partials, warnings, lastLine⟩ := a
  cases rawText with
  | none =>
    obtain ⟨e, d, hd, hn⟩ := h.takeElement?
    exact ⟨markup, e, d, by simp [endRawText], hd, hn⟩
  | some draft =>
    by_cases hh : Tag.holdsText tag = true
    · have hfinish : Draft.atLine line none draft.finish = .ok draft.root.primary := by
        rw [TextDraft.finish, hraw draft rfl]
        rfl
      obtain ⟨e, d, hd, hn⟩ := (h.add (.textBlock draft.root.primary)).takeElement?
      refine ⟨_, e, d, ?_, hd, hn⟩
      simp [endRawText, hh, hfinish, bind, Except.bind, pure, Except.pure]
    · obtain ⟨e, d, hd, hn⟩ := h.takeElement?
      exact ⟨markup, e, d, by simp [endRawText, hh], hd, hn⟩

theorem nests_define (o : Options δ) (head : ElementHead δ) (body : Option (Body δ)) (line : Nat)
    (h : Nests a.markup a.openings cs) :
    Nests (a.define o head body line).markup (a.define o head body line).openings cs ∧
      (a.define o head body line).rawText = a.rawText ∧
      (a.define o head body line).tag = a.tag ∧ (a.define o head body line).attr = a.attr := by
  obtain ⟨markup, tagDraft, attr, openings, namespaces, rawText, partials, warnings, lastLine⟩ := a
  unfold define
  split
  · exact ⟨h, rfl, rfl, rfl⟩
  · split
    · exact ⟨h, rfl, rfl, rfl⟩
    next name _ _ _ body tag handler nested templates rest heq =>
      simp only at heq
      subst heq
      cases h with
      | custom h e tag handler nested templates primary inverse =>
        exact ⟨.custom h e tag handler nested _ primary inverse, rfl, rfl, rfl⟩
    · exact ⟨h, rfl, rfl, rfl⟩

structure Closed (a : Assembly δ) (tag : Text) (b : Assembly δ) (cs : List Construct) : Prop where
  nests : Nests b.markup b.openings cs
  rawText : b.rawText = if Tag.holdsText tag then none else a.rawText
  tag : b.tag = a.tag
  attr : b.attr = a.attr

theorem closed_closeElement (tag : Text) {t : Text}
    (h : Nests a.markup (.element t :: a.openings) (.element t :: cs))
    (hraw : ∀ d, a.rawText = some d → d.sections = []) (line : Nat) :
    ∃ b, a.closeElement tag line = .ok b ∧ Closed a tag b cs := by
  obtain ⟨m, e, d, hend, htake, hn⟩ := endRawText_takeElement tag h hraw line
  refine ⟨{ a with
    rawText := if Tag.holdsText tag then none else a.rawText
    markup := d.add (.element e.head e.children) }, ?_, hn.add _, rfl, rfl, rfl⟩
  simp only [closeElement, hend, bind, Except.bind, htake]
  rfl

theorem closed_closeCustom (o : Options δ) (tag : Text) {t : Text} {handler : δ.TagHandler}
    {nested : Bool} {templates : Dict (Body δ)}
    (h : Nests a.markup (.custom t handler nested templates :: a.openings) (.element t :: cs))
    (hraw : ∀ d, a.rawText = some d → d.sections = []) (line : Nat) :
    ∃ b, a.closeCustom o tag handler nested templates line = .ok b ∧ Closed a tag b cs := by
  obtain ⟨content, markup, hcontent, hn⟩ := h.closeCustom
  obtain ⟨m, e, d, hend, htake, hn⟩ :=
    endRawText_takeElement (a := { a with markup }) tag hn hraw line
  simp only [closeCustom, hcontent, hend, bind, Except.bind, htake]
  by_cases hd : tag = definitionTag
  · simp only [if_pos hd]
    obtain ⟨hnests, hrawText, htag, hattr⟩ := nests_define (a := { a with
      rawText := if Tag.holdsText tag then none else a.rawText
      markup := d }) o e.head (if content.isEmpty then none else some content) line hn
    exact ⟨_, rfl, hnests, hrawText, htag, hattr⟩
  · simp only [if_neg hd]
    exact ⟨_, rfl, hn.add _, rfl, rfl, rfl⟩

theorem agrees_close (o : Options δ) {tag : Text} (h : Nests a.markup a.openings cs)
    (htag : ∀ t rest, cs = .element t :: rest → t = tag)
    (hraw : ∀ d, a.rawText = some d → d.sections = []) (line : Nat) :
    Agrees line (a.close o tag line) (Construct.tagClosed? tag cs) (a.Closed tag) := by
  have hns : (if (Namespace.ofTag? tag).isSome then { a with namespaces := a.namespaces.tail }
      else a) = { a with namespaces :=
        if (Namespace.ofTag? tag).isSome then a.namespaces.tail else a.namespaces } := by
    split <;> rfl
  have htops := h.tops
  unfold close
  simp only [hns]
  cases hos : a.openings with
  | nil =>
    rw [hos] at htops
    obtain rfl : cs = [] := htops
    exact agrees_error .unbalancedSection (by decide)
  | cons opening os =>
    rw [hos] at h htops
    cases opening with
    | marker name =>
      obtain ⟨rest, rfl | rfl⟩ := htops <;> exact agrees_error .unbalancedSection (by decide)
    | element t =>
      obtain ⟨rest, rfl⟩ := htops
      obtain rfl := htag t rest rfl
      simp only [Construct.tagClosed?, if_pos]
      obtain ⟨b, hb, hc⟩ := closed_closeElement (a := { a with
        openings := os
        namespaces := if (Namespace.ofTag? t).isSome then a.namespaces.tail else a.namespaces })
        t h hraw line
      exact ⟨b, hb, hc.nests, hc.rawText, hc.tag, hc.attr⟩
    | custom t handler nested templates =>
      obtain ⟨rest, rfl⟩ := htops
      obtain rfl := htag t rest rfl
      simp only [Construct.tagClosed?, if_pos]
      obtain ⟨b, hb, hc⟩ := closed_closeCustom (a := { a with
        openings := os
        namespaces := if (Namespace.ofTag? t).isSome then a.namespaces.tail else a.namespaces })
        o t h hraw line
      exact ⟨b, hb, hc.nests, hc.rawText, hc.tag, hc.attr⟩

def Openings : Change δ → List (Opening δ) → List (Opening δ) → Prop
  | .none, os, os' => os' = os
  | .opened name, os, os' => os' = .marker name :: os
  | .closed _, os, os' => ∃ name, os = .marker name :: os'

theorem agrees_apply {d : MarkupDraft δ} (h : Nests d os cs) {l : Language δ} {mode : Mode}
    {expression : Text} (ha : l.Accepts mode expression) (site : Site) :
    Agrees site.line (Draft.apply l site d mode expression)
      (Construct.afterMode mode cs) fun r cs' =>
        ∃ os', Openings r.2 os os' ∧ Nests r.1 os' cs' := by
  cases mode with
  | escaped | unescaped =>
    obtain ⟨e, he⟩ := ha site
    simp only [Draft.apply, he]
    exact ⟨_, rfl, os, rfl, h.add _⟩
  | branch =>
    obtain ⟨e, he⟩ := ha site
    simp only [Draft.apply, he]
    exact ⟨_, rfl, _, rfl, h.branch .branch (by decide) e _ [] none⟩
  | inverse =>
    obtain ⟨e, he⟩ := ha site
    simp only [Draft.apply, he]
    exact ⟨_, rfl, _, rfl, h.branch .inverse (by decide) e _ [] none⟩
  | inlineTemplate => exact ⟨_, rfl, _, rfl, h.inlineTemplate expression expression [] none⟩
  | close =>
    refine (h.close expression site.line).mono fun r cs' _ hr => ?_
    obtain ⟨definition, name, os', hchange, hos, hn⟩ := hr
    rw [hchange]
    exact ⟨os', ⟨name, hos⟩, hn⟩
  | call =>
    obtain ⟨hname, hcontext⟩ := ha
    simp only [Draft.apply, List.isEmpty_iff, if_neg hname]
    by_cases hempty : (Draft.splitCall expression).2 = []
    · simp only [if_pos hempty]
      exact ⟨_, rfl, os, rfl, h.add _⟩
    · obtain ⟨e, he⟩ := hcontext.resolve_left hempty site
      simp only [if_neg hempty, he]
      exact ⟨_, rfl, os, rfl, h.add _⟩
  | comment => exact ⟨_, rfl, os, rfl, h⟩

theorem nests_follow {b : Assembly δ} {os' : List (Opening δ)} {change : Change δ}
    (h : Openings change b.openings os') (hn : Nests b.markup os' cs) (hc : b.InContent)
    (o : Options δ) (expression : Text) (line : Nat) :
    Nests ((b.record change).follow o expression line change).markup
        ((b.record change).follow o expression line change).openings cs ∧
      ((b.record change).follow o expression line change).InContent := by
  obtain ⟨markup, tagDraft, attr, openings, namespaces, rawText, partials, warnings, lastLine⟩ := b
  cases change with
  | none =>
    obtain rfl : os' = openings := h
    exact ⟨hn, hc⟩
  | opened name =>
    obtain rfl : os' = .marker name :: openings := h
    exact ⟨hn, hc.tag, hc.attr, hc.rawText⟩
  | closed definition =>
    obtain ⟨name, rfl⟩ := h
    cases definition with
    | none =>
      simp only [record, follow]
      split <;> exact ⟨hn, hc.tag, hc.attr, hc.rawText⟩
    | some definition =>
      simp only [record, follow]
      split <;> exact ⟨hn, hc.tag, hc.attr, hc.rawText⟩

theorem agrees_marker {o : Options δ} (hn : Nests a.markup a.openings cs) (hc : a.InContent)
    {body : Text} (ha : o.Accepts body) (line : Nat) :
    Agrees line (a.marker o body line) (Construct.afterMarker o body cs) fun b cs' =>
      Nests b.markup b.openings cs' ∧ b.InContent := by
  obtain ⟨markup, tagDraft, attr, openings, namespaces, rawText, partials, warnings, lastLine⟩ := a
  obtain ⟨rfl, rfl, rfl⟩ := hc
  unfold Options.Accepts at ha
  unfold marker Construct.afterMarker
  generalize o.language.split body = split at ha ⊢
  obtain ⟨mode, expression⟩ := split
  by_cases helse : expression = "else"
  · simp only [if_pos helse, turn]
    exact (hn.turn line).bind_ok fun d cs' hd => ⟨_, rfl, hd, rfl, rfl, rfl⟩
  · simp only [if_neg helse]
    by_cases hcomment : mode = .comment
    · simp only [hcomment, if_pos]
      exact ⟨_, rfl, hn, rfl, rfl, rfl⟩
    · simp only [if_neg hcomment, markerInContent]
      have happly := agrees_apply hn (ha.resolve_left helse)
        (site ⟨markup, none, none, openings, namespaces, none, partials, warnings, lastLine⟩ o line)
      refine happly.bind_ok fun r cs' hr => ?_
      obtain ⟨d, change⟩ := r
      obtain ⟨os', hos, hd⟩ := hr
      exact ⟨_, rfl, nests_follow (b := ⟨d, none, none, openings, namespaces, none, partials,
        warnings, lastLine⟩) hos hd ⟨rfl, rfl, rfl⟩ o expression line⟩

end

end Assembly

/-- Whether the content of a tag is kept as text: the tag holds text and has no handler. -/
def Options.keepsText (o : Options δ) (tag : Text) : Bool :=
  Tag.holdsText tag && (o.handlers.tag? tag).isNone

/-- Outside tags and outside what is kept as text. -/
def Position.InContent (o : Options δ) (p : Position) : Prop :=
  p.place = .content ∨ p.place = .rawText ∧ ∀ tag ∈ p.openTags.head?, o.keepsText tag = false

namespace Assembly

/-- What an assembly holds of the start tag and the attribute around a place. -/
def StandsIn (a : Assembly δ) : Place → Prop
  | .content | .rawText => a.tag = none ∧ a.attr = none
  | .tag t => (∃ head, a.tag = some ⟨head, none⟩ ∧ head.tag = t.name) ∧ a.attr = none
  | .attr t name =>
    (∃ head, a.tag = some ⟨head, none⟩ ∧ head.tag = t.name) ∧
      ∃ value, a.attr = some ⟨name, value, none⟩
  | .ended => True

/-- The assembly is in step with a position and the open constructs. Text is kept only inside an
innermost element that holds it, and no marker stands in it. -/
structure InStep (o : Options δ) (a : Assembly δ) (p : Position) (cs : List Construct) : Prop where
  nests : Nests a.markup a.openings cs
  openTags : p.openTags = cs.filterMap Construct.tag?
  place : a.StandsIn p.place
  rawText : ∀ d, a.rawText = some d →
    d.sections = [] ∧ p.place = .rawText ∧ ∃ tag ∈ p.openTags.head?, o.keepsText tag = true

section

variable {o : Options δ} {a : Assembly δ} {p q : Position} {cs : List Construct}

theorem InStep.rawText_eq_none (h : InStep o a p cs) (hp : p.place ≠ .rawText) :
    a.rawText = none := by
  cases hr : a.rawText with
  | none => rfl
  | some d => exact absurd (h.rawText d hr).2.1 hp

theorem inStep_start : InStep o (empty : Assembly δ) .start [] :=
  ⟨.empty, rfl, ⟨rfl, rfl⟩, fun _ h => by cases h⟩

theorem InStep.inContent (h : InStep o a p cs) (hp : p.InContent o) : a.InContent := by
  obtain ⟨htag, hattr⟩ : a.tag = none ∧ a.attr = none := by
    have hplace := h.place
    rcases hp with hp | ⟨hp, -⟩ <;> rw [hp] at hplace <;> exact hplace
  refine ⟨htag, hattr, ?_⟩
  rcases hp with hp | ⟨-, hkeeps⟩
  · exact h.rawText_eq_none (by simp [hp])
  · cases hr : a.rawText with
    | none => rfl
    | some d =>
      obtain ⟨-, -, tag, htag, hk⟩ := h.rawText d hr
      rw [hkeeps tag htag] at hk
      cases hk

theorem nests_addUnary (h : Nests a.markup a.openings cs) (o : Options δ) (head : ElementHead δ)
    (line : Nat) :
    ∃ markup, a.addUnary o head line = { a with markup } ∧ Nests markup a.openings cs := by
  unfold addUnary
  split
  · exact ⟨_, rfl, h.add _⟩
  · split
    · exact ⟨a.markup, rfl, h⟩
    · exact ⟨_, rfl, h.add _⟩

theorem nests_openElement (h : Nests a.markup a.openings cs) (o : Options δ)
    (head : ElementHead δ) :
    ∃ markup openings, a.openElement o head = { a with
        markup, openings
        rawText := if o.keepsText head.tag then some .empty else a.rawText } ∧
      Nests markup openings (.element head.tag :: cs) := by
  unfold openElement Options.keepsText
  cases hh : o.handlers.tag? head.tag with
  | some handler =>
    refine ⟨_, _, ?_, .custom h ⟨head, []⟩ head.tag handler a.directlyNested [] [] none⟩
    simp only [Option.isNone_some, Bool.and_false]
    rfl
  | none =>
    refine ⟨_, _, ?_, .element h ⟨head, []⟩ head.tag⟩
    simp only [Option.isNone_none, Bool.and_true]
    rfl

theorem keepsText_place {tag : Text} (h : o.keepsText tag = true) :
    Place.inside tag = .rawText := by
  simp only [Options.keepsText, Bool.and_eq_true, Tag.holdsText, Bool.decide_or, Bool.or_eq_true,
    decide_eq_true_eq] at h
  obtain ⟨rfl | rfl, -⟩ := h <;> decide

theorem InStep.moves (h : InStep o a p cs) (hp : p.place ≠ .rawText) {b : Assembly δ}
    {place : Place} (hs : b.StandsIn place) (hm : b.markup = a.markup)
    (ho : b.openings = a.openings) (hr : b.rawText = a.rawText) :
    InStep o b ⟨place, p.openTags⟩ cs := by
  refine ⟨?_, h.openTags, hs, fun d hd => ?_⟩
  · rw [hm, ho]
    exact h.nests
  · rw [hr, h.rawText_eq_none hp] at hd
    cases hd

section

variable (spot : Spot) {tag name : Text} {t : StartTag} {ts : List Text}

theorem InStep.tagStart (h : InStep o a ⟨.content, ts⟩ cs) (unary : Bool) :
    ∃ b, step o a ⟨spot, .tagStart tag unary⟩ = .ok b ∧
      InStep o b ⟨.tag ⟨tag, unary⟩, ts⟩ cs :=
  ⟨_, rfl, h.moves (by simp) ⟨⟨_, rfl, rfl⟩, h.place.2⟩ rfl rfl rfl⟩

theorem InStep.tagEndUnary (h : InStep o a ⟨.tag ⟨tag, true⟩, ts⟩ cs) :
    ∃ b, step o a ⟨spot, .tagEnd tag true⟩ = .ok b ∧ InStep o b ⟨.content, ts⟩ cs := by
  obtain ⟨⟨head, htag, rfl⟩, hattr⟩ := h.place
  have hraw := h.rawText_eq_none (by simp)
  obtain ⟨markup, hadd, hn⟩ := nests_addUnary
    (a := { a with lastLine := spot.line, tag := none }) h.nests o head spot.line
  refine ⟨{ a with lastLine := spot.line, tag := none, markup }, ?_, hn, h.openTags, ⟨rfl, hattr⟩,
    fun d hd => ?_⟩
  · simp only [step, tagEnd, htag, if_pos, ← hadd]
    rfl
  · exact absurd (hraw.symm.trans hd) (by simp)

theorem InStep.tagEnd (h : InStep o a ⟨.tag ⟨tag, false⟩, ts⟩ cs) :
    ∃ b, step o a ⟨spot, .tagEnd tag false⟩ = .ok b ∧
      InStep o b ⟨.inside tag, tag :: ts⟩ (.element tag :: cs) := by
  obtain ⟨⟨head, htag, rfl⟩, hattr⟩ := h.place
  have hraw := h.rawText_eq_none (by simp)
  obtain ⟨markup, openings, hopen, hn⟩ := nests_openElement
    (a := { a with lastLine := spot.line, tag := none }) h.nests o head
  refine ⟨{ a with
    lastLine := spot.line, tag := none, markup, openings
    rawText := if o.keepsText head.tag then some .empty else a.rawText }, ?_, hn, ?_, ?_,
    fun d hd => ?_⟩
  · simp only [step, Assembly.tagEnd, htag, ← hopen]
    rfl
  · simpa [Construct.tag?] using h.openTags
  · rcases Place.inside_eq head.tag with hi | hi <;> rw [hi] <;> exact ⟨rfl, hattr⟩
  · by_cases hk : o.keepsText head.tag = true
    · simp only [hk, if_true, Option.some.injEq] at hd
      exact ⟨hd ▸ rfl, keepsText_place hk, head.tag, rfl, hk⟩
    · simp [hk, hraw] at hd

theorem InStep.close {place : Place} (h : InStep o a ⟨place, tag :: ts⟩ cs) :
    Agrees spot.line (step o a ⟨spot, .close tag⟩) (Construct.tagClosed? tag cs)
      (InStep o · ⟨place.closed, ts⟩ ·) := by
  have hcs := h.openTags
  refine (agrees_close (a := { a with lastLine := spot.line }) o h.nests ?_ ?_ spot.line).mono ?_
  · rintro t rest rfl
    simp only [Construct.tag?, List.filterMap_cons, List.cons.injEq] at hcs
    exact hcs.1.symm
  · exact fun d hd => (h.rawText d hd).1
  · intro b cs' hclosed hb
    obtain rfl := Construct.eq_of_tagClosed? hclosed
    refine ⟨hb.nests, ?_, ?_, fun d hd => ?_⟩
    · simpa [Construct.tag?] using hcs
    · have hplace := h.place
      cases place with
      | content | rawText => exact ⟨hb.tag.trans hplace.1, hb.attr.trans hplace.2⟩
      | tag | attr | ended => trivial
    · rw [hb.rawText] at hd
      by_cases hh : Tag.holdsText tag = true
      · simp [hh] at hd
      · obtain ⟨-, -, t, ht, hk⟩ := h.rawText d (by simpa [hh] using hd)
        cases ht
        simp [Options.keepsText, hh] at hk

theorem InStep.attrStart (h : InStep o a ⟨.tag t, ts⟩ cs) :
    ∃ b, step o a ⟨spot, .attrStart name⟩ = .ok b ∧ InStep o b ⟨.attr t name, ts⟩ cs := by
  obtain ⟨⟨head, htag, hname⟩, -⟩ := h.place
  refine ⟨{ a with lastLine := spot.line, attr := some ⟨name, [], none⟩ }, ?_,
    h.moves (by simp) ⟨⟨head, htag, hname⟩, [], rfl⟩ rfl rfl rfl⟩
  simp only [step, Assembly.attrStart, htag]

theorem InStep.attrValue (h : InStep o a ⟨.attr t name, ts⟩ cs) (value : Text) :
    ∃ b, step o a ⟨spot, .attrValue value⟩ = .ok b ∧ InStep o b ⟨.attr t name, ts⟩ cs := by
  obtain ⟨⟨head, htag, hname⟩, before, hattr⟩ := h.place
  refine ⟨{ a with lastLine := spot.line, attr := some ⟨name, before ++ value, none⟩ }, ?_,
    h.moves (by simp) ⟨⟨head, htag, hname⟩, _, rfl⟩ rfl rfl rfl⟩
  simp only [step, Assembly.attrValue, htag, hattr]

theorem InStep.attrEnd (h : InStep o a ⟨.attr t name, ts⟩ cs) :
    ∃ b, step o a ⟨spot, .attrEnd name⟩ = .ok b ∧ InStep o b ⟨.tag t, ts⟩ cs := by
  obtain ⟨⟨head, htag, hname⟩, value, hattr⟩ := h.place
  have hend : ∃ head' warnings, step o a ⟨spot, .attrEnd name⟩ = .ok { a with
      lastLine := spot.line, tag := some ⟨head', none⟩, attr := none, warnings } ∧
        head'.tag = head.tag := by
    simp only [step, Assembly.attrEnd, htag, hattr, attrResult, bind, Except.bind]
    split
    · exact ⟨_, _, rfl, rfl⟩
    · exact ⟨_, _, rfl, rfl⟩
  obtain ⟨head', warnings, hend, hname'⟩ := hend
  exact ⟨_, hend, h.moves (by simp) ⟨⟨head', rfl, hname'.trans hname⟩, rfl⟩ rfl rfl rfl⟩

theorem InStep.chars (h : InStep o a p cs) (hp : p.place = .content ∨ p.place = .rawText)
    (content : Text) :
    ∃ b, step o a ⟨spot, .chars content⟩ = .ok b ∧ InStep o b p cs := by
  have hplace : a.tag = none ∧ a.attr = none := by
    have hplace := h.place
    rcases hp with hp | hp <;> rw [hp] at hplace <;> exact hplace
  have hstands {b : Assembly δ} (ht : b.tag = a.tag) (ha : b.attr = a.attr) :
      b.StandsIn p.place := by
    rcases hp with hp | hp <;> rw [hp] <;> exact ⟨ht.trans hplace.1, ha.trans hplace.2⟩
  cases hraw : a.rawText with
  | none =>
    refine ⟨{ a with
      lastLine := spot.line, markup := a.markup.addText (Text.unescapeText content) },
      ?_, h.nests.addText _, h.openTags, hstands rfl rfl, h.rawText⟩
    simp only [step, Assembly.chars, hraw]
  | some draft =>
    obtain ⟨hsections, hkept⟩ := h.rawText draft hraw
    refine ⟨{ a with lastLine := spot.line, rawText := some (draft.addText content) },
      ?_, h.nests, h.openTags, hstands rfl rfl, fun d hd => ⟨?_, hkept⟩⟩
    · simp only [step, Assembly.chars, hraw]
    · cases hd
      unfold TextDraft.addText TextDraft.add
      split
      · exact hsections
      · rw [hsections]

theorem InStep.marker (h : InStep o a p cs) (hp : p.InContent o) {body : Text}
    (hbody : o.Accepts body) :
    Agrees spot.line (step o a ⟨spot, .marker body⟩) (Construct.afterMarker o body cs)
      (InStep o · p ·) := by
  have hc := h.inContent hp
  refine (agrees_marker (a := { a with lastLine := spot.line }) h.nests
    ⟨hc.tag, hc.attr, hc.rawText⟩ hbody spot.line).mono fun b cs' hcs hb => ?_
  refine ⟨hb.1, ?_, ?_, fun d hd => ?_⟩
  · rw [Construct.tags_afterMarker hcs]
    exact h.openTags
  · rcases hp with hp | ⟨hp, -⟩ <;> rw [hp] <;> exact ⟨hb.2.tag, hb.2.attr⟩
  · rw [hb.2.rawText] at hd
    cases hd

end

theorem InStep.step {l : Located} (h : InStep o a p cs) (hm : p.Moves l.event q)
    (hmarker : ∀ body, l.event = .marker body → p.InContent o ∧ o.Accepts body) :
    Agrees l.spot.line (step o a l) (Construct.after o cs l.event) (InStep o · q ·) := by
  obtain ⟨spot, event⟩ := l
  cases hm with
  | tagStart tag unary => exact h.tagStart spot unary
  | tagEndUnary tag => exact h.tagEndUnary spot
  | tagEnd tag => exact h.tagEnd spot
  | close place tag => exact h.close spot
  | attrStart t name => exact h.attrStart spot
  | attrValue t name value => exact h.attrValue spot value
  | attrEnd t name => exact h.attrEnd spot
  | chars place content ts hp => exact h.chars spot hp content
  | marker place body =>
    obtain ⟨hp, hbody⟩ := hmarker body rfl
    exact h.marker spot hp hbody
  | comment => exact ⟨_, rfl, h.nests.add _, h.openTags, h.place, h.rawText⟩
  | done place =>
    refine ⟨_, rfl, h.nests, h.openTags, trivial, fun d hd => ?_⟩
    obtain ⟨-, -, tag, htag, -⟩ := h.rawText d hd
    cases htag

/-- A run of the assembly is a run of the open constructs, up to the first violation. -/
theorem InStep.run {events : List Located} (hr : p.Reads events q) (h : InStep o a p cs)
    (hmarkers : ∀ ls l ms body p', events = ls ++ l :: ms → l.event = .marker body →
      p.Reads ls p' → p'.InContent o ∧ o.Accepts body) :
    (∃ b cs', events.foldlM (Assembly.step o) a = .ok b ∧
      Construct.afterAll o cs events = some cs' ∧ InStep o b q cs') ∨
    ∃ ls l ms cs' e, events = ls ++ l :: ms ∧ Construct.afterAll o cs ls = some cs' ∧
      Construct.after o cs' l.event = none ∧
      events.foldlM (Assembly.step o) a = .error e ∧ e.line = l.spot.line ∧
      e.code ∈ nestingCodes := by
  -- along the walk, which is what bounds the places that a marker may stand in
  induction hr generalizing a cs with
  | nil p => exact .inl ⟨a, cs, rfl, rfl, h⟩
  | @cons p p₁ q l events hm _ ih =>
    have hstep := h.step hm fun body hl => hmarkers [] l events body p rfl hl (.nil p)
    cases hafter : Construct.after o cs l.event with
    | none =>
      rw [hafter] at hstep
      obtain ⟨e, he, hline, hcode⟩ := hstep
      refine .inr ⟨[], l, events, cs, e, rfl, rfl, hafter, ?_, hline, hcode⟩
      rw [List.foldlM_cons, he]
      rfl
    | some cs₁ =>
      rw [hafter] at hstep
      obtain ⟨b₁, hb₁, h₁⟩ := hstep
      have hfold : (l :: events).foldlM (Assembly.step o) a =
          events.foldlM (Assembly.step o) b₁ := by
        rw [List.foldlM_cons, hb₁]
        rfl
      have hall (ls : List Located) : Construct.afterAll o cs (l :: ls) =
          Construct.afterAll o cs₁ ls := by
        simp [Construct.afterAll, hafter]
      have hrest := ih h₁ fun ls l' ms body p' hls hl' hp' =>
        hmarkers (l :: ls) l' ms body p' (hls ▸ rfl) hl' (.cons hm hp')
      rcases hrest with
        ⟨b, cs', hb, hcs, hin⟩ | ⟨ls, l', ms, cs', e, rfl, hcs, hnone, he, hline, hcode⟩
      · exact .inl ⟨b, cs', hfold.trans hb, (hall events).trans hcs, hin⟩
      · exact .inr ⟨l :: ls, l', ms, cs', e, rfl, (hall ls).trans hcs, hnone, hfold.trans he, hline,
          hcode⟩

end

end Assembly

/-- Every marker of a source stands in content and has what it needs. -/
def MarkersInContent (o : Options δ) (source : Text) : Prop :=
  ∀ ls l ms, scan source = ls ++ l :: ms → ∀ body, l.event = .marker body →
    (∃ p, Position.start.Reads ls p ∧ p.InContent o) ∧ o.Accepts body

theorem foldlM_scan {o : Options δ} {source : Text} (h : MarkersInContent o source) :
    (∃ b cs, (scan source).foldlM (Assembly.step o) .empty = .ok b ∧
      Construct.afterAll o [] (scan source) = some cs ∧ Nests b.markup b.openings cs) ∨
    ∃ ls l ms cs e, scan source = ls ++ l :: ms ∧ Construct.afterAll o [] ls = some cs ∧
      Construct.after o cs l.event = none ∧
      (scan source).foldlM (Assembly.step o) .empty = .error e ∧ e.line = l.spot.line ∧
      e.code ∈ nestingCodes := by
  have hmarkers (ls : List Located) (l : Located) (ms : List Located) (body : Text) (p : Position)
      (hls : scan source = ls ++ l :: ms) (hl : l.event = .marker body)
      (hp : Position.start.Reads ls p) : p.InContent o ∧ o.Accepts body := by
    obtain ⟨⟨p', hp', hin⟩, hbody⟩ := h ls l ms hls body hl
    rw [hp.unique hp']
    exact ⟨hin, hbody⟩
  rcases Assembly.InStep.run (reads_scan source) Assembly.inStep_start hmarkers with
    ⟨b, cs, hb, hcs, hin⟩ | hviolated
  · exact .inl ⟨b, cs, hb, hcs, hin.nests⟩
  · exact .inr hviolated

theorem lastLine_foldlM {o : Options δ} {a b : Assembly δ} {ls : List Located} {stop : Spot}
    (h : (ls ++ [Located.mk stop .done]).foldlM (Assembly.step o) a = .ok b) :
    b.lastLine = stop.line := by
  rw [List.foldlM_append] at h
  cases ha : ls.foldlM (Assembly.step o) a with
  | error e =>
    rw [ha] at h
    cases h
  | ok a' =>
    rw [ha] at h
    cases h
    rfl

theorem compileEvents_of_ok {o : Options δ} {events : List Located} {b : Assembly δ}
    {cs : List Construct} (hb : events.foldlM (Assembly.step o) .empty = .ok b)
    (hn : Nests b.markup b.openings cs) (serial : Nat) :
    if cs = [] then ∃ c, compileEvents o serial events = .ok c
    else compileEvents o serial events =
      .error (CompileError.new .unclosedSection b.lastLine) := by
  have hfinish := hn.finish
  by_cases hempty : cs = []
  · rw [if_pos hempty] at hfinish ⊢
    obtain ⟨body, hbody⟩ := hfinish
    refine ⟨⟨.template serial body b.partials o.filename, b.warnings⟩, ?_⟩
    simp only [compileEvents, hb, Assembly.finish, bind, Except.bind, hbody]
    rfl
  · rw [if_neg hempty] at hfinish ⊢
    simp only [compileEvents, hb, Assembly.finish, bind, Except.bind, hfinish]
    rfl

theorem compileEvents_of_error {o : Options δ} {events : List Located} {e : CompileError}
    (he : events.foldlM (Assembly.step o) .empty = .error e) (serial : Nat) :
    compileEvents o serial events = .error e := by
  simp only [compileEvents, he]
  rfl

/-- A template whose markers stand in content compiles if and only if its constructs nest and none
is left open. Otherwise it fails at the first event that violates the nesting, or at the end with
what is still open. -/
theorem compile_iff_wellNested (o : Options δ) (serial : Nat) (source : Text)
    (h : MarkersInContent o source) :
    ((∃ c, compile o.asWritten serial source = .ok c) ↔
      Construct.afterAll o [] (scan source) = some []) ∧
    ∀ e, compile o.asWritten serial source = .error e →
      (∃ ls l ms cs, scan source = ls ++ l :: ms ∧ Construct.afterAll o [] ls = some cs ∧
        Construct.after o cs l.event = none ∧ e.line = l.spot.line ∧
        e.code ∈ [ErrorCode.unexpectedClose, .strayElse, .unbalancedSection]) ∨
      (∃ ls stop cs, scan source = ls ++ [⟨stop, .done⟩] ∧
        Construct.afterAll o [] (scan source) = some cs ∧ cs ≠ [] ∧ e.line = stop.line ∧
        e.code = .unclosedSection) := by
  have hcompile : compile o.asWritten serial source =
      (compileEvents o.asWritten serial (scan source)).mapError fun e => e.inFile o.filename := rfl
  rw [hcompile]
  rcases foldlM_scan (o := o.asWritten) h with
    ⟨b, cs, hb, hcs, hn⟩ | ⟨ls, l, ms, cs, e, hscan, hcs, hnone, he, hline, hcode⟩
  · have hall : Construct.afterAll o [] (scan source) = some cs := hcs
    have hfinish := compileEvents_of_ok hb hn serial
    by_cases hempty : cs = []
    · rw [if_pos hempty] at hfinish
      obtain ⟨c, hc⟩ := hfinish
      rw [hc]
      exact ⟨⟨fun _ => hempty ▸ hall, fun _ => ⟨_, rfl⟩⟩, fun e he => by cases he⟩
    · rw [if_neg hempty] at hfinish
      obtain ⟨ls, stop, hls, -⟩ := Scanner.exists_done (Scanner.start source)
      have hlast : b.lastLine = stop.line := by
        rw [scan, hls] at hb
        exact lastLine_foldlM hb
      rw [hfinish]
      refine ⟨⟨?_, fun hnil => ?_⟩, fun e he => .inr ⟨ls, stop, cs, hls, hall, hempty, ?_, ?_⟩⟩
      · rintro ⟨c, hc⟩
        cases hc
      · rw [hall, Option.some.injEq] at hnil
        exact absurd hnil hempty
      · cases he
        exact hlast
      · cases he
        rfl
  · have hstops : Construct.afterAll o [] (scan source) = none := by
      rw [hscan]
      exact Construct.afterAll_eq_none hcs hnone
    rw [compileEvents_of_error he serial]
    refine ⟨⟨?_, fun hnil => ?_⟩, fun e he => .inl ⟨ls, l, ms, cs, hscan, hcs, hnone, ?_, ?_⟩⟩
    · rintro ⟨c, hc⟩
      cases hc
    · rw [hstops] at hnil
      cases hnil
    · cases he
      exact hline
    · cases he
      exact hcode

theorem forall_split_nil {α : Type} {P : List α → α → Prop} :
    ∀ ls a ms, [] = ls ++ a :: ms → P ls a := by simp

theorem forall_split_cons {α : Type} {P : List α → α → Prop} {a : α} {as : List α} (ha : P [] a)
    (has : ∀ ls b ms, as = ls ++ b :: ms → P (a :: ls) b) :
    ∀ ls b ms, a :: as = ls ++ b :: ms → P ls b := by
  intro ls b ms h
  cases ls with
  | nil =>
    cases h
    exact ha
  | cons c ls =>
    cases h
    exact has ls b ms rfl

/-- A branch that is closed inside an element: `{{#a}}<b>{{/a}}`. -/
def overlap : Text := "\x7b\x7b#a\x7d\x7d<b>\x7b\x7b/a\x7d\x7d"

theorem scan_overlap : scan overlap =
    [⟨⟨0, 1⟩, .marker "#a"⟩, ⟨⟨7, 1⟩, .tagStart "b" false⟩, ⟨⟨8, 1⟩, .tagEnd "b" false⟩,
      ⟨⟨9, 1⟩, .marker "/a"⟩, ⟨⟨15, 1⟩, .close "b"⟩, ⟨⟨15, 1⟩, .done⟩] := by
  rw [scan_eq_runFor]
  decide

theorem markersInContent_overlap : MarkersInContent (.standard none) overlap := by
  have hopen : (Options.standard none).Accepts "#a" :=
    .inr fun site => ⟨_, Expression.compileAt_name (by decide) (by decide) rfl .branch site⟩
  have hclose : (Options.standard none).Accepts "/a" := .inr trivial
  have hplace : Position.start.Reads
      [⟨⟨0, 1⟩, .marker "#a"⟩, ⟨⟨7, 1⟩, .tagStart "b" false⟩, ⟨⟨8, 1⟩, .tagEnd "b" false⟩]
      ⟨.content, ["b".toList]⟩ :=
    .cons (.marker _ _ _ (by simp)) (.cons (.tagStart _ _ _) (.single (.tagEnd _ _)))
  unfold MarkersInContent
  rw [scan_overlap]
  refine forall_split_cons ?_ (forall_split_cons ?_ (forall_split_cons ?_ (forall_split_cons ?_
    (forall_split_cons ?_ (forall_split_cons ?_ forall_split_nil))))) <;> intro body hbody <;>
    cases hbody
  · exact ⟨⟨_, .nil _, .inl rfl⟩, hopen⟩
  · exact ⟨⟨_, hplace, .inl rfl⟩, hclose⟩

theorem not_compile_overlap : MarkersInContent (.standard none) overlap ∧
    ¬∃ c, compile (Options.standard none).asWritten 0 overlap = .ok c := by
  refine ⟨markersInContent_overlap, fun h => ?_⟩
  rw [(compile_iff_wellNested (.standard none) 0 overlap markersInContent_overlap).1,
    scan_overlap] at h
  exact absurd h (by decide)

end Stencil
