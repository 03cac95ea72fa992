import Stencil.Proofs.Render.Definitions
import Stencil.Proofs.Render.ReadsAlike
import Stencil.Proofs.Template.SourcePieces

/-!
Rendering a body in its place or through a partial. Where no handler is called a render only reads
its state, so a body comes to the same wherever the scope and the surroundings are the same. A call
without a context hands on both, and the partial it finds is the body that was taken out: the two
templates render to the same text, or fail with the same error up to its line.
-/

set_option autoImplicit false

namespace Stencil

variable {δ : Dialect} {α : Type}

structure Semantics.Respects (sem : Semantics δ) (r : δ.Expr → δ.Expr → Prop) : Prop where
  value : ∀ {e f}, r e f → ∀ scope around,
    EndAlike RenderError.Like Eq (sem.value e scope around) (sem.value f scope around)
  branch : ∀ {e f}, r e f → ∀ scope around,
    EndAlike RenderError.Like Eq (sem.branch e scope around) (sem.branch f scope around)

section

variable {sem : Semantics δ} {F : Filling δ} {agree : RenderState δ → RenderState δ → Prop}
  {call call' : Caller δ}

theorem reads_textIn (hsem : sem.Respects F.expr) (hagree : RenderState.AgreesAround agree)
    {e f : δ.Expr} (h : F.expr e f) (scope : Scope) :
    RenderM.ReadsAlike agree Eq (sem.textIn e scope) (sem.textIn f scope) := by
  rw [sem.textIn_eq_asking, sem.textIn_eq_asking]
  exact .asking hagree fun around => (hsem.value h scope around).map fun _ _ h => h ▸ rfl

theorem reads_branchIn (hsem : sem.Respects F.expr) (hagree : RenderState.AgreesAround agree)
    {e f : δ.Expr} (h : F.expr e f) (scope : Scope) :
    RenderM.ReadsAlike agree Eq (sem.branchIn e scope) (sem.branchIn f scope) := by
  rw [sem.branchIn_eq_asking, sem.branchIn_eq_asking]
  exact .asking hagree fun around => hsem.branch h scope around

mutual

theorem TextPart.Like.reads (hsem : sem.Respects F.expr) (hagree : RenderState.AgreesAround agree)
    {p q : TextPart δ} (h : p.Like F q) (scope : Scope) :
    RenderM.ReadsAlike agree Eq (p.render sem call scope) (q.render sem call' scope) := by
  match h with
  | .static text => exact .pure rfl
  | .value he quoted => exact (reads_textIn hsem hagree he scope).then_eq fun text => .pure rfl
  | .branch he hps .none =>
    exact (reads_branchIn hsem hagree he scope).branch (fun inner => hps.reads hsem hagree inner)
      (fun _ _ h => congrArg List.flatten (List.forall₂_eq_eq_eq ▸ h)) (.pure rfl)
  | .branch he hps (.some hi) =>
    exact (reads_branchIn hsem hagree he scope).branch (fun inner => hps.reads hsem hagree inner)
      (fun _ _ h => congrArg List.flatten (List.forall₂_eq_eq_eq ▸ h)) (hi.reads hsem hagree scope)

theorem TextPart.LikeAll.reads (hsem : sem.Respects F.expr)
    (hagree : RenderState.AgreesAround agree)
    {ps qs : List (TextPart δ)} (h : TextPart.LikeAll F ps qs) (scope : Scope) :
    RenderM.ReadsAlike agree Eq (TextPart.renderAll sem call ps scope)
      (TextPart.renderAll sem call' qs scope) := by
  match h with
  | .nil => exact .pure rfl
  | .cons hp hs =>
    exact (hp.reads hsem hagree scope).then_eq fun text =>
      (hs.reads hsem hagree scope).then_eq fun more => .pure rfl

end

theorem AttrTemplate.reads_applyAll (hsem : sem.Respects F.expr)
    (hagree : RenderState.AgreesAround agree)
    {as bs : List (AttrTemplate δ)} (h : List.Forall₂ (AttrTemplate.Like F) as bs) (scope : Scope)
    {tag : Text} {e e' : Element} (he : Element.Looks tag e e') :
    RenderM.ReadsAlike agree (Element.Looks tag) (AttrTemplate.applyAll sem call as scope e)
      (AttrTemplate.applyAll sem call' bs scope e') := by
  induction h generalizing e e' with
  | nil => exact .pure he
  | @cons a b as bs hab hs ih =>
    obtain ⟨_, value⟩ := a
    obtain ⟨n, value'⟩ := b
    obtain ⟨rfl, hvalue⟩ := hab
    cases hvalue with
    | static value => exact ih (he.setAttribute n value)
    | dynamic hps =>
      exact (hps.reads hsem hagree scope).then_eq fun text => ih (he.setAttribute n text)

theorem Hook.reads_applyAll (hsem : sem.Respects F.expr)
    (hagree : RenderState.AgreesAround agree)
    {hs hs' : List (Hook δ)} (h : List.Forall₂ (Hook.Like F) hs hs') (scope : Scope)
    {tag : Text} {e e' : Element} (he : Element.Looks tag e e') :
    RenderM.ReadsAlike agree (Element.Looks tag) (Hook.applyAll sem call hs scope e)
      (Hook.applyAll sem call' hs' scope e') := by
  induction h generalizing e e' with
  | nil => exact .pure he
  | cons hh hs ih =>
    cases hh with
    | tagText hps =>
      simp only [Hook.applyAll, Hook.apply, bind_assoc, pure_bind]
      exact (hps.reads hsem hagree scope).then_eq fun text => ih (he.setAttributes _)

theorem ElementHead.Like.reads (hsem : sem.Respects F.expr)
    (hagree : RenderState.AgreesAround agree) {h h' : ElementHead δ}
    (hh : h.Like F h') (scope : Scope) {ps qs : Body δ}
    (hps : RenderM.ReadsAlike agree (Fragment.Looks (Tag.holder? h.tag))
      (Part.renderAll sem call ps scope) (Part.renderAll sem call' qs scope)) :
    RenderM.ReadsAlike agree (Fragment.Looks none)
      ((Part.element h ps).render sem call scope)
      ((Part.element h' qs).render sem call' scope) := by
  rw [Part.render_element, Part.render_element]
  have hnew : Element.Looks h.tag (.new h.tag h.ns) (.new h'.tag h'.ns) := ⟨rfl, hh.tag, rfl, rfl⟩
  refine (AttrTemplate.reads_applyAll hsem hagree hh.attrs scope hnew).bind fun e e' he => ?_
  refine hps.bind fun xs ys hxs => ?_
  exact (Hook.reads_applyAll hsem hagree hh.hooks scope (he.append hxs)).bind fun e e' he =>
    .pure he.toNode

def Filling.Fills (F : Filling δ) (sem : Semantics δ)
    (agree : RenderState δ → RenderState δ → Prop) (call call' : Caller δ) : Prop :=
  ∀ b, F.body b → ∀ scope, RenderM.ReadsAlike agree (Fragment.Looks none)
    (Part.renderAll sem call b scope) (PartialCall.render sem call' ⟨F.name, none⟩ scope)

theorem RenderM.ReadsAlike.append {ps ps' qs qs' : Body δ} {scope : Scope}
    (h : RenderM.ReadsAlike agree (Fragment.Looks none) (Part.renderAll sem call ps scope)
      (Part.renderAll sem call' qs scope))
    (h' : RenderM.ReadsAlike agree (Fragment.Looks none) (Part.renderAll sem call ps' scope)
      (Part.renderAll sem call' qs' scope)) :
    RenderM.ReadsAlike agree (Fragment.Looks none) (Part.renderAll sem call (ps ++ ps') scope)
      (Part.renderAll sem call' (qs ++ qs') scope) := by
  rw [Part.renderAll_append, Part.renderAll_append]
  exact h.bind fun xs ys hxs => h'.bind fun xs' ys' hxs' => .pure (hxs.append hxs')

mutual

theorem Part.Filled.reads (hsem : sem.Respects F.expr)
    (hagree : RenderState.AgreesAround agree)
    (hfill : F.Fills sem agree call call')
    {p q : Part δ} (h : p.Filled F q) (scope : Scope) :
    RenderM.ReadsAlike agree (Fragment.Looks none) (p.render sem call scope)
      (q.render sem call' scope) := by
  match h with
  | .text content => exact .pure rfl
  | .comment content => exact .pure rfl
  | .value he escaped => exact (reads_textIn hsem hagree he scope).then_eq fun text => .pure rfl
  | .branch he hps .none =>
    exact (reads_branchIn hsem hagree he scope).branch
      (fun inner => hps.reads hsem hagree hfill inner) (fun _ _ => Fragment.Looks.flatten)
      (.pure rfl)
  | .branch he hps (.some hi) =>
    exact (reads_branchIn hsem hagree he scope).branch
      (fun inner => hps.reads hsem hagree hfill inner) (fun _ _ => Fragment.Looks.flatten)
      (hi.reads hsem hagree hfill scope)
  | @Part.Filled.element _ _ head head' hh ps qs hholds hps =>
    refine hh.reads hsem hagree scope ?_
    by_cases ht : Tag.holdsText head.tag = true
    · obtain ⟨rfl, rfl⟩ := hholds ht
      exact .pure rfl
    · rw [Tag.holder?, if_neg ht]
      exact hps.reads hsem hagree hfill scope
  | .textHolder hh hps =>
    refine hh.reads hsem hagree scope ?_
    rw [Part.renderAll_singleton, Part.renderAll_singleton]
    exact (hps.reads hsem hagree scope).then_eq fun text => .pure rfl

theorem Part.FilledAll.reads (hsem : sem.Respects F.expr)
    (hagree : RenderState.AgreesAround agree)
    (hfill : F.Fills sem agree call call')
    {ps qs : Body δ} (h : Part.FilledAll F ps qs) (scope : Scope) :
    RenderM.ReadsAlike agree (Fragment.Looks none) (Part.renderAll sem call ps scope)
      (Part.renderAll sem call' qs scope) := by
  match h with
  | .nil => exact .pure rfl
  | @Part.FilledAll.push _ _ ps qs p q hs hp =>
    have hlast : RenderM.ReadsAlike agree (Fragment.Looks none)
        (Part.renderAll sem call [p] scope) (Part.renderAll sem call' [q] scope) := by
      rw [Part.renderAll_singleton, Part.renderAll_singleton]
      exact hp.reads hsem hagree hfill scope
    exact ((hs.reads hsem hagree hfill scope).append hlast).of_look
      (Part.look_push sem call scope ps p) (Part.look_push sem call' scope qs q)
  | @Part.FilledAll.fill _ _ ps qs b hs hb =>
    have hlast : RenderM.ReadsAlike agree (Fragment.Looks none) (Part.renderAll sem call b scope)
        (Part.renderAll sem call' [.call ⟨F.name, none⟩] scope) := by
      rw [Part.renderAll_singleton]
      exact hfill b hb scope
    exact ((hs.reads hsem hagree hfill scope).append hlast).of_look
      (Part.look_pushAll sem call scope ps b) (Part.look_push sem call' scope qs _)

end

end

theorem Dict.find?_ofList {d : Dict α} (h : d.names.Nodup) (name : Text) :
    find? (ofList d) name = find? d name := by
  induction d with
  | nil => rfl
  | cons e d ih =>
    obtain ⟨n, a⟩ := e
    obtain ⟨hn, hd⟩ := List.nodup_cons.1 h
    have hset : find? (ofList ((n, a) :: d)) name = (find? (ofList d) name).or
        (find? [(n, a)] name) := find?_foldl_insert d [(n, a)] name
    rw [hset, ih hd, find?_cons, find?_cons]
    by_cases hname : name = n
    · rw [if_pos hname, if_pos hname, hname, find?_eq_none hn]
      rfl
    · rw [if_neg hname, if_neg hname]
      exact Option.or_none

theorem View.definition?_template {partials : Dict (Body δ)} (h : partials.names.Nodup)
    (serial : Nat) (body : Body δ) (filename : Option Text) (name : Text) :
    (View.template serial body partials filename).definition? name =
      (Dict.find? partials name).map (.inline serial name) := by
  have hnames : (View.template serial body partials filename).partials.names.Nodup := by
    simpa [View.partials, Dict.names, Function.comp_def] using h
  rw [← inlinePartial?_template serial body partials filename]
  exact Dict.find?_ofList hnames name

structure RenderState.Finds (name : Text) (qs : Body δ) (s s' : RenderState δ) : Prop where
  around : s'.context.around = s.context.around
  found : ∃ serial n, Dict.find? s'.context.partials name = some (.inline serial n qs)

section

variable {sem : Semantics δ} {r : δ.Expr → δ.Expr → Prop} (hsem : sem.Respects r) {name : Text}

include hsem

theorem Part.FilledAll.reads_whole {ps qs : Body δ} (h : Part.FilledAll (.whole r name) ps qs)
    (call call' : Caller δ) (scope : Scope) :
    RenderM.ReadsAlike (fun s s' => s'.context.around = s.context.around) (Fragment.Looks none)
      (Part.renderAll sem call ps scope) (Part.renderAll sem call' qs scope) :=
  h.reads (F := .whole r name) hsem (fun _ _ h => h) (fun _ hb => nomatch hb) scope

variable (hname : name ≠ "scope.view")

include hname

theorem reads_call {call call' inner : Caller δ}
    (hinline : ∀ serial n body, call' (.inline serial n body) = Part.renderAll sem inner body)
    {ps b qs : Body δ} (hb : Part.FilledAll (.whole r name) ps b)
    (hqs : Part.FilledAll (.whole r name) ps qs) (scope : Scope) :
    RenderM.ReadsAlike (RenderState.Finds name qs) (Fragment.Looks none)
      (Part.renderAll sem call b scope) (PartialCall.render sem call' ⟨name, none⟩ scope) := by
  intro s s' hs
  obtain ⟨serial, n, hfound⟩ := hs.found
  have hcall : PartialCall.render sem call' ⟨name, none⟩ scope s' =
      Part.renderAll sem inner qs scope s' := by
    rw [← hinline serial n qs]
    simp only [PartialCall.render, PartialCall.resolve, if_neg hname, RenderM.bind_apply,
      PartialCall.find?_apply, hfound]
    rfl
  obtain ⟨hbody, -, hstate⟩ := hb.reads_whole hsem inner call scope s s rfl
  obtain ⟨hpartial, -, hstate'⟩ := hqs.reads_whole hsem inner inner scope s s' hs.around
  rw [hcall]
  refine ⟨hbody.of_left hpartial (fun _ _ _ => Failure.Like.of_left) ?_, hstate, hstate'⟩
  exact fun _ _ _ h h' => h'.trans h.symm

/-- Two templates, the one with a body where the other calls it, render alike in every state, unless
the one defines a partial of the name itself. -/
theorem View.Inlines.render {v v' : View δ} (h : v.Inlines r name v')
    (hv : v.inlinePartial? name = none) (scope : Scope) (s : RenderState δ) :
    EndAlike Failure.Like (Fragment.Looks none) (v.render sem scope s).1
      (v'.render sem scope s).1 := by
  cases h with
  | @template serial filename ps qs b b' partials partials' hb hqs hpartials hn =>
    obtain ⟨d, hd⟩ : ∃ d, View.deepest = d + 1 + 1 := ⟨View.deepest - 2, rfl⟩
    have hcaller (serial : Nat) (n : Text) (body : Body δ) :
        View.renderWithin sem (d + 1) (.inline serial n body) =
          Part.renderAll sem (View.renderWithin sem d) body := rfl
    have hreads : RenderM.ReadsAlike (RenderState.Finds name qs) (Fragment.Looks none)
        (Part.renderAll sem (View.renderWithin sem (d + 1)) b scope)
        (Part.renderAll sem (View.renderWithin sem (d + 1)) b' scope) :=
      hb.reads (F := .holding r name ps) hsem (fun _ _ h => h.around)
        (fun b hb scope => reads_call hsem hname hcaller hb hqs scope) scope
    have hnone : Dict.find? partials name = none := by
      simpa [View.inlinePartial?_template] using hv
    have hdefined : View.definition? (.template serial b' partials' filename) name =
        some (.inline serial name qs) := by
      rw [View.definition?_template hn, hpartials hnone]
      rfl
    have hfinds : RenderState.Finds name qs
        { s with context := s.context.enter (.template serial b partials filename) }
        { s with context := s.context.enter (.template serial b' partials' filename) } := by
      refine ⟨rfl, serial, name, ?_⟩
      rw [Context.find?_enter, hdefined]
      rfl
    have hentered := (hreads _ _ hfinds).1
    simp only [View.render, hd, View.renderWithin_succ, View.surround_template rfl, View.body]
    exact hentered

end

/-- A name that a partial can be defined and called by: it is there, is one word, and means nothing
else. -/
structure IsPartialName (name : Text) : Prop where
  nonempty : name ≠ []
  noBlank : ∀ c ∈ name, isBlank c = false
  notElse : name ≠ "else"
  notView : name ≠ "scope.view"

theorem Text.trim_eq_self {t : Text} (h : ∀ c ∈ t, isBlank c = false) : t.trim = t := by
  have hdrop {u : Text} (h : ∀ c ∈ u, isBlank c = false) : u.dropWhile isBlank = u := by
    cases u with
    | nil => rfl
    | cons c u => simp [h c List.mem_cons_self]
  have hreverse : ∀ c ∈ t.reverse, isBlank c = false := fun c hc => h c (List.mem_reverse.1 hc)
  rw [trim, trimStart, trimEnd, hdrop h, hdrop hreverse, List.reverse_reverse]

theorem Text.cutAtBlank_eq_none {t : Text} (h : ∀ c ∈ t, isBlank c = false) :
    t.cutAtBlank = none := by
  induction t with
  | nil => rfl
  | cons c t ih =>
    rw [List.forall_mem_cons] at h
    simp [cutAtBlank, h.1, ih h.2]

theorem Language.names_standard {name : Text} (h : IsPartialName name) :
    Language.standard.Names name := by
  have hsplit {c : Char} {mode : Mode} (hmode : Mode.ofSigil? c = some mode) (hbrace : c ≠ '\x7b')
      (hblank : isBlank c = false) : Marker.split (c :: name) = (mode, name) := by
    have htrim : Text.trim (c :: name) = c :: name :=
      Text.trim_eq_self (List.forall_mem_cons.2 ⟨hblank, h.noBlank⟩)
    simp only [Marker.split, htrim, hmode, if_neg hbrace, Text.trim_eq_self h.noBlank]
  refine ⟨hsplit (by decide) (by decide) (by decide), hsplit (by decide) (by decide) (by decide),
    hsplit (by decide) (by decide) (by decide), h.nonempty, h.notElse, ?_⟩
  rw [Draft.splitCall, Text.cutAtBlank_eq_none h.noBlank]

theorem Language.uniform_standard : Language.standard.Uniform Expression.Like where
  compile mode source site site' := by
    change SucceedAlike _ (Expression.compileAt mode source site)
      (Expression.compileAt mode source site')
    unfold Expression.compileAt Expression.compile
    cases Expression.parse source with
    | ok e => exact .ok rfl
    | error fault => exact .error _ _
  closingName e f h := by
    rw [h]
    rfl

theorem Semantics.respects_standard (helpers : HelperTable) :
    (Semantics.standard helpers).Respects Expression.Like where
  value h scope around := h.value scope around
  branch h scope around := h.branch scope around

/-- Taking a balanced body out of a template, into a partial that is called in its place, preserves
what is rendered: the same text, or the same error up to its line, however often the place is
reached. All that it takes is that the scanner reads the same pieces wherever the body stands. -/
theorem render_extract (helpers : HelperTable) {o : Options .standard}
    (hlanguage : o.language = .standard) (ho : o.handlers = .empty)
    {name body before after : Text} (hname : IsPartialName name) {ls ks ms : List Located}
    {ps : Body .standard} (hbody : Balanced o name ls ps)
    (hpieces : ReadsApart o name body before after ls ks ms)
    (hhole : ∃ ts, Position.start.Reads ks ⟨.content, ts⟩)
    (hcalls : ∀ k ∈ ks ++ ms, k.event.CallsNothing o.language) (serial : Nat) :
    SucceedAlike
      (fun c c' => c.view.inlinePartial? name = none → ∀ scope s,
        EndAlike Failure.Like (fun nodes nodes' => Fragment.html nodes' = Fragment.html nodes)
          (c.view.render (.standard helpers) scope s).1
          (c'.view.render (.standard helpers) scope s).1)
      (compile o serial (before ++ body ++ after))
      (compile o serial (extracted name body before after)) := by
  have hl : o.language.Uniform Expression.Like := hlanguage ▸ Language.uniform_standard
  have hnames : o.language.Names name := hlanguage ▸ Language.names_standard hname
  refine (compile_extract ho hl hnames hbody hpieces hhole hcalls serial).mono
    fun c c' h hnone scope s => ?_
  have hrender := h.render (Semantics.respects_standard helpers) hname.notView hnone scope s
  exact hrender.mono fun nodes nodes' h => congrArg Prod.fst h

/-- No handlers, and white space as it is. -/
def Options.plain : Options .standard := { Options.standard none with handlers := .empty }.asWritten

def loopBefore : Text := "\x7b\x7b#xs\x7d\x7d<p>a"

def loopBody : Text := "b\x7b\x7bn\x7d\x7d"

def loopAfter : Text := "</p>\x7b\x7b/xs\x7d\x7d"

theorem scan_loop : scan (loopBefore ++ loopBody ++ loopAfter) =
    [⟨⟨0, 1⟩, .marker "#xs"⟩, ⟨⟨8, 1⟩, .tagStart "p" false⟩, ⟨⟨9, 1⟩, .tagEnd "p" false⟩,
      ⟨⟨10, 1⟩, .chars "ab"⟩, ⟨⟨12, 1⟩, .marker "n"⟩, ⟨⟨20, 1⟩, .close "p"⟩,
      ⟨⟨21, 1⟩, .marker "/xs"⟩, ⟨⟨28, 1⟩, .done⟩] := by
  rw [scan_eq_runFor]
  decide +kernel

def loopPieces : List Piece := [.marker "#xs", .startTag "p" [], .text "a"]

def loopBodyPieces : List Piece := [.text "b", .marker "n"]

def loopAfterPieces : List Piece := [.endTag "p", .marker "/xs"]

theorem readsApart_loop : ∃ ls ks ms,
    ReadsApart .plain "t" loopBody loopBefore loopAfter ls ks ms ∧
      Position.start.Reads ls .start ∧ Position.start.Reads ks ⟨.content, ["p"]⟩ ∧
      ls.map Located.event = [.chars "b", .marker "n"] ∧
      ks.map Located.event =
        [.marker "#xs", .tagStart "p" false, .tagEnd "p" false, .chars "a"] ∧
      ms.map Located.event = [.close "p", .marker "/xs", .done] := by
  have hmarker (ts : List Text) {body : Text} (hhead : body.head? ≠ some '{') (hclose : '}' ∉ body) :
      Piece.Stands ts (.marker body) ts := .marker ts (.double hhead hclose)
  have htag : Tag.IsName "p" := Tag.isName_of_all rfl rfl
  have hbefore : Piece.AllStand [] loopPieces ["p"] :=
    .cons (hmarker [] (by decide) (by decide)) rfl
      (.cons (.startTag [] htag (by decide) (List.forall_mem_nil _)) rfl
        (.cons (.text _ (by decide) (List.forall_mem_singleton.2 (by decide))) rfl (.nil _)))
  have hbody : Piece.AllStand [] loopBodyPieces [] :=
    .cons (.text _ (by decide) (List.forall_mem_singleton.2 (by decide))) rfl
      (.cons (hmarker [] (by decide) (by decide)) rfl (.nil _))
  have hafter : Piece.AllStand ["p"] loopAfterPieces [] :=
    .cons (.endTag [] htag) rfl (.cons (hmarker [] (by decide) (by decide)) rfl (.nil _))
  have hfront : Piece.Meet loopPieces loopBodyPieces := by
    rintro s t ⟨⟩ -
    decide
  have hback : Piece.Meet (Piece.join loopPieces loopBodyPieces) loopAfterPieces := by
    rintro s t ⟨⟩
  exact readsApart_of_pieces (o := .plain) (by decide) hbefore hbody hafter hfront hback rfl rfl

theorem balanced_loop {ls : List Located} (hreads : Position.start.Reads ls .start)
    (hls : ls.map Located.event = [.chars "b", .marker "n"]) :
    ∃ ps, Balanced .plain "t" ls ps := by
  obtain ⟨⟨spot, _⟩, rest, rfl, rfl, hrest⟩ := List.map_eq_cons_iff.1 hls
  obtain ⟨⟨spot', _⟩, rest, rfl, rfl, hnil⟩ := List.map_eq_cons_iff.1 hrest
  obtain rfl := List.map_eq_nil_iff.1 hnil
  refine ⟨[.text "b", .value ⟨"n", .lookup "n", false, spot'.line⟩ true], hreads, ?_, _,
    by with_unfolding_all rfl, rfl, rfl⟩
  simp only [List.forall_mem_cons]
  exact ⟨trivial, (by decide : _ → _), List.forall_mem_nil _⟩

theorem compile_loop : compile Options.plain 0 (loopBefore ++ loopBody ++ loopAfter) =
    .ok ⟨.template 0 [.branch ⟨"xs", .lookup "xs", false, 1⟩
      [.element ⟨"p", .html, [], []⟩ [.text "ab", .value ⟨"n", .lookup "n", false, 1⟩ true]] none]
      [] none, []⟩ :=
  compile_of_scan rfl scan_loop (by with_unfolding_all rfl)

theorem render_extract_loop :
    ∃ c c', compile Options.plain 0 (loopBefore ++ loopBody ++ loopAfter) = .ok c ∧
      compile Options.plain 0 (extracted "t" loopBody loopBefore loopAfter) = .ok c' ∧
      ∀ scope s, EndAlike Failure.Like
        (fun nodes nodes' => Fragment.html nodes' = Fragment.html nodes)
        (c.view.render (.standard .standard) scope s).1
        (c'.view.render (.standard .standard) scope s).1 := by
  have hname : IsPartialName "t" :=
    ⟨by decide, List.forall_mem_singleton.2 rfl, by decide, by decide⟩
  obtain ⟨ls, ks, ms, hpieces, hreads, hhole, hls, hks, hms⟩ := readsApart_loop
  obtain ⟨ps, hbody⟩ := balanced_loop hreads hls
  have hcalls : ∀ k ∈ ks ++ ms, k.event.CallsNothing Language.standard := by
    have hevents : ∀ e ∈ (ks ++ ms).map Located.event, e.CallsNothing Language.standard := by
      rw [List.map_append, hks, hms]
      simp only [List.cons_append, List.nil_append, List.forall_mem_cons]
      exact ⟨(by decide : _ → _), trivial, trivial, trivial, trivial, (by decide : _ → _), trivial,
        List.forall_mem_nil _⟩
    exact List.forall_mem_map.1 hevents
  have h := render_extract .standard (o := .plain) rfl rfl hname hbody hpieces ⟨_, hhole⟩ hcalls 0
  rw [compile_loop] at h
  generalize hc : compile Options.plain 0 (extracted "t" loopBody loopBefore loopAfter) = result
    at h
  cases h with
  | ok h => exact ⟨_, _, compile_loop, rfl, h rfl⟩

def quotedBody : Text := "x'<br/>"

theorem scan_quoted : scan ("<p a'b>" ++ quotedBody ++ "</p>") =
    [⟨⟨1, 1⟩, .tagStart "p" true⟩, ⟨⟨3, 1⟩, .attrStart "a'b"⟩, ⟨⟨6, 1⟩, .attrEnd "a'b"⟩,
      ⟨⟨6, 1⟩, .tagEnd "p" true⟩, ⟨⟨7, 1⟩, .chars "x'"⟩, ⟨⟨10, 1⟩, .tagStart "br" true⟩,
      ⟨⟨13, 1⟩, .tagEnd "br" true⟩, ⟨⟨18, 1⟩, .done⟩] := by
  rw [scan_eq_runFor]
  decide +kernel

theorem scan_extracted_quoted : scan (extracted "t" quotedBody "<p a'b>" "</p>") =
    [⟨⟨0, 1⟩, .marker "<t"⟩, ⟨⟨6, 1⟩, .chars "x'"⟩, ⟨⟨9, 1⟩, .tagStart "br" true⟩,
      ⟨⟨12, 1⟩, .tagEnd "br" true⟩, ⟨⟨13, 1⟩, .marker "/t"⟩, ⟨⟨20, 1⟩, .tagStart "p" false⟩,
      ⟨⟨22, 1⟩, .attrStart "a'b"⟩, ⟨⟨25, 1⟩, .attrEnd "a'b"⟩, ⟨⟨25, 1⟩, .tagEnd "p" false⟩,
      ⟨⟨26, 1⟩, .marker ">t"⟩, ⟨⟨35, 1⟩, .close "p"⟩, ⟨⟨36, 1⟩, .done⟩] := by
  rw [scan_eq_runFor]
  decide +kernel

/-- A body of text and a void element makes a start tag before it close itself. In a partial it
does not. -/
theorem extract_apostrophe :
    (∃ ps, Balanced .plain "t" [⟨⟨6, 1⟩, .chars "x'"⟩, ⟨⟨9, 1⟩, .tagStart "br" true⟩,
      ⟨⟨12, 1⟩, .tagEnd "br" true⟩] ps) ∧
    ∃ c c', compile Options.plain 0 ("<p a'b>" ++ quotedBody ++ "</p>") = .ok c ∧
      compile Options.plain 0 (extracted "t" quotedBody "<p a'b>" "</p>") = .ok c' ∧
      Fragment.html <$> (c.view.render (.standard .standard) (.root .null) ⟨.empty, .empty⟩).1 =
        .ok "<p a'b=\"\"></p>x'<br>" ∧
      Fragment.html <$> (c'.view.render (.standard .standard) (.root .null) ⟨.empty, .empty⟩).1 =
        .ok "<p a'b=\"\">x'<br></p>" := by
  refine ⟨⟨[.text "x'", .element ⟨"br", .html, [], []⟩ []], ⟨.cons (.chars .content _ _ (.inl rfl))
    (.cons (.tagStart _ _ _) (.single (.tagEndUnary _ _))), ?_,
      _, rfl, rfl, rfl⟩⟩,
    ⟨.template 0 [.element ⟨"p", .html, [⟨"a'b", .static []⟩], []⟩ [], .text "x'",
      .element ⟨"br", .html, [], []⟩ []] [] none, []⟩,
    ⟨.template 0 [.element ⟨"p", .html, [⟨"a'b", .static []⟩], []⟩ [.call ⟨"t", none⟩]]
      [("t", [.text "x'", .element ⟨"br", .html, [], []⟩ []])] none, []⟩,
    compile_of_scan rfl scan_quoted rfl, compile_of_scan rfl scan_extracted_quoted rfl, rfl, rfl⟩
  simp only [List.forall_mem_cons]
  exact ⟨trivial, trivial, trivial, List.forall_mem_nil _⟩

end Stencil
