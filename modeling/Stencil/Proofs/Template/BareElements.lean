import Stencil.Proofs.Template.MarkerSteps

/-!
Templates without handlers. Where nothing in the text of a template calls for a handler, the
elements that it is compiled to are bare, however deep they stand, in the body and in the partials:
nothing is done to them but what their attributes and the text put out inside their tags say.
-/

set_option autoImplicit false

namespace Stencil

variable {δ : Dialect}

mutual

/-- The elements of a part, however deep they stand. -/
def Part.elements (p : Part δ) : List (Part δ) :=
  match p with
  | .text _ | .comment _ | .value _ _ | .call _ | .textBlock _ => []
  | .branch _ primary inverse => Part.elementsAll primary ++ Part.elementsOption inverse
  | .element head children => .element head children :: Part.elementsAll children
  | .custom head own body templates =>
    .custom head own body templates ::
      (Part.elementsDefined templates ++ Part.elementsOption body)
termination_by structural p

def Part.elementsAll (ps : Body δ) : List (Part δ) :=
  match ps with
  | [] => []
  | p :: ps => p.elements ++ Part.elementsAll ps
termination_by structural ps

def Part.elementsOption (b : Option (List (Part δ))) : List (Part δ) :=
  match b with
  | none => []
  | some ps => Part.elementsAll ps
termination_by structural b

def Part.elementsTemplates (ts : List (Text × List (Part δ))) : List (Part δ) :=
  match ts with
  | [] => []
  | (_, ps) :: ts => Part.elementsAll ps ++ Part.elementsTemplates ts
termination_by structural ts

def Part.elementsDefined (templates : Option (List (Text × List (Part δ)))) : List (Part δ) :=
  match templates with
  | none => []
  | some ts => Part.elementsTemplates ts
termination_by structural templates

end

theorem Part.elementsAll_push (ps : Body δ) (p : Part δ) :
    elementsAll (push ps p) = elementsAll ps ++ p.elements := by
  fun_induction push ps p with
  | case1 p => simp [elementsAll]
  | case2 s t => rfl
  | case3 q qs p _ ih => simp [elementsAll, ih]

/-- What is added to the element at its end is text put out inside its tag. -/
def ElementHead.Bare (head : ElementHead δ) : Prop :=
  ∃ texts : List (List (TextPart δ)), head.hooks = texts.map .tagText

def Part.Bare (p : Part δ) : Prop := ∃ head children, p = .element head children ∧ head.Bare

def Body.Bare (ps : Body δ) : Prop := ∀ p ∈ Part.elementsAll ps, p.Bare

theorem ElementHead.Bare.put {head : ElementHead δ} (h : head.Bare) (parts : List (TextPart δ)) :
    { head with hooks := head.hooks ++ [.tagText parts] : ElementHead δ }.Bare := by
  obtain ⟨texts, htexts⟩ := h
  exact ⟨texts ++ [parts], by simp [htexts]⟩

namespace Body.Bare

variable {ps : Body δ} {p : Part δ}

theorem nil : Body.Bare ([] : Body δ) := List.forall_mem_nil _

theorem push (h : Body.Bare ps) (hp : ∀ q ∈ p.elements, q.Bare) : Body.Bare (Part.push ps p) := by
  rw [Body.Bare, Part.elementsAll_push, List.forall_mem_append]
  exact ⟨h, hp⟩

theorem element {head : ElementHead δ} (hhead : head.Bare) (h : Body.Bare ps) :
    ∀ q ∈ (Part.element head ps).elements, q.Bare :=
  List.forall_mem_cons.2 ⟨⟨head, ps, rfl, hhead⟩, h⟩

theorem branch {e : δ.Expr} {i : Option (Body δ)} (h : Body.Bare ps)
    (hi : ∀ qs ∈ i, Body.Bare qs) : ∀ q ∈ (Part.branch e ps i).elements, q.Bare := by
  refine List.forall_mem_append.2 ⟨h, ?_⟩
  cases i with
  | none => exact List.forall_mem_nil _
  | some qs => exact hi qs rfl

end Body.Bare

structure Layer.Bare (l : Layer δ) : Prop where
  primary : Body.Bare l.primary
  inverse : ∀ ps ∈ l.inverse, Body.Bare ps
  elements : ∀ e ∈ l.elements, e.head.Bare ∧ Body.Bare e.children

theorem Layer.Bare.empty : (empty : Layer δ).Bare :=
  ⟨.nil, by simp [Layer.empty], List.forall_mem_nil _⟩

theorem Layer.Bare.add {l : Layer δ} (h : l.Bare) {p : Part δ} (hp : ∀ q ∈ p.elements, q.Bare) :
    (l.add p).Bare := by
  obtain ⟨primary, inverse, elements⟩ := l
  match elements, inverse with
  | e :: es, inverse =>
    obtain ⟨he, hes⟩ := List.forall_mem_cons.1 h.elements
    exact ⟨h.primary, h.inverse, List.forall_mem_cons.2 ⟨⟨he.1, he.2.push hp⟩, hes⟩⟩
  | [], some ps =>
    refine ⟨h.primary, fun qs hqs => ?_, h.elements⟩
    cases hqs
    exact (h.inverse ps rfl).push hp
  | [], none => exact ⟨h.primary.push hp, h.inverse, h.elements⟩

/-- Every layer of a draft is. -/
structure MarkupDraft.Bare (d : MarkupDraft δ) : Prop where
  root : d.root.Bare
  sections : ∀ s ∈ d.sections, s.layer.Bare

def Change.Bare (change : Change δ) : Prop :=
  ∀ name body, change = .closed (some (name, body)) → Body.Bare body

namespace MarkupDraft.Bare

variable {d d' : MarkupDraft δ}

theorem top (h : d.Bare) : d.top.Bare := by
  obtain ⟨root, sections⟩ := d
  cases sections with
  | nil => exact h.root
  | cons s ss => exact h.sections s List.mem_cons_self

theorem setTop (h : d.Bare) {l : Layer δ} (hl : l.Bare) : (d.setTop l).Bare := by
  obtain ⟨root, sections⟩ := d
  cases sections with
  | nil => exact ⟨hl, h.sections⟩
  | cons s ss =>
    exact ⟨h.root, List.forall_mem_cons.2 ⟨hl, (List.forall_mem_cons.1 h.sections).2⟩⟩

theorem add (h : d.Bare) {p : Part δ} (hp : ∀ q ∈ p.elements, q.Bare) : (d.add p).Bare :=
  h.setTop (h.top.add hp)

theorem addText (h : d.Bare) (t : Text) : (d.addText t).Bare := by
  unfold MarkupDraft.addText
  split
  · exact h
  · exact h.add (List.forall_mem_nil _)

theorem openElement (h : d.Bare) {head : ElementHead δ} (hhead : head.Bare) :
    (d.openElement head).Bare :=
  h.setTop ⟨h.top.primary, h.top.inverse, List.forall_mem_cons.2 ⟨⟨hhead, .nil⟩, h.top.elements⟩⟩

theorem openSection (h : d.Bare) (opener : Opener δ) : (d.openSection opener).Bare :=
  ⟨h.root, List.forall_mem_cons.2 ⟨.empty, h.sections⟩⟩

theorem takeElement {e : OpenElement δ} (h : d.Bare) (hd : d.takeElement? = some (e, d')) :
    (∀ q ∈ (Part.element e.head e.children).elements, q.Bare) ∧ d'.Bare := by
  unfold takeElement? at hd
  split at hd
  next => cases hd
  next e es helements =>
    cases hd
    have htop := h.top
    obtain ⟨he, hes⟩ := List.forall_mem_cons.1 (helements ▸ htop.elements)
    exact ⟨Body.Bare.element he.1 he.2, h.setTop ⟨htop.primary, htop.inverse, hes⟩⟩

theorem takeLayer {s : Section δ} {ss : List (Section δ)} {l : Layer δ} (h : d.Bare)
    (hsections : d.sections = s :: ss) (hd : d.takeLayer s ss = .ok (l, d')) :
    l.Bare ∧ d'.Bare := by
  unfold MarkupDraft.takeLayer at hd
  split at hd
  · cases hd
    exact List.forall_mem_cons.1 (hsections ▸ h.sections) |>.imp id fun hss => ⟨h.root, hss⟩
  · cases hd

theorem turn (h : d.Bare) (hd : d.turn = .ok d') : d'.Bare := by
  unfold MarkupDraft.turn at hd
  split at hd
  next mode e layer ss hsections =>
    split at hd
    · cases hd
      obtain ⟨hl, hss⟩ := List.forall_mem_cons.1 (hsections ▸ h.sections)
      refine ⟨h.root, List.forall_mem_cons.2 ⟨⟨hl.primary, fun ps hps => ?_, hl.elements⟩, hss⟩⟩
      cases hps
      cases hinverse : layer.inverse with
      | none => exact .nil
      | some ps => exact hl.inverse ps hinverse
    · cases hd
  next => cases hd

theorem closeBranch (h : d.Bare) (hd : d.closeBranch = .ok d') : d'.Bare := by
  unfold MarkupDraft.closeBranch at hd
  split at hd
  next => cases hd
  next mode e layer ss hsections =>
    obtain ⟨⟨l, d₁⟩, htake, hd⟩ := exists_of_bind_ok hd
    cases hd
    obtain ⟨hl, hd₁⟩ := h.takeLayer hsections htake
    exact hd₁.add (Body.Bare.branch hl.primary hl.inverse)
  next => cases hd

theorem closeInline {name : Text} {body : Body δ} (h : d.Bare)
    (hd : d.closeInline = .ok (d', name, body)) : d'.Bare ∧ Body.Bare body := by
  unfold MarkupDraft.closeInline at hd
  split at hd
  next opened layer ss hsections =>
    obtain ⟨⟨l, d₁⟩, htake, hd⟩ := exists_of_bind_ok hd
    cases hd
    obtain ⟨hl, hd₁⟩ := h.takeLayer hsections htake
    exact ⟨hd₁, hl.primary⟩
  next => cases hd

theorem finish {body : Body δ} (h : d.Bare) (hd : d.finish = .ok body) : Body.Bare body := by
  unfold MarkupDraft.finish at hd
  split at hd
  · cases hd
    exact h.root.primary
  · cases hd

theorem apply {l : Language δ} {site : Site} {mode : Mode} {expression : Text}
    {change : Change δ} (h : d.Bare)
    (hd : Draft.apply l site d mode expression = .ok (d', change)) : d'.Bare ∧ change.Bare := by
  cases mode with
  | escaped | unescaped =>
    obtain ⟨e, -, hd⟩ := exists_of_bind_ok hd
    cases hd
    exact ⟨h.add (List.forall_mem_nil _), by simp [Change.Bare]⟩
  | branch | inverse =>
    obtain ⟨e, -, hd⟩ := exists_of_bind_ok hd
    cases hd
    exact ⟨h.openSection _, by simp [Change.Bare]⟩
  | inlineTemplate =>
    cases hd
    exact ⟨h.openSection _, by simp [Change.Bare]⟩
  | close =>
    simp only [Draft.apply, Draft.close] at hd
    split at hd
    · obtain ⟨⟨d₁, name, body⟩, hclose, hd⟩ := exists_of_bind_ok hd
      cases hd
      obtain ⟨hd₁, hbody⟩ := h.closeInline (Draft.of_atLine_ok hclose)
      refine ⟨hd₁, fun _ _ hchange => ?_⟩
      cases hchange
      exact hbody
    · obtain ⟨d₁, hclose, hd⟩ := exists_of_bind_ok hd
      cases hd
      exact ⟨h.closeBranch (Draft.of_atLine_ok hclose), by simp [Change.Bare]⟩
  | call =>
    simp only [Draft.apply] at hd
    split at hd
    · cases hd
    · split at hd
      · cases hd
        exact ⟨h.add (List.forall_mem_nil _), by simp [Change.Bare]⟩
      · obtain ⟨e, -, hd⟩ := exists_of_bind_ok hd
        cases hd
        exact ⟨h.add (List.forall_mem_nil _), by simp [Change.Bare]⟩
  | comment =>
    cases hd
    exact ⟨h, by simp [Change.Bare]⟩

end MarkupDraft.Bare

/-- Whether an event calls for a handler. -/
def Handlers.calledBy (h : Handlers δ) : Event → Bool
  | .tagStart tag _ => (h.tag? tag).isSome
  | .attrEnd name => (h.attr? name).isSome
  | _ => false

/-- Nothing in the text of a template calls for a handler. -/
def Options.Unhandled (o : Options δ) (template : Text) : Prop :=
  ∀ l ∈ scan (o.clean template), o.handlers.calledBy l.event = false

namespace Assembly

/-- What has been put together so far is bare, and so is the tag that is being read. -/
structure Bare (o : Options δ) (a : Assembly δ) : Prop where
  markup : a.markup.Bare
  openings : ∀ tag handler nested templates, .custom tag handler nested templates ∉ a.openings
  tag : ∀ t ∈ a.tag, t.head.Bare ∧ o.handlers.tag? t.head.tag = none
  partials : ∀ d ∈ a.partials, Body.Bare d.2

namespace Bare

variable {o : Options δ} {a b : Assembly δ}

theorem empty : Bare o (.empty : Assembly δ) :=
  ⟨⟨.empty, List.forall_mem_nil _⟩, by simp [Assembly.empty], by simp [Assembly.empty],
    List.forall_mem_nil _⟩

theorem record (h : Bare o a) {change : Change δ} (hchange : change.Bare) :
    Bare o (a.record change) := by
  refine ⟨by simpa using h.markup, by simpa using h.openings, by simpa using h.tag, ?_⟩
  unfold Assembly.record
  split
  next name body =>
    intro d hd
    rcases Dict.mem_insert hd with hd | rfl
    · exact h.partials d hd
    · exact hchange name body rfl
  next => exact h.partials

theorem follow (h : Bare o a) (expression : Text) (line : Nat) (change : Change δ) :
    Bare o (a.follow o expression line change) := by
  obtain ⟨hmarkup, hopenings, htag, hpartials⟩ := h
  unfold Assembly.follow
  split
  next => exact ⟨hmarkup, hopenings, htag, hpartials⟩
  next name openings => exact ⟨hmarkup, by simpa using hopenings, htag, hpartials⟩
  next name rest heq =>
    have hrest : ∀ tag handler nested templates, .custom tag handler nested templates ∉ rest :=
      fun tag handler nested templates hmem =>
        hopenings tag handler nested templates (by simp [heq, hmem])
    dsimp only
    split
    · exact ⟨hmarkup, hrest, htag, hpartials⟩
    · exact ⟨hmarkup, hrest, htag, hpartials⟩
  next => exact ⟨hmarkup, hopenings, htag, hpartials⟩

theorem goOn (h : Bare o a) {head : ElementHead δ} {branch : Option (TextDraft δ)}
    (htag : a.tag = some ⟨head, branch⟩) (branch' : Option (TextDraft δ)) :
    Bare o { a with tag := some ⟨head, branch'⟩ } :=
  ⟨h.markup, h.openings, fun t ht => by cases ht; exact (h.tag _ htag :), h.partials⟩

theorem put (h : Bare o a) {head : ElementHead δ} {branch : Option (TextDraft δ)}
    (htag : a.tag = some ⟨head, branch⟩) (parts : List (TextPart δ)) :
    Bare o { a with
      tag := some ⟨{ head with hooks := head.hooks ++ [.tagText parts] }, none⟩ } := by
  obtain ⟨hhead, hhandler⟩ := h.tag _ htag
  exact ⟨h.markup, h.openings, fun t ht => by cases ht; exact ⟨hhead.put parts, hhandler⟩,
    h.partials⟩

theorem turn (h : Bare o a) (ht : a.Turns b) : Bare o b := by
  cases ht with
  | attr | rawText => exact ⟨h.markup, h.openings, h.tag, h.partials⟩
  | branch htag => exact h.goOn htag _
  | markup hd => exact ⟨h.markup.turn hd, h.openings, h.tag, h.partials⟩

theorem marks {mode : Mode} {expression : Text} {line : Nat} (h : Bare o a)
    (hm : Marks o a mode expression line b) : Bare o b := by
  cases hm with
  | branch htag hd | tagBranch htag _ hd =>
    rw [TextDraft.not_defines hd]
    exact h.goOn htag _
  | branchEnd htag hd =>
    rw [TextDraft.not_defines hd]
    exact h.put htag _
  | tagValue htag => exact h.put htag _
  | attr _ _ hd | rawText _ _ _ hd =>
    rw [TextDraft.not_defines hd]
    exact ⟨h.markup, h.openings, h.tag, h.partials⟩
  | markup _ _ _ hd =>
    obtain ⟨hmarkup, hchange⟩ := h.markup.apply hd
    have hset : Bare o { a with markup := _ } := ⟨hmarkup, h.openings, h.tag, h.partials⟩
    exact (hset.record hchange).follow expression line _

theorem tagEnd {tag : Text} {unary : Bool} {line : Nat} (h : Bare o a)
    (hs : a.tagEnd o tag unary line = .ok b) : Bare o b := by
  unfold Assembly.tagEnd at hs
  split at hs
  next =>
    cases hs
    exact h
  next t htag =>
    split at hs
    · cases hs
    · obtain ⟨hhead, hhandler⟩ := h.tag t htag
      cases unary with
      | true =>
        simp only [Except.ok.injEq] at hs
        subst hs
        simp only [addUnary, hhandler, if_true]
        exact ⟨h.markup.add (Body.Bare.element hhead .nil), h.openings, by simp, h.partials⟩
      | false =>
        simp only [Except.ok.injEq] at hs
        subst hs
        simp only [openElement, hhandler, Bool.false_eq_true, if_false]
        exact ⟨h.markup.openElement hhead, by simpa using h.openings, by simp, h.partials⟩

theorem attrEnd {name : Text} {line : Nat} (h : Bare o a) (hname : o.handlers.attr? name = none)
    (hs : a.attrEnd o name line = .ok b) : Bare o b := by
  unfold Assembly.attrEnd at hs
  split at hs
  next head draft htag =>
    cases hs
    exact h.goOn htag _
  next =>
    cases hs
    exact h
  next attr hattr htag =>
    obtain ⟨value, -, hs⟩ := exists_of_bind_ok hs
    simp only [hname] at hs
    cases ht : a.tag with
    | none =>
      rw [ht] at hs
      cases hs
      split <;> exact ⟨h.markup, h.openings, fun _ ht => (by cases ht), h.partials⟩
    | some t =>
      rw [ht] at hs
      cases hs
      have htag := h.tag t ht
      split <;> exact ⟨h.markup, h.openings, fun _ h => by cases h; exact htag, h.partials⟩

theorem closeElement {tag : Text} {line : Nat} (h : Bare o a)
    (hs : a.closeElement tag line = .ok b) : Bare o b := by
  obtain ⟨a₁, hraw, hs⟩ := exists_of_bind_ok hs
  have h₁ : Bare o a₁ := by
    unfold endRawText at hraw
    split at hraw
    next =>
      cases hraw
      exact h
    next =>
      split at hraw
      · obtain ⟨parts, -, hraw⟩ := exists_of_bind_ok hraw
        cases hraw
        exact ⟨h.markup.add (List.forall_mem_nil _), h.openings, h.tag, h.partials⟩
      · cases hraw
        exact h
  split at hs
  next => cases hs
  next e markup htake =>
    cases hs
    obtain ⟨he, hmarkup⟩ := h₁.markup.takeElement htake
    exact ⟨hmarkup.add he, h₁.openings, h₁.tag, h₁.partials⟩

theorem close {tag : Text} {line : Nat} (h : Bare o a) (hs : a.close o tag line = .ok b) :
    Bare o b := by
  have h' : Bare o (if (Namespace.ofTag? tag).isSome then
      { a with namespaces := a.namespaces.tail } else a) := by
    split
    · exact ⟨h.markup, h.openings, h.tag, h.partials⟩
    · exact h
  unfold Assembly.close at hs
  generalize (if (Namespace.ofTag? tag).isSome then { a with namespaces := a.namespaces.tail }
    else a) = a' at h' hs
  dsimp only at hs
  split at hs
  next t rest hopenings =>
    have hrest : ∀ tag handler nested templates, .custom tag handler nested templates ∉ rest :=
      fun tag handler nested templates hmem =>
        h'.openings tag handler nested templates (by simp [hopenings, hmem])
    have hopened : Bare o { a' with openings := rest } := ⟨h'.markup, hrest, h'.tag, h'.partials⟩
    exact hopened.closeElement hs
  next t handler nested templates rest hopenings =>
    exact absurd (by simp [hopenings]) (h'.openings t handler nested templates)
  next => cases hs

theorem step {l : Located} (h : Bare o a) (hl : o.handlers.calledBy l.event = false)
    (hs : Assembly.step o a l = .ok b) : Bare o b := by
  have hline : Bare o { a with lastLine := l.spot.line } :=
    ⟨h.markup, h.openings, h.tag, h.partials⟩
  obtain ⟨spot, event⟩ := l
  cases event with
  | tagStart tag unary =>
    cases hs
    refine ⟨h.markup, h.openings, fun t ht => ?_, h.partials⟩
    cases ht
    exact ⟨⟨[], rfl⟩, by simpa [Handlers.calledBy] using hl⟩
  | tagEnd tag unary => exact hline.tagEnd hs
  | close tag => exact hline.close hs
  | attrStart name =>
    cases hs
    unfold Assembly.attrStart
    split
    next => exact hline
    next htag => exact hline.goOn htag _
    next => exact ⟨h.markup, h.openings, h.tag, h.partials⟩
  | attrValue value =>
    cases hs
    unfold Assembly.attrValue
    split
    next htag => exact hline.goOn htag _
    next => split <;> exact ⟨h.markup, h.openings, h.tag, h.partials⟩
    next => exact hline
  | attrEnd name => exact hline.attrEnd (by simpa [Handlers.calledBy] using hl) hs
  | chars text =>
    cases hs
    unfold Assembly.chars
    split
    · exact ⟨h.markup, h.openings, h.tag, h.partials⟩
    · exact ⟨h.markup.addText _, h.openings, h.tag, h.partials⟩
  | marker body =>
    rcases marker_cases hs with ⟨-, ht⟩ | ⟨-, ⟨-, rfl⟩ | hm⟩
    · exact hline.turn ht
    · exact hline
    · exact hline.marks hm
  | comment text =>
    cases hs
    exact ⟨h.markup.add (List.forall_mem_nil _), h.openings, h.tag, h.partials⟩
  | done =>
    cases hs
    exact hline

theorem run {ls : List Located} (h : Bare o a) (hls : ∀ l ∈ ls, o.handlers.calledBy l.event = false)
    (hs : ls.foldlM (Assembly.step o) a = .ok b) : Bare o b := by
  induction ls generalizing a with
  | nil =>
    cases hs
    exact h
  | cons l ls ih =>
    obtain ⟨hl, hls⟩ := List.forall_mem_cons.1 hls
    obtain ⟨c, hc, hs⟩ := exists_of_bind_ok hs
    exact ih (h.step hl hc) hls hs

end Bare

end Assembly

def View.bodies : View δ → List (Body δ)
  | .template _ body partials _ => body :: partials.map Prod.snd
  | .inline _ _ body => [body]

theorem View.body_mem_bodies (v : View δ) : v.body ∈ v.bodies := by
  cases v <;> exact List.mem_cons_self

theorem View.bodies_partials {v : View δ} {x : Text × View δ} (hx : x ∈ v.partials) :
    ∀ body ∈ x.2.bodies, body ∈ v.bodies := by
  cases v with
  | inline => cases hx
  | template serial body partials filename =>
    obtain ⟨d, hd, rfl⟩ := List.mem_map.1 hx
    exact List.forall_mem_singleton.2 (List.mem_cons_of_mem _ (List.mem_map_of_mem hd))

def View.Bare (v : View δ) : Prop := ∀ body ∈ v.bodies, Body.Bare body

theorem View.Bare.partials {v : View δ} (h : v.Bare) : ∀ x ∈ v.partials, x.2.Bare :=
  fun _ hx body hbody => h body (View.bodies_partials hx body hbody)

theorem compile_bare {o : Options δ} {template : Text} (ho : o.Unhandled template) {serial : Nat}
    {c : Compiled δ} (hc : compile o serial template = .ok c) : c.view.Bare := by
  obtain ⟨a, body, ha, hbody, rfl⟩ := exists_of_compile_ok hc
  have h := Assembly.Bare.empty.run ho ha
  refine List.forall_mem_cons.2 ⟨h.markup.finish hbody, fun body hbody => ?_⟩
  obtain ⟨d, hd, rfl⟩ := List.mem_map.1 hbody
  exact h.partials d hd

end Stencil
