import Stencil.Proofs.Render.ViewsAtHand
import Stencil.Proofs.Template.Definitions
import Stencil.Standard

/-!
The elements that a render makes. Where no view at hand has a certain tag, and no handler puts one
in, no element of that tag is in what is rendered, however deep, and no view with it comes to hand.
-/

set_option autoImplicit false

namespace Stencil

variable {δ : Dialect}

mutual

/-- The tags of the elements of a node, of those inside it too. -/
def Node.tags : Node → List Text
  | .element tag _ _ children => tag :: Fragment.tags children
  | .text _ | .raw _ | .comment _ => []

def Fragment.tags : List Node → List Text
  | [] => []
  | n :: ns => n.tags ++ Fragment.tags ns

end

theorem Fragment.tags_append (xs ys : List Node) : tags (xs ++ ys) = tags xs ++ tags ys := by
  induction xs with
  | nil => rfl
  | cons x xs ih => simp [tags, ih]

theorem Fragment.not_mem_tags_flatten {tag : Text} {fragments : List Fragment}
    (h : ∀ nodes ∈ fragments, tag ∉ tags nodes) : tag ∉ tags fragments.flatten := by
  induction fragments with
  | nil => simp [tags]
  | cons nodes fragments ih =>
    rw [List.forall_mem_cons] at h
    simp [tags_append, h.1, ih h.2]

/-- No view at hand has the tag, nor has any that may be loaded. -/
structure RenderState.Lacks (sem : Semantics δ) (tag : Text) (s : RenderState δ) : Prop where
  partials : ∀ x ∈ s.context.partials, x.2.stock.Lacks tag
  view : ∀ v ∈ s.context.view, v.stock.Lacks tag
  entries : ∀ x ∈ s.library.entries, x.2.stock.Lacks tag
  loads : ∀ source ∈ s.library.source, ∀ {id text : Text}, source id = some text →
    ∀ {serial filename v}, sem.load serial filename text = .ok v → v.stock.Lacks tag

/-- What a handler of a custom tag is handed has no such tag, nor has what it renders of it. -/
structure TagCall.Lacks (sem : Semantics δ) (tag : Text) (c : TagCall δ) : Prop where
  body : ∀ b ∈ c.body, (Body.stock b).Lacks tag
  templates : ∀ ts ∈ c.templates, ∀ x ∈ ts, (Body.stock x.2).Lacks tag
  render : ∀ b scope, (Body.stock b).Lacks tag →
    RenderM.Yields (RenderState.Lacks sem tag) (tag ∉ Fragment.tags ·) (c.render b scope)

/-- Handlers make no element of the tag, nor do they bring a view with it to hand. -/
structure Semantics.MakesNo (sem : Semantics δ) (tag : Text) : Prop where
  tags : ∀ handler c (e : Element), TagCall.Lacks sem tag c → tag ∉ e.toNode.tags →
    RenderM.Yields (RenderState.Lacks sem tag) (fun r => tag ∉ r.1.toNode.tags)
      (sem.tag handler c e)
  attrs : ∀ handler call (e : Element), tag ∉ e.toNode.tags →
    RenderM.Yields (RenderState.Lacks sem tag) (fun e => tag ∉ e.toNode.tags)
      (sem.attr handler call e)

def Caller.Lacks (sem : Semantics δ) (tag : Text) (call : Caller δ) : Prop :=
  ∀ v scope, v.stock.Lacks tag →
    RenderM.Yields (RenderState.Lacks sem tag) (tag ∉ Fragment.tags ·) (call v scope)

theorem View.lacks_partials {v : View δ} {tag : Text} (h : v.stock.Lacks tag) :
    ∀ x ∈ v.partials, x.2.stock.Lacks tag := by
  cases v with
  | inline serial name body => simp [View.partials]
  | template serial body partials filename =>
    intro x hx m hm
    obtain ⟨⟨n, b⟩, he, rfl⟩ := List.mem_map.1 hx
    exact h m (List.mem_append_right _ (Part.mem_tagsTemplates.2 ⟨(n, b), he, hm⟩))

theorem View.lacks_body {v : View δ} {tag : Text} (h : v.stock.Lacks tag) :
    (Body.stock v.body).Lacks tag := by
  cases v with
  | inline serial name body => exact h
  | template serial body partials filename => exact fun m hm => h m (List.mem_append_left _ hm)

section

variable {sem : Semantics δ} {tag : Text} {call : Caller δ}

theorem RenderState.lacks_eq_each :
    RenderState.Lacks sem tag = RenderState.Each sem (·.stock.Lacks tag) :=
  funext fun _ => propext ⟨fun h => ⟨h.partials, h.view, h.entries, h.loads⟩,
    fun h => ⟨h.partials, h.view, h.entries, h.loads⟩⟩

theorem Caller.lacks_iff_makes :
    call.Lacks sem tag ↔ call.Makes sem (·.stock.Lacks tag) (tag ∉ Fragment.tags ·) := by
  rw [Caller.Lacks, RenderState.lacks_eq_each, Caller.Makes]

theorem TextPart.yields_lacking (hcall : call.Lacks sem tag) (ps : List (TextPart δ))
    (scope : Scope) :
    RenderM.Yields (RenderState.Lacks sem tag) (fun _ => True)
      (TextPart.renderAll sem call ps scope) := by
  rw [RenderState.lacks_eq_each]
  exact TextPart.yields_renderAll (Caller.lacks_iff_makes.1 hcall) ps scope

theorem PartialCall.yields_lacking (hcall : call.Lacks sem tag) (c : PartialCall δ)
    (scope : Scope) :
    RenderM.Yields (RenderState.Lacks sem tag) (tag ∉ Fragment.tags ·)
      (c.render sem call scope) := by
  rw [RenderState.lacks_eq_each]
  exact c.yields_render (Caller.lacks_iff_makes.1 hcall) scope

theorem RenderM.yields_setLine_lacking (line : Nat) :
    Yields (RenderState.Lacks sem tag) (fun _ => True)
      (RenderM.modifyContext (·.setLine line) : RenderM δ Unit) := by
  rw [RenderState.lacks_eq_each]
  exact RenderM.yields_setLine line

theorem AttrTemplate.yields_applyAll (hcall : call.Lacks sem tag) (attrs : List (AttrTemplate δ))
    (scope : Scope) {element : Element} (he : tag ∉ element.toNode.tags) :
    RenderM.Yields (RenderState.Lacks sem tag) (tag ∉ ·.toNode.tags)
      (applyAll sem call attrs scope element) := by
  induction attrs generalizing element with
  | nil => exact .pure he
  | cons a attrs ih =>
    simp only [applyAll]
    cases a.value with
    | static value =>
      exact (RenderM.Yields.pure (q := fun _ => True) trivial).bind fun value _ => ih he
    | dynamic parts =>
      exact (TextPart.yields_lacking hcall parts scope).bind fun value _ => ih he

theorem Hook.yields_apply (hsem : sem.MakesNo tag) (hcall : call.Lacks sem tag) (h : Hook δ)
    (scope : Scope) {element : Element} (he : tag ∉ element.toNode.tags) :
    RenderM.Yields (RenderState.Lacks sem tag) (tag ∉ ·.toNode.tags)
      (h.apply sem call scope element) := by
  match h with
  | .attribute handler name line =>
    exact (RenderM.yields_setLine_lacking line).bind fun _ _ =>
      hsem.attrs handler ⟨name, scope⟩ element he
  | .tagText parts =>
    refine (TextPart.yields_lacking hcall parts scope).bind fun text _ => .pure ?_
    generalize TagText.attributesOf text = attributes
    induction attributes generalizing element with
    | nil => exact he
    | cons x attributes ih => exact ih he

theorem Hook.yields_applyAll (hsem : sem.MakesNo tag) (hcall : call.Lacks sem tag)
    (hooks : List (Hook δ)) (scope : Scope) {element : Element}
    (he : tag ∉ element.toNode.tags) :
    RenderM.Yields (RenderState.Lacks sem tag) (tag ∉ ·.toNode.tags)
      (applyAll sem call hooks scope element) := by
  induction hooks generalizing element with
  | nil => exact .pure he
  | cons h hooks ih => exact (h.yields_apply hsem hcall scope he).bind fun _ he => ih he

theorem CustomTag.yields_call (hsem : sem.MakesNo tag) (hcall : call.Lacks sem tag)
    (own : CustomTag δ) (name : Text) {body : Option (Body δ)}
    {templates : Option (Dict (Body δ))} (hbody : ∀ m ∈ Part.tagsOption body, m.name ≠ tag)
    (htemplates : ∀ m ∈ Part.tagsDefined templates, m.name ≠ tag) (scope : Scope)
    {element : Element} (he : tag ∉ element.toNode.tags) :
    RenderM.Yields (RenderState.Lacks sem tag) (tag ∉ ·.1.toNode.tags)
      (own.call sem call name body templates scope element) := by
  refine (RenderM.yields_setLine_lacking own.line).bind fun _ _ =>
    hsem.tags own.handler _ element ?_ he
  refine ⟨?_, ?_, fun b inner hb => hcall (.inline 0 name b) inner hb⟩
  · rintro b ⟨⟩
    exact hbody
  · rintro ts ⟨⟩ x hx m hm
    exact htemplates m (Part.mem_tagsTemplates.2 ⟨x, hx, hm⟩)

theorem Element.tags_append (e : Element) (nodes : Fragment) :
    (e.append nodes).toNode.tags = e.toNode.tags ++ Fragment.tags nodes := by
  simp [Element.append, Element.toNode, Node.tags, Fragment.tags_append]

mutual

theorem Part.yields_render (hsem : sem.MakesNo tag) (hcall : call.Lacks sem tag) (p : Part δ)
    (hp : ∀ m ∈ p.tags, m.name ≠ tag) (scope : Scope) :
    RenderM.Yields (RenderState.Lacks sem tag) (tag ∉ Fragment.tags ·)
      (p.render sem call scope) := by
  have hnew (head : ElementHead δ) (h : head.tag ≠ tag) :
      tag ∉ (Element.new head.tag head.ns).toNode.tags := by
    simpa [Element.new, Element.toNode, Node.tags, Fragment.tags] using h.symm
  have hhooks (head : ElementHead δ) {element : Element} (he : tag ∉ element.toNode.tags) :
      RenderM.Yields (RenderState.Lacks sem tag) (tag ∉ Fragment.tags ·)
        (do return [(← Hook.applyAll sem call head.hooks scope element).toNode]) :=
    (Hook.yields_applyAll hsem hcall head.hooks scope he).bind fun element he =>
      .pure (by simpa [Fragment.tags] using he)
  have hsame {element : Element} (he : tag ∉ element.toNode.tags) :
      RenderM.Yields (RenderState.Lacks sem tag) (tag ∉ ·.toNode.tags) (pure element) := .pure he
  match p with
  | .text content => exact .pure (by simp [Fragment.tags, Node.tags])
  | .comment content => exact .pure (by simp [Fragment.tags, Node.tags])
  | .value e escaped =>
    refine (sem.yields_textIn e scope).bind fun text _ => .pure ?_
    split_ifs <;> simp [Fragment.tags, Node.tags]
  | .branch e primary none =>
    simp only [Part.tags, Part.tagsOption, List.append_nil] at hp
    exact (sem.yields_branchIn e scope).branch (Part.yields_renderAll hsem hcall primary hp)
      (fun _ => Fragment.not_mem_tags_flatten) (.pure (by simp [Fragment.tags]))
  | .branch e primary (some inverse) =>
    simp only [Part.tags, Part.tagsOption, List.forall_mem_append] at hp
    exact (sem.yields_branchIn e scope).branch (Part.yields_renderAll hsem hcall primary hp.1)
      (fun _ => Fragment.not_mem_tags_flatten)
      (Part.yields_renderAll hsem hcall inverse hp.2 scope)
  | .call c => exact c.yields_lacking hcall scope
  | .textBlock parts =>
    refine (TextPart.yields_lacking hcall parts scope).bind fun text _ => .pure ?_
    split_ifs <;> simp [Fragment.tags, Node.tags]
  | .element head children =>
    simp only [Part.tags, List.forall_mem_cons] at hp
    refine (AttrTemplate.yields_applyAll hcall head.attrs scope (hnew head hp.1)).bind
      fun element he => ?_
    refine (Part.yields_renderAll hsem hcall children hp.2 scope).bind fun nodes hnodes => ?_
    exact hhooks head (by simp [Element.tags_append, he, hnodes])
  | .custom head own none templates =>
    simp only [Part.tags, List.forall_mem_cons, List.forall_mem_append] at hp
    refine (AttrTemplate.yields_applyAll hcall head.attrs scope (hnew head hp.1)).bind
      fun element he => ?_
    refine (own.yields_call hsem hcall head.tag hp.2.2 hp.2.1 scope he).bind fun r he => ?_
    obtain ⟨element, none | inner⟩ := r <;> exact (hsame he).bind fun _ he => hhooks head he
  | .custom head own (some body) templates =>
    simp only [Part.tags, List.forall_mem_cons, List.forall_mem_append] at hp
    refine (AttrTemplate.yields_applyAll hcall head.attrs scope (hnew head hp.1)).bind
      fun element he => ?_
    refine (own.yields_call hsem hcall head.tag hp.2.2 hp.2.1 scope he).bind fun r he => ?_
    obtain ⟨element, none | inner⟩ := r
    · exact (hsame he).bind fun _ he => hhooks head he
    · have hbody := Part.yields_renderAll hsem hcall body hp.2.2 inner
      refine (hbody.map fun nodes hnodes => ?_).bind fun _ he => hhooks head he
      simp [Element.tags_append, he, hnodes]
termination_by structural p

theorem Part.yields_renderAll (hsem : sem.MakesNo tag) (hcall : call.Lacks sem tag) (ps : Body δ)
    (hps : ∀ m ∈ Part.tagsAll ps, m.name ≠ tag) (scope : Scope) :
    RenderM.Yields (RenderState.Lacks sem tag) (tag ∉ Fragment.tags ·)
      (Part.renderAll sem call ps scope) := by
  match ps with
  | [] => exact .pure (by simp [Fragment.tags])
  | p :: ps =>
    simp only [Part.tagsAll, List.forall_mem_append] at hps
    refine (Part.yields_render hsem hcall p hps.1 scope).bind fun nodes hnodes => ?_
    refine (Part.yields_renderAll hsem hcall ps hps.2 scope).bind fun rest hrest => .pure ?_
    simpa [Fragment.tags_append] using ⟨hnodes, hrest⟩
termination_by structural ps

end

/-- Where no view at hand has the tag and no handler makes it, none is rendered. -/
theorem View.yields_renderWithin (hsem : sem.MakesNo tag) (depth : Nat) :
    Caller.Lacks sem tag (renderWithin sem depth) := by
  refine Caller.lacks_iff_makes.2 (View.makes_renderWithin (fun v => View.lacks_partials) ?_ depth)
  intro call hcall v hv scope
  rw [← RenderState.lacks_eq_each]
  exact Part.yields_renderAll hsem (Caller.lacks_iff_makes.2 hcall) v.body (View.lacks_body hv)
    scope

end

end Stencil
