import Stencil.Proofs.Markup.Bounded
import Stencil.Proofs.Markup.OrderedAttributes
import Stencil.Proofs.Render.ViewsAtHand
import Stencil.Proofs.Template.BareElements
import Stencil.Standard

/-!
The attributes of a rendered element. Where no handler is called for, all that is done to an element
are writes: those of its attributes, in their order, and after its content those of the text that is
put out inside its tag. So names are there once each, with the value written last.
-/

set_option autoImplicit false

namespace Stencil

variable {δ : Dialect}

def AttrTemplate.write (sem : Semantics δ) (call : Caller δ) (scope : Scope) (a : AttrTemplate δ) :
    RenderM δ AttrWrite :=
  match a.value with
  | .static value => return .set a.name value
  | .dynamic parts => do return .set a.name (← TextPart.renderAll sem call parts scope)

def TagText.write (sem : Semantics δ) (call : Caller δ) (scope : Scope)
    (parts : List (TextPart δ)) : RenderM δ (List AttrWrite) := do
  let text ← TextPart.renderAll sem call parts scope
  return (attributesOf text).map fun (name, value) => .set name value

section

variable (sem : Semantics δ) (call : Caller δ) (scope : Scope)

theorem AttrTemplate.applyAll_eq (attrs : List (AttrTemplate δ)) (e : Element) :
    applyAll sem call attrs scope e = e.writeAll <$> attrs.mapM (write sem call scope) := by
  induction attrs generalizing e with
  | nil => simp [applyAll]
  | cons a attrs ih =>
    obtain ⟨name, value⟩ := a
    cases value with
    | static value => simp [applyAll, write, ih, Element.write]
    | dynamic parts => simp [applyAll, write, ih, Element.write]

theorem Hook.applyAll_tagText (texts : List (List (TextPart δ))) (e : Element) :
    applyAll sem call (texts.map .tagText) scope e =
      (fun writes => e.writeAll writes.flatten) <$> texts.mapM (TagText.write sem call scope) := by
  induction texts generalizing e with
  | nil => simp [applyAll]
  | cons parts texts ih =>
    have hset (e : Element) (attributes : List (Text × Text)) :
        attributes.foldl (fun e x => e.setAttribute x.1 x.2) e =
          e.writeAll (attributes.map fun x => .set x.1 x.2) := by
      induction attributes generalizing e with
      | nil => rfl
      | cons x attributes ih => exact ih _
    simp [applyAll, Hook.apply, TagText.write, ih, hset, Element.writeAll_writeAll]

/-- Renders an element by its writes. They are made in the order in which their values are rendered:
those of the attributes, then, after the content, those of the texts inside the tag. -/
def Part.renderWrites (tag : Text) (ns : Namespace) (attrs : List (AttrTemplate δ))
    (texts : List (List (TextPart δ))) (children : Body δ) : RenderM δ Fragment := do
  let first ← attrs.mapM (AttrTemplate.write sem call scope)
  let nodes ← Part.renderAll sem call children scope
  let later ← texts.mapM (TagText.write sem call scope)
  return [((Element.written tag ns (first ++ later.flatten)).append nodes).toNode]

theorem Part.render_bare (tag : Text) (ns : Namespace) (attrs : List (AttrTemplate δ))
    (texts : List (List (TextPart δ))) (children : Body δ) :
    (Part.element ⟨tag, ns, attrs, texts.map .tagText⟩ children).render sem call scope =
      Part.renderWrites sem call scope tag ns attrs texts children := by
  simp [Part.render, Part.renderWrites, AttrTemplate.applyAll_eq, Hook.applyAll_tagText,
    Element.writeAll_append, Element.writeAll_writeAll, Element.written]

end

mutual

/-- The attributes of each element of a node, of those inside it too. -/
def Node.attributeLists : Node → List (Dict Text)
  | .element _ _ attributes children => attributes :: Fragment.attributeLists children
  | .text _ | .raw _ | .comment _ => []

def Fragment.attributeLists : List Node → List (Dict Text)
  | [] => []
  | n :: ns => n.attributeLists ++ Fragment.attributeLists ns

end

/-- No element has a name twice among its attributes. -/
def Fragment.Distinct (nodes : Fragment) : Prop := ∀ d ∈ attributeLists nodes, d.names.Nodup

namespace Fragment

theorem attributeLists_append (xs ys : List Node) :
    attributeLists (xs ++ ys) = attributeLists xs ++ attributeLists ys := by
  induction xs with
  | nil => rfl
  | cons x xs ih => simp [attributeLists, ih]

theorem distinct_nil : Distinct [] := List.forall_mem_nil _

theorem distinct_append {xs ys : Fragment} (hx : Distinct xs) (hy : Distinct ys) :
    Distinct (xs ++ ys) := by
  rw [Distinct, attributeLists_append]
  exact List.forall_mem_append.2 ⟨hx, hy⟩

theorem distinct_flatten {fragments : List Fragment} (h : ∀ nodes ∈ fragments, Distinct nodes) :
    Distinct fragments.flatten := by
  induction fragments with
  | nil => exact distinct_nil
  | cons nodes fragments ih =>
    obtain ⟨hnodes, hrest⟩ := List.forall_mem_cons.1 h
    exact distinct_append hnodes (ih hrest)

theorem distinct_element {e : Element} {nodes : Fragment} (he : e.attributes.names.Nodup)
    (hempty : e.children = []) (hnodes : Distinct nodes) :
    Distinct [(e.append nodes).toNode] := by
  simpa [Distinct, Element.append, Element.toNode, hempty, attributeLists, Node.attributeLists]
    using ⟨he, hnodes⟩

end Fragment

theorem Element.children_written (tag : Text) (ns : Namespace) (writes : List AttrWrite) :
    (written tag ns writes).children = [] := by
  induction writes using List.reverseRecOn with
  | nil => rfl
  | append_singleton writes w ih => rw [written_snoc]; cases w <;> exact ih

section

variable {sem : Semantics δ} {call : Caller δ}

mutual

theorem Part.yields_distinct (hcall : call.Makes sem View.Bare Fragment.Distinct) (p : Part δ)
    (hp : ∀ q ∈ p.elements, q.Bare) (scope : Scope) :
    RenderM.Yields (RenderState.Each sem View.Bare) Fragment.Distinct
      (p.render sem call scope) := by
  match p with
  | .text content | .comment content => exact .pure Fragment.distinct_nil
  | .value e escaped =>
    refine (sem.yields_textIn e scope).bind fun text _ => .pure ?_
    split_ifs <;> exact Fragment.distinct_nil
  | .branch e primary none =>
    obtain ⟨hprimary, -⟩ := List.forall_mem_append.1 hp
    exact (sem.yields_branchIn e scope).branch (Part.yields_allDistinct hcall primary hprimary)
      (fun _ => Fragment.distinct_flatten) (.pure Fragment.distinct_nil)
  | .branch e primary (some inverse) =>
    obtain ⟨hprimary, hinverse⟩ := List.forall_mem_append.1 hp
    exact (sem.yields_branchIn e scope).branch (Part.yields_allDistinct hcall primary hprimary)
      (fun _ => Fragment.distinct_flatten) (Part.yields_allDistinct hcall inverse hinverse scope)
  | .call c => exact c.yields_render hcall scope
  | .textBlock parts =>
    refine (TextPart.yields_renderAll hcall parts scope).bind fun text _ => .pure ?_
    split_ifs <;> exact Fragment.distinct_nil
  | .element ⟨tag, ns, attrs, hooks⟩ children =>
    obtain ⟨hhead, hchildren⟩ := List.forall_mem_cons.1 hp
    obtain ⟨head, children', ⟨⟩, texts, rfl⟩ := hhead
    rw [Part.render_bare]
    refine (RenderM.Yields.mapM (q := fun _ => True) (fun a => ?_) attrs).bind fun first _ =>
      (Part.yields_allDistinct hcall children hchildren scope).bind fun nodes hnodes =>
      (RenderM.Yields.mapM (q := fun _ => True) (fun parts => ?_) texts).bind fun later _ =>
      .pure (Fragment.distinct_element (Element.nodup_written _ _ _)
        (Element.children_written _ _ _) hnodes)
    · obtain ⟨name, value | parts⟩ := a
      · exact .pure trivial
      · exact (TextPart.yields_renderAll hcall parts scope).bind fun _ _ => .pure trivial
    · exact (TextPart.yields_renderAll hcall parts scope).bind fun _ _ => .pure trivial
  | .custom head own body templates =>
    obtain ⟨⟨head, children, hcustom, -⟩, -⟩ := List.forall_mem_cons.1 hp
    cases hcustom
termination_by structural p

theorem Part.yields_allDistinct (hcall : call.Makes sem View.Bare Fragment.Distinct) (ps : Body δ)
    (hps : Body.Bare ps) (scope : Scope) :
    RenderM.Yields (RenderState.Each sem View.Bare) Fragment.Distinct
      (Part.renderAll sem call ps scope) := by
  match ps with
  | [] => exact .pure Fragment.distinct_nil
  | p :: ps =>
    obtain ⟨hp, hps⟩ := List.forall_mem_append.1 hps
    exact (Part.yields_distinct hcall p hp scope).bind fun nodes hnodes =>
      (Part.yields_allDistinct hcall ps hps scope).bind fun rest hrest =>
        .pure (Fragment.distinct_append hnodes hrest)
termination_by structural ps

end

theorem View.yields_distinct {v : View δ} (hv : v.Bare) (scope : Scope) :
    RenderM.Yields (RenderState.Each sem View.Bare) Fragment.Distinct (v.render sem scope) :=
  View.makes_renderWithin (fun _ hv => hv.partials)
    (fun _ hcall v hv => Part.yields_allDistinct hcall v.body (hv _ v.body_mem_bodies))
    View.deepest v scope hv

end

/-- The attributes of an element are an ordered map: each name is there once, with the value that
was written last, and in the order in which the names came in. Where no handler is called for, every
element of a compiled template is made of what is written to it, first by its attributes and in the
end by the texts inside its tag; and all that is rendered has each name once. -/
theorem attributes_of_writes :
    (∀ tag ns writes,
      let attributes := (Element.written tag ns writes).attributes
      attributes.names.Nodup ∧
        (∀ name, (Element.written tag ns writes).attribute? name = AttrWrite.last? writes name) ∧
        (∀ name ∈ attributes.names, ∃! i, AttrWrite.BringsIn writes name i) ∧
        attributes.names.Pairwise (AttrWrite.Earlier writes)) ∧
    ∀ {o : Options δ} {template : Text}, o.Unhandled template →
      ∀ {serial : Nat} {c : Compiled δ}, compile o serial template = .ok c →
        (∀ body ∈ c.view.bodies, ∀ p ∈ Part.elementsAll body,
          ∃ tag ns attrs children, ∃ texts : List (List (TextPart δ)),
            p = .element ⟨tag, ns, attrs, texts.map .tagText⟩ children ∧
              ∀ sem call scope, p.render sem call scope =
                Part.renderWrites sem call scope tag ns attrs texts children) ∧
        ∀ sem scope s, RenderState.Each sem View.Bare s → ∀ nodes,
          (c.view.render sem scope s).1 = .ok nodes → nodes.Distinct := by
  refine ⟨fun tag ns writes => ?_, fun ho _ c hc => ⟨fun body hbody p hp => ?_, ?_⟩⟩
  · obtain ⟨hin, horder⟩ := Element.pairwise_written tag ns writes
    refine ⟨Element.nodup_written tag ns writes, Element.attribute?_written tag ns writes,
      fun name hname => ?_, horder⟩
    obtain ⟨i, hi⟩ := hin name hname
    exact ⟨i, hi, fun j hj => hj.unique hi⟩
  · obtain ⟨⟨tag, ns, attrs, hooks⟩, children, rfl, texts, rfl⟩ :=
      compile_bare ho hc body hbody p hp
    exact ⟨tag, ns, attrs, children, texts, rfl,
      fun sem call scope => Part.render_bare sem call scope tag ns attrs texts children⟩
  · exact fun sem scope s hs nodes => (View.yields_distinct (compile_bare ho hc) scope s hs).2 nodes

def rewriting : Text :=
  "<p a=\"1\" b=\"\x7b\x7bx\x7d\x7d\" a=\"2\" \x7b\x7bt\x7d\x7d>y</p>"

theorem scan_rewriting : scan rewriting =
    [⟨⟨1, 1⟩, .tagStart "p" false⟩, ⟨⟨3, 1⟩, .attrStart "a"⟩, ⟨⟨6, 1⟩, .attrValue "1"⟩,
      ⟨⟨7, 1⟩, .attrEnd "a"⟩, ⟨⟨9, 1⟩, .attrStart "b"⟩, ⟨⟨12, 1⟩, .marker "x"⟩,
      ⟨⟨17, 1⟩, .attrEnd "b"⟩, ⟨⟨19, 1⟩, .attrStart "a"⟩, ⟨⟨22, 1⟩, .attrValue "2"⟩,
      ⟨⟨23, 1⟩, .attrEnd "a"⟩, ⟨⟨25, 1⟩, .marker "t"⟩, ⟨⟨30, 1⟩, .tagEnd "p" false⟩,
      ⟨⟨31, 1⟩, .chars "y"⟩, ⟨⟨35, 1⟩, .close "p"⟩, ⟨⟨36, 1⟩, .done⟩] := by
  rw [scan_eq_runFor]
  decide +kernel

theorem attributesOf_rewriting :
    TagText.attributesOf "b=3 c=4 b=5" =
      ([("b", "3"), ("c", "4"), ("b", "5")] : List (Text × Text)) := by
  unfold TagText.attributesOf
  rw [scan_eq_runFor]
  decide +kernel

def rewritingBody : Body .standard :=
  [.element ⟨"p", .html,
    [⟨"a", .static "1"⟩, ⟨"b", .dynamic [.value ⟨"x", .lookup "x", false, 1⟩ false]⟩,
      ⟨"a", .static "2"⟩],
    [.tagText [.value ⟨"t", .lookup "t", false, 1⟩ false]]⟩ [.text "y"]]

def rewritingScope : Scope := .root (.obj [("x", .str "0"), ("t", .str "b=3 c=4 b=5")])

theorem compile_rewriting : compile (Options.standard none).asWritten 0 rewriting =
    .ok ⟨.template 0 rewritingBody [] none, []⟩ :=
  compile_of_scan rfl scan_rewriting (by with_unfolding_all rfl)

theorem render_rewriting :
    ((View.template 0 rewritingBody [] none).render (.standard []) rewritingScope
      ⟨.empty, .empty⟩).1 =
        .ok [.element "p" .html [("a", "2"), ("b", "5"), ("c", "4")] [.text "y"]] := by
  have hput (call : Caller .standard) (s : RenderState .standard) :
      TagText.write (.standard []) call rewritingScope
          [.value ⟨"t", .lookup "t", false, 1⟩ false] s =
        (.ok [.set "b" "3", .set "c" "4", .set "b" "5"], s) := by
    change (Except.ok ((TagText.attributesOf "b=3 c=4 b=5").map _), s) = _
    rw [attributesOf_rewriting]
    rfl
  rw [View.render_template_apply, rewritingBody, Part.renderAll]
  generalize View.renderWithin (.standard []) (View.deepest - 1) = call
  have helement := Part.render_bare (.standard []) call rewritingScope "p" .html
    [⟨"a", .static "1"⟩, ⟨"b", .dynamic [.value ⟨"x", .lookup "x", false, 1⟩ false]⟩,
      ⟨"a", .static "2"⟩] [[.value ⟨"t", .lookup "t", false, 1⟩ false]] [.text "y"]
  simp only [List.map_cons, List.map_nil] at helement
  rw [helement, Part.renderWrites]
  simp only [List.mapM_cons, List.mapM_nil, RenderM.bind_apply, hput]
  rfl

theorem attributes_of_writes_rewriting :
    (Options.standard none).asWritten.Unhandled rewriting ∧
      ∃ c, compile (Options.standard none).asWritten 0 rewriting = .ok c ∧
        RenderState.Each (.standard []) View.Bare ⟨.empty, .empty⟩ ∧
        ∃ nodes, (c.view.render (.standard []) rewritingScope ⟨.empty, .empty⟩).1 = .ok nodes ∧
          nodes.Distinct := by
  have hunhandled : (Options.standard none).asWritten.Unhandled rewriting := by
    intro l hl
    have hclean : (Options.standard none).asWritten.clean rewriting = rewriting := rfl
    rw [hclean, scan_rewriting] at hl
    revert l
    decide
  have heach : RenderState.Each (.standard []) View.Bare ⟨.empty, .empty⟩ :=
    ⟨List.forall_mem_nil _, by simp [Context.empty], List.forall_mem_nil _,
      by simp [Library.empty]⟩
  obtain ⟨-, hdistinct⟩ := attributes_of_writes.2 hunhandled compile_rewriting
  exact ⟨hunhandled, _, compile_rewriting, heach, _, render_rewriting,
    hdistinct _ _ _ heach _ render_rewriting⟩

end Stencil
