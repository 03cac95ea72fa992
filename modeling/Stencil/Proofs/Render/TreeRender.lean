import Stencil.Proofs.Expression.Lookup
import Stencil.Proofs.Markup.TagNames
import Stencil.Proofs.Render.Reading
import Stencil.Proofs.Template.TreeAssembly

/-!
A tree renders to what it means. Its events compile, and for every scope the markup of the view is
the meaning of the tree there, or the render fails as the first evaluation does that fails.
-/

set_option autoImplicit false

namespace Stencil

variable {δ : Dialect}

theorem Dict.insert_of_not_mem {α : Type} (d : Dict α) (n : Text) (a : α) (h : n ∉ d.names) :
    d.insert n a = d ++ [(n, a)] := by
  induction d with
  | nil => rfl
  | cons e d ih =>
    obtain ⟨m, b⟩ := e
    simp only [names, List.map_cons, List.mem_cons, not_or] at h
    have hm : m ≠ n := fun hm => h.1 hm.symm
    simp [insert, hm, ih h.2]

theorem Element.setAttribute_of_nodup {element : Element} {name : Text} {names : List Text}
    (h : (Dict.names element.attributes ++ name :: names).Nodup) (value : Text) :
    element.setAttribute name value =
      { element with attributes := element.attributes ++ [(name, value)] } := by
  have hfresh : name ∉ Dict.names element.attributes := fun hmem =>
    (List.nodup_append.1 h).2.2 name hmem name List.mem_cons_self rfl
  rw [setAttribute, Dict.insert_of_not_mem _ _ _ hfresh]

def Element.setAll (element : Element) (attributes : Dict Text) : Element :=
  attributes.foldl (fun (e : Element) (n, v) => e.setAttribute n v) element

theorem Element.setAll_of_nodup {attributes : Dict Text} (element : Element)
    (h : (Dict.names element.attributes ++ attributes.names).Nodup) :
    element.setAll attributes =
      { element with attributes := element.attributes ++ attributes } := by
  induction attributes generalizing element with
  | nil => simp [setAll]
  | cons a attributes ih =>
    obtain ⟨name, value⟩ := a
    have hset := Element.setAttribute_of_nodup h value
    have hrest := ih { element with attributes := element.attributes ++ [(name, value)] }
      (by simpa [Dict.names] using h)
    rw [List.append_assoc] at hrest
    rw [← hset] at hrest
    exact hrest

section

variable (sem : Semantics δ) (call : Caller δ)

theorem TextPart.renderAll_ofText (t : Text) (scope : Scope) :
    renderAll sem call (ofText t) scope = pure t := by
  by_cases h : t = []
  · simp [ofText, h, renderAll]
  · simp [ofText, h, renderAll, render]

mutual

theorem ValuePiece.renderAll_parts (p : ValuePiece δ) (scope : Scope) :
    TextPart.renderAll sem call p.parts scope =
      RenderM.asking fun r => p.meaning sem r scope := by
  match p with
  | .text _ content => exact TextPart.renderAll_ofText sem call _ scope
  | .value read =>
    simp [ValuePiece.parts, TextPart.renderAll, TextPart.render, ValuePiece.meaning,
      Semantics.textIn_eq_asking]
  | .branch head primary none _ =>
    have h := sem.asking_branch head.expr scope (ValuePiece.renderAll_partsAll primary)
      (RenderM.pure_eq_asking [])
    rw [ValuePiece.parts, TextPart.renderAll_singleton]
    simp only [TextPart.render, TextPart.renderAll_pushAll, List.nil_append]
    exact h
  | .branch head primary (some (turn, pieces)) _ =>
    have h := sem.asking_branch head.expr scope (ValuePiece.renderAll_partsAll primary)
      (ValuePiece.renderAll_partsAll pieces scope)
    rw [ValuePiece.parts, TextPart.renderAll_singleton]
    simp only [TextPart.render, TextPart.renderAll_pushAll, List.nil_append]
    exact h

theorem ValuePiece.renderAll_partsAll (ps : List (ValuePiece δ)) (scope : Scope) :
    TextPart.renderAll sem call (ValuePiece.partsAll ps) scope =
      RenderM.asking fun r => ValuePiece.meaningAll sem r ps scope := by
  match ps with
  | [] => rfl
  | p :: ps =>
    simp only [ValuePiece.partsAll, TextPart.renderAll_append, ValuePiece.meaningAll,
      ValuePiece.renderAll_parts p, ValuePiece.renderAll_partsAll ps, RenderM.pure_eq_asking,
      RenderM.asking_bind]
    rfl

end

theorem AttrTree.renderAll_parts (t : AttrTree δ) (scope : Scope) :
    TextPart.renderAll sem call t.parts scope = RenderM.asking fun r => t.value sem r scope := by
  rw [AttrTree.parts, TextPart.renderAll_append, TextPart.renderAll_ofText,
    ValuePiece.renderAll_partsAll, pure_bind, bind_pure_comp, RenderM.map_asking]
  simp only [AttrTree.value, bind_pure_comp]

theorem AttrTree.applyAll_cons (t : AttrTree δ) (ts : List (AttrTemplate δ)) (scope : Scope)
    (element : Element) :
    AttrTemplate.applyAll sem call (t.template :: ts) scope element =
      (RenderM.asking (fun r => t.value sem r scope) >>= fun value =>
        AttrTemplate.applyAll sem call ts scope (element.setAttribute t.name value)) := by
  rw [← t.renderAll_parts sem call]
  obtain ⟨_, name, lead, pieces, _⟩ := t
  cases pieces with
  | nil =>
    simp [AttrTree.template, AttrTemplate.applyAll, AttrTree.parts, ValuePiece.partsAll,
      TextPart.renderAll_ofText]
  | cons p ps => simp [AttrTree.template, AttrTemplate.applyAll, TextPart.renderAll_pushAll]

theorem AttrTree.applyAll_templates (ts : List (AttrTree δ)) (scope : Scope) (element : Element)
    (hn : (Dict.names element.attributes ++ ts.map AttrTree.name).Nodup) :
    AttrTemplate.applyAll sem call (ts.map AttrTree.template) scope element =
      (fun attributes => { element with attributes := element.attributes ++ attributes }) <$>
        RenderM.asking fun r => ts.mapM (AttrTree.meaning sem r scope) := by
  induction ts generalizing element with
  | nil => simp [AttrTemplate.applyAll, RenderM.map_asking, RenderM.pure_eq_asking]; rfl
  | cons t ts ih =>
    have hset := Element.setAttribute_of_nodup hn
    have hrest (value : Text) := ih
      { element with attributes := element.attributes ++ [(t.name, value)] }
      (by simpa [Dict.names] using hn)
    rw [List.map_cons, applyAll_cons]
    simp only [hset, hrest, RenderM.map_asking, RenderM.asking_bind]
    simp [AttrTree.meaning]

theorem TextPart.renderAll_texts (texts : List (Spot × Text)) (scope : Scope) :
    renderAll sem call (texts.flatMap fun t => ofText t.2) scope =
      pure (texts.map Prod.snd).flatten := by
  induction texts with
  | nil => rfl
  | cons t texts ih =>
    simp only [List.flatMap_cons, renderAll_append, renderAll_ofText, ih, pure_bind, List.map_cons,
      List.flatten_cons]

theorem Tree.htmlAll_head (ns : Namespace) (tag : Text) (attrs : List (AttrTree δ))
    (hn : (attrs.map AttrTree.name).Nodup) (children : Body δ) (scope : Scope) :
    Part.htmlAll sem call scope [.element (Tree.head ns tag attrs) children] =
      (RenderM.asking (fun r => attrs.mapM (AttrTree.meaning sem r scope)) >>= fun attributes =>
        (fun nodes => Fragment.html [.element tag (ns.inside tag) attributes nodes]) <$>
          Part.renderAll sem call children scope) := by
  have hattrs := AttrTree.applyAll_templates sem call attrs scope (.new tag (ns.inside tag))
    (by simpa [Element.new, Dict.names] using hn)
  rw [Part.htmlAll_singleton, Part.render_element]
  simp only [Tree.head, hattrs]
  simp [Hook.applyAll, Element.append, Element.toNode, Element.new]

theorem Node.html_element {tag : Text} (hv : Tag.isVoid tag = false)
    (hh : Tag.holdsText tag = false) (ns : Namespace) (attributes : Dict Text) (nodes : Fragment) :
    Fragment.html [.element tag ns attributes nodes] =
      Node.tagStart tag attributes ++ Fragment.html nodes ++ Node.tagEnd tag := by
  simp [Fragment.html, Fragment.htmlIn, Node.htmlIn, hv, hh]

theorem Node.html_childless (tag : Text) (ns : Namespace) (attributes : Dict Text) :
    Fragment.html [.element tag ns attributes []] =
      Node.tagStart tag attributes ++ if Tag.isVoid tag then [] else Node.tagEnd tag := by
  simp [Fragment.html, Fragment.htmlIn, Node.htmlIn]

theorem Node.html_textHolder {tag : Text} (h : Tag.holdsText tag = true) (ns : Namespace)
    (attributes : Dict Text) (text : Text) :
    Fragment.html [.element tag ns attributes (if text.isEmpty then [] else [.text text])] =
      Node.tagStart tag attributes ++ escapeRawText tag text ++ Node.tagEnd tag := by
  cases text with
  | nil =>
    simp [Fragment.html, Fragment.htmlIn, Node.htmlIn, h, Tag.isVoid_of_holdsText h, escapeRawText]
  | cons c text => simp [Fragment.html, Fragment.htmlIn, Node.htmlIn, h]

theorem Part.htmlAll_ofText (t : Text) (scope : Scope) :
    htmlAll sem call scope (ofText t) = pure (Text.escapeText t) := by
  by_cases h : t = []
  · simp [h, ofText, htmlAll, renderAll, Fragment.html, Fragment.htmlIn, Text.escapeText]
  · simp [h, ofText, htmlAll_singleton, render_text, Fragment.html, Fragment.htmlIn, Node.htmlIn]

theorem Part.htmlAll_value (e : δ.Expr) (escaped : Bool) (scope : Scope) :
    htmlAll sem call scope [.value e escaped] =
      (fun text => if escaped then Text.escapeText text else text) <$> sem.textIn e scope := by
  have hhtml (text : Text) :
      Fragment.html (if text.isEmpty then [] else [if escaped then .text text else .raw text]) =
        if escaped then Text.escapeText text else text := by
    cases text with
    | nil => cases escaped <;> rfl
    | cons c text => cases escaped <;> simp [Fragment.html, Fragment.htmlIn, Node.htmlIn]
  rw [htmlAll_singleton, render_value]
  simp only [bind_pure_comp, Functor.map_map, hhtml]

mutual

theorem Tree.htmlAll_parts {o : Options δ} {nested : Bool} (t : Tree δ) (h : t.Valid o nested)
    (ns : Namespace) (scope : Scope) :
    Part.htmlAll sem call scope (t.parts ns) = RenderM.asking fun r => t.meaning sem r scope := by
  match t with
  | .text _ content => exact Part.htmlAll_ofText sem call _ scope
  | .comment _ content =>
    rw [Tree.parts, Part.htmlAll_singleton, Part.render_comment, map_pure]
    simp only [Fragment.html, Fragment.htmlIn, Node.htmlIn, List.append_nil]
    rfl
  | .remark _ => rfl
  | .value read escaped =>
    rw [Tree.parts, Part.htmlAll_value, Semantics.textIn_eq_asking, RenderM.map_asking]
    simp [Tree.meaning]
  | .branch head primary none _ =>
    have h := sem.asking_branch head.expr scope (Tree.htmlAll_partsAll primary h.2.1 ns)
      (RenderM.pure_eq_asking [])
    rw [Tree.parts, Part.htmlAll_branch]
    simp only [Part.htmlAll_pushAll, List.nil_append]
    exact h
  | .branch head primary (some (turn, trees)) _ =>
    have h := sem.asking_branch head.expr scope (Tree.htmlAll_partsAll primary h.2.1 ns)
      (Tree.htmlAll_partsAll trees h.2.2.1.2 ns scope)
    rw [Tree.parts, Part.htmlAll_branch]
    simp only [Part.htmlAll_pushAll, List.nil_append]
    exact h
  | .element _ _ tag attrs none =>
    obtain ⟨-, -, ⟨hn, -⟩, -⟩ := h
    rw [Tree.parts, Tree.htmlAll_head sem call ns tag attrs hn]
    simp only [Part.renderAll, map_pure, Node.html_childless, bind_pure_comp, RenderM.map_asking]
    simp [Tree.meaning]
  | .element _ _ tag attrs (some (trees, _)) =>
    obtain ⟨-, hh, ⟨hn, -⟩, hv, htrees⟩ := h
    have hinner (attributes : Dict Text) :
        (fun nodes => Node.tagStart tag attributes ++ Fragment.html nodes ++ Node.tagEnd tag) <$>
          Part.renderAll sem call (Part.pushAll [] (Tree.partsAll (ns.inside tag) trees)) scope =
        RenderM.asking fun r => (fun inner => Node.tagStart tag attributes ++ inner ++
          Node.tagEnd tag) <$> Tree.meaningAll sem r trees scope := by
      have h := Tree.htmlAll_partsAll trees htrees (ns.inside tag) scope
      rw [← List.nil_append (Tree.partsAll _ trees), ← Part.htmlAll_pushAll] at h
      rw [← RenderM.map_asking, ← h, Part.htmlAll, Functor.map_map]
    rw [Tree.parts, Tree.htmlAll_head sem call ns tag attrs hn]
    simp only [Node.html_element hv hh, hinner, RenderM.asking_bind]
    simp [Tree.meaning]
  | .rawText _ _ tag attrs texts _ =>
    obtain ⟨-, hh, hn, -⟩ := h
    have hinner (attributes : Dict Text) :
        (fun nodes => Fragment.html [.element tag (ns.inside tag) attributes nodes]) <$>
          Part.renderAll sem call
            [.textBlock (TextPart.pushAll [] (texts.flatMap fun t => TextPart.ofText t.2))] scope =
        pure (Node.tagStart tag attributes ++ escapeRawText tag (texts.map Prod.snd).flatten ++
          Node.tagEnd tag) := by
      simp only [Part.renderAll, Part.render_textBlock, TextPart.renderAll_pushAll,
        List.nil_append, TextPart.renderAll_texts, pure_bind, List.append_nil, map_pure,
        Node.html_textHolder hh]
    rw [Tree.parts, Tree.htmlAll_head sem call ns tag attrs hn]
    simp only [hinner, bind_pure_comp, RenderM.map_asking]
    simp [Tree.meaning]

theorem Tree.htmlAll_partsAll {o : Options δ} {nested : Bool} (ts : List (Tree δ))
    (h : Tree.ValidAll o nested ts) (ns : Namespace) (scope : Scope) :
    Part.htmlAll sem call scope (Tree.partsAll ns ts) =
      RenderM.asking fun r => Tree.meaningAll sem r ts scope := by
  match ts with
  | [] => rfl
  | t :: ts =>
    simp only [Tree.partsAll, Part.htmlAll_append, Tree.meaningAll, Tree.htmlAll_parts t h.1,
      Tree.htmlAll_partsAll ts h.2, RenderM.pure_eq_asking, RenderM.asking_bind]
    rfl

end

end

theorem RenderM.map_within {α β : Type} (g : α → β) (view : Option (View δ))
    (filename : Option Text) (act : RenderM δ α) :
    g <$> within view filename act = within view filename (g <$> act) := by
  funext s
  rw [map_apply]
  simp only [within, map_apply]
  rfl

theorem View.map_render_template {α : Type} (g : Fragment → α) (sem : Semantics δ) (serial : Nat)
    (body : Body δ) (filename : Option Text) (scope : Scope)
    (f : Surroundings → Except RenderError α)
    (h : ∀ call, g <$> Part.renderAll sem call body scope = RenderM.asking f) (s : RenderState δ) :
    ((g <$> (View.template serial body [] filename).render sem scope : RenderM δ α) s).1 =
      (f { s.context.around with filename }).mapError Failure.error := by
  have hrender : (View.template serial body [] filename).render sem scope =
      (RenderM.modifyContext (·.define []) >>= fun _ =>
        RenderM.within (some (View.template serial body [] filename)) filename
          (Part.renderAll sem (renderWithin sem (deepest - 1)) body scope)) := rfl
  rw [hrender, map_bind, RenderM.map_within, h]
  change (RenderM.asking f _).1 = _
  rw [RenderM.asking_apply]
  rfl

/-- A template of the parts of trees renders to what the trees mean. -/
theorem View.render_trees {o : Options δ} {ts : List (Tree δ)} (h : Tree.ValidAll o true ts)
    (serial : Nat) (sem : Semantics δ) (scope : Scope) (s : RenderState δ) :
    ((Fragment.html <$> (View.template serial (Part.pushAll [] (Tree.partsAll .html ts)) []
        o.filename).render sem scope : RenderM δ Text) s).1 =
      (Tree.meaningAll sem { s.context.around with filename := o.filename } ts scope).mapError
        Failure.error := by
  refine View.map_render_template Fragment.html sem serial _ o.filename scope
    (fun r => Tree.meaningAll sem r ts scope) (fun call => ?_) s
  change Part.htmlAll sem call scope _ = _
  rw [Part.htmlAll_pushAll, List.nil_append]
  exact Tree.htmlAll_partsAll sem call ts h .html scope

/-- Compiling the events of a tree succeeds. The markup of the view in any scope is the meaning of
the tree there; where an evaluation fails, rendering fails as the first one does. -/
theorem render_compileEvents_trees {o : Options δ} {ts : List (Tree δ)}
    (h : Tree.ValidAll o true ts) (serial : Nat) (stop : Spot) :
    ∃ c, compileEvents o serial (Tree.eventsAll ts ++ [⟨stop, .done⟩]) = .ok c ∧
      ∀ (sem : Semantics δ) (scope : Scope) (s : RenderState δ),
        ((Fragment.html <$> c.view.render sem scope : RenderM δ Text) s).1 =
          (Tree.meaningAll sem { s.context.around with filename := o.filename } ts scope).mapError
            Failure.error := by
  obtain ⟨warnings, hc⟩ := compileEvents_trees h serial stop
  exact ⟨_, hc, View.render_trees h serial⟩

/-- A list of names, or a line break if there are none:
`<p>{{#items}}{{name}}{{else}}<br>{{/items}}</p>`. -/
def Tree.ofItems : Tree .standard :=
  .element ⟨1, 1⟩ ⟨2, 1⟩ "p" []
    (some ([.branch ⟨⟨⟨3, 1⟩, "#items"⟩, ⟨"items", .lookup "items", false, 1⟩⟩
      [.value ⟨⟨⟨13, 1⟩, "name"⟩, ⟨"name", .lookup "name", false, 1⟩⟩ true]
      (some (⟨⟨21, 1⟩, "else"⟩, [.element ⟨30, 1⟩ ⟨32, 1⟩ "br" [] none])) ⟨⟨33, 1⟩, "/items"⟩],
      ⟨46, 1⟩))

theorem Tree.validAll_ofItems : Tree.ValidAll (.standard none) true [ofItems] := by
  have helement (tag : Text) (nested : Bool) :
      AttrTree.ValidAll (.standard none) tag nested [] := ⟨List.nodup_nil, by simp⟩
  have hhead : Reading.Opens (.standard none) (Options.site (.standard none) none none false)
      ⟨⟨⟨3, 1⟩, "#items"⟩, ⟨"items", .lookup "items", false, 1⟩⟩ :=
    .inl ⟨⟨by decide, by decide⟩,
      Expression.compileAt_name (by decide) (by decide) rfl .branch _⟩
  have hvalue : Reading.Compiles (.standard none) .escaped
      (Options.site (.standard none) none none true)
      ⟨⟨⟨13, 1⟩, "name"⟩, ⟨"name", .lookup "name", false, 1⟩⟩ :=
    ⟨⟨by decide, by decide⟩, Expression.compileAt_name (by decide) (by decide) rfl .escaped _⟩
  have hturn : Mark.Turns (.standard none) ⟨⟨21, 1⟩, "else"⟩ := by
    change _ = _
    decide
  have hclose : Mark.HasMode (.standard none) .close ⟨⟨33, 1⟩, "/items"⟩ :=
    ⟨by decide, by decide⟩
  have hbreak : Tree.Valid (.standard none) true
      (.element ⟨30, 1⟩ ⟨32, 1⟩ "br" [] none : Tree .standard) :=
    ⟨by decide, by decide, helement _ _, trivial⟩
  exact ⟨⟨by decide, by decide, helement _ _, by decide,
    ⟨hhead, ⟨hvalue, trivial⟩, ⟨hturn, hbreak, trivial⟩, hclose⟩, trivial⟩, trivial⟩

theorem render_compileEvents_ofItems :
    Tree.ValidAll (.standard none) true [Tree.ofItems] ∧
      ∃ c, compileEvents (.standard none) 0 (Tree.eventsAll [Tree.ofItems] ++ [⟨⟨50, 1⟩, .done⟩]) =
          .ok c ∧
        ((Fragment.html <$> c.view.render (Semantics.standard []) (.root .null) : RenderM _ Text)
          ⟨.empty, .empty⟩).1.toOption = some "<p><br></p>".toList ∧
        ((Fragment.html <$> c.view.render (Semantics.standard []) (.root (.obj [("items",
            .arr [.obj [("name", .str "a")], .obj [("name", .str "b")]])])) : RenderM _ Text)
          ⟨.empty, .empty⟩).1.toOption = some "<p>ab</p>".toList := by
  obtain ⟨c, hc, hr⟩ := render_compileEvents_trees Tree.validAll_ofItems 0 ⟨50, 1⟩
  refine ⟨Tree.validAll_ofItems, c, hc, ?_, ?_⟩
  · rw [hr]
    decide
  · rw [hr]
    decide

end Stencil
