import Stencil.Proofs.Expression.OutwardPath
import Stencil.Proofs.Markup.Bounded
import Stencil.Proofs.Render.History
import Stencil.Proofs.Render.TreeRender

/-!
A view that calls itself. The template of an outline puts out the name of the value it is rendered
against and calls itself for each child of that value. What ends the recursion is the data: a call
renders against a child, whose own name and children hide those of all the frames around it, and a
tree of a given height nests as many renders of the view, no more and no fewer.
-/

set_option autoImplicit false

namespace Stencil

variable {δ : Dialect} {α β γ : Type}

def RenderM.Ends (act : RenderM δ α) (s : RenderState δ) (x : Except Failure α) : Prop :=
  act s = (x, s)

namespace RenderM

variable {act : RenderM δ α} {f : α → RenderM δ β} {s : RenderState δ}

theorem Gives.ends_bind {a : α} {y : Except Failure β} (h : act.Gives s a) (hf : (f a).Ends s y) :
    (act >>= f).Ends s y :=
  (bind_of_eq h).trans hf

theorem Ends.bind {x : Except Failure α} {g : α → Except Failure β} (h : act.Ends s x)
    (hf : ∀ a, (f a).Ends s (g a)) : (act >>= f).Ends s (x >>= g) := by
  rw [Ends, bind_apply, h]
  cases x with
  | error e => rfl
  | ok a => exact hf a

theorem Ends.bind_pure {x : Except Failure α} (h : act.Ends s x) (g : α → β) :
    (act >>= fun a => pure (g a)).Ends s (x.map g) := by
  rw [Ends, bind_apply, h]
  cases x <;> rfl

end RenderM

theorem Expression.data_itemScopes (scope : Scope) (items : List Value) :
    (itemScopes scope items).map Scope.data = items := by
  refine List.ext_getElem (by simp [itemScopes]) fun i _ _ => ?_
  simp [itemScopes, Scope.addItem, Scope.data]

/-- A tree of names. -/
inductive Outline where
  | node (name : Text) (children : List Outline)

namespace Outline

mutual

/-- A value is the tree if it is an object with a name of its own and a list of children of its
own, which are the children of the tree one by one. What other fields it has is of no account. -/
def IsIn : Outline → Value → Prop
  | .node name children, v => ∃ fields items, v = .obj fields ∧
    fields.lookup "name".toList = some (.str name) ∧
    fields.lookup "children".toList = some (.arr items) ∧ AllIn children items

def AllIn : List Outline → List Value → Prop
  | [], items => items = []
  | t :: ts, items => ∃ v rest, items = v :: rest ∧ t.IsIn v ∧ AllIn ts rest

end

mutual

def height : Outline → Nat
  | .node _ children => heightAll children + 1

def heightAll : List Outline → Nat
  | [] => 0
  | t :: ts => max t.height (heightAll ts)

end

mutual

/-- The walk through the tree in preorder: the name of a node, and then the walks through its
children in their order, each in a list of its own. -/
def walk : Outline → Text
  | .node name children => Text.escapeText name ++ walkAll children

def walkAll : List Outline → Text
  | [] => []
  | t :: ts => "<ul>" ++ (t.walk ++ ("</ul>" ++ walkAll ts))

end

mutual

def nodes : Outline → Fragment
  | .node name children => (if name.isEmpty then [] else [.text name]) ++ nodesAll children

def nodesAll : List Outline → Fragment
  | [] => []
  | t :: ts => .element "ul" .html [] t.nodes :: nodesAll ts

end

theorem flatten_items (ts : List Outline) :
    (ts.map fun t => [.element "ul" .html [] t.nodes]).flatten = nodesAll ts := by
  induction ts with
  | nil => rfl
  | cons t ts ih => rw [List.map_cons, List.flatten_cons, ih, nodesAll, List.singleton_append]

mutual

theorem html_nodes (t : Outline) : Fragment.html t.nodes = t.walk := by
  match t with
  | .node name children =>
    have hchildren := html_nodesAll children
    rw [Fragment.html] at hchildren
    rw [nodes, walk, Fragment.html, Fragment.htmlIn_append, hchildren]
    cases name with
    | nil => rfl
    | cons c name => simp [Fragment.htmlIn, Node.htmlIn]

theorem html_nodesAll (ts : List Outline) : Fragment.html (nodesAll ts) = walkAll ts := by
  match ts with
  | [] => rfl
  | t :: ts =>
    have htree := html_nodes t
    have hrest := html_nodesAll ts
    rw [Fragment.html] at htree hrest
    have hul : Tag.holdsText "ul" = false := by decide
    have hvoid : Tag.isVoid "ul" = false := by decide
    simp only [nodesAll, walkAll, Fragment.html, Fragment.htmlIn, Node.htmlIn, hul, hvoid,
      Bool.and_false, Bool.false_eq_true, if_false, htree, hrest, List.append_assoc]
    rfl

end

def template : Text :=
  "\x7b\x7bname\x7d\x7d\x7b\x7b#children\x7d\x7d<ul>\x7b\x7b>scope.view\x7d\x7d</ul>" ++
    "\x7b\x7b/children\x7d\x7d".toList

def item : Body .standard := [.element ⟨"ul", .html, [], []⟩ [.call ⟨"scope.view", none⟩]]

def readName : Dialect.standard.Expr := Expression.mk "name" (.lookup "name") false 1

def readChildren : Dialect.standard.Expr := Expression.mk "children" (.lookup "children") false 1

def body : Body .standard := [.value readName true, .branch readChildren item none]

theorem compile_template (filename : Option Text) (serial : Nat) :
    compile (.standard filename) serial template =
      .ok ⟨.template serial body [] filename, []⟩ := by
  have hclean : (Options.standard filename).clean template = template := by
    change Whitespace.standaloneLines (Whitespace.control template) = template
    decide
  have hscan : scan template = [⟨⟨0, 1⟩, .marker "name"⟩, ⟨⟨8, 1⟩, .marker "#children"⟩,
      ⟨⟨22, 1⟩, .tagStart "ul" false⟩, ⟨⟨24, 1⟩, .tagEnd "ul" false⟩,
      ⟨⟨25, 1⟩, .marker ">scope.view"⟩, ⟨⟨44, 1⟩, .close "ul"⟩,
      ⟨⟨45, 1⟩, .marker "/children"⟩, ⟨⟨58, 1⟩, .done⟩] := by
    rw [scan_eq_runFor]
    decide
  have hname (site : Site) : Expression.compileAt .escaped "name" site =
      .ok ⟨"name", .lookup "name", false, site.line⟩ :=
    Expression.compileAt_name (by decide) (by decide) rfl .escaped site
  have hchildren (site : Site) : Expression.compileAt .branch "children" site =
      .ok ⟨"children", .lookup "children", false, site.line⟩ :=
    Expression.compileAt_name (by decide) (by decide) rfl .branch site
  let named : Assembly .standard :=
    { Assembly.empty with markup := MarkupDraft.empty.add (.value readName true) }
  let opened := named.inBranch (.branch, readChildren) "children" [] none [] 1
  -- only the two markers that hold a name are read by the lexer
  have hvalue : Assembly.step (.standard filename) .empty ⟨⟨0, 1⟩, .marker "name"⟩ = .ok named := by
    change (Expression.compileAt .escaped "name" _ >>= _) >>= _ = _
    rw [hname]
    rfl
  have hopen : Assembly.step (.standard filename) named ⟨⟨8, 1⟩, .marker "#children"⟩ =
      .ok opened := by
    change (Expression.compileAt .branch "children" _ >>= _) >>= _ = _
    rw [hchildren]
    rfl
  rw [compile, hclean, hscan, compileEvents, List.foldlM_cons, hvalue]
  change Except.mapError _ (Except.bind (Assembly.step _ named _ >>= _) _) = _
  rw [hopen]
  rfl

def needing (height depth : Nat) (a : α) : Except Failure α :=
  if height ≤ depth then .ok a else .error .tooDeep

theorem needing_map (height depth : Nat) (a : α) (f : α → β) :
    (needing height depth a).map f = needing height depth (f a) := by
  unfold needing
  split <;> rfl

theorem needing_succ (height depth : Nat) (a : α) :
    needing (height + 1) (depth + 1) a = needing height depth a := by
  simp only [needing, Nat.add_le_add_iff_right]

theorem needing_max (m n depth : Nat) (a : α) (b : β) (f : α → β → γ) :
    (needing m depth a >>= fun a => (needing n depth b).map (f a)) =
      needing (max m n) depth (f a b) := by
  by_cases hm : m ≤ depth
  · have hmax : max m n ≤ depth ↔ n ≤ depth := by omega
    simp only [needing, hm, if_true, hmax]
    exact needing_map n depth b (f a)
  · have hmax : ¬ max m n ≤ depth := by omega
    simp only [needing, hm, hmax, if_false]
    rfl

section

variable (helpers : HelperTable) {scope : Scope} {s : RenderState .standard}
  {call : Caller .standard}

theorem gives_readName {name : Text} (h : scope.data.child? "name" = some (.str name)) :
    (Part.render (.standard helpers) call (.value readName true) scope).Gives s
      (if name.isEmpty then [] else [.text name]) := by
  have hvalue (around : Surroundings) :
      (Semantics.standard helpers).value readName scope around = .ok (.str name) := by
    change Except.ok ((scope.field? "name").getD .null) = _
    rw [Scope.field?_of_own h]
    rfl
  have htext : ((Semantics.standard helpers).textIn readName scope).Gives s name := by
    rw [Semantics.textIn_eq_asking]
    exact RenderM.gives_asking (by rw [hvalue]; rfl)
  exact htext.bind rfl

theorem gives_readChildren {items : List Value}
    (h : scope.data.child? "children" = some (.arr items)) :
    ((Semantics.standard helpers).branchIn readChildren scope).Gives s
      (Expression.iterated (Expression.itemScopes scope items)) := by
  refine RenderM.gives_asking ?_
  change (((Except.ok ((scope.field? "children").getD .null)).map
    (Expression.branchOf scope)).map _) = _
  rw [Scope.field?_of_own h]
  rfl

theorem ends_call {v : View .standard} {x : Except Failure Fragment} {c : PartialCall .standard}
    (hname : c.name = "scope.view") (hcontext : c.context = none)
    (hview : s.context.view = some v) (h : (call v scope).Ends s x) :
    (c.render (.standard helpers) call scope).Ends s x := by
  have hasked : RenderM.context.Gives s s.context := rfl
  have hfound : (c.resolve (.standard helpers) scope).Gives s v := by
    rw [PartialCall.resolve, if_pos hname]
    refine hasked.bind ?_
    rw [hview]
    rfl
  have hscope : c.scopeIn (.standard helpers) scope = pure scope := by
    rw [PartialCall.scopeIn, hcontext]
  refine hfound.ends_bind ?_
  rw [hscope]
  exact h

theorem ends_item {v : View .standard} {x : Except Failure Fragment}
    (hview : s.context.view = some v) (h : (call v scope).Ends s x) :
    (Part.renderAll (.standard helpers) call item scope).Ends s
      (x.map fun nodes => [.element "ul" .html [] nodes]) := by
  have hcall : (Part.renderAll (.standard helpers) call [.call ⟨"scope.view", none⟩] scope).Ends s
      x := by
    rw [Part.renderAll_singleton]
    exact ends_call helpers rfl rfl hview h
  have hnew : (AttrTemplate.applyAll (.standard helpers) call [] scope (.new "ul" .html)).Gives s
    (.new "ul" .html) := rfl
  rw [item, Part.renderAll_singleton, Part.render_element]
  exact hnew.ends_bind (hcall.bind fun nodes => rfl)

theorem ends_branch {items : List Value} {x : Except Failure (List Fragment)}
    (hitems : scope.data.child? "children" = some (.arr items))
    (h : ((Expression.itemScopes scope items).mapM
      (Part.renderAll (.standard helpers) call item)).Ends s x) :
    (Part.render (.standard helpers) call (.branch readChildren item none) scope).Ends s
      (x.map List.flatten) := by
  rw [Part.render_branch]
  refine (gives_readChildren helpers hitems).ends_bind ?_
  cases items with
  | nil =>
    cases h
    rfl
  | cons v vs =>
    have hprimary : Expression.iterated (Expression.itemScopes scope (v :: vs)) =
        .primary (Expression.itemScopes scope (v :: vs)) := by
      simp [Expression.iterated, Expression.itemScopes]
    rw [hprimary]
    exact h.bind_pure List.flatten

mutual

/-- A view of the body renders the value of a tree to the nodes of the tree, if its height is no
more than how many views may be nested. If it is more, the render stops. -/
theorem ends_view {t : Outline} {scope : Scope} (ht : t.IsIn scope.data) (depth serial : Nat)
    (filename : Option Text) (s : RenderState .standard) :
    ((View.template serial body [] filename).renderWithin (.standard helpers) depth scope).Ends s
      (needing t.height depth t.nodes) := by
  match t, depth with
  | .node name children, 0 => rfl
  | .node name children, depth + 1 =>
    obtain ⟨fields, items, hdata, hname, hitems, hchildren⟩ := ht
    have hown : scope.data.child? "name" = some (.str name) := by
      rw [hdata]
      exact hname
    have hlist : scope.data.child? "children" = some (.arr items) := by
      rw [hdata]
      exact hitems
    -- inside, the view that is being rendered is this one
    let inner : RenderState .standard :=
      { s with context := s.context.enter (.template serial body [] filename) }
    rw [← Expression.data_itemScopes scope items] at hchildren
    have hbranch := ends_branch helpers hlist (ends_items hchildren depth serial filename
      (s := inner) rfl)
    rw [needing_map, flatten_items] at hbranch
    have hbody : (Part.renderAll (.standard helpers) (View.renderWithin (.standard helpers) depth)
        body scope).Ends inner
        (needing (heightAll children) depth (nodes (.node name children))) := by
      refine (gives_readName helpers hown).ends_bind ?_
      rw [Part.renderAll_singleton, nodes, ← needing_map]
      exact hbranch.bind_pure _
    rw [RenderM.Ends, View.renderWithin_succ, View.surround_template rfl]
    dsimp only [View.body]
    rw [hbody, height, needing_succ]
    rfl

theorem ends_items {ts : List Outline} {scopes : List Scope}
    (hts : AllIn ts (scopes.map Scope.data)) (depth serial : Nat) (filename : Option Text)
    {s : RenderState .standard}
    (hview : s.context.view = some (.template serial body [] filename)) :
    (scopes.mapM (Part.renderAll (.standard helpers)
        (View.renderWithin (.standard helpers) depth) item)).Ends s
      (needing (heightAll ts) depth (ts.map fun t => [.element "ul" .html [] t.nodes])) := by
  match ts, scopes with
  | [], [] => rfl
  | [], scope :: scopes => cases hts
  | t :: ts, [] =>
    obtain ⟨_, _, hcons, -⟩ := hts
    cases hcons
  | t :: ts, scope :: scopes =>
    obtain ⟨_, _, hcons, ht, hrest⟩ := hts
    cases hcons
    have hfirst := ends_item helpers hview (ends_view ht depth serial filename s)
    have hothers := ends_items hrest depth serial filename hview
    rw [needing_map] at hfirst
    rw [List.mapM_cons, List.map_cons, heightAll, ← needing_max]
    exact hfirst.bind fun nodes => hothers.bind_pure (nodes :: ·)

end

end

/-- The template compiles. Its view renders the value of a tree, in whatever scope that is the
innermost value of, to the walk through the tree. It takes as many renders nested in one another
as the tree is high: with fewer it stops. A render by itself has `View.deepest` of them. -/
theorem render_compile_template (filename : Option Text) (serial : Nat) :
    ∃ view, compile (.standard filename) serial template = .ok ⟨view, []⟩ ∧
      ∀ (helpers : HelperTable) (t : Outline) (scope : Scope), t.IsIn scope.data →
        ∃ nodes, Fragment.html nodes = t.walk ∧
          ∀ (depth : Nat) (s : RenderState .standard),
            view.renderWithin (.standard helpers) depth scope s =
              (if t.height ≤ depth then .ok nodes else .error .tooDeep, s) :=
  ⟨_, compile_template filename serial, fun helpers t _ ht =>
    ⟨t.nodes, t.html_nodes, fun depth => ends_view helpers ht depth serial filename⟩⟩

def small : Outline := .node "a<" [.node "b" [.node "c" []], .node "d" []]

def smallValue : Value :=
  .obj [("children", .arr [
      .obj [("children", .arr [.obj [("children", .arr []), ("name", .str "c")]]),
        ("name", .str "b")],
      .obj [("children", .arr []), ("kind", .null), ("name", .str "d")]]),
    ("name", .str "a<")]

theorem isIn_smallValue : small.IsIn smallValue :=
  ⟨_, _, rfl, rfl, rfl, _, _, rfl,
    ⟨_, _, rfl, rfl, rfl, _, _, rfl, ⟨_, _, rfl, rfl, rfl, rfl⟩, rfl⟩,
    _, _, rfl, ⟨_, _, rfl, rfl, rfl, rfl⟩, rfl⟩

theorem render_compile_small :
    small.IsIn smallValue ∧
      ∃ view, compile (.standard none) 0 template = .ok ⟨view, []⟩ ∧
        ((Fragment.html <$> view.render (Semantics.standard []) (.root smallValue) :
          RenderM _ Text) ⟨.empty, .empty⟩).1 =
            .ok "a&lt;<ul>b<ul>c</ul></ul><ul>d</ul>".toList ∧
        view.renderWithin (Semantics.standard []) 2 (.root smallValue) ⟨.empty, .empty⟩ =
          (.error .tooDeep, ⟨.empty, .empty⟩) := by
  obtain ⟨view, hc, hr⟩ := render_compile_template none 0
  obtain ⟨nodes, hhtml, hrender⟩ := hr [] small (.root smallValue) isIn_smallValue
  have hheight : small.height = 3 := rfl
  have hwalk : small.walk = "a&lt;<ul>b<ul>c</ul></ul><ul>d</ul>".toList := by decide
  refine ⟨isIn_smallValue, view, hc, ?_, ?_⟩
  · rw [View.render, RenderM.map_apply, hrender, if_pos (by rw [hheight]; decide)]
    exact congrArg Except.ok (hhtml.trans hwalk)
  · rw [hrender, if_neg (by rw [hheight]; decide)]

end Outline

end Stencil
