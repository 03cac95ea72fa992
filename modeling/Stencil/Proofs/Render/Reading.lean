import Stencil.Proofs.Template.Draft
import Stencil.Render.Run

/-!
Rendering that only reads. What an expression evaluates to depends on the scope and on what is
around the render, and evaluating it changes nothing. An action built from such evaluations is one
function of its surroundings, so renders of that kind are compared as functions and not as state
machines. Merging static text, which is done while a template compiles, does not show in what is
rendered.
-/

set_option autoImplicit false

namespace Stencil

variable {δ : Dialect}

namespace RenderM

def asking {α : Type} (f : Surroundings → Except RenderError α) : RenderM δ α := do
  lift (f (← around))

theorem asking_apply {α : Type} (f : Surroundings → Except RenderError α) (s : RenderState δ) :
    asking f s = ((f s.context.around).mapError Failure.error, s) := by
  change lift (f s.context.around) s = _
  cases f s.context.around <;> rfl

theorem pure_eq_asking {α : Type} (a : α) : (pure a : RenderM δ α) = asking fun _ => .ok a := rfl

theorem asking_bind {α β : Type} (f : Surroundings → Except RenderError α)
    (g : α → Surroundings → Except RenderError β) :
    (asking f >>= fun a => asking (g a) : RenderM δ β) =
      asking fun r => f r >>= fun a => g a r := by
  funext s
  change ExceptT.bindCont (fun a => asking (g a)) (asking f s).1 (asking f s).2 = _
  rw [asking_apply, asking_apply]
  cases hf : f s.context.around with
  | error e => rfl
  | ok a => exact asking_apply (g a) s

theorem map_asking {α β : Type} (h : α → β) (f : Surroundings → Except RenderError α) :
    (h <$> asking f : RenderM δ β) = asking fun r => h <$> f r := by
  have hb := asking_bind (δ := δ) f fun a _ => .ok (h a)
  rw [← bind_pure_comp]
  exact hb

theorem mapM_asking {α β : Type} (f : α → Surroundings → Except RenderError β) (xs : List α) :
    (xs.mapM fun x => asking (f x) : RenderM δ (List β)) =
      asking fun r => xs.mapM fun x => f x r := by
  induction xs with
  | nil => rfl
  | cons x xs ih =>
    simp only [List.mapM_cons, ih, pure_eq_asking, asking_bind]
    rfl

theorem map_apply {α β : Type} (g : α → β) (act : RenderM δ α) (s : RenderState δ) :
    (g <$> act : RenderM δ β) s = ((act s).1.map g, (act s).2) := by
  change ExceptT.run (g <$> act) s = _
  rw [ExceptT.run_map]
  rfl

/-- The action gives a result and changes nothing. -/
def Gives {α : Type} (act : RenderM δ α) (s : RenderState δ) (x : α) : Prop := act s = (.ok x, s)

section

variable {α β : Type} {s : RenderState δ}

theorem Gives.pure (s : RenderState δ) (x : α) : (Pure.pure x : RenderM δ α).Gives s x := rfl

theorem bind_of_eq {act : RenderM δ α} {f : α → RenderM δ β} {s s' : RenderState δ} {x : α}
    (h : act s = (.ok x, s')) : (act >>= f) s = f x s' := by
  change ExceptT.bindCont f (act s).1 (act s).2 = _
  rw [h]
  rfl

theorem Gives.bind {act : RenderM δ α} {f : α → RenderM δ β} {x : α} {y : β}
    (h : act.Gives s x) (g : (f x).Gives s y) : (act >>= f).Gives s y :=
  (bind_of_eq h).trans g

theorem gives_asking {f : Surroundings → Except RenderError α} {x : α}
    (h : f s.context.around = .ok x) : (asking f : RenderM δ α).Gives s x := by
  rw [Gives, asking_apply, h]
  rfl

end

end RenderM

theorem Semantics.branchIn_eq_asking (sem : Semantics δ) (e : δ.Expr) (scope : Scope) :
    sem.branchIn e scope = RenderM.asking (sem.branch e scope) := rfl

theorem Semantics.textIn_eq_asking (sem : Semantics δ) (e : δ.Expr) (scope : Scope) :
    sem.textIn e scope = RenderM.asking fun r => Value.toText <$> sem.value e scope r :=
  RenderM.map_asking _ _

theorem Semantics.asking_branch (sem : Semantics δ) (e : δ.Expr) (scope : Scope)
    {primary : Scope → RenderM δ Text} {inverse : RenderM δ Text}
    {f : Scope → Surroundings → Except RenderError Text}
    {g : Surroundings → Except RenderError Text}
    (hp : ∀ inner, primary inner = RenderM.asking (f inner)) (hi : inverse = RenderM.asking g) :
    (do
      match ← sem.branchIn e scope with
      | .primary scopes => return (← scopes.mapM primary).flatten
      | .inverse => inverse) =
    (RenderM.asking fun r => do
      match ← sem.branch e scope r with
      | .primary scopes => return (← scopes.mapM fun inner => f inner r).flatten
      | .inverse => g r) := by
  rw [branchIn_eq_asking, ← RenderM.asking_bind]
  congr 1
  funext b
  cases b with
  | primary scopes =>
    change (scopes.mapM primary >>= fun texts => pure texts.flatten) = _
    rw [funext hp, RenderM.mapM_asking f scopes]
    exact RenderM.asking_bind _ fun (texts : List Text) _ => .ok texts.flatten
  | inverse => exact hi

/-- What is seen of nodes, in a holder of text or elsewhere: their text, and whether there are
any. -/
def Fragment.look (holder : Option Text) (nodes : Fragment) : Text × Bool :=
  (Fragment.htmlIn holder nodes, nodes.isEmpty)

theorem Fragment.look_append (holder : Option Text) (xs ys : Fragment) :
    look holder (xs ++ ys) =
      ((look holder xs).1 ++ (look holder ys).1, (look holder xs).2 && (look holder ys).2) := by
  cases xs <;> simp [look, htmlIn_append, htmlIn]

section

variable (sem : Semantics δ) (call : Caller δ) (scope : Scope)

theorem TextPart.renderAll_append (ps qs : List (TextPart δ)) :
    renderAll sem call (ps ++ qs) scope = do
      let text ← renderAll sem call ps scope
      return text ++ (← renderAll sem call qs scope) := by
  induction ps with
  | nil => simp [renderAll]
  | cons p ps ih =>
    simp only [List.cons_append, renderAll, ih, bind_assoc, pure_bind, List.append_assoc]

theorem TextPart.renderAll_singleton (p : TextPart δ) :
    renderAll sem call [p] scope = p.render sem call scope := by
  simp [renderAll]

theorem TextPart.renderAll_push (ps : List (TextPart δ)) (p : TextPart δ) :
    renderAll sem call (push ps p) scope = renderAll sem call (ps ++ [p]) scope := by
  fun_induction push ps p with
  | case1 p => rfl
  | case2 s t => simp [renderAll, render]
  | case3 q qs p _ ih => simp only [List.cons_append, renderAll, ih]

theorem TextPart.renderAll_pushAll (ps qs : List (TextPart δ)) :
    renderAll sem call (pushAll ps qs) scope = renderAll sem call (ps ++ qs) scope := by
  induction qs generalizing ps with
  | nil => simp [pushAll]
  | cons q qs ih =>
    have h := ih (push ps q)
    rw [renderAll_append, renderAll_push, ← renderAll_append, List.append_assoc] at h
    exact h

def Part.htmlAll (ps : Body δ) : RenderM δ Text :=
  Fragment.html <$> Part.renderAll sem call ps scope

theorem Part.renderAll_append (ps qs : Body δ) :
    renderAll sem call (ps ++ qs) scope = do
      let nodes ← renderAll sem call ps scope
      return nodes ++ (← renderAll sem call qs scope) := by
  induction ps with
  | nil => simp [renderAll]
  | cons p ps ih =>
    simp only [List.cons_append, renderAll, ih, bind_assoc, pure_bind, List.append_assoc]

theorem Part.renderAll_singleton (p : Part δ) :
    renderAll sem call [p] scope = p.render sem call scope := by
  simp [renderAll]

theorem Part.render_text (content : Text) :
    render sem call (.text content) scope = pure [.text content] := rfl

theorem Part.render_comment (content : Text) :
    render sem call (.comment content) scope = pure [.comment content] := rfl

theorem Part.render_value (e : δ.Expr) (escaped : Bool) :
    render sem call (.value e escaped) scope = do
      let text ← sem.textIn e scope
      return if text.isEmpty then [] else [if escaped then .text text else .raw text] := rfl

theorem Part.render_branch (e : δ.Expr) (primary : Body δ) (inverse : Option (Body δ)) :
    render sem call (.branch e primary inverse) scope = (do
      match ← sem.branchIn e scope with
      | .primary scopes =>
        return (← scopes.mapM fun inner => renderAll sem call primary inner).flatten
      | .inverse =>
        match inverse with
        | none => return []
        | some parts => renderAll sem call parts scope) := by
  cases inverse <;> rfl

theorem Part.render_textBlock (parts : List (TextPart δ)) :
    render sem call (.textBlock parts) scope = do
      let text ← TextPart.renderAll sem call parts scope
      return if text.isEmpty then [] else [.text text] := rfl

theorem Part.render_element (head : ElementHead δ) (children : Body δ) :
    render sem call (.element head children) scope = do
      let element ← AttrTemplate.applyAll sem call head.attrs scope (.new head.tag head.ns)
      let nodes ← renderAll sem call children scope
      let element ← Hook.applyAll sem call head.hooks scope (element.append nodes)
      return [element.toNode] := rfl

theorem Part.look_append (ps qs : Body δ) :
    Fragment.look none <$> renderAll sem call (ps ++ qs) scope = (do
      let seen ← Fragment.look none <$> renderAll sem call ps scope
      let more ← Fragment.look none <$> renderAll sem call qs scope
      return (seen.1 ++ more.1, seen.2 && more.2)) := by
  simp only [renderAll_append, map_eq_pure_bind, bind_assoc, pure_bind, Fragment.look_append]

theorem Part.look_push (ps : Body δ) (p : Part δ) :
    Fragment.look none <$> renderAll sem call (push ps p) scope =
      Fragment.look none <$> renderAll sem call (ps ++ [p]) scope := by
  fun_induction push ps p with
  | case1 p => rfl
  | case2 s t => simp [renderAll, render_text, Fragment.look, Fragment.htmlIn, Node.htmlIn]
  | case3 q qs p _ ih =>
    have h : ∀ rs : Body δ, q :: rs = [q] ++ rs := fun _ => rfl
    rw [h, look_append, ih, ← look_append]
    rfl

theorem Part.look_pushAll (ps qs : Body δ) :
    Fragment.look none <$> renderAll sem call (pushAll ps qs) scope =
      Fragment.look none <$> renderAll sem call (ps ++ qs) scope := by
  induction qs generalizing ps with
  | nil => simp [pushAll]
  | cons q qs ih =>
    have h := ih (push ps q)
    rw [look_append, look_push, ← look_append, List.append_assoc] at h
    exact h

theorem Part.htmlAll_append (ps qs : Body δ) :
    htmlAll sem call scope (ps ++ qs) = do
      let text ← htmlAll sem call scope ps
      return text ++ (← htmlAll sem call scope qs) := by
  simp only [htmlAll, renderAll_append, map_eq_pure_bind, bind_assoc, pure_bind, Fragment.html,
    Fragment.htmlIn_append]

theorem Part.htmlAll_singleton (p : Part δ) :
    htmlAll sem call scope [p] = Fragment.html <$> p.render sem call scope := by
  simp [htmlAll, renderAll]

theorem Part.htmlAll_eq_look (ps : Body δ) :
    htmlAll sem call scope ps =
      Prod.fst <$> Fragment.look none <$> renderAll sem call ps scope := by
  simp only [htmlAll, Functor.map_map]
  rfl

theorem Part.htmlAll_pushAll (ps qs : Body δ) :
    htmlAll sem call scope (pushAll ps qs) = htmlAll sem call scope (ps ++ qs) := by
  rw [htmlAll_eq_look, look_pushAll, ← htmlAll_eq_look]

theorem Part.html_mapM (primary : Body δ) (scopes : List Scope) :
    Fragment.html <$> List.flatten <$> scopes.mapM (renderAll sem call primary) =
      List.flatten <$> scopes.mapM fun inner => htmlAll sem call inner primary := by
  induction scopes with
  | nil => simp [Fragment.html, Fragment.htmlIn]
  | cons s scopes ih =>
    have hsplit :
        Fragment.html <$> List.flatten <$> (s :: scopes).mapM (renderAll sem call primary) =
        (do
          let text ← htmlAll sem call s primary
          return text ++ (← Fragment.html <$> List.flatten <$>
            scopes.mapM (renderAll sem call primary))) := by
      simp only [List.mapM_cons, htmlAll, map_eq_pure_bind, bind_assoc, pure_bind,
        List.flatten_cons, Fragment.html, Fragment.htmlIn_append]
    rw [hsplit, ih]
    simp

theorem Part.htmlAll_branch (e : δ.Expr) (primary : Body δ) (inverse : Option (Body δ)) :
    htmlAll sem call scope [.branch e primary inverse] = (do
      match ← sem.branchIn e scope with
      | .primary scopes =>
        return (← scopes.mapM fun inner => htmlAll sem call inner primary).flatten
      | .inverse =>
        match inverse with
        | none => return []
        | some parts => htmlAll sem call scope parts) := by
  rw [htmlAll_singleton, render_branch, map_bind]
  congr 1
  funext b
  cases b with
  | primary scopes =>
    have h := html_mapM sem call primary scopes
    simpa using h
  | inverse =>
    cases inverse with
    | none => simp [Fragment.html, Fragment.htmlIn]
    | some parts => rfl

end

end Stencil
