import Stencil.Proofs.Render.History
import Stencil.Standard

/-!
The renderer on watched actions, for a dialect whose handlers are given as scripts. It follows the
renderer part by part and sees each evaluation, each line that is set, each call that finds its
view and each step of a handler. Without what is seen it is the renderer.
-/

set_option autoImplicit false

namespace Stencil

variable {δ : Dialect} {κ : Type} {sem : Semantics δ} {keep : Context δ → κ}

abbrev Watcher (keep : Context δ → κ) := View δ → Scope → Watched keep Fragment

def Watcher.caller (w : Watcher keep) : Caller δ := fun v scope => (w v scope).act

namespace Semantics

def watchBranch (sem : Semantics δ) (e : δ.Expr) (scope : Scope) : Watched keep Branch :=
  .ask (sem.branch e scope)

def watchText (sem : Semantics δ) (e : δ.Expr) (scope : Scope) : Watched keep Text :=
  .ask fun r => Value.toText <$> sem.value e scope r

def watchValue (sem : Semantics δ) (e : δ.Expr) (scope : Scope) : Watched keep Value :=
  .ask (sem.value e scope)

theorem act_watchBranch (e : δ.Expr) (scope : Scope) :
    (sem.watchBranch e scope : Watched keep Branch).act = sem.branchIn e scope :=
  (sem.branchIn_eq_asking e scope).symm

theorem act_watchText (e : δ.Expr) (scope : Scope) :
    (sem.watchText e scope : Watched keep Text).act = sem.textIn e scope :=
  (sem.textIn_eq_asking e scope).symm

theorem act_branch {α : Type} (sem : Semantics δ) (e : δ.Expr) (scope : Scope)
    (primary : Scope → Watched keep (List α)) (inverse : Watched keep (List α)) :
    Watched.act (do
      match ← sem.watchBranch e scope with
      | .primary scopes => return (← scopes.mapM primary).flatten
      | .inverse => inverse) =
    (do
      match ← sem.branchIn e scope with
      | .primary scopes => return (← scopes.mapM fun inner => (primary inner).act).flatten
      | .inverse => inverse.act) := by
  rw [Watched.act_bind, act_watchBranch]
  refine bind_congr fun b => ?_
  cases b with
  | primary scopes => simp only [Watched.act_bind, Watched.act_mapM, Watched.act_pure]
  | inverse => rfl

end Semantics

namespace PartialCall

def watchScope (sem : Semantics δ) (c : PartialCall δ) (scope : Scope) : Watched keep Scope :=
  match c.context with
  | none => pure scope
  | some e => scope.add <$> sem.watchValue e scope

def watch (sem : Semantics δ) (w : Watcher keep) (c : PartialCall δ) (scope : Scope) :
    Watched keep Fragment := do
  let v ← .resolve sem c scope
  w v (← c.watchScope sem scope)

theorem act_watchScope (c : PartialCall δ) (scope : Scope) :
    (c.watchScope sem scope : Watched keep Scope).act = c.scopeIn sem scope := by
  obtain ⟨name, _ | e⟩ := c
  · rfl
  · exact Watched.act_map scope.add (sem.watchValue e scope)

theorem act_watch (w : Watcher keep) (c : PartialCall δ) (scope : Scope) :
    (c.watch sem w scope).act = c.render sem w.caller scope := by
  simp only [watch, render, Watched.act_bind, act_watchScope]
  rfl

end PartialCall

mutual

def TextPart.watch (sem : Semantics δ) (w : Watcher keep) (p : TextPart δ) (scope : Scope) :
    Watched keep Text :=
  match p with
  | .static text => pure text
  | .value e quoted => do
    let text ← sem.watchText e scope
    return if quoted then Text.escapeAttribute text else text
  | .branch e primary inverse => do
    match ← sem.watchBranch e scope with
    | .primary scopes =>
      return (← scopes.mapM fun inner => TextPart.watchAll sem w primary inner).flatten
    | .inverse =>
      match inverse with
      | none => return []
      | some parts => TextPart.watchAll sem w parts scope
  | .call c => do return (← c.watch sem w scope).html
termination_by structural p

def TextPart.watchAll (sem : Semantics δ) (w : Watcher keep) (ps : List (TextPart δ))
    (scope : Scope) : Watched keep Text :=
  match ps with
  | [] => pure []
  | p :: ps => do
    let text ← p.watch sem w scope
    return text ++ (← TextPart.watchAll sem w ps scope)
termination_by structural ps

end

mutual

theorem TextPart.act_watch (w : Watcher keep) (p : TextPart δ) (scope : Scope) :
    (p.watch sem w scope).act = p.render sem w.caller scope := by
  match p with
  | .static _ => rfl
  | .value e quoted =>
    simp only [watch, render, Watched.act_bind, Semantics.act_watchText, Watched.act_pure]
  | .branch e primary none =>
    have h := sem.act_branch e scope (TextPart.watchAll sem w primary) (pure [])
    simp only [TextPart.act_watchAll w primary] at h
    exact h
  | .branch e primary (some parts) =>
    have h := sem.act_branch e scope (TextPart.watchAll sem w primary)
      (TextPart.watchAll sem w parts scope)
    simp only [TextPart.act_watchAll w primary, TextPart.act_watchAll w parts] at h
    exact h
  | .call c => simp only [watch, render, Watched.act_bind, PartialCall.act_watch, Watched.act_pure]

theorem TextPart.act_watchAll (w : Watcher keep) (ps : List (TextPart δ)) (scope : Scope) :
    (TextPart.watchAll sem w ps scope).act = TextPart.renderAll sem w.caller ps scope := by
  match ps with
  | [] => rfl
  | p :: ps =>
    simp only [watchAll, renderAll, Watched.act_bind, TextPart.act_watch w p,
      TextPart.act_watchAll w ps, Watched.act_pure]

end

section

variable (scripts : Scripts sem keep) (w : Watcher keep)

def AttrTemplate.watchAll (sem : Semantics δ) (w : Watcher keep) :
    List (AttrTemplate δ) → Scope → Element → Watched keep Element
  | [], _, element => pure element
  | a :: attrs, scope, element => do
    let value ← match a.value with
      | .static value => pure value
      | .dynamic parts => TextPart.watchAll sem w parts scope
    watchAll sem w attrs scope (element.setAttribute a.name value)

theorem AttrTemplate.act_watchAll (attrs : List (AttrTemplate δ)) (scope : Scope)
    (element : Element) :
    (watchAll sem w attrs scope element).act = applyAll sem w.caller attrs scope element := by
  induction attrs generalizing element with
  | nil => rfl
  | cons a attrs ih =>
    obtain ⟨name, value | parts⟩ := a
    · simp only [watchAll, applyAll, Watched.act_bind, ih, Watched.act_pure]
    · simp only [watchAll, applyAll, Watched.act_bind, ih, TextPart.act_watchAll]

def Hook.watch (h : Hook δ) (scope : Scope) (element : Element) : Watched keep Element :=
  match h with
  | .attribute handler name line => do
    Watched.setLine line
    (scripts.attr handler ⟨name, scope⟩ element).watch Empty.elim
  | .tagText parts => do
    let text ← TextPart.watchAll sem w parts scope
    return (TagText.attributesOf text).foldl (fun e (n, v) => e.setAttribute n v) element

theorem Hook.act_watch (h : Hook δ) (scope : Scope) (element : Element) :
    (h.watch scripts w scope element).act = h.apply sem w.caller scope element := by
  match h with
  | .attribute handler name line =>
    have hrender : (fun what => (Empty.elim what : Watched keep Fragment).act) = Empty.elim :=
      funext nofun
    simp only [watch, apply, Watched.act_bind, Script.act_watch, scripts.attr_eq, hrender]
    rfl
  | .tagText parts =>
    simp only [watch, apply, Watched.act_bind, TextPart.act_watchAll, Watched.act_pure]

def Hook.watchAll (scope : Scope) : List (Hook δ) → Element → Watched keep Element
  | [], element => pure element
  | h :: hooks, element => do watchAll scope hooks (← h.watch scripts w scope element)

theorem Hook.act_watchAll (hooks : List (Hook δ)) (scope : Scope) (element : Element) :
    (watchAll scripts w scope hooks element).act = applyAll sem w.caller hooks scope element := by
  induction hooks generalizing element with
  | nil => rfl
  | cons h hooks ih =>
    simp only [watchAll, applyAll, Watched.act_bind, Hook.act_watch, ih]

def CustomTag.watch (custom : CustomTag δ) (tag : Text) (body : Option (Body δ))
    (templates : Option (Dict (Body δ))) (scope : Scope) (element : Element) :
    Watched keep (Element × Option Scope) := do
  Watched.setLine custom.line
  let render := fun _ _ => pure []
  let directlyNested := custom.directlyNested
  (scripts.tag custom.handler { tag, scope, body, templateType, directlyNested, templates, render }
    element).watch fun (v, inner) => (w (.inline 0 tag v.body) inner).surround v

theorem CustomTag.act_watch (custom : CustomTag δ) (tag : Text) (body : Option (Body δ))
    (templates : Option (Dict (Body δ))) (scope : Scope) (element : Element) :
    (custom.watch scripts w tag body templates scope element).act =
      custom.call sem w.caller tag body templates scope element := by
  simp only [watch, call, Watched.act_bind, Script.act_watch, Watched.act_surround, scripts.tag_eq]
  rfl

end

mutual

def Part.watch (scripts : Scripts sem keep) (w : Watcher keep) (p : Part δ) (scope : Scope) :
    Watched keep Fragment :=
  match p with
  | .text content => pure [.text content]
  | .comment content => pure [.comment content]
  | .value e escaped => do
    let text ← sem.watchText e scope
    return if text.isEmpty then [] else [if escaped then .text text else .raw text]
  | .branch e primary inverse => do
    match ← sem.watchBranch e scope with
    | .primary scopes =>
      return (← scopes.mapM fun inner => Part.watchAll scripts w primary inner).flatten
    | .inverse =>
      match inverse with
      | none => return []
      | some parts => Part.watchAll scripts w parts scope
  | .call c => c.watch sem w scope
  | .textBlock parts => do
    let text ← TextPart.watchAll sem w parts scope
    return if text.isEmpty then [] else [.text text]
  | .element head children => do
    let element ← AttrTemplate.watchAll sem w head.attrs scope (.new head.tag head.ns)
    let nodes ← Part.watchAll scripts w children scope
    let element ← Hook.watchAll scripts w scope head.hooks (element.append nodes)
    return [element.toNode]
  | .custom head own body templates => do
    let element ← AttrTemplate.watchAll sem w head.attrs scope (.new head.tag head.ns)
    let (element, inner) ← own.watch scripts w head.tag body templates scope element
    let element ← match inner with
      | none => pure element
      | some inner =>
        match body with
        | none => pure element
        | some parts => element.append <$> Part.watchAll scripts w parts inner
    let element ← Hook.watchAll scripts w scope head.hooks element
    return [element.toNode]
termination_by structural p

def Part.watchAll (scripts : Scripts sem keep) (w : Watcher keep) (ps : Body δ) (scope : Scope) :
    Watched keep Fragment :=
  match ps with
  | [] => pure []
  | p :: ps => do
    let nodes ← p.watch scripts w scope
    return nodes ++ (← Part.watchAll scripts w ps scope)
termination_by structural ps

end

section

variable (scripts : Scripts sem keep) (w : Watcher keep)

mutual

theorem Part.act_watch (p : Part δ) (scope : Scope) :
    (p.watch scripts w scope).act = p.render sem w.caller scope := by
  match p with
  | .text _ => rfl
  | .comment _ => rfl
  | .value e escaped =>
    simp only [watch, render, Watched.act_bind, Semantics.act_watchText, Watched.act_pure]
  | .branch e primary none =>
    have h := sem.act_branch e scope (Part.watchAll scripts w primary) (pure [])
    simp only [Part.act_watchAll primary] at h
    exact h
  | .branch e primary (some parts) =>
    have h := sem.act_branch e scope (Part.watchAll scripts w primary)
      (Part.watchAll scripts w parts scope)
    simp only [Part.act_watchAll primary, Part.act_watchAll parts] at h
    exact h
  | .call c => exact c.act_watch w scope
  | .textBlock parts =>
    simp only [watch, render, Watched.act_bind, TextPart.act_watchAll, Watched.act_pure]
  | .element head children =>
    simp only [watch, render, Watched.act_bind, AttrTemplate.act_watchAll,
      Part.act_watchAll children, Hook.act_watchAll, Watched.act_pure]
  | .custom head own none templates =>
    simp only [watch, render, Watched.act_bind, AttrTemplate.act_watchAll, CustomTag.act_watch]
    refine bind_congr fun _ => bind_congr fun x => ?_
    obtain ⟨element, _ | inner⟩ := x <;>
      simp only [Watched.act_bind, Watched.act_pure, Hook.act_watchAll]
  | .custom head own (some parts) templates =>
    simp only [watch, render, Watched.act_bind, AttrTemplate.act_watchAll, CustomTag.act_watch]
    refine bind_congr fun _ => bind_congr fun x => ?_
    obtain ⟨element, _ | inner⟩ := x <;>
      simp only [Watched.act_bind, Watched.act_pure, Watched.act_map, Hook.act_watchAll,
        Part.act_watchAll parts]

theorem Part.act_watchAll (ps : Body δ) (scope : Scope) :
    (Part.watchAll scripts w ps scope).act = Part.renderAll sem w.caller ps scope := by
  match ps with
  | [] => rfl
  | p :: ps =>
    simp only [watchAll, renderAll, Watched.act_bind, Part.act_watch p, Part.act_watchAll ps,
      Watched.act_pure]

end

end

namespace View

/-- Renders a view in which views are nested less than `depth` deep. -/
def watchWithin (scripts : Scripts sem keep) : Nat → View δ → Scope → Watched keep Fragment
  | 0, _, _ => .fail .tooDeep
  | depth + 1, v, scope =>
    (Part.watchAll scripts (watchWithin scripts depth) v.body scope).surround v

theorem act_watchWithin (scripts : Scripts sem keep) (depth : Nat) (v : View δ) (scope : Scope) :
    (v.watchWithin scripts depth scope).act = v.renderWithin sem depth scope := by
  induction depth generalizing v scope with
  | zero => rfl
  | succ depth ih =>
    have hcaller : Watcher.caller (watchWithin scripts depth) = renderWithin sem depth :=
      funext fun v => funext (ih v)
    rw [watchWithin, Watched.act_surround, Part.act_watchAll, hcaller, ← renderWithin_succ]

end View

/-- The tags of the standard dialect say where their content is rendered and do nothing else. -/
def Scripts.standard (helpers : HelperTable) {κ : Type} (keep : Context .standard → κ) :
    Scripts (Semantics.standard helpers) keep where
  tag handler call element := .done (.ok (element, handler.scope? call.scope))
  attr handler := nomatch handler
  tag_eq _ _ _ := rfl
  attr_eq handler := nomatch handler

end Stencil
