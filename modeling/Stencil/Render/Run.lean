import Stencil.Render.Semantics
import Stencil.Render.TagText

/-!
Rendering. Bodies are rendered by recursion on their parts; only a view that is called from
another one goes deeper than its own body, so the depth of calls is what bounds a render. A
template that is rendered puts itself, its file name and its partials into the context; the view
and the name that were there come back when it ends, its partials stay.
-/

set_option autoImplicit false

namespace Stencil

variable {δ : Dialect}

abbrev Caller (δ : Dialect) := View δ → Scope → RenderM δ Fragment

namespace PartialCall

def find? (sem : Semantics δ) (name : Text) : RenderM δ (Option (View δ)) := do
  let s ← get
  match Dict.find? s.context.partials name with
  | some v => return some v
  | none =>
    match s.library.get sem.load name with
    | .ok (v, library) =>
      set { s with library }
      return v
    | .error cause => RenderM.fail (.partialCompile name cause)

/-- The view of a call: the template itself, a view of that name, or a view whose name the scope
has under that name. -/
def resolve (sem : Semantics δ) (c : PartialCall δ) (scope : Scope) : RenderM δ (View δ) := do
  let missing := RenderM.fail (.missingPartial c.name)
  if c.name = "scope.view" then
    match (← RenderM.context).view with
    | some v => return v
    | none => missing
  else
    match ← find? sem c.name with
    | some v => return v
    | none =>
      match scope.get (← RenderM.around) c.name with
      | some (.str name) =>
        match ← find? sem name with
        | some v => return v
        | none => missing
      | _ => missing

def scopeIn (sem : Semantics δ) (c : PartialCall δ) (scope : Scope) : RenderM δ Scope :=
  match c.context with
  | none => pure scope
  | some e => scope.add <$> sem.valueIn e scope

/-- The nodes of a call. The view is found before its context is evaluated. -/
def render (sem : Semantics δ) (call : Caller δ) (c : PartialCall δ) (scope : Scope) :
    RenderM δ Fragment := do
  let v ← c.resolve sem scope
  call v (← c.scopeIn sem scope)

end PartialCall

mutual

def TextPart.render (sem : Semantics δ) (call : Caller δ) (p : TextPart δ) (scope : Scope) :
    RenderM δ Text :=
  match p with
  | .static text => pure text
  | .value e quoted => do
    let text ← sem.textIn e scope
    return if quoted then Text.escapeAttribute text else text
  | .branch e primary inverse => do
    match ← sem.branchIn e scope with
    | .primary scopes =>
      return (← scopes.mapM fun inner => TextPart.renderAll sem call primary inner).flatten
    | .inverse =>
      match inverse with
      | none => return []
      | some parts => TextPart.renderAll sem call parts scope
  | .call c => do return (← c.render sem call scope).html
termination_by structural p

def TextPart.renderAll (sem : Semantics δ) (call : Caller δ) (ps : List (TextPart δ))
    (scope : Scope) : RenderM δ Text :=
  match ps with
  | [] => pure []
  | p :: ps => do
    let text ← p.render sem call scope
    return text ++ (← TextPart.renderAll sem call ps scope)
termination_by structural ps

end

def AttrTemplate.applyAll (sem : Semantics δ) (call : Caller δ) :
    List (AttrTemplate δ) → Scope → Element → RenderM δ Element
  | [], _, element => pure element
  | a :: attrs, scope, element => do
    let value ← match a.value with
      | .static value => pure value
      | .dynamic parts => TextPart.renderAll sem call parts scope
    applyAll sem call attrs scope (element.setAttribute a.name value)

def Hook.apply (sem : Semantics δ) (call : Caller δ) (h : Hook δ) (scope : Scope)
    (element : Element) : RenderM δ Element :=
  match h with
  | .attribute handler name line => do
    RenderM.modifyContext (·.setLine line)
    sem.attr handler ⟨name, scope⟩ element
  | .tagText parts => do
    let text ← TextPart.renderAll sem call parts scope
    return (TagText.attributesOf text).foldl (fun e (n, v) => e.setAttribute n v) element

def Hook.applyAll (sem : Semantics δ) (call : Caller δ) :
    List (Hook δ) → Scope → Element → RenderM δ Element
  | [], _, element => pure element
  | h :: hooks, scope, element => do
    applyAll sem call hooks scope (← h.apply sem call scope element)

def templateType : Text := "stache"

def CustomTag.call (sem : Semantics δ) (call : Caller δ) (custom : CustomTag δ) (tag : Text)
    (body : Option (Body δ)) (templates : Option (Dict (Body δ))) (scope : Scope)
    (element : Element) : RenderM δ (Element × Option Scope) := do
  RenderM.modifyContext (·.setLine custom.line)
  let render := fun (body : Body δ) inner => call (.inline 0 tag body) inner
  let directlyNested := custom.directlyNested
  sem.tag custom.handler { tag, scope, body, templateType, directlyNested, templates, render }
    element

mutual

def Part.render (sem : Semantics δ) (call : Caller δ) (p : Part δ) (scope : Scope) :
    RenderM δ Fragment :=
  match p with
  | .text content => pure [.text content]
  | .comment content => pure [.comment content]
  | .value e escaped => do
    let text ← sem.textIn e scope
    return if text.isEmpty then [] else [if escaped then .text text else .raw text]
  | .branch e primary inverse => do
    match ← sem.branchIn e scope with
    | .primary scopes =>
      return (← scopes.mapM fun inner => Part.renderAll sem call primary inner).flatten
    | .inverse =>
      match inverse with
      | none => return []
      | some parts => Part.renderAll sem call parts scope
  | .call c => c.render sem call scope
  | .textBlock parts => do
    let text ← TextPart.renderAll sem call parts scope
    return if text.isEmpty then [] else [.text text]
  | .element head children => do
    let element ← AttrTemplate.applyAll sem call head.attrs scope (.new head.tag head.ns)
    let nodes ← Part.renderAll sem call children scope
    let element ← Hook.applyAll sem call head.hooks scope (element.append nodes)
    return [element.toNode]
  | .custom head own body templates => do
    let element ← AttrTemplate.applyAll sem call head.attrs scope (.new head.tag head.ns)
    let (element, inner) ← own.call sem call head.tag body templates scope element
    let element ← match inner with
      | none => pure element
      | some inner =>
        match body with
        | none => pure element
        | some parts => element.append <$> Part.renderAll sem call parts inner
    let element ← Hook.applyAll sem call head.hooks scope element
    return [element.toNode]
termination_by structural p

def Part.renderAll (sem : Semantics δ) (call : Caller δ) (ps : Body δ) (scope : Scope) :
    RenderM δ Fragment :=
  match ps with
  | [] => pure []
  | p :: ps => do
    let nodes ← p.render sem call scope
    return nodes ++ (← Part.renderAll sem call ps scope)
termination_by structural ps

end

def Context.define (c : Context δ) (partials : Dict (View δ)) : Context δ :=
  { c with partials := partials.foldl (fun d (n, v) => d.insert n v) c.partials }

namespace View

/-- Renders a view in which views are nested less than `depth` deep. -/
def renderWithin (sem : Semantics δ) : Nat → View δ → Scope → RenderM δ Fragment
  | 0, _, _ => throw .tooDeep
  | depth + 1, v, scope =>
    match v with
    | .inline _ _ body => Part.renderAll sem (renderWithin sem depth) body scope
    | .template _ body _ filename => do
      RenderM.modifyContext (·.define v.partials)
      RenderM.within (some v) filename (Part.renderAll sem (renderWithin sem depth) body scope)

def deepest : Nat := 1000000

def render (sem : Semantics δ) (v : View δ) (scope : Scope) : RenderM δ Fragment :=
  v.renderWithin sem deepest scope

end View

end Stencil
