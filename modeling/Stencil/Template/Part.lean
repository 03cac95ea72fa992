import Stencil.Markup.Tag
import Stencil.Template.Dialect

/-!
Compiled templates. A body is a list of parts in the order in which they render: markup parts
become nodes, text parts become one text. Static text never stands next to static text, because
`push` merges the two.
-/

set_option autoImplicit false

namespace Stencil

/-- A partial by name, rendered against the value of an expression if one is given. -/
structure PartialCall (δ : Dialect) where
  name : Text
  context : Option δ.Expr

inductive TextPart (δ : Dialect) where
  | static (text : Text)
  /-- a value, with its references written if `quoted` -/
  | value (expr : δ.Expr) (quoted : Bool)
  | branch (expr : δ.Expr) (primary : List (TextPart δ)) (inverse : Option (List (TextPart δ)))
  | call (c : PartialCall δ)

inductive AttrValue (δ : Dialect) where
  | static (value : Text)
  | dynamic (parts : List (TextPart δ))

structure AttrTemplate (δ : Dialect) where
  name : Text
  value : AttrValue δ

inductive Hook (δ : Dialect) where
  | attribute (handler : δ.AttrHandler) (name : Text) (line : Nat)
  /-- text put out inside the tag, read as attributes -/
  | tagText (parts : List (TextPart δ))

structure ElementHead (δ : Dialect) where
  tag : Text
  ns : Namespace
  attrs : List (AttrTemplate δ)
  hooks : List (Hook δ)

structure CustomTag (δ : Dialect) where
  handler : δ.TagHandler
  directlyNested : Bool
  line : Nat

inductive Part (δ : Dialect) where
  /-- static text, its references already read -/
  | text (content : Text)
  | comment (content : Text)
  | value (expr : δ.Expr) (escaped : Bool)
  | branch (expr : δ.Expr) (primary : List (Part δ)) (inverse : Option (List (Part δ)))
  | call (c : PartialCall δ)
  /-- the content of an element that holds only text -/
  | textBlock (parts : List (TextPart δ))
  | element (head : ElementHead δ) (children : List (Part δ))
  /-- an element whose content its handler asks for, with the templates defined in it -/
  | custom (head : ElementHead δ) (custom : CustomTag δ) (body : Option (List (Part δ)))
      (templates : Option (List (Text × List (Part δ))))

abbrev Body (δ : Dialect) := List (Part δ)

variable {δ : Dialect}

def TextPart.push : List (TextPart δ) → TextPart δ → List (TextPart δ)
  | [], p => [p]
  | [.static s], .static t => [.static (s ++ t)]
  | q :: qs, p => q :: push qs p

/-- Adds a part at the end; static text joins static text before it. -/
def Part.push : Body δ → Part δ → Body δ
  | [], p => [p]
  | [.text s], .text t => [.text (s ++ t)]
  | q :: qs, p => q :: push qs p

theorem Part.push_ne_nil (ps : Body δ) (p : Part δ) : push ps p ≠ [] := by
  fun_cases push ps p <;> simp

def ElementHead.static? (h : ElementHead δ) (name : Text) : Option Text :=
  h.attrs.findSome? fun a =>
    match a.value with
    | .static value => if a.name = name then some value else none
    | .dynamic _ => none

end Stencil
