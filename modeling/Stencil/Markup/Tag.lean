import Stencil.Text.Caseless

/-!
What the markup language fixes about tags: which have no children, which hold nothing but text,
which open a namespace, and the characters that end a name.
-/

set_option autoImplicit false

namespace Stencil

inductive Namespace where
  | html
  | svg
  | mathMl
  deriving DecidableEq, Repr, Inhabited

namespace Namespace

def svgUri : Text := "http://www.w3.org/2000/svg"

def mathMlUri : Text := "http://www.w3.org/1998/Math/MathML"

def uri? : Namespace → Option Text
  | .html => none
  | .svg => some svgUri
  | .mathMl => some mathMlUri

def ofUri (uri : Text) : Namespace :=
  if uri = svgUri then .svg else if uri = mathMlUri then .mathMl else .html

theorem ofUri_uri? {n : Namespace} {uri : Text} (h : n.uri? = some uri) : ofUri uri = n := by
  cases n <;> simp only [uri?, Option.some.injEq, reduceCtorEq] at h <;> subst h <;> decide

/-- The namespace that a tag opens for itself and its descendants. -/
def ofTag? (tag : Text) : Option Namespace :=
  if tag = "svg" ∨ tag = "g" then some .svg
  else if tag = "math" then some .mathMl
  else none

end Namespace

namespace Tag

def voidTags : List Text :=
  ["area", "base", "br", "col", "embed", "hr", "img", "input", "link", "meta", "param", "source",
   "track", "wbr"]

def isVoid (tag : Text) : Bool := voidTags.contains tag.lower

def holdsText (tag : Text) : Bool := tag = "style" ∨ tag = "script"

def isNameStart (c : Char) : Bool := ('a' ≤ c && c ≤ 'z') || ('A' ≤ c && c ≤ 'Z')

def isSpace (c : Char) : Bool := c = ' ' || c = '\n' || c = '\t' || c = '\x0c' || c = '\r'

def endsName (c : Char) : Bool := c = '/' || c = '>' || isSpace c

end Tag

end Stencil
