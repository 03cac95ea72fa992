import Stencil.Text.Basic

/-!
Paths are texts: names with slashes between them.
-/

set_option autoImplicit false

namespace Stencil.Path

/-- A path seen from a directory; an absolute path stands for itself. -/
def join (base path : Text) : Text :=
  if path.head? = some '/' then path
  else if base.isEmpty || base.getLast? = some '/' then base ++ path
  else base ++ ['/'] ++ path

def name? (path : Text) : Option Text :=
  match (Text.pieces '/' path).reverse.dropWhile fun n => n = [] || n = ['.'] with
  | [] => none
  | n :: _ => if n = ['.', '.'] then none else some n

def extension? (path : Text) : Option Text := do
  let n ← name? path
  match (Text.pieces '.' n).reverse with
  | [] | [_] => none
  | [_, []] => none
  | last :: _ => some last

def isHidden (name : Text) : Bool := name.head? = some '.'

def templateExtension : Text := "stache"

def isTemplate (path : Text) : Bool := extension? path = some templateExtension

end Stencil.Path
