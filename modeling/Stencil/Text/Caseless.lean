import Stencil.Text.Basic

/-!
Comparison of texts that takes an ASCII letter and its other case for the same. Letters outside
ASCII have no other case here.
-/

set_option autoImplicit false

namespace Stencil.Text

def lower (t : Text) : Text := t.map Char.toLower

def upper (t : Text) : Text := t.map Char.toUpper

@[simp] theorem length_lower (t : Text) : t.lower.length = t.length := by simp [lower]

@[simp] theorem lower_append (s t : Text) : lower (s ++ t) = lower s ++ lower t := by
  simp [lower]

def sameLetters (s t : Text) : Bool := s.lower == t.lower

def afterCaseless? (mark t : Text) : Option Text :=
  if sameLetters (t.take mark.length) mark then some (t.drop mark.length) else none

end Stencil.Text
