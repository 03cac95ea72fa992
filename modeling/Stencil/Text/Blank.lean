import Stencil.Text.Basic

/-!
The characters of the Unicode property White_Space. Trimming, the splitting of a marker body and
whitespace control all go by this property; the markup scanner has a smaller set of its own.
-/

set_option autoImplicit false

namespace Stencil

def blankRanges : List (Nat × Nat) :=
  [(0x09, 0x0D), (0x20, 0x20), (0x85, 0x85), (0xA0, 0xA0), (0x1680, 0x1680), (0x2000, 0x200A),
   (0x2028, 0x2029), (0x202F, 0x202F), (0x205F, 0x205F), (0x3000, 0x3000)]

def isBlank (c : Char) : Bool :=
  blankRanges.any fun (first, last) => first ≤ c.toNat && c.toNat ≤ last

theorem isBlank_of_isWhitespace {c : Char} (h : c.isWhitespace = true) : isBlank c = true := by
  simp only [Char.isWhitespace, Bool.or_eq_true, decide_eq_true_eq] at h
  rcases h with ((rfl | rfl) | rfl) | rfl <;> decide

namespace Text

def trimStart (t : Text) : Text := t.dropWhile isBlank

def trimEnd (t : Text) : Text := (t.reverse.dropWhile isBlank).reverse

def trim (t : Text) : Text := trimEnd (trimStart t)

def cutAtBlank : Text → Option (Text × Text)
  | [] => none
  | c :: r =>
    if isBlank c then some ([], r)
    else (cutAtBlank r).map fun (before, rest) => (c :: before, rest)

end Text

end Stencil
