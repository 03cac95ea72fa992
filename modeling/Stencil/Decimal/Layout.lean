import Stencil.Text.Basic

/-!
The layout of a decimal: which exponents are written positionally, and how the others look.
-/

set_option autoImplicit false

namespace Stencil.Decimal

/-- From `lowest` to `highest` an exponent is written positionally, always with a point and a
digit on either side of it. -/
structure Layout where
  lowest : Int
  highest : Int
  exponentMark : Char
  plusSign : Bool

def Layout.write (layout : Layout) (negative : Bool) (ds : Text) (e : Int) : Text :=
  let sign : Text := if negative then "-" else []
  let magnitude : Text :=
    if layout.lowest ≤ e ∧ e ≤ layout.highest then
      if e < 0 then "0." ++ List.replicate (-e - 1).toNat '0' ++ ds
      else
        let whole := e.toNat + 1
        let fraction := ds.drop whole
        ds.take whole ++ List.replicate (whole - ds.length) '0' ++ "." ++
          (if fraction.isEmpty then ['0'] else fraction)
    else
      let point : Text := if ds.length ≤ 1 then [] else "."
      let plus : Text := if layout.plusSign ∧ 0 ≤ e then "+" else []
      ds.take 1 ++ point ++ ds.drop 1 ++ [layout.exponentMark] ++ plus ++ Text.ofInt e
  sign ++ magnitude

end Stencil.Decimal
