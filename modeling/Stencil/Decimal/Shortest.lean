import Stencil.Decimal.Binary64

/-!
The fewest decimal digits that read back as a given binary number. The reals that round to
`m * 2 ^ q` form an interval, its ends included exactly if `m` is even. For one digit, two digits
and so on the grid of decimals with that many digits has two neighbours of the number; the first
grid with a neighbour inside the interval wins, the nearer of two neighbours, and at a tie the
even one. All of it is exact arithmetic on natural numbers.
-/

set_option autoImplicit false

namespace Stencil

structure Decimal where
  coefficient : Nat
  scale : Int
  deriving DecidableEq

namespace Decimal

def order (num den : Nat) : Int :=
  let e : Int := (Nat.toDigits 10 num).length - (Nat.toDigits 10 den).length
  if den * Nat.pow 10 e.toNat ≤ num * Nat.pow 10 (-e).toNat then e else e - 1

/-- A number and the interval that rounds to it, in units of `1 / den`. -/
structure Rounding where
  low : Nat
  value : Nat
  high : Nat
  den : Nat
  closed : Bool

/-- The interval of `m * 2 ^ q`. Below a power of two the numbers lie half as far apart. -/
def Rounding.of (m : Nat) (q : Int) : Rounding :=
  let unit := Nat.pow 2 (q - 2).toNat
  let below := if m = Nat.pow 2 52 ∧ -1074 < q then 1 else 2
  { low := (4 * m - below) * unit, value := 4 * m * unit, high := (4 * m + 2) * unit,
    den := Nat.pow 2 (2 - q).toNat, closed := m % 2 = 0 }

def Rounding.holds (r : Rounding) (d : Decimal) : Bool :=
  let up := Nat.pow 10 (-d.scale).toNat
  let c := d.coefficient * r.den * Nat.pow 10 d.scale.toNat
  if r.closed then r.low * up ≤ c && c ≤ r.high * up else r.low * up < c && c < r.high * up

def Rounding.neighbour? (r : Rounding) (scale : Int) : Option Decimal :=
  let value := r.value * Nat.pow 10 (-scale).toNat
  let step := r.den * Nat.pow 10 scale.toNat
  let floor := value / step
  let lower : Decimal := ⟨floor, scale⟩
  let upper : Decimal := ⟨floor + 1, scale⟩
  match r.holds lower, r.holds upper with
  | false, false => none
  | true, false => some lower
  | false, true => some upper
  | true, true =>
    let left := value - floor * step
    let right := (floor + 1) * step - value
    some (if left < right ∨ left = right ∧ floor % 2 = 0 then lower else upper)

/-- The shortest decimal that reads back as `m * 2 ^ q`. Seventeen digits always do. -/
def shortest (m : Nat) (q : Int) : Decimal :=
  if m = 0 then ⟨0, 0⟩
  else
    let r := Rounding.of m q
    let e := order r.value r.den
    let grids := (List.range 17).map fun n : Nat => e - n
    (grids.findSome? r.neighbour?).getD ⟨m, q⟩

def digits (d : Decimal) : List Char × Int :=
  let ds := Nat.toDigits 10 d.coefficient
  let kept := (ds.reverse.dropWhile (· == '0')).reverse
  (if kept.isEmpty then ['0'] else kept, d.scale + ds.length - 1)

end Decimal

end Stencil
