import Stencil.Text.Basic
import Stencil.Decimal.Shortest
import Stencil.Decimal.Layout

/-!
The data that a template is rendered against. An integer and a binary number are different values
even where they are numerically equal. The fields of an object stand in the order of their names,
and a name occurs once; `Value.object` brings any list of fields into that form.
-/

set_option autoImplicit false

namespace Stencil

inductive Number where
  | int (n : Int)
  | float (x : Binary64)
  deriving DecidableEq

inductive Value where
  | null
  | bool (b : Bool)
  | num (n : Number)
  | str (s : Text)
  | arr (items : List Value)
  | obj (fields : List (Text × Value))
  deriving Inhabited

namespace Number

def equiv : Number → Number → Bool
  | .int m, .int n => m = n
  | .float x, .float y => x.equiv y
  | _, _ => false

def isTruthy : Number → Bool
  | .int n => n ≠ 0
  | .float x => !x.isZero && !x.isNaN

/-- Numbers from 0.00001 up to sixteen digits before the point are written out. -/
def layout : Decimal.Layout := ⟨-5, 15, 'e', true⟩

def toText : Number → Text
  | .int n => Text.ofInt n
  | .float x =>
    let (m, q) := x.scaled
    let (ds, e) := (Decimal.shortest m q).digits
    layout.write x.isNegative ds e

end Number

namespace Value

def insertField (name : Text) (v : Value) : List (Text × Value) → List (Text × Value)
  | [] => [(name, v)]
  | (n, w) :: fields =>
    if name = n then (n, v) :: fields
    else if name < n then (name, v) :: (n, w) :: fields
    else (n, w) :: insertField name v fields

def object (fields : List (Text × Value)) : Value :=
  .obj (fields.foldl (fun fs (n, v) => insertField n v fs) [])

def ofNat (n : Nat) : Value := .num (.int n)

mutual

def equiv : Value → Value → Bool
  | .null, .null => true
  | .bool a, .bool b => a = b
  | .num m, .num n => m.equiv n
  | .str s, .str t => s = t
  | .arr xs, .arr ys => equivItems xs ys
  | .obj xs, .obj ys => equivFields xs ys
  | _, _ => false

def equivItems : List Value → List Value → Bool
  | [], [] => true
  | x :: xs, y :: ys => equiv x y && equivItems xs ys
  | _, _ => false

def equivFields : List (Text × Value) → List (Text × Value) → Bool
  | [], [] => true
  | (m, x) :: xs, (n, y) :: ys => m = n && equiv x y && equivFields xs ys
  | _, _ => false

end

/-- `null`, `false`, zero, the empty text and the empty list count as false. -/
def isTruthy : Value → Bool
  | .null => false
  | .bool b => b
  | .num n => n.isTruthy
  | .str s => !s.isEmpty
  | .arr items => !items.isEmpty
  | .obj _ => true

end Value

end Stencil
