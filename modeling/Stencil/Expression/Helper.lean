import Stencil.Scope

/-!
Helpers: functions that an expression calls by name on values. A table of helpers starts with the
comparisons and connectives below.
-/

set_option autoImplicit false

namespace Stencil

structure HelperCall where
  name : Text
  args : List Value
  named : Dict Value
  scope : Scope
  around : Surroundings

def HelperCall.arg (call : HelperCall) (i : Nat) : Value := call.args[i]?.getD .null

abbrev Helper := HelperCall → Except Text Value

abbrev HelperTable := Dict Helper

namespace Helper

def eq : Helper := fun call =>
  match call.args with
  | first :: second :: others =>
    .ok (.bool ((second :: others).all fun v => v.equiv first))
  | _ => .error ("`" ++ call.name ++ "` needs at least two arguments")

def not : Helper := fun call => .ok (.bool (!(call.arg 0).isTruthy))

def and : Helper := fun call => .ok (.bool (call.args.all Value.isTruthy))

def or : Helper := fun call => .ok (.bool (call.args.any Value.isTruthy))

def ifValue : Helper := fun call => .ok (call.arg (if (call.arg 0).isTruthy then 1 else 2))

def unlessValue : Helper := fun call => .ok (call.arg (if (call.arg 0).isTruthy then 2 else 1))

end Helper

def HelperTable.standard : HelperTable :=
  [("eq", Helper.eq), ("is", Helper.eq), ("not", Helper.not), ("and", Helper.and),
   ("or", Helper.or), ("if", Helper.ifValue), ("unless", Helper.unlessValue)]

end Stencil
