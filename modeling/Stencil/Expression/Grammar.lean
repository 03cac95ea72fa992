import Stencil.Expression.Token

/-!
The grammar of expressions:

    expression := item | name item* (name=item)*
    item       := literal | path | "(" expression ")"

A lone item is itself; a name with arguments after it is a call. Arguments by name come last.
Reading consumes tokens from the front, with one unit of fuel for each rule that is entered, and
`parse` provides more than any token list can use.
-/

set_option autoImplicit false

namespace Stencil

inductive Expr where
  | literal (v : Value)
  | lookup (path : Text)
  | call (name : Text) (args : List Expr) (named : List (Text × Expr))
  deriving Inhabited

namespace Expression

def assemble : List Expr → List (Text × Expr) → Except Fault Expr
  | [], _ => .error .empty
  | [e], [] => .ok e
  | .lookup name :: args, named => .ok (.call name args named)
  | _ :: _, _ => .error .notCallable

mutual

def arguments (fuel : Nat) (named : Bool) (tokens : List Token) :
    Except Fault ((List Expr × List (Text × Expr)) × List Token) :=
  match fuel with
  | 0 => .error .missingArgument
  | fuel + 1 =>
    match tokens with
    | [] => .ok (([], []), [])
    | .closing :: r => .ok (([], []), .closing :: r)
    | .word name :: .equals :: r => do
      let (e, r) ← item fuel r
      let ((es, ns), r) ← arguments fuel true r
      .ok ((es, (name, e) :: ns), r)
    | tokens => do
      if named then .error .positionalAfterNamed
      let (e, r) ← item fuel tokens
      let ((es, ns), r) ← arguments fuel false r
      .ok ((e :: es, ns), r)

def item (fuel : Nat) (tokens : List Token) : Except Fault (Expr × List Token) :=
  match fuel with
  | 0 => .error .missingArgument
  | fuel + 1 =>
    match tokens with
    | .literal v :: r => .ok (.literal v, r)
    | .word w :: r => .ok (.lookup w, r)
    | .opening :: r => do
      let (e, r) ← expression fuel r
      match r with
      | .closing :: r => .ok (e, r)
      | _ => .error .missingClosing
    | .equals :: _ => .error .unexpectedEquals
    | .closing :: _ => .error .missingArgument
    | [] => .error .missingArgument

def expression (fuel : Nat) (tokens : List Token) : Except Fault (Expr × List Token) :=
  match fuel with
  | 0 => .error .missingArgument
  | fuel + 1 => do
    let ((es, ns), r) ← arguments fuel false tokens
    let e ← assemble es ns
    .ok (e, r)

end

def ofTokens (tokens : List Token) : Except Fault Expr := do
  let (e, r) ← expression (3 * tokens.length + 3) tokens
  if r.isEmpty then .ok e else .error .unexpectedClosing

def parse (source : Text) : Except Fault Expr := do
  ofTokens (← lex source)

end Expression

end Stencil
