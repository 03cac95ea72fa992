import Stencil.Error
import Stencil.Marker
import Stencil.Expression.Grammar
import Stencil.Expression.Helper

/-!
What expressions mean. As a value an expression is a constant, a lookup or the answer of a helper.
As the head of a body it decides how often and in which scopes the body is rendered: `if`,
`unless`, `each` and `with` do so by rules of their own, any other head by the value it has.
-/

set_option autoImplicit false

namespace Stencil

/-- Which body to render: the first one once in each of these scopes, or the one after `else`. -/
inductive Branch where
  | primary (scopes : List Scope)
  | inverse

structure Expression where
  source : Text
  expr : Expr
  inverted : Bool
  line : Nat
  deriving Inhabited

namespace Expression

def lookup (scope : Scope) (around : Surroundings) (path : Text) : Value :=
  (scope.get around path).getD .null

def unknownName (line : Nat) (name : Text) : RenderError :=
  if name = "each" ∨ name = "with" then
    .helperFailed name line "can only be used as a section"
  else .unknownHelper name line

section

variable (helpers : HelperTable) (line : Nat) (scope : Scope) (around : Surroundings)

mutual

/-- The value of an expression. The helper is found before its arguments are evaluated. -/
def eval : Expr → Except RenderError Value
  | .literal v => .ok v
  | .lookup path => .ok (lookup scope around path)
  | .call name args named => do
    match Dict.find? helpers name with
    | none => .error (unknownName line name)
    | some helper =>
      let args ← evalArgs args
      let named ← evalNamed named
      match helper ⟨name, args, Dict.ofList named, scope, around⟩ with
      | .ok v => .ok v
      | .error reason => .error (.helperFailed name line reason)

def evalArgs : List Expr → Except RenderError (List Value)
  | [] => .ok []
  | e :: es => do
    let v ← eval e
    let vs ← evalArgs es
    .ok (v :: vs)

def evalNamed : List (Text × Expr) → Except RenderError (List (Text × Value))
  | [] => .ok []
  | (n, e) :: es => do
    let v ← eval e
    let vs ← evalNamed es
    .ok ((n, v) :: vs)

end

end

def iterated (scopes : List Scope) : Branch :=
  if scopes.isEmpty then .inverse else .primary scopes

def itemScopes (scope : Scope) (items : List Value) : List Scope :=
  items.mapIdx fun i v => scope.addItem v i none

def fieldScopes (scope : Scope) (fields : List (Text × Value)) : List Scope :=
  fields.mapIdx fun i (k, v) => scope.addItem v i (some k)

def iterate (scope : Scope) : Value → Branch
  | .arr items => iterated (itemScopes scope items)
  | .obj fields => iterated (fieldScopes scope fields)
  | v => if v.isTruthy then .primary [scope.add v] else .inverse

/-- The branch of a value: a list is iterated and an object becomes a frame. -/
def branchOf (scope : Scope) : Value → Branch
  | .arr items => iterated (itemScopes scope items)
  | .obj fields => .primary [scope.add (.obj fields)]
  | v => if v.isTruthy then .primary [scope] else .inverse

inductive Head where
  | ifTrue
  | unlessTrue
  | each
  | withValue

def Head.ofName? (name : Text) : Option Head :=
  if name = "if" then some .ifTrue
  else if name = "unless" then some .unlessTrue
  else if name = "each" then some .each
  else if name = "with" then some .withValue
  else none

def Head.branch (head : Head) (scope : Scope) (v : Value) : Branch :=
  match head with
  | .ifTrue => if v.isTruthy then .primary [scope] else .inverse
  | .unlessTrue => if v.isTruthy then .inverse else .primary [scope]
  | .each => iterate scope v
  | .withValue => if v.isTruthy then .primary [scope.add v] else .inverse

/-- The branch without regard to inversion. A head of its own looks at its first argument only. -/
def primaryBranch (helpers : HelperTable) (e : Expression) (scope : Scope)
    (around : Surroundings) : Except RenderError Branch :=
  let byValue := (eval helpers e.line scope around e.expr).map (branchOf scope)
  match e.expr with
  | .call name args _ =>
    match Head.ofName? name with
    | none => byValue
    | some head =>
      match args with
      | [] => .ok (head.branch scope .null)
      | arg :: _ => (eval helpers e.line scope around arg).map (head.branch scope)
  | _ => byValue

def value (helpers : HelperTable) (e : Expression) (scope : Scope) (around : Surroundings) :
    Except RenderError Value :=
  eval helpers e.line scope around e.expr

/-- An inverted head takes the other body, its first one in the unchanged scope. -/
def branch (helpers : HelperTable) (e : Expression) (scope : Scope) (around : Surroundings) :
    Except RenderError Branch :=
  (primaryBranch helpers e scope around).map fun b =>
    if e.inverted then
      match b with
      | .primary _ => .inverse
      | .inverse => .primary [scope]
    else b

def closingName (e : Expression) : Text :=
  match e.expr with
  | .call name _ _ => name
  | .lookup path => path
  | .literal _ => []

def compile (mode : Mode) (source : Text) (line : Nat) : Except CompileError Expression :=
  match parse source with
  | .ok e => .ok ⟨source, e, mode = .inverse, line⟩
  | .error fault =>
    .error ((CompileError.new .invalidExpression line).about
      ("`" ++ source ++ "` (" ++ fault.message ++ ")"))

end Expression

end Stencil
