import Stencil.Expression.Eval

/-!
Expressions that do not ask for the line. Of all that surrounds a render the line is what changes
under way, as handlers run. An expression whose lookups are of other names, and whose helpers take
no notice of the line, means the same on every line.
-/

set_option autoImplicit false

namespace Stencil

theorem Scope.get_line {path : Text} (h : path.trim ≠ "scope.lineNumber") (scope : Scope)
    (around : Surroundings) (lineNumber : Nat) :
    scope.get { around with lineNumber } path = scope.get around path := by
  simp only [get, special?, if_neg h]

def Helper.IgnoresLine (helper : Helper) : Prop :=
  ∀ (call : HelperCall) (lineNumber : Nat),
    helper { call with around := { call.around with lineNumber } } = helper call

def HelperTable.IgnoresLine (helpers : HelperTable) : Prop :=
  ∀ x ∈ helpers, Helper.IgnoresLine x.2

theorem HelperTable.ignoresLine_standard : HelperTable.standard.IgnoresLine := by
  simp only [IgnoresLine, standard, List.forall_mem_cons]
  exact ⟨fun _ _ => rfl, fun _ _ => rfl, fun _ _ => rfl, fun _ _ => rfl, fun _ _ => rfl,
    fun _ _ => rfl, fun _ _ => rfl, List.forall_mem_nil _⟩

mutual

def Expr.paths : Expr → List Text
  | .literal _ => []
  | .lookup path => [path]
  | .call _ args named => Expr.pathsAll args ++ Expr.pathsNamed named

def Expr.pathsAll : List Expr → List Text
  | [] => []
  | e :: es => e.paths ++ Expr.pathsAll es

def Expr.pathsNamed : List (Text × Expr) → List Text
  | [] => []
  | (_, e) :: es => e.paths ++ Expr.pathsNamed es

end

namespace Expression

variable {helpers : HelperTable}

section

variable (line : Nat) (scope : Scope) (around : Surroundings) (lineNumber : Nat)

mutual

theorem eval_line (hhelpers : helpers.IgnoresLine) (e : Expr)
    (he : ∀ p ∈ e.paths, Text.trim p ≠ "scope.lineNumber") :
    eval helpers line scope { around with lineNumber } e = eval helpers line scope around e := by
  match e with
  | .literal v => rfl
  | .lookup path =>
    have hpath : Text.trim path ≠ "scope.lineNumber" := he path (by simp [Expr.paths])
    simp only [eval, lookup, Scope.get_line hpath]
  | .call name args named =>
    rw [Expr.paths, List.forall_mem_append] at he
    simp only [eval, evalArgs_line hhelpers args he.1, evalNamed_line hhelpers named he.2]
    cases hfind : Dict.find? helpers name with
    | none => rfl
    | some helper =>
      have hcall (args : List Value) (named : Dict Value) :
          helper ⟨name, args, named, scope, { around with lineNumber }⟩ =
            helper ⟨name, args, named, scope, around⟩ :=
        hhelpers _ (Dict.mem_of_find? hfind) ⟨name, args, named, scope, around⟩ lineNumber
      simp only [hcall]

theorem evalArgs_line (hhelpers : helpers.IgnoresLine) (es : List Expr)
    (hes : ∀ p ∈ Expr.pathsAll es, Text.trim p ≠ "scope.lineNumber") :
    evalArgs helpers line scope { around with lineNumber } es =
      evalArgs helpers line scope around es := by
  match es with
  | [] => rfl
  | e :: es =>
    rw [Expr.pathsAll, List.forall_mem_append] at hes
    simp only [evalArgs, eval_line hhelpers e hes.1, evalArgs_line hhelpers es hes.2]

theorem evalNamed_line (hhelpers : helpers.IgnoresLine) (es : List (Text × Expr))
    (hes : ∀ p ∈ Expr.pathsNamed es, Text.trim p ≠ "scope.lineNumber") :
    evalNamed helpers line scope { around with lineNumber } es =
      evalNamed helpers line scope around es := by
  match es with
  | [] => rfl
  | (n, e) :: es =>
    rw [Expr.pathsNamed, List.forall_mem_append] at hes
    simp only [evalNamed, eval_line hhelpers e hes.1, evalNamed_line hhelpers es hes.2]

end

end

theorem primaryBranch_line (hhelpers : helpers.IgnoresLine) {e : Expression}
    (he : ∀ p ∈ e.expr.paths, Text.trim p ≠ "scope.lineNumber") (scope : Scope)
    (around : Surroundings) (lineNumber : Nat) :
    e.primaryBranch helpers scope { around with lineNumber } =
      e.primaryBranch helpers scope around := by
  obtain ⟨source, expr, inverted, line⟩ := e
  have hvalue := eval_line line scope around lineNumber hhelpers expr he
  cases expr with
  | literal v => rfl
  | lookup path => simp only [primaryBranch, hvalue]
  | call name args named =>
    cases args with
    | nil => simp only [primaryBranch, hvalue]
    | cons arg args =>
      simp only [Expr.paths, Expr.pathsAll, List.forall_mem_append] at he
      simp only [primaryBranch, hvalue, eval_line line scope around lineNumber hhelpers arg he.1.1]

theorem branch_line (hhelpers : helpers.IgnoresLine) {e : Expression}
    (he : ∀ p ∈ e.expr.paths, Text.trim p ≠ "scope.lineNumber") (scope : Scope)
    (around : Surroundings) (lineNumber : Nat) :
    e.branch helpers scope { around with lineNumber } = e.branch helpers scope around := by
  rw [branch, primaryBranch_line hhelpers he, branch]

end Expression

end Stencil
