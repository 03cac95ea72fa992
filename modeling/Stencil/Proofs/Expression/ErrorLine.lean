import Stencil.Expression.Eval
import Stencil.Proofs.Template.Outcome

/-!
The line that an expression was read on. It is told in the errors of the expression and shows in
nothing else: read on another line, an expression has the same values and opens the same bodies.
-/

set_option autoImplicit false

namespace Stencil

/-- The error with nothing said of its line. -/
def RenderError.unlined : RenderError → RenderError
  | .unknownHelper name _ => .unknownHelper name 0
  | .helperFailed name _ reason => .helperFailed name 0 reason
  | e => e

/-- The same error, up to its line. -/
def RenderError.Like (e f : RenderError) : Prop := f.unlined = e.unlined

namespace Expression

/-- The same expression, read on whatever line. -/
def Like (e f : Expression) : Prop := f = { e with line := f.line }

variable (helpers : HelperTable) (line line' : Nat) (scope : Scope) (around : Surroundings)

theorem like_unknownName (name : Text) :
    (unknownName line name).Like (unknownName line' name) := by
  unfold unknownName
  split <;> rfl

mutual

theorem eval_like (e : Expr) :
    EndAlike RenderError.Like Eq (eval helpers line scope around e)
      (eval helpers line' scope around e) := by
  match e with
  | .literal v => exact .ok rfl
  | .lookup path => exact .ok rfl
  | .call name args named =>
    simp only [eval]
    cases Dict.find? helpers name with
    | none => exact .error (like_unknownName line line' name)
    | some helper =>
      refine (evalArgs_like args).bind fun args _ hargs => ?_
      subst hargs
      refine (evalNamed_like named).bind fun named _ hnamed => ?_
      subst hnamed
      cases helper ⟨name, args, Dict.ofList named, scope, around⟩ with
      | ok v => exact .ok rfl
      | error reason => exact .error rfl

theorem evalArgs_like (es : List Expr) :
    EndAlike RenderError.Like Eq (evalArgs helpers line scope around es)
      (evalArgs helpers line' scope around es) := by
  match es with
  | [] => exact .ok rfl
  | e :: es =>
    refine (eval_like e).bind fun v _ hv => ?_
    subst hv
    refine (evalArgs_like es).bind fun vs _ hvs => ?_
    subst hvs
    exact .ok rfl

theorem evalNamed_like (es : List (Text × Expr)) :
    EndAlike RenderError.Like Eq (evalNamed helpers line scope around es)
      (evalNamed helpers line' scope around es) := by
  match es with
  | [] => exact .ok rfl
  | (n, e) :: es =>
    refine (eval_like e).bind fun v _ hv => ?_
    subst hv
    refine (evalNamed_like es).bind fun vs _ hvs => ?_
    subst hvs
    exact .ok rfl

end

variable {helpers} {e f : Expression}

theorem Like.value (h : e.Like f) :
    EndAlike RenderError.Like Eq (e.value helpers scope around) (f.value helpers scope around) := by
  obtain ⟨source, expr, inverted, line⟩ := e
  obtain ⟨_, _, _, line'⟩ := f
  cases h
  exact eval_like helpers line line' scope around expr

theorem Like.primaryBranch (h : e.Like f) :
    EndAlike RenderError.Like Eq (e.primaryBranch helpers scope around)
      (f.primaryBranch helpers scope around) := by
  obtain ⟨source, expr, inverted, line⟩ := e
  obtain ⟨_, _, _, line'⟩ := f
  cases h
  have heval (branch : Value → Branch) (e : Expr) :
      EndAlike RenderError.Like Eq ((eval helpers line scope around e).map branch)
        ((eval helpers line' scope around e).map branch) :=
    (eval_like helpers line line' scope around e).map fun _ _ h => congrArg branch h
  cases expr with
  | literal v => exact heval (branchOf scope) (.literal v)
  | lookup path => exact heval (branchOf scope) (.lookup path)
  | call name args named =>
    simp only [Expression.primaryBranch]
    cases Head.ofName? name with
    | none => exact heval (branchOf scope) (.call name args named)
    | some head =>
      cases args with
      | nil => exact .ok rfl
      | cons arg args => exact heval (head.branch scope) arg

theorem Like.branch (h : e.Like f) :
    EndAlike RenderError.Like Eq (e.branch helpers scope around)
      (f.branch helpers scope around) := by
  have hinverted : f.inverted = e.inverted := by
    rw [h]
  refine (h.primaryBranch scope around).map fun b _ hb => ?_
  subst hb
  simp only [hinverted]

end Expression

end Stencil
