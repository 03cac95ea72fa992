import Stencil.Markup.Scan

/-!
A scan that counts its steps. Every step takes a character, so a source has no more steps than
characters. The scan with that bound recurses on a number and can be evaluated.
-/

set_option autoImplicit false

namespace Stencil

namespace Scanner

def runFor : Nat → Scanner → List Located
  | 0, s => s.finish
  | n + 1, s =>
    match s.rest with
    | [] => s.finish
    | c :: r => (s.step c r).events ++ runFor n (s.step c r).next

theorem run_eq_runFor (s : Scanner) (n : Nat) (h : s.rest.length ≤ n) : s.run = s.runFor n := by
  induction n generalizing s with
  | zero =>
    have hr : s.rest = [] := List.eq_nil_of_length_eq_zero (by omega)
    rw [run]
    split
    next => rfl
    next c r hc => simp [hr] at hc
  | succ n ih =>
    rw [run, runFor]
    split
    next hr => simp only [hr]
    next c r hr =>
      have hlt := length_step_lt s c r
      have hlen : (s.step c r).next.rest.length ≤ n := by
        rw [hr] at h
        omega
      simp only [hr, ih _ hlen]

end Scanner

theorem scan_eq_runFor (source : Text) :
    scan source = (Scanner.start source).runFor source.length :=
  Scanner.run_eq_runFor _ _ (Nat.le_refl _)

end Stencil
