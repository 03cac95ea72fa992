import Mathlib.Data.List.DropRight
import Stencil.Text.Blank

/-!
Trimming. The two ends of a text are trimmed apart from each other, and a text that has been
trimmed stays as it is.
-/

set_option autoImplicit false

namespace Stencil.Text

theorem trimEnd_cons (c : Char) (t : Text) :
    trimEnd (c :: t) = if trimEnd t = [] ∧ isBlank c = true then [] else c :: trimEnd t := by
  by_cases h : t.reverse.dropWhile isBlank = [] <;> by_cases hc : isBlank c = true <;>
    simp [trimEnd, List.dropWhile_append, h, hc]

theorem trimEnd_trimEnd (t : Text) : t.trimEnd.trimEnd = t.trimEnd :=
  List.rdropWhile_idempotent isBlank t

theorem trimStart_trimEnd (t : Text) : t.trimEnd.trimStart = t.trimStart.trimEnd := by
  induction t with
  | nil => rfl
  | cons c t ih =>
    by_cases hc : isBlank c = true
    · by_cases ht : trimEnd t = []
      · simp_all [trimEnd_cons, trimStart]
      · simp_all [trimEnd_cons, trimStart]
    · simp [trimEnd_cons, trimStart, hc]

theorem trim_trimEnd (t : Text) : t.trimEnd.trim = t.trim := by
  rw [trim, trimStart_trimEnd, trimEnd_trimEnd, trim]

theorem trimEnd_of_trim {t : Text} (h : t.trim = t) : t.trimEnd = t := by
  rw [← h, trim, trimEnd_trimEnd]

theorem trim_cons {c : Char} (hc : isBlank c = false) (t : Text) :
    trim (c :: t) = c :: t.trimEnd := by
  simp [trim, trimStart, hc, trimEnd_cons]

theorem head?_trim (t : Text) : t.trim.head? = t.find? fun c => !isBlank c := by
  induction t with
  | nil => rfl
  | cons c t ih =>
    by_cases hc : isBlank c = true
    · have htrim : trim (c :: t) = trim t := by simp [trim, trimStart, hc]
      rw [htrim, ih, List.find?_cons_of_neg (by simp [hc])]
    · rw [Bool.not_eq_true] at hc
      rw [trim_cons hc, List.find?_cons_of_pos (by simp [hc]), List.head?_cons]

theorem trim_concat {c : Char} (hc : isBlank c = false) (t : Text) :
    trim (t ++ [c]) = t.trimStart ++ [c] := by
  by_cases ht : t.dropWhile isBlank = [] <;>
    simp [trim, trimStart, trimEnd, List.dropWhile_append, ht, hc]

theorem trimStart_append {before : Text} (h : ∀ c ∈ before, isBlank c = true) (t : Text) :
    trimStart (before ++ t) = trimStart t :=
  List.dropWhile_append_of_pos h

theorem trimEnd_append {after : Text} (h : ∀ c ∈ after, isBlank c = true) (t : Text) :
    trimEnd (t ++ after) = trimEnd t := by
  rw [trimEnd, List.reverse_append, List.dropWhile_append_of_pos (by simpa using h), trimEnd]

theorem trim_append {before after : Text} (hbefore : ∀ c ∈ before, isBlank c = true)
    (hafter : ∀ c ∈ after, isBlank c = true) (t : Text) :
    trim (before ++ t ++ after) = trim t := by
  rw [trim, List.append_assoc, trimStart_append hbefore, ← trimStart_trimEnd, trimEnd_append hafter,
    trimStart_trimEnd, trim]

theorem trim_of_not_blank {t : Text} (h : ∀ c ∈ t, isBlank c = false) : trim t = t := by
  induction t with
  | nil => rfl
  | cons c t ih =>
    have ht := trimEnd_of_trim (ih fun d hd => h d (List.mem_cons_of_mem c hd))
    rw [trim_cons (h c List.mem_cons_self), ht]

end Stencil.Text
