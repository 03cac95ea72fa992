import Mathlib.Data.List.Basic
import Stencil.Text.Basic

/-!
Where a text is cut. A run ends right before the first place at which its stop holds, so a text
that is written with a stop after it is cut there again.
-/

set_option autoImplicit false

namespace Stencil.Text

theorem forall_mem_of_all {P : Char → Prop} [DecidablePred P] {t : Text}
    (h : (t.all fun c => decide (P c)) = true) : ∀ c ∈ t, P c :=
  fun c hc => of_decide_eq_true (List.all_eq_true.1 h c hc)

theorem splitWhen_cons_of_not {stop : Text → Bool} {c : Char} {r : Text}
    (h : stop (c :: r) = false) :
    splitWhen stop (c :: r) = (c :: (splitWhen stop r).1, (splitWhen stop r).2) := by
  simp [splitWhen, h]

theorem splitWhen_of_stop {stop : Text → Bool} {t : Text} (h : t = [] ∨ stop t = true) :
    splitWhen stop t = ([], t) := by
  cases t with
  | nil => rfl
  | cons c r => simp [splitWhen, h.resolve_left (by simp)]

theorem head?_append_ne {c : Char} {t u : Text} (h : c ∉ t) (hu : u <:+ t) (hne : u ≠ [])
    (rest : Text) : (u ++ rest).head? ≠ some c := by
  obtain ⟨d, u, rfl⟩ := List.exists_cons_of_ne_nil hne
  rintro ⟨⟩
  exact h (hu.subset List.mem_cons_self)

theorem splitWhen_append_rest {stop : Text → Bool} {t rest : Text}
    (h : ∀ u, u <:+ t → u ≠ [] → stop (u ++ rest) = false) (hr : rest = [] ∨ stop rest = true) :
    splitWhen stop (t ++ rest) = (t, rest) := by
  induction t with
  | nil => exact splitWhen_of_stop hr
  | cons c t ih =>
    have hc : stop (c :: (t ++ rest)) = false := h _ (List.suffix_refl _) (List.cons_ne_nil c t)
    have ht := ih fun u hu => h u (hu.trans (List.suffix_cons c t))
    rw [List.cons_append, splitWhen_cons_of_not hc, ht]

theorem splitWhen_append_of_mem {stop : Text → Bool} {t : Text}
    (h : ∀ c ∈ t, ∀ u, stop (c :: u) = false) (rest : Text) :
    splitWhen stop (t ++ rest) = (t ++ (splitWhen stop rest).1, (splitWhen stop rest).2) := by
  induction t with
  | nil => rfl
  | cons c t ih =>
    have ht := ih fun d hd => h d (List.mem_cons_of_mem c hd)
    rw [List.cons_append, splitWhen_cons_of_not (h c List.mem_cons_self _), ht]
    rfl

theorem splitWhen_append_rest_of_mem {stop : Text → Bool} {t rest : Text}
    (h : ∀ c ∈ t, ∀ u, stop (c :: u) = false) (hr : rest = [] ∨ stop rest = true) :
    splitWhen stop (t ++ rest) = (t, rest) := by
  rw [splitWhen_append_of_mem h, splitWhen_of_stop hr, List.append_nil]

theorem splitWhen_append_of_stop (stop : Text → Bool) (t : Text) {u : Text}
    (hu : stop u = true) :
    ∃ before after, t = before ++ after ∧ splitWhen stop (t ++ u) = (before, after ++ u) := by
  induction t with
  | nil => exact ⟨[], [], rfl, splitWhen_of_stop (.inr hu)⟩
  | cons c t ih =>
    by_cases hc : stop (c :: (t ++ u)) = true
    · exact ⟨[], c :: t, rfl, splitWhen_of_stop (.inr hc)⟩
    · obtain ⟨before, after, rfl, hcut⟩ := ih
      refine ⟨c :: before, after, rfl, ?_⟩
      rw [List.cons_append, splitWhen_cons_of_not (by simpa using hc), hcut]

theorem exists_of_mem_splitWhen {stop : Text → Bool} {c : Char} {t : Text}
    (h : c ∈ (splitWhen stop t).1) : ∃ u, stop (c :: u) = false := by
  induction t with
  | nil => cases h
  | cons d t ih =>
    cases hd : stop (d :: t) with
    | true => simp [splitWhen, hd] at h
    | false =>
      rw [splitWhen_cons_of_not hd] at h
      rcases List.mem_cons.1 h with rfl | h
      · exact ⟨t, hd⟩
      · exact ih h

theorem cut_of_not_mem {c : Char} {t : Text} (h : c ∉ t) (mark : Text) :
    cut (c :: mark) t = none := by
  cases hcut : cut (c :: mark) t with
  | none => rfl
  | some sides =>
    obtain ⟨before, rest⟩ := sides
    rw [eq_of_cut hcut] at h
    simp at h

theorem cut_append_of_not_mem {c : Char} {t : Text} (h : c ∉ t) (mark rest : Text) :
    cut (c :: mark) (t ++ (c :: mark ++ rest)) = some (t, rest) := by
  induction t with
  | nil =>
    have hprefix : (c :: mark).isPrefixOf? (c :: (mark ++ rest)) = some rest := by simp
    rw [List.nil_append, List.cons_append, cut, hprefix]
  | cons d t ih =>
    simp only [List.mem_cons, not_or] at h
    have hprefix : (c :: mark).isPrefixOf? (d :: (t ++ (c :: mark ++ rest))) = none := by
      simp [List.isPrefixOf?, h.1]
    rw [List.cons_append, cut, hprefix, ih h.2]
    rfl

end Stencil.Text
