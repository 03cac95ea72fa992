import Stencil.Proofs.Markup.Canonical
import Stencil.Proofs.Markup.Closings

/-!
The places at which a text closes the element that holds it. Escaping puts one backslash behind the
character at each of them and changes nothing else. Two of them never overlap, since a tag has no
`<` in its name, so every text that keeps the characters of another one in their order and closes
nothing is longer by at least the number of its closing tags.
-/

set_option autoImplicit false

namespace Stencil

namespace Text

/-- At place `i` of a text begins what is `mark` in some letter case. -/
def OccursAt (mark t : Text) (i : Nat) : Prop :=
  ∃ before found after,
    t = before ++ found ++ after ∧ before.length = i ∧ found.lower = mark.lower

theorem begins_eq_sameLetters (mark t : Text) :
    begins mark t = sameLetters (t.take mark.length) mark := by
  cases h : sameLetters (t.take mark.length) mark <;> simp [begins, afterCaseless?, h]

theorem begins_eq_true_iff {mark t : Text} :
    begins mark t = true ↔ ∃ found after, t = found ++ after ∧ found.lower = mark.lower := by
  rw [begins_eq_sameLetters, sameLetters, beq_iff_eq]
  constructor
  · intro h
    exact ⟨t.take mark.length, t.drop mark.length, (List.take_append_drop ..).symm, h⟩
  · rintro ⟨found, after, rfl, hfound⟩
    have hlength : found.length = mark.length := by
      simpa using congrArg List.length hfound
    rw [← hlength, List.take_left, hfound]

theorem occursAt_iff {mark t : Text} {i : Nat} :
    OccursAt mark t i ↔ i ≤ t.length ∧ begins mark (t.drop i) = true := by
  constructor
  · rintro ⟨before, found, after, rfl, rfl, hfound⟩
    rw [List.append_assoc, List.drop_left]
    exact ⟨by simp, begins_eq_true_iff.2 ⟨found, after, rfl, hfound⟩⟩
  · rintro ⟨hi, hbegins⟩
    obtain ⟨found, after, hdrop, hfound⟩ := begins_eq_true_iff.1 hbegins
    refine ⟨t.take i, found, after, ?_, List.length_take_of_le hi, hfound⟩
    rw [List.append_assoc, ← hdrop, List.take_append_drop]

instance (mark t : Text) (i : Nat) : Decidable (OccursAt mark t i) :=
  decidable_of_iff _ occursAt_iff.symm

theorem occursAt_zero_iff {mark t : Text} : OccursAt mark t 0 ↔ begins mark t = true := by
  simp [occursAt_iff]

theorem occursAt_succ_iff {mark : Text} {c : Char} {t : Text} {i : Nat} :
    OccursAt mark (c :: t) (i + 1) ↔ OccursAt mark t i := by
  simp [occursAt_iff]

theorem closings_eq_zero_iff {tag t : Text} :
    closings tag t = 0 ↔ ∀ i, ¬OccursAt ('<' :: '/' :: tag) t i := by
  induction t with
  | nil => simp [closings, occursAt_iff]
  | cons c t ih =>
    rw [← Nat.and_forall_add_one]
    simp only [occursAt_zero_iff, occursAt_succ_iff, ← ih, closings, Nat.add_eq_zero_iff,
      Bool.toNat_eq_zero, Bool.not_eq_true]

theorem exists_of_begins {tag t : Text} (h : begins ('<' :: '/' :: tag) t = true) :
    ∃ r, t = '<' :: '/' :: r := by
  obtain _ | ⟨c, _ | ⟨d, r⟩⟩ := t
  · simp at h
  · simp at h
  · simp only [begins_cons_cons, Bool.and_eq_true, decide_eq_true_eq] at h
    have hlt : c = '<' := toLower_eq_lt_iff.1 h.1
    have hslash : d = '/' := eq_of_toLower_eq (by decide) h.2.1
    exact ⟨r, by rw [hlt, hslash]⟩

def insertBehind (d : Char) : (Nat → Bool) → Text → Text
  | _, [] => []
  | places, c :: t =>
    (if places 0 then [c, d] else [c]) ++ insertBehind d (fun i => places (i + 1)) t

theorem sublist_insertBehind (d : Char) (places : Nat → Bool) (t : Text) :
    t.Sublist (insertBehind d places t) := by
  induction t generalizing places with
  | nil => exact List.Sublist.refl []
  | cons c t ih =>
    have hrest := ih fun i => places (i + 1)
    rw [insertBehind]
    split
    · exact (hrest.cons d).cons_cons c
    · exact hrest.cons_cons c

theorem closings_append_of_lower {tag found : Text} (htag : '<' ∉ tag.lower)
    (h : found.lower = lower ('<' :: '/' :: tag)) (t : Text) :
    closings tag (found ++ t) = closings tag t + 1 := by
  have hbegins : begins ('<' :: '/' :: tag) (found ++ t) = true :=
    begins_eq_true_iff.2 ⟨found, t, rfl, h⟩
  cases found with
  | nil => cases h
  | cons c name =>
    have hname : lower name = lower ('/' :: tag) := (List.cons.inj h).2
    have hlt : '<' ∉ name := by
      intro hmem
      have hlower : '<' ∈ lower ('/' :: tag) := by
        rw [← hname]
        exact List.mem_map.2 ⟨'<', hmem, rfl⟩
      rcases List.mem_cons.1 hlower with hslash | hin
      · cases hslash
      · exact htag hin
    rw [List.cons_append] at hbegins ⊢
    rw [closings, hbegins, closings_append_of_not_mem hlt, Nat.add_comm]
    rfl

theorem exists_split_of_closings {tag s t u : Text} (h : (s ++ t).Sublist u)
    (hu : closings tag u = 0) :
    ∃ v w, u = v ++ w ∧ s.Sublist v ∧ t.Sublist w ∧ closings tag w = 0 := by
  obtain ⟨v, w, rfl, hv, hw⟩ := List.append_sublist_iff.1 h
  have hle := closings_le_append tag v w
  exact ⟨v, w, rfl, hv, hw, by omega⟩

/-- A text that keeps all characters of `t` in their order and closes nothing has one more for each
closing tag of `t`. -/
theorem length_add_closings_le {tag t u : Text} (htag : '<' ∉ tag.lower) (h : t.Sublist u)
    (hu : closings tag u = 0) : t.length + closings tag t ≤ u.length := by
  induction hn : t.length using Nat.strongRecOn generalizing t u with
  | ind n ih =>
    subst hn
    by_cases hbegins : begins ('<' :: '/' :: tag) t = true
    · obtain ⟨found, after, rfl, hfound⟩ := begins_eq_true_iff.1 hbegins
      obtain ⟨v, w, rfl, hv, hw, hnone⟩ := exists_split_of_closings h hu
      -- the part that keeps the closing tag is longer, or it would be one itself
      have hne : found ≠ v := by
        rintro rfl
        rw [closings_append_of_lower htag hfound] at hu
        cases hu
      have hlonger : found.length < v.length :=
        Nat.lt_of_not_le fun hle => hne (hv.eq_of_length_le hle)
      have hlength : found.length = tag.length + 2 := by
        simpa using congrArg List.length hfound
      have hafter := ih after.length (by rw [List.length_append]; omega) hw hnone rfl
      rw [closings_append_of_lower htag hfound, List.length_append, List.length_append]
      omega
    · cases t with
      | nil => simp [closings]
      | cons c r =>
        have hsplit : ([c] ++ r).Sublist u := h
        obtain ⟨v, w, rfl, hv, hw, hnone⟩ := exists_split_of_closings hsplit hu
        have hone : 1 ≤ v.length := hv.length_le
        have hrest := ih r.length (Nat.lt_succ_self _) hw hnone rfl
        rw [closings, eq_false_of_ne_true hbegins, List.length_append, List.length_cons,
          Bool.toNat_false]
        omega

end Text

theorem escapeRawText_cons (tag : Text) (c : Char) (t : Text) :
    escapeRawText tag (c :: t) =
      (if Text.begins ('<' :: '/' :: tag) (c :: t) then [c, '\\'] else [c]) ++
        escapeRawText tag t := by
  rw [escapeRawText, Text.begins_cons_cons]
  by_cases hc : c = '<' ∧ (Text.afterCaseless? ('/' :: tag) t).isSome = true
  · obtain ⟨rfl, hsome⟩ := hc
    have hbegins : Text.begins ('/' :: tag) t = true := hsome
    simp [hsome, hbegins]
  · have hbegins : (decide (c = '<') && Text.begins ('/' :: tag) t) = false := by
      simpa [Text.begins] using hc
    rw [if_neg hc]
    simp only [Char.reduceToLower, Text.toLower_eq_lt_iff, hbegins]
    rfl

theorem escapeRawText_eq_insertBehind (tag t : Text) :
    escapeRawText tag t =
      t.insertBehind '\\' fun i => decide (Text.OccursAt ('<' :: '/' :: tag) t i) := by
  induction t with
  | nil => rfl
  | cons c t ih =>
    simp only [escapeRawText_cons, Text.insertBehind, ih, Text.occursAt_zero_iff,
      Text.occursAt_succ_iff, Bool.decide_eq_true]

theorem length_escapeRawText (tag t : Text) :
    (escapeRawText tag t).length = t.length + Text.closings tag t := by
  induction t with
  | nil => rfl
  | cons c t ih =>
    rw [escapeRawText_cons, List.length_append, ih, Text.closings, List.length_cons]
    cases Text.begins ('<' :: '/' :: tag) (c :: t) <;> simp <;> omega

theorem sublist_escapeRawText (tag t : Text) : t.Sublist (escapeRawText tag t) := by
  rw [escapeRawText_eq_insertBehind]
  exact Text.sublist_insertBehind '\\' _ t

theorem escapeRawText_eq_self_iff {tag t : Text} :
    escapeRawText tag t = t ↔ Text.closings tag t = 0 := by
  constructor
  · intro heq
    have hlength := length_escapeRawText tag t
    rw [heq] at hlength
    omega
  · intro hzero
    exact escapeRawText_of_closesNone (Text.closesNone_of_closings hzero)

theorem closings_escapeRawText {tag : Text} (htag : '<' ∉ tag.lower) (t : Text) :
    Text.closings tag (escapeRawText tag t) = 0 := by
  have h := closings_flatMap_escapeRawText htag [t]
  simpa using h

end Stencil
