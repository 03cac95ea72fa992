import Stencil.Markup.Event
import Stencil.Proofs.Text.Utf8

/-!
The line of a byte offset. The table of the line breaks is sorted, so an offset that is looked up in
it by halving, found or not, comes to the number of breaks before it. Its line is one more.
-/

set_option autoImplicit false

namespace Stencil

theorem le_of_mem_newlinesFrom {offset n : Nat} {bs : List UInt8}
    (h : n ∈ newlinesFrom offset bs) : offset ≤ n := by
  induction bs generalizing offset with
  | nil => cases h
  | cons b bs ih =>
    rw [newlinesFrom] at h
    split at h
    · rcases List.mem_cons.1 h with rfl | h
      · exact Nat.le_refl _
      · exact Nat.le_of_succ_le (ih h)
    · exact Nat.le_of_succ_le (ih h)

theorem sorted_newlinesFrom (offset : Nat) (bs : List UInt8) :
    (newlinesFrom offset bs).Pairwise (· < ·) := by
  induction bs generalizing offset with
  | nil => exact .nil
  | cons b bs ih =>
    rw [newlinesFrom]
    split
    · exact .cons (fun n hn => le_of_mem_newlinesFrom hn) (ih _)
    · exact ih _

theorem countP_newlinesFrom (offset n : Nat) (bs : List UInt8) :
    (newlinesFrom offset bs).countP (· < offset + n) = (bs.take n).count (asciiByte '\n') := by
  induction bs generalizing offset n with
  | nil => simp [newlinesFrom]
  | cons b bs ih =>
    cases n with
    | zero =>
      rw [List.take_zero, List.count_nil, List.countP_eq_zero]
      exact fun m hm => by simpa using le_of_mem_newlinesFrom hm
    | succ n =>
      have hrest := ih (offset + 1) n
      rw [Nat.add_assoc, Nat.add_comm 1 n] at hrest
      rw [newlinesFrom, List.take_succ_cons, List.count_cons, ← hrest]
      split
      next hb => simp [hb]
      next hb => simp [hb]

theorem getElem_lt_iff_countP {xs : List Nat} (h : xs.Pairwise (· < ·)) (x : Nat) {i : Nat}
    (hi : i < xs.length) : xs[i] < x ↔ i < xs.countP (· < x) := by
  induction h generalizing i with
  | nil => cases hi
  | @cons y ys hy hys ih =>
    by_cases hx : y < x
    · cases i with
      | zero => simp [hx]
      | succ i => simpa [hx] using ih (Nat.lt_of_succ_lt_succ hi)
    · have hnone : (y :: ys).countP (· < x) = 0 := by
        rw [List.countP_eq_zero]
        rintro z hz
        rcases List.mem_cons.1 hz with rfl | hz
        · simpa using hx
        · have hlt := hy z hz
          simp only [decide_eq_true_eq]
          omega
      have hge : x ≤ (y :: ys)[i] := by
        cases i with
        | zero => exact Nat.le_of_not_lt hx
        | succ i =>
          have hlt := hy _ (List.getElem_mem (Nat.lt_of_succ_lt_succ hi))
          rw [List.getElem_cons_succ]
          omega
      omega

/-- The search keeps the place of the number in its window. -/
theorem searchIn_eq {table : Array Nat} (hsorted : table.toList.Pairwise (· < ·)) {x lo hi : Nat}
    {h : hi ≤ table.size} (hlo : lo ≤ table.toList.countP (· < x))
    (hhi : table.toList.countP (· < x) ≤ hi) :
    searchIn table x lo hi h = .ok (table.toList.countP (· < x)) ∨
      searchIn table x lo hi h = .error (table.toList.countP (· < x)) := by
  have hplace {i : Nat} (hi : i < table.size) : table[i] < x ↔ i < table.toList.countP (· < x) :=
    getElem_lt_iff_countP hsorted x hi
  fun_induction searchIn table x lo hi h with
  | case1 lo hi h hlt mid hmid hfound =>
    have hle : table.toList.countP (· < x) ≤ mid := by
      have := hplace (i := mid) (by omega)
      omega
    rcases Nat.lt_or_eq_of_le hle with hbefore | heq
    · -- an entry between the place and the one that was found
      have hstrict := List.pairwise_iff_getElem.1 hsorted _ mid
        (by simpa using Nat.lt_trans hbefore (by omega)) (by simpa using (by omega)) hbefore
      have hnot := hplace (i := table.toList.countP (· < x)) (by omega)
      simp only [Array.getElem_toList] at hstrict
      omega
    · exact .inl (by rw [heq])
  | case2 lo hi h hlt mid hmid hne hless ih =>
    exact ih ((hplace (by omega)).1 hless) hhi
  | case3 lo hi h hlt mid hmid hne hless ih =>
    exact ih hlo (Nat.le_of_not_lt fun hbelow => hless ((hplace (by omega)).2 hbelow))
  | case4 lo hi h hlt =>
    exact .inr (by rw [Nat.le_antisymm hlo (by omega)])

theorem lineAt_eq_count (t : Text) (offset : Nat) :
    lineAt t offset = 1 + (t.utf8.take offset).count (asciiByte '\n') := by
  have hcount := countP_newlinesFrom 0 offset t.utf8
  rw [Nat.zero_add] at hcount
  have hsearch := @searchIn_eq (newlines t) (sorted_newlinesFrom 0 t.utf8) offset 0
    (newlines t).size (Nat.le_refl _) (Nat.zero_le _) List.countP_le_length
  rw [newlines, hcount] at hsearch
  rw [lineAt, search, newlines, Nat.add_comm]
  rcases hsearch with h | h <;> rw [h]

theorem newline_not_mem_encode {c : Char} (h : c ≠ '\n') :
    asciiByte '\n' ∉ String.utf8EncodeChar c := by
  by_cases hc : c.toNat < 128
  · rw [encode_of_ascii hc, List.mem_singleton, ← leadByte_of_ascii hc]
    exact fun heq => h ((leadByte_eq_iff (by decide) c).1 heq.symm)
  · intro hmem
    have hhigh := high_of_mem_encode (Nat.le_of_not_lt hc) _ hmem
    exact absurd hhigh (by decide)

theorem Text.breaks_eq_count (t : Text) : t.breaks = t.utf8.count (asciiByte '\n') := by
  induction t with
  | nil => rfl
  | cons c t ih =>
    rw [Text.breaks] at ih
    rw [Text.breaks, List.count_cons, ih, utf8_cons, List.count_append, Nat.add_comm]
    by_cases hc : c = '\n'
    · rw [hc, encode_of_ascii (by decide), List.count_singleton_self]
      rfl
    · rw [List.count_eq_zero_of_not_mem (newline_not_mem_encode hc), if_neg (by simpa using hc)]

theorem lineAt_append (t u : Text) : lineAt (t ++ u) t.bytes = (Spot.start.past t).line := by
  rw [lineAt_eq_count, Text.utf8_append, ← Text.length_utf8, List.take_left, ← Text.breaks_eq_count]
  rfl

theorem lineAt_le (t : Text) (offset : Nat) : lineAt t offset ≤ 1 + t.breaks := by
  rw [lineAt_eq_count, Text.breaks_eq_count]
  exact Nat.add_le_add_left ((List.take_sublist offset t.utf8).count_le _) 1

theorem toNat_lineWord {t : Text} (h : 1 + t.breaks < UInt32.size) (offset : Nat) :
    (lineWord t offset).toNat = lineAt t offset :=
  UInt32.toNat_ofNat_of_lt (Nat.lt_of_le_of_lt (lineAt_le t offset) h)

end Stencil
