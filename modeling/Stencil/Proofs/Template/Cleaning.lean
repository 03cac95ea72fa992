import Stencil.Template.Compile

/-!
What cleaning the white space of a template leaves. It takes out blanks and dashes and nothing
else, and moves nothing. So the braces of the cleaned text are those of the template, one by one,
and what stands before a brace is what is left of what stood before it.
-/

set_option autoImplicit false

namespace Stencil

/-- The second text is the first one without some of its blanks and dashes. -/
structure Thins (t u : Text) : Prop where
  sublist : u.Sublist t
  count : ∀ {c}, isBlank c = false → c ≠ '-' → u.count c = t.count c

namespace Thins

variable {s t u v : Text}

theorem refl (t : Text) : Thins t t := ⟨List.Sublist.refl t, fun _ _ => rfl⟩

theorem trans (h : Thins t u) (g : Thins u v) : Thins t v :=
  ⟨g.sublist.trans h.sublist, fun hc hd => (g.count hc hd).trans (h.count hc hd)⟩

theorem append (h : Thins t u) (g : Thins s v) : Thins (t ++ s) (u ++ v) :=
  ⟨h.sublist.append g.sublist, fun hc hd => by
    rw [List.count_append, List.count_append, h.count hc hd, g.count hc hd]⟩

theorem cons (c : Char) (h : Thins t u) : Thins (c :: t) (c :: u) := (refl [c]).append h

theorem drop {c : Char} (hc : isBlank c = true ∨ c = '-') (h : Thins t u) : Thins (c :: t) u := by
  refine ⟨h.sublist.cons c, fun {d} hd hdash => ?_⟩
  have hne : c ≠ d := by
    rintro rfl
    rcases hc with hc | rfl
    · simp [hc] at hd
    · exact hdash rfl
  rw [List.count_cons_of_ne hne, h.count hd hdash]

theorem dropAll {blanks : Text} (hb : ∀ c ∈ blanks, isBlank c = true) (h : Thins t u) :
    Thins (blanks ++ t) u := by
  induction blanks with
  | nil => exact h
  | cons c blanks ih =>
    exact (ih fun d hd => hb d (List.mem_cons_of_mem c hd)).drop (.inl (hb c List.mem_cons_self))

theorem flatMap {α : Type} (f g : α → Text) (as : List α) (h : ∀ a ∈ as, Thins (f a) (g a)) :
    Thins (as.flatMap f) (as.flatMap g) := by
  induction as with
  | nil => exact refl []
  | cons a as ih =>
    rw [List.flatMap_cons, List.flatMap_cons]
    exact (h a List.mem_cons_self).append (ih fun b hb => h b (List.mem_cons_of_mem a hb))

/-- A character that is never taken out stands in the thinned text where it stood before: what is
before it is left of what was before it. -/
theorem exists_append {c : Char} (h : Thins t u) (hc : isBlank c = false) (hd : c ≠ '-')
    {before after : Text} (hu : u = before ++ c :: after) :
    ∃ before' after', t = before' ++ c :: after' ∧ before.Sublist before' ∧
      before.count c = before'.count c := by
  obtain ⟨hsub, hcount⟩ := h
  replace hcount := hcount hc hd
  induction hsub generalizing before with
  | slnil => simp at hu
  | @cons u t a h ih =>
    have hle := h.count_le c
    have ha : a ≠ c := by
      rintro rfl
      rw [List.count_cons_self] at hcount
      omega
    rw [List.count_cons_of_ne ha] at hcount
    obtain ⟨before', after', rfl, hbefore, hcount⟩ := ih hu hcount
    exact ⟨a :: before', after', rfl, hbefore.cons a, by rw [List.count_cons_of_ne ha, hcount]⟩
  | @cons_cons u t a h ih =>
    cases before with
    | nil =>
      obtain ⟨rfl, rfl⟩ := List.cons.inj hu
      exact ⟨[], t, rfl, List.Sublist.refl [], rfl⟩
    | cons b before =>
      obtain ⟨rfl, hrest⟩ := List.cons.inj hu
      rw [List.count_cons, List.count_cons, Nat.add_right_cancel_iff] at hcount
      obtain ⟨before', after', rfl, hbefore, hcount⟩ := ih hrest hcount
      exact ⟨a :: before', after', rfl, hbefore.cons_cons a, by simp [List.count_cons, hcount]⟩

end Thins

namespace Text

theorem thins_trimStart (t : Text) : Thins t t.trimStart := by
  unfold trimStart
  induction t with
  | nil => exact .refl []
  | cons c t ih =>
    by_cases hc : isBlank c = true
    · rw [List.dropWhile_cons_of_pos hc]
      exact ih.drop (.inl hc)
    · rw [List.dropWhile_cons_of_neg hc]
      exact .refl _

theorem thins_trimEnd (t : Text) : Thins t t.trimEnd := by
  have h := thins_trimStart t.reverse
  refine ⟨?_, fun hc hd => ?_⟩
  · have hsub := h.sublist.reverse
    rwa [List.reverse_reverse] at hsub
  · have hcount := h.count hc hd
    rw [List.count_reverse] at hcount
    rwa [trimEnd, List.count_reverse]

theorem thins_trim (t : Text) : Thins t t.trim :=
  (thins_trimStart t).trans (thins_trimEnd _)

end Text

namespace Whitespace

theorem thins_trimBefore (pending t : Text) (h : ∀ c ∈ pending, isBlank c = true) :
    Thins (pending ++ t) (trimBefore pending t) := by
  fun_induction trimBefore pending t with
  | case1 pending r ih =>
    exact ((Thins.refl ['{', '{', '{']).append ((ih (by simp)).drop (.inr rfl))).dropAll h
  | case2 pending r ih =>
    exact ((Thins.refl ['{', '{']).append ((ih (by simp)).drop (.inr rfl))).dropAll h
  | case3 pending c r _ _ hc ih =>
    have hpending : ∀ d ∈ pending ++ [c], isBlank d = true := by
      intro d hd
      rcases List.mem_append.1 hd with hd | hd
      · exact h d hd
      · rw [List.mem_singleton.1 hd, hc]
    simpa using ih hpending
  | case4 pending c r _ _ _ ih => exact (Thins.refl pending).append ((ih (by simp)).cons c)
  | case5 pending => simpa using Thins.refl pending

theorem thins_trimAfter (dropping : Bool) (t : Text) : Thins t (trimAfter dropping t) := by
  fun_induction trimAfter dropping t with
  | case1 dropping r ih => exact ((Thins.refl ['}', '}', '}']).append ih).drop (.inr rfl)
  | case2 dropping r _ ih => exact ((Thins.refl ['}', '}']).append ih).drop (.inr rfl)
  | case3 dropping c r _ _ hc ih =>
    rw [Bool.and_eq_true] at hc
    exact ih.drop (.inl hc.2)
  | case4 dropping c r _ _ _ ih => exact ih.cons c
  | case5 => exact .refl []

theorem thins_control (t : Text) : Thins t (control t) :=
  (thins_trimBefore [] t (by simp)).trans (thins_trimAfter false _)

theorem thins_standaloneLines (t : Text) : Thins t (standaloneLines t) := by
  have h := Thins.flatMap id (fun line => if isStandalone line.trim then line.trim else line)
    (lines t) fun line _ => by
      split
      · exact Text.thins_trim line
      · exact .refl line
  rwa [List.flatMap_id, flatten_lines] at h

end Whitespace

theorem Options.thins_clean {δ : Dialect} (o : Options δ) (template : Text) :
    Thins template (o.clean template) := by
  have hcontrol : Thins template (if o.control then Whitespace.control template else template) := by
    split
    · exact Whitespace.thins_control template
    · exact .refl template
  unfold clean
  simp only
  split
  · exact hcontrol.trans (Whitespace.thins_standaloneLines _)
  · exact hcontrol

end Stencil
