import Stencil.Markup.Scan
import Stencil.Proofs.Text.Cut

/-!
What the look-ahead of a start tag sees. It knows nothing of attributes: wherever they stand, quotes
hide what is between them, and so do the braces of a marker. The first `>` that is not hidden is
the one that it takes for the end of the tag.
-/

set_option autoImplicit false

namespace Stencil

def Text.EndsInSlash (t : Text) : Prop := t.getLast? = some '/'

theorem Marker.opensAt_iff {t : Text} : opensAt t = true ↔ ∃ r, t = '{' :: '{' :: r := by
  constructor
  · intro h
    unfold opensAt at h
    split at h
    next r => exact ⟨r, rfl⟩
    next => cases h
  · rintro ⟨r, rfl⟩
    rfl

namespace Skim

/-- A text that the look-ahead passes over whole: texts in quotes, markers up to their first closing
braces, and between them characters that open neither and end no tag. -/
inductive Passes : Text → Prop
  | nil : Passes []
  | char {c : Char} {t : Text} (hc : c ≠ '"' ∧ c ≠ '\x27' ∧ c ≠ '>')
      (hm : Marker.opensAt (c :: t) = false) (ht : Passes t) : Passes (c :: t)
  | quoted {q : Char} {v t : Text} (hq : q = '"' ∨ q = '\x27') (hv : q ∉ v) (ht : Passes t) :
      Passes (q :: (v ++ q :: t))
  | marker {b t : Text} (hb : ¬['}', '}'] <:+: b ++ ['}']) (ht : Passes t) :
      Passes ('{' :: '{' :: (b ++ '}' :: '}' :: t))

theorem Passes.plain {s t : Text}
    (hs : ∀ c ∈ s, c ≠ '"' ∧ c ≠ '\x27' ∧ c ≠ '>' ∧ c ≠ '{') (ht : Passes t) : Passes (s ++ t) := by
  induction s with
  | nil => exact ht
  | cons c s ih =>
    obtain ⟨hquote, hapostrophe, hend, hbrace⟩ := hs c List.mem_cons_self
    refine .char ⟨hquote, hapostrophe, hend⟩ ?_ (ih fun d hd => hs d (List.mem_cons_of_mem c hd))
    rw [← Bool.not_eq_true, Marker.opensAt_iff]
    rintro ⟨r, hr⟩
    exact hbrace (List.cons.inj hr).1

/-- The look-ahead ends the tag at the `>` right after `look`. -/
def EndsAt (t look : Text) : Prop := Passes look ∧ ∃ after, t = look ++ '>' :: after

theorem selfClosing_nil (skim : Skim) (last : Char) : selfClosing skim last [] = false := by
  cases skim <;> rfl

theorem selfClosing_end (last : Char) (r : Text) :
    selfClosing .plain last ('>' :: r) = decide (last = '/') := rfl

theorem selfClosing_char {c : Char} (hc : c ≠ '"' ∧ c ≠ '\x27' ∧ c ≠ '>') {r : Text}
    (hm : Marker.opensAt (c :: r) = false) (last : Char) :
    selfClosing .plain last (c :: r) = selfClosing .plain c r := by
  have hbraces : ∀ r', c = '{' → r = '{' :: r' → False := by
    rintro r' rfl rfl
    cases hm
  rw [selfClosing]
  · simp [hc]
  · exact hbraces

theorem selfClosing_quote {q : Char} (hq : q = '"' ∨ q = '\x27') (last : Char) (r : Text) :
    selfClosing .plain last (q :: r) = selfClosing (.quoted q) q r := by
  rcases hq with rfl | rfl <;> rfl

theorem selfClosing_open (last : Char) (r : Text) :
    selfClosing .plain last ('{' :: '{' :: r) = selfClosing .marker '{' r := rfl

theorem selfClosing_in_quotes (q last c : Char) (r : Text) :
    selfClosing (.quoted q) last (c :: r) =
      selfClosing (if c = q then .plain else .quoted q) c r := by
  rw [selfClosing]

theorem selfClosing_close (last : Char) (r : Text) :
    selfClosing .marker last ('}' :: '}' :: r) = selfClosing .plain '}' r := rfl

theorem selfClosing_hidden {c : Char} {r : Text} (h : ¬['}', '}'] <+: c :: r) (last : Char) :
    selfClosing .marker last (c :: r) = selfClosing .marker c r := by
  have hbraces : ∀ r', c = '}' → r = '}' :: r' → False := by
    rintro r' rfl rfl
    exact h ⟨r', rfl⟩
  rw [selfClosing]
  exact hbraces

theorem selfClosing_quoted {q : Char} {v : Text} (hv : q ∉ v) (last : Char) (r : Text) :
    selfClosing (.quoted q) last (v ++ q :: r) = selfClosing .plain q r := by
  induction v generalizing last with
  | nil => rw [List.nil_append, selfClosing_in_quotes, if_pos rfl]
  | cons c v ih =>
    simp only [List.mem_cons, not_or] at hv
    rw [List.cons_append, selfClosing_in_quotes, if_neg fun h => hv.1 h.symm]
    exact ih hv.2 c

theorem unquote_of_selfClosing {q last : Char} {t : Text}
    (h : selfClosing (.quoted q) last t = true) :
    ∃ v r, t = v ++ q :: r ∧ q ∉ v ∧ selfClosing .plain q r = true := by
  induction t generalizing last with
  | nil =>
    rw [selfClosing_nil] at h
    cases h
  | cons c t ih =>
    rw [selfClosing_in_quotes] at h
    by_cases hc : c = q
    · subst hc
      rw [if_pos rfl] at h
      exact ⟨[], t, rfl, by simp, h⟩
    · rw [if_neg hc] at h
      obtain ⟨v, r, rfl, hv, hr⟩ := ih h
      exact ⟨c :: v, r, rfl, by simp [hv, Ne.symm hc], hr⟩

theorem closes_iff {c : Char} {b r : Text} :
    ['}', '}'] <+: c :: (b ++ '}' :: '}' :: r) ↔ ['}', '}'] <+: c :: (b ++ ['}']) := by
  cases b with
  | nil => simp [List.cons_prefix_cons]
  | cons d b => simp [List.cons_prefix_cons]

theorem selfClosing_marker {b : Text} (hb : ¬['}', '}'] <:+: b ++ ['}']) (last : Char) (r : Text) :
    selfClosing .marker last (b ++ '}' :: '}' :: r) = selfClosing .plain '}' r := by
  induction b generalizing last with
  | nil => exact selfClosing_close last r
  | cons c b ih =>
    rw [List.cons_append, List.infix_cons_iff, not_or, ← closes_iff (r := r)] at hb
    rw [List.cons_append, selfClosing_hidden hb.1]
    exact ih hb.2 c

theorem unmark_of_selfClosing {last : Char} {t : Text} (h : selfClosing .marker last t = true) :
    ∃ b r, t = b ++ '}' :: '}' :: r ∧ ¬['}', '}'] <:+: b ++ ['}'] ∧
      selfClosing .plain '}' r = true := by
  induction t generalizing last with
  | nil =>
    rw [selfClosing_nil] at h
    cases h
  | cons c t ih =>
    by_cases hc : ['}', '}'] <+: c :: t
    · obtain ⟨r, hr⟩ := hc
      rw [← hr] at h ⊢
      exact ⟨[], r, rfl, by decide, by rwa [List.cons_append, List.cons_append,
        selfClosing_close] at h⟩
    · rw [selfClosing_hidden hc] at h
      obtain ⟨b, r, rfl, hb, hr⟩ := ih h
      refine ⟨c :: b, r, rfl, ?_, hr⟩
      rw [closes_iff] at hc
      rw [List.cons_append, List.infix_cons_iff, not_or]
      exact ⟨hc, hb⟩

theorem selfClosing_of_passes {look : Text} (h : Passes look) (last : Char) (after : Text) :
    selfClosing .plain last (look ++ '>' :: after) =
      decide (look.getLast?.getD last = '/') := by
  induction h generalizing last with
  | nil => exact selfClosing_end last after
  | @char c t hc hm ht ih =>
    have hopens : Marker.opensAt (c :: (t ++ '>' :: after)) = false := by
      rw [← Bool.not_eq_true, Marker.opensAt_iff] at hm ⊢
      rintro ⟨r, hr⟩
      cases t with
      | nil => simp at hr
      | cons d t =>
        cases hr
        exact hm ⟨t, rfl⟩
    rw [List.cons_append, selfClosing_char hc hopens, ih, List.getLast?_cons]
    rfl
  | @quoted q v t hq hv ht ih =>
    have hsource : q :: (v ++ q :: t) ++ '>' :: after = q :: (v ++ q :: (t ++ '>' :: after)) := by
      simp
    rw [hsource, selfClosing_quote hq, selfClosing_quoted hv, ih]
    simp [List.getLast?_append, List.getLast?_cons]
  | @marker b t hb ht ih =>
    have hsource : '{' :: '{' :: (b ++ '}' :: '}' :: t) ++ '>' :: after =
        '{' :: '{' :: (b ++ '}' :: '}' :: (t ++ '>' :: after)) := by simp
    rw [hsource, selfClosing_open, selfClosing_marker hb, ih]
    simp [List.getLast?_append, List.getLast?_cons]

theorem endsAt_of_selfClosing {last : Char} {t : Text} (h : selfClosing .plain last t = true) :
    ∃ look, EndsAt t look ∧ look.getLast?.getD last = '/' := by
  -- quoted text and markers are passed in one go, so the recursion is on the length of what is left
  match t with
  | [] =>
    rw [selfClosing_nil] at h
    cases h
  | c :: r =>
    by_cases hend : c = '>'
    · subst hend
      rw [selfClosing_end, decide_eq_true_eq] at h
      exact ⟨[], ⟨.nil, r, rfl⟩, h⟩
    · by_cases hq : c = '"' ∨ c = '\x27'
      · rw [selfClosing_quote hq] at h
        obtain ⟨v, r, rfl, hv, hr⟩ := unquote_of_selfClosing h
        obtain ⟨look, ⟨hlook, after, rfl⟩, hslash⟩ := endsAt_of_selfClosing hr
        refine ⟨c :: (v ++ c :: look), ⟨.quoted hq hv hlook, after, by simp⟩, ?_⟩
        simpa [List.getLast?_append, List.getLast?_cons] using hslash
      · cases hm : Marker.opensAt (c :: r) with
        | true =>
          obtain ⟨r, hr⟩ := Marker.opensAt_iff.1 hm
          cases hr
          rw [selfClosing_open] at h
          obtain ⟨b, r, rfl, hb, hr⟩ := unmark_of_selfClosing h
          obtain ⟨look, ⟨hlook, after, rfl⟩, hslash⟩ := endsAt_of_selfClosing hr
          refine ⟨'{' :: '{' :: (b ++ '}' :: '}' :: look), ⟨.marker hb hlook, after, by simp⟩, ?_⟩
          simpa [List.getLast?_append, List.getLast?_cons] using hslash
        | false =>
          rw [not_or] at hq
          have hc : c ≠ '"' ∧ c ≠ '\x27' ∧ c ≠ '>' := ⟨hq.1, hq.2, hend⟩
          rw [selfClosing_char hc hm] at h
          obtain ⟨look, ⟨hlook, after, rfl⟩, hslash⟩ := endsAt_of_selfClosing h
          refine ⟨c :: look, ⟨.char hc ?_ hlook, after, rfl⟩, ?_⟩
          · rw [← Bool.not_eq_true, Marker.opensAt_iff] at hm ⊢
            rintro ⟨u, hu⟩
            cases hu
            exact hm ⟨u ++ '>' :: after, rfl⟩
          · simpa [List.getLast?_cons] using hslash
termination_by t.length

theorem getLast?_getD_space (look : Text) :
    look.getLast?.getD ' ' = '/' ↔ Text.EndsInSlash look := by
  unfold Text.EndsInSlash
  cases look.getLast? <;> simp

theorem selfClosing_of_endsAt {t look : Text} (h : EndsAt t look) :
    selfClosing .plain ' ' t = true ↔ Text.EndsInSlash look := by
  obtain ⟨hlook, after, rfl⟩ := h
  rw [selfClosing_of_passes hlook, decide_eq_true_eq, getLast?_getD_space]

/-- The look-ahead finds a slash if there is one right before the `>` that it stops at. -/
theorem selfClosing_iff {t : Text} :
    selfClosing .plain ' ' t = true ↔ ∃ look, EndsAt t look ∧ Text.EndsInSlash look := by
  constructor
  · intro h
    obtain ⟨look, hends, hslash⟩ := endsAt_of_selfClosing h
    exact ⟨look, hends, (getLast?_getD_space look).1 hslash⟩
  · rintro ⟨look, hends, hslash⟩
    exact (selfClosing_of_endsAt hends).2 hslash

theorem selfClosing_iff_endsInSlash (t inside : Text) :
    (selfClosing .plain ' ' t = true ↔ Text.EndsInSlash inside) ↔
      (∃ look, EndsAt t look ∧ (Text.EndsInSlash look ↔ Text.EndsInSlash inside)) ∨
        (∀ look, ¬EndsAt t look) ∧ ¬Text.EndsInSlash inside := by
  by_cases hends : ∃ look, EndsAt t look
  · obtain ⟨look, hlook⟩ := hends
    have hfound := selfClosing_of_endsAt hlook
    constructor
    · intro h
      exact .inl ⟨look, hlook, hfound.symm.trans h⟩
    · rintro (⟨other, hother, h⟩ | ⟨hno, -⟩)
      · exact (selfClosing_of_endsAt hother).trans h
      · exact absurd hlook (hno look)
  · have hno : ∀ look, ¬EndsAt t look := fun look hlook => hends ⟨look, hlook⟩
    have hfalse : ¬selfClosing .plain ' ' t = true := by
      rw [selfClosing_iff]
      rintro ⟨look, hlook, -⟩
      exact hno look hlook
    constructor
    · intro h
      exact .inr ⟨hno, fun hslash => hfalse (h.2 hslash)⟩
    · rintro (⟨look, hlook, -⟩ | ⟨-, hslash⟩)
      · exact absurd hlook (hno look)
      · exact ⟨fun h => absurd h hfalse, fun h => absurd h hslash⟩

end Skim

end Stencil
