import Stencil.Marker
import Stencil.Markup.Node
import Stencil.Proofs.Text.Cut

/-!
What references written by the library look like and mean. Reading them back gives the text that
was written. Written text has no character that markup would take for its own: no `<` in text, no
double quote in a value, and no double braces unless they were there.
-/

set_option autoImplicit false

namespace Stencil.Text

/-- A character is written as it is, or as a reference that reads as that character. Those that are
special where the text stands are not in what is written. -/
def WrittenBy (read : Text → Option Reference) (write : Char → Text) (special : List Char)
    (c : Char) : Prop :=
  (write c = [c] ∧ c ≠ '&' ∧ c ∉ special) ∨
    ∃ name, write c = '&' :: name ∧ (∀ d ∈ '{' :: special, d ∉ '&' :: name) ∧
      ∀ rest, read (name ++ rest) = some ⟨[c], name.length⟩

theorem unescapeFrom_append (read : Text → Option Reference) (passed rest : Text) :
    unescapeFrom read passed.length (passed ++ rest) = unescapeFrom read 0 rest := by
  induction passed with
  | nil => rfl
  | cons c passed ih => exact ih

theorem unescapeFrom_flatMap_append {read : Text → Option Reference} {write : Char → Text}
    {special : List Char} (h : ∀ c, WrittenBy read write special c) (t rest : Text) :
    unescapeFrom read 0 (t.flatMap write ++ rest) = t ++ unescapeFrom read 0 rest := by
  induction t with
  | nil => rfl
  | cons c t ih =>
    rw [List.flatMap_cons, List.append_assoc]
    rcases h c with ⟨hc, hamp, -⟩ | ⟨name, hc, -, hread⟩
    · simp only [hc, List.cons_append, List.nil_append, unescapeFrom, if_neg hamp, ih]
    · simp only [hc, List.cons_append, unescapeFrom, if_true, hread, unescapeFrom_append, ih]
      rfl

theorem unescapeFrom_flatMap {read : Text → Option Reference} {write : Char → Text}
    {special : List Char} (h : ∀ c, WrittenBy read write special c) (t : Text) :
    unescapeFrom read 0 (t.flatMap write) = t := by
  have happend := unescapeFrom_flatMap_append h t []
  simpa [unescapeFrom] using happend

theorem writtenBy_escapeText (c : Char) :
    WrittenBy Reference.inText? (fun c => escapeText [c]) ['<', '>'] c := by
  by_cases hamp : c = '&'
  · subst hamp
    exact .inr ⟨"amp;", by decide, forall_mem_of_all (by decide), fun _ => rfl⟩
  · by_cases hlt : c = '<'
    · subst hlt
      exact .inr ⟨"lt;", by decide, forall_mem_of_all (by decide), fun _ => rfl⟩
    · by_cases hgt : c = '>'
      · subst hgt
        exact .inr ⟨"gt;", by decide, forall_mem_of_all (by decide), fun _ => rfl⟩
      · refine .inl ⟨?_, hamp, by simp [hlt, hgt]⟩
        simp only [escapeText, List.flatMap_singleton, if_neg hamp, if_neg hlt, if_neg hgt]

theorem writtenBy_escapeAttribute (c : Char) :
    WrittenBy Reference.inAttribute? (fun c => escapeAttribute [c]) ['<', '>', '"'] c := by
  by_cases hamp : c = '&'
  · subst hamp
    exact .inr ⟨"amp;", by decide, forall_mem_of_all (by decide), fun _ => rfl⟩
  · by_cases hlt : c = '<'
    · subst hlt
      exact .inr ⟨"lt;", by decide, forall_mem_of_all (by decide), fun _ => rfl⟩
    · by_cases hgt : c = '>'
      · subst hgt
        exact .inr ⟨"gt;", by decide, forall_mem_of_all (by decide), fun _ => rfl⟩
      · by_cases hquote : c = '"'
        · subst hquote
          exact .inr ⟨"quot;", by decide, forall_mem_of_all (by decide), fun _ => rfl⟩
        · refine .inl ⟨?_, hamp, by simp [hlt, hgt, hquote]⟩
          simp only [escapeAttribute, List.flatMap_singleton, if_neg hamp, if_neg hlt, if_neg hgt,
            if_neg hquote]

theorem escapeText_eq_flatMap (t : Text) : escapeText t = t.flatMap fun c => escapeText [c] := by
  unfold escapeText
  simp only [List.flatMap_singleton]

theorem escapeAttribute_eq_flatMap (t : Text) :
    escapeAttribute t = t.flatMap fun c => escapeAttribute [c] := by
  unfold escapeAttribute
  simp only [List.flatMap_singleton]

theorem unescapeText_escapeText (t : Text) : unescapeText (escapeText t) = t := by
  rw [escapeText_eq_flatMap]
  exact unescapeFrom_flatMap writtenBy_escapeText t

theorem unescapeAttribute_escapeAttribute_append (t rest : Text) :
    unescapeAttribute (escapeAttribute t ++ rest) = t ++ unescapeAttribute rest := by
  rw [escapeAttribute_eq_flatMap]
  exact unescapeFrom_flatMap_append writtenBy_escapeAttribute t rest

theorem unescapeAttribute_escapeAttribute (t : Text) :
    unescapeAttribute (escapeAttribute t) = t := by
  rw [escapeAttribute_eq_flatMap]
  exact unescapeFrom_flatMap writtenBy_escapeAttribute t

theorem not_mem_flatMap {read : Text → Option Reference} {write : Char → Text}
    {special : List Char} (h : ∀ c, WrittenBy read write special c) {d : Char} (hd : d ∈ special)
    (t : Text) : d ∉ t.flatMap write := by
  intro hmem
  obtain ⟨c, -, hc⟩ := List.mem_flatMap.1 hmem
  rcases h c with ⟨hwrite, -, hspecial⟩ | ⟨name, hwrite, hname, -⟩
  · rw [hwrite, List.mem_singleton] at hc
    exact hspecial (hc ▸ hd)
  · rw [hwrite] at hc
    exact hname d (List.mem_cons_of_mem _ hd) hc

theorem lt_not_mem_escapeText (t : Text) : '<' ∉ escapeText t := by
  rw [escapeText_eq_flatMap]
  exact not_mem_flatMap writtenBy_escapeText (by simp) t

theorem quote_not_mem_escapeAttribute (t : Text) : '"' ∉ escapeAttribute t := by
  rw [escapeAttribute_eq_flatMap]
  exact not_mem_flatMap writtenBy_escapeAttribute (by simp) t

/-- Without the opening braces of a marker. -/
def Unmarked (t : Text) : Prop := ¬['{', '{'] <:+: t

theorem opensAt_eq_false_of_ne {c : Char} (h : c ≠ '{') (t : Text) :
    Marker.opensAt (c :: t) = false := by
  unfold Marker.opensAt
  split
  next heq =>
    cases heq
    contradiction
  next => rfl

theorem opensAt_brace (t : Text) : Marker.opensAt ('{' :: t) = true ↔ t.head? = some '{' := by
  cases t with
  | nil => simp [Marker.opensAt]
  | cons d t =>
    by_cases hd : d = '{'
    · subst hd
      simp [Marker.opensAt]
    · simp [Marker.opensAt, hd]

theorem unmarked_nil : Unmarked [] := by simp [Unmarked]

theorem unmarked_cons {c : Char} {t : Text} :
    Unmarked (c :: t) ↔ Marker.opensAt (c :: t) = false ∧ Unmarked t := by
  have hprefix : ['{', '{'] <+: c :: t ↔ Marker.opensAt (c :: t) = true := by
    by_cases hc : c = '{'
    · subst hc
      cases t with
      | nil => simp [Marker.opensAt]
      | cons d t => simp [opensAt_brace, List.cons_prefix_cons, @eq_comm _ '{' d]
    · have hc' : '{' ≠ c := fun h => hc h.symm
      simp [opensAt_eq_false_of_ne hc, List.cons_prefix_cons, hc']
  unfold Unmarked
  rw [List.infix_cons_iff, hprefix, not_or, Bool.not_eq_true]

theorem Unmarked.of_suffix {t u : Text} (h : Unmarked t) (hu : u <:+ t) : Unmarked u :=
  fun hin => h (hin.trans hu.isInfix)

theorem Unmarked.append {s t : Text} (h : Unmarked t) (hs : '{' ∉ s) : Unmarked (s ++ t) := by
  induction s with
  | nil => exact h
  | cons c s ih =>
    simp only [List.mem_cons, not_or] at hs
    exact unmarked_cons.2 ⟨opensAt_eq_false_of_ne (fun hc => hs.1 hc.symm) _, ih hs.2⟩

theorem unmarked_of_not_mem {t : Text} (h : '{' ∉ t) : Unmarked t :=
  fun hin => h (hin.subset List.mem_cons_self)

def KeepsBraces (write : Char → Text) : Prop :=
  ∀ c, write c = [c] ∨ write c ≠ [] ∧ '{' ∉ write c

theorem WrittenBy.keepsBraces {read : Text → Option Reference} {write : Char → Text}
    {special : List Char} (h : ∀ c, WrittenBy read write special c) : KeepsBraces write := by
  intro c
  rcases h c with ⟨hc, -⟩ | ⟨name, hc, hname, -⟩
  · exact .inl hc
  · rw [hc]
    exact .inr ⟨by simp, hname '{' List.mem_cons_self⟩

/-- Between two braces of the written text there was nothing before either. -/
theorem head?_flatMap_ne {write : Char → Text} (h : KeepsBraces write) {t : Text}
    (ht : t.head? ≠ some '{') : (t.flatMap write).head? ≠ some '{' := by
  cases t with
  | nil => simp
  | cons d t =>
    rw [List.flatMap_cons]
    rcases h d with hd | ⟨hne, hd⟩
    · simpa [hd] using ht
    · obtain ⟨e, r, hr⟩ := List.exists_cons_of_ne_nil hne
      rw [hr] at hd ⊢
      simp only [List.mem_cons, not_or] at hd
      simpa using Ne.symm hd.1

theorem Unmarked.flatMap {write : Char → Text} (h : KeepsBraces write) {t : Text}
    (ht : Unmarked t) : Unmarked (t.flatMap write) := by
  induction t with
  | nil => exact unmarked_nil
  | cons c t ih =>
    rw [unmarked_cons] at ht
    rw [List.flatMap_cons]
    rcases h c with hc | ⟨-, hc⟩
    · rw [hc, List.singleton_append, unmarked_cons]
      refine ⟨?_, ih ht.2⟩
      by_cases hbrace : c = '{'
      · subst hbrace
        rw [← Bool.not_eq_true, opensAt_brace] at ht ⊢
        exact head?_flatMap_ne h ht.1
      · exact opensAt_eq_false_of_ne hbrace _
    · exact (ih ht.2).append hc

theorem Unmarked.escapeText {t : Text} (h : Unmarked t) : Unmarked (escapeText t) := by
  rw [escapeText_eq_flatMap]
  exact h.flatMap (WrittenBy.keepsBraces writtenBy_escapeText)

theorem Unmarked.escapeAttribute {t : Text} (h : Unmarked t) : Unmarked (escapeAttribute t) := by
  rw [escapeAttribute_eq_flatMap]
  exact h.flatMap (WrittenBy.keepsBraces writtenBy_escapeAttribute)

theorem Unmarked.opensAt_append {t u rest : Text} (h : Unmarked t) (hu : u <:+ t) (hne : u ≠ [])
    (hrest : rest.head? ≠ some '{') : Marker.opensAt (u ++ rest) = false := by
  obtain ⟨c, u, rfl⟩ := List.exists_cons_of_ne_nil hne
  have hopens := (unmarked_cons.1 (h.of_suffix hu)).1
  by_cases hc : c = '{'
  · subst hc
    rw [← Bool.not_eq_true, opensAt_brace] at hopens
    rw [List.cons_append, ← Bool.not_eq_true, opensAt_brace]
    cases u with
    | nil => exact hrest
    | cons d u => exact hopens
  · exact opensAt_eq_false_of_ne hc _

theorem Unmarked.append_brace {t : Text} (h : Unmarked t) (hlast : t.getLast? ≠ some '{') :
    Unmarked (t ++ ['{']) := by
  induction t with
  | nil => simp [unmarked_cons, unmarked_nil, Marker.opensAt]
  | cons c t ih =>
    rw [unmarked_cons] at h
    cases t with
    | nil =>
      have hc : c ≠ '{' := by simpa using hlast
      exact unmarked_cons.2 ⟨opensAt_eq_false_of_ne hc _, ih h.2 (by simp)⟩
    | cons d t =>
      have hopens : Marker.opensAt (c :: d :: t ++ ['{']) = false := by
        by_cases hc : c = '{'
        · subst hc
          rw [← Bool.not_eq_true, opensAt_brace] at h
          rw [List.cons_append, ← Bool.not_eq_true, opensAt_brace]
          exact h.1
        · exact opensAt_eq_false_of_ne hc _
      exact unmarked_cons.2 ⟨hopens, ih h.2 (by simpa [List.getLast?_cons_cons] using hlast)⟩

theorem Unmarked.append_of_head {s t : Text} (hs : Unmarked s) (ht : Unmarked t)
    (hhead : t.head? ≠ some '{') : Unmarked (s ++ t) := by
  induction s with
  | nil => exact ht
  | cons c s ih =>
    have hopens := hs.opensAt_append (List.suffix_refl _) (List.cons_ne_nil c s) hhead
    exact unmarked_cons.2 ⟨hopens, ih (unmarked_cons.1 hs).2⟩

end Stencil.Text
