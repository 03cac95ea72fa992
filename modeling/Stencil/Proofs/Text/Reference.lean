import Stencil.Proofs.Text.Escape
import Stencil.Template.Assembly

/-!
References in attribute values where values are put together. A text reads by itself if none of
its references goes on into what follows. Writing its double quotes as references changes nothing,
for a reference ends before a quote as it does before an ampersand.
-/

set_option autoImplicit false

namespace Stencil.Text

/-- No reference begins in the text and goes on into what follows. -/
def Separate (t rest : Text) : Prop :=
  ∀ w, '&' :: w <:+ t → Reference.inAttribute? (w ++ rest) = Reference.inAttribute? w

theorem Separate.of_suffix {t u rest : Text} (h : Separate t rest) (hu : u <:+ t) :
    Separate u rest := fun w hw => h w (hw.trans hu)

theorem separate_nil (t : Text) : Separate t [] := fun w _ => by rw [List.append_nil]

theorem separate_empty (rest : Text) : Separate [] rest := fun w hw => by simp at hw

/-- Texts that are equal, or as far as a quote in the one and an ampersand in the other. -/
inductive Alike : Text → Text → Prop
  | refl (t : Text) : Alike t t
  | quote (t u : Text) : Alike ('"' :: t) ('&' :: u)
  | cons (c : Char) {t u : Text} (h : Alike t u) : Alike (c :: t) (c :: u)

theorem alike_quoteMarks (t rest : Text) : Alike (t ++ rest) (Assembly.quoteMarks t ++ rest) := by
  induction t with
  | nil => exact .refl rest
  | cons c t ih =>
    by_cases hc : c = '"'
    · subst hc
      exact .quote _ _
    · have hquote : Assembly.quoteMarks (c :: t) = c :: Assembly.quoteMarks t := by
        simp [Assembly.quoteMarks, hc]
      rw [hquote]
      exact .cons c ih

namespace Alike

variable {t u : Text}

theorem takeWhile (h : Alike t u) {p : Char → Bool} (hq : p '"' = false) (ha : p '&' = false) :
    t.takeWhile p = u.takeWhile p := by
  induction h with
  | refl => rfl
  | quote t u => simp [hq, ha]
  | cons c h ih => rw [List.takeWhile_cons, List.takeWhile_cons, ih]

theorem next (h : Alike t u) {p : Char → Bool} (hq : p '"' = false) (ha : p '&' = false) :
    (t.drop (t.takeWhile p).length).head? = (u.drop (u.takeWhile p).length).head? ∨
      (t.drop (t.takeWhile p).length).head? = some '"' ∧
      (u.drop (u.takeWhile p).length).head? = some '&' := by
  induction h with
  | refl => exact .inl rfl
  | quote t u =>
    exact .inr (by simp [hq, ha])
  | cons c h ih =>
    cases hc : p c with
    | true => simpa [hc] using ih
    | false => exact .inl (by simp [hc])

end Alike

theorem readDigits_eq (base : Nat) (t : Text) :
    readDigits base t =
      let ds := (t.takeWhile fun c => (digitValue? base c).isSome).map (digitValue? base)
      (ds.foldl (fun n d => n * base + d.getD 0) 0, ds.length) := by
  unfold readDigits
  rw [List.takeWhile_map]
  rfl

theorem Alike.ofDigits? {t u : Text} (h : Alike t u) (base passed : Nat) :
    Reference.ofDigits? base passed t = Reference.ofDigits? base passed u := by
  have hruns := h.takeWhile (p := fun c => (digitValue? base c).isSome) rfl rfl
  have hnext := h.next (p := fun c => (digitValue? base c).isSome) rfl rfl
  simp only [Reference.ofDigits?, readDigits_eq, List.length_map]
  rw [← hruns] at hnext ⊢
  rcases hnext with hnext | ⟨ht, hu⟩
  · rw [hnext]
  · simp [ht, hu]

theorem Alike.numeric? {t u : Text} (h : Alike t u) :
    Reference.numeric? t = Reference.numeric? u := by
  cases h with
  | refl => rfl
  | quote t u => exact (Alike.quote t u).ofDigits? 10 1
  | @cons c t u h =>
    unfold Reference.numeric?
    split
    next heq =>
      cases heq
      exact h.ofDigits? 16 2
    next heq =>
      cases heq
      exact h.ofDigits? 16 2
    next hx hX =>
      split
      next heq => cases heq; exact absurd rfl (hx _)
      next heq => cases heq; exact absurd rfl (hX _)
      next => exact (h.cons c).ofDigits? 10 1

theorem inAttribute?_of_ne {t : Text} (h : ∀ u, t ≠ '#' :: u) :
    Reference.inAttribute? t = match (t.drop (t.takeWhile Char.isAlphanum).length).head? with
      | some ';' => (closedEntity? (t.takeWhile Char.isAlphanum)).map fun m =>
          ⟨m, (t.takeWhile Char.isAlphanum).length + 1⟩
      | some '=' => none
      | _ => (entity? legacyEntities (t.takeWhile Char.isAlphanum)).map fun m =>
          ⟨m, (t.takeWhile Char.isAlphanum).length⟩ := by
  unfold Reference.inAttribute?
  split
  next u => exact absurd rfl (h u)
  next => rfl

theorem Alike.inAttribute? {t u : Text} (h : Alike t u) :
    Reference.inAttribute? t = Reference.inAttribute? u := by
  have hword (ht : ∀ v, t ≠ '#' :: v) (hu : ∀ v, u ≠ '#' :: v) :
      Reference.inAttribute? t = Reference.inAttribute? u := by
    have hruns := h.takeWhile (p := Char.isAlphanum) rfl rfl
    have hnext := h.next (p := Char.isAlphanum) rfl rfl
    rw [inAttribute?_of_ne ht, inAttribute?_of_ne hu]
    rw [← hruns] at hnext ⊢
    rcases hnext with hnext | ⟨hnt, hnu⟩
    · rw [hnext]
    · rw [hnt, hnu]
      rfl
  cases h with
  | refl => rfl
  | quote t u => exact hword (by simp) (by simp)
  | @cons c t u h =>
    by_cases hc : c = '#'
    · subst hc
      exact h.numeric?
    · exact hword (by simp [hc]) (by simp [hc])

def Covers (n : Nat) (t : Text) : Prop := ∃ front rest, t = front ++ rest ∧ front.length = n ∧ '"' ∉ front

theorem covers_cons {n : Nat} {c : Char} {t : Text} (hc : c ≠ '"') (h : Covers n t) :
    Covers (n + 1) (c :: t) := by
  obtain ⟨front, rest, rfl, rfl, hfront⟩ := h
  exact ⟨c :: front, rest, rfl, rfl, by simp [hfront, hc.symm]⟩

theorem covers_takeWhile {p : Char → Bool} (hq : p '"' = false) (t : Text) :
    Covers (t.takeWhile p).length t := by
  refine ⟨t.takeWhile p, t.dropWhile p, List.takeWhile_append_dropWhile.symm, rfl, fun h => ?_⟩
  have hp := List.all_eq_true.1 List.all_takeWhile '"' h
  rw [hq] at hp
  cases hp

theorem covers_takeWhile_succ {p : Char → Bool} (hq : p '"' = false) {t : Text}
    (h : (t.drop (t.takeWhile p).length).head? = some ';') :
    Covers ((t.takeWhile p).length + 1) t := by
  obtain ⟨front, rest, ht, hlength, hfront⟩ := covers_takeWhile hq t
  rw [← hlength, ht, List.drop_left] at h
  cases rest with
  | nil => cases h
  | cons c rest =>
    cases h
    refine ⟨front ++ [';'], rest, by simp [ht], by simp [hlength], by simp [hfront]⟩

theorem covers_ofDigits? {base passed : Nat} {t : Text} {reference : Reference}
    (h : Reference.ofDigits? base passed t = some reference) :
    ∃ n, Covers n t ∧ reference.length = passed + n := by
  simp only [Reference.ofDigits?, readDigits_eq, List.length_map] at h
  split at h
  · cases h
  · cases h
    simp only
    split
    next hnext => exact ⟨_, covers_takeWhile_succ rfl hnext, Nat.add_assoc ..⟩
    next => exact ⟨_, covers_takeWhile rfl t, rfl⟩

theorem covers_numeric? {t : Text} {reference : Reference}
    (h : Reference.numeric? t = some reference) : Covers reference.length ('#' :: t) := by
  unfold Reference.numeric? at h
  split at h
  next t =>
    obtain ⟨n, hn, hlength⟩ := covers_ofDigits? h
    rw [hlength, Nat.add_comm]
    exact covers_cons (by decide) (covers_cons (by decide) hn)
  next t =>
    obtain ⟨n, hn, hlength⟩ := covers_ofDigits? h
    rw [hlength, Nat.add_comm]
    exact covers_cons (by decide) (covers_cons (by decide) hn)
  next =>
    obtain ⟨n, hn, hlength⟩ := covers_ofDigits? h
    rw [hlength, Nat.add_comm]
    exact covers_cons (by decide) hn

theorem covers_inAttribute? {t : Text} {reference : Reference}
    (h : Reference.inAttribute? t = some reference) : Covers reference.length t := by
  by_cases hhash : ∃ u, t = '#' :: u
  · obtain ⟨u, rfl⟩ := hhash
    exact covers_numeric? h
  · rw [inAttribute?_of_ne fun u hu => hhash ⟨u, hu⟩] at h
    split at h
    next hnext =>
      obtain ⟨m, -, rfl⟩ := Option.map_eq_some_iff.1 h
      exact covers_takeWhile_succ rfl hnext
    next => cases h
    next =>
      obtain ⟨m, -, rfl⟩ := Option.map_eq_some_iff.1 h
      exact covers_takeWhile rfl t

theorem quoteMarks_append (s t : Text) :
    Assembly.quoteMarks (s ++ t) = Assembly.quoteMarks s ++ Assembly.quoteMarks t :=
  List.flatMap_append

theorem quoteMarks_of_not_mem {t : Text} (h : '"' ∉ t) : Assembly.quoteMarks t = t := by
  induction t with
  | nil => rfl
  | cons c t ih =>
    simp only [List.mem_cons, not_or] at h
    have ht : Assembly.quoteMarks t = t := ih h.2
    simp only [Assembly.quoteMarks, List.flatMap_cons, if_neg (Ne.symm h.1)] at ht ⊢
    rw [ht]
    rfl

theorem quote_not_mem_quoteMarks (t : Text) : '"' ∉ Assembly.quoteMarks t := by
  intro hmem
  obtain ⟨c, -, hc⟩ := List.mem_flatMap.1 hmem
  split at hc
  · exact absurd hc (by decide)
  next hne => exact hne (List.mem_singleton.1 hc).symm

theorem Unmarked.quoteMarks {t : Text} (h : Unmarked t) : Unmarked (Assembly.quoteMarks t) := by
  refine h.flatMap fun c => ?_
  split
  · exact .inr (by decide)
  · exact .inl rfl

theorem unescapeFrom_cons_of_ne (read : Text → Option Reference) {c : Char} (h : c ≠ '&')
    (t : Text) : unescapeFrom read 0 (c :: t) = c :: unescapeFrom read 0 t := by
  simp only [unescapeFrom, if_neg h]

theorem unescapeFrom_append_of_not_mem (read : Text → Option Reference) {t : Text} (h : '&' ∉ t)
    (rest : Text) : unescapeFrom read 0 (t ++ rest) = t ++ unescapeFrom read 0 rest := by
  induction t with
  | nil => rfl
  | cons c t ih =>
    simp only [List.mem_cons, not_or] at h
    rw [List.cons_append, unescapeFrom_cons_of_ne read (Ne.symm h.1), ih h.2, List.cons_append]

theorem unescapeText_append {s : Text} (h : '&' ∉ s) (t : Text) :
    unescapeText (s ++ t) = unescapeText s ++ unescapeText t := by
  have hs : unescapeText (s ++ []) = s ++ [] := unescapeFrom_append_of_not_mem _ h []
  rw [List.append_nil] at hs
  rw [hs]
  exact unescapeFrom_append_of_not_mem _ h t

theorem unescapeFrom_amp_none {read : Text → Option Reference} {t : Text} (h : read t = none) :
    unescapeFrom read 0 ('&' :: t) = '&' :: unescapeFrom read 0 t := by
  simp only [unescapeFrom, if_true, h]

theorem unescapeFrom_amp_some {read : Text → Option Reference} {front rest : Text}
    {reference : Reference} (h : read (front ++ rest) = some reference)
    (hlength : front.length = reference.length) :
    unescapeFrom read 0 ('&' :: (front ++ rest)) =
      reference.meaning ++ unescapeFrom read 0 rest := by
  simp only [unescapeFrom, if_true, h, ← hlength, unescapeFrom_append]

theorem unescapeAttribute_quoteMarks_append {t rest : Text} (h : Separate t rest) :
    unescapeAttribute (Assembly.quoteMarks t ++ rest) =
      unescapeAttribute t ++ unescapeAttribute rest := by
  unfold unescapeAttribute
  induction hn : t.length using Nat.strongRecOn generalizing t with
  | ind n ih =>
    subst hn
    cases t with
    | nil => rfl
    | cons c t =>
      have htail := ih t.length (by simp) (h.of_suffix (List.suffix_cons c t)) rfl
      have hcons : Assembly.quoteMarks (c :: t) =
          Assembly.quoteMarks [c] ++ Assembly.quoteMarks t := quoteMarks_append [c] t
      rw [hcons, List.append_assoc]
      by_cases hquote : c = '"'
      · subst hquote
        have hread (r : Text) : unescapeFrom Reference.inAttribute? 0
            (Assembly.quoteMarks ['"'] ++ r) = '"' :: unescapeFrom Reference.inAttribute? 0 r := rfl
        rw [hread, htail, unescapeFrom_cons_of_ne _ (by decide), List.cons_append]
      · have hmark : Assembly.quoteMarks [c] = [c] :=
          quoteMarks_of_not_mem (by simpa using Ne.symm hquote)
        rw [hmark, List.singleton_append]
        by_cases hamp : c = '&'
        · subst hamp
          have hread : Reference.inAttribute? (Assembly.quoteMarks t ++ rest) =
              Reference.inAttribute? t := by
            rw [← (alike_quoteMarks t rest).inAttribute?]
            exact h t (List.suffix_refl _)
          cases href : Reference.inAttribute? t with
          | none =>
            rw [unescapeFrom_amp_none (hread.trans href), htail, unescapeFrom_amp_none href,
              List.cons_append]
          | some reference =>
            obtain ⟨front, u, rfl, hlength, hfront⟩ := covers_inAttribute? href
            have hu : Separate u rest :=
              h.of_suffix (((List.suffix_append front u).trans (List.suffix_cons '&' _)))
            rw [quoteMarks_append, quoteMarks_of_not_mem hfront, List.append_assoc] at hread ⊢
            have hshorter : u.length < ('&' :: (front ++ u)).length := by
              simp only [List.length_cons, List.length_append]
              omega
            rw [unescapeFrom_amp_some (hread.trans href) hlength, ih u.length hshorter hu rfl,
              unescapeFrom_amp_some href hlength, List.append_assoc]
        · rw [unescapeFrom_cons_of_ne _ hamp, htail, unescapeFrom_cons_of_ne _ hamp,
            List.cons_append]

theorem unescapeAttribute_quoteMarks (t : Text) :
    unescapeAttribute (Assembly.quoteMarks t) = unescapeAttribute t := by
  have happend := unescapeAttribute_quoteMarks_append (separate_nil t)
  have hnil : unescapeAttribute [] = [] := rfl
  rwa [List.append_nil, hnil, List.append_nil] at happend

end Stencil.Text
