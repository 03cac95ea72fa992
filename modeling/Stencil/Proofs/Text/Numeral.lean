import Stencil.Expression.Token

/-!
The text of a number. It begins with a digit, or with a minus sign and a digit, and holds nothing
but digits, signs, a point and an exponent mark.
-/

set_option autoImplicit false

namespace Stencil

def IsNumeral (c : Char) : Prop := c.isDigit = true ∨ c = '-' ∨ c = '+' ∨ c = '.' ∨ c = 'e'

def StartsInDigit (t : Text) : Prop := ∃ c r, t = c :: r ∧ c.isDigit = true

theorem startsInDigit_of_all {t : Text} (hne : t ≠ []) (h : ∀ c ∈ t, c.isDigit = true) :
    StartsInDigit t := by
  obtain ⟨c, r, rfl⟩ := List.exists_cons_of_ne_nil hne
  exact ⟨c, r, rfl, h c List.mem_cons_self⟩

namespace Text

theorem isDigit_of_mem_ofNat {n : Nat} : ∀ c ∈ ofNat n, c.isDigit = true :=
  fun _ => Nat.isDigit_of_mem_toDigits (by decide) (by decide)

theorem startsInDigit_ofNat (n : Nat) : StartsInDigit (ofNat n) :=
  startsInDigit_of_all Nat.toDigits_ne_nil isDigit_of_mem_ofNat

theorem isNumeral_of_mem_ofNat (n : Nat) : ∀ c ∈ ofNat n, IsNumeral c :=
  fun c hc => .inl (isDigit_of_mem_ofNat c hc)

theorem isNumeral_of_mem_ofInt (n : Int) : ∀ c ∈ ofInt n, IsNumeral c := by
  cases n with
  | ofNat n => exact isNumeral_of_mem_ofNat n
  | negSucc n => exact List.forall_mem_cons.2 ⟨.inr (.inl rfl), isNumeral_of_mem_ofNat (n + 1)⟩

end Text

namespace Decimal

theorem isDigit_of_mem_digits (d : Decimal) : ∀ c ∈ d.digits.1, c.isDigit = true := by
  intro c h
  simp only [digits] at h
  split at h
  next => simp_all
  next =>
    have hmem : c ∈ Nat.toDigits 10 d.coefficient :=
      List.mem_reverse.1 ((List.dropWhile_sublist _).mem (List.mem_reverse.1 h))
    exact Nat.isDigit_of_mem_toDigits (by decide) (by decide) hmem

theorem digits_ne_nil (d : Decimal) : d.digits.1 ≠ [] := by
  simp only [digits]
  split <;> simp_all

namespace Layout

variable {layout : Layout} {ds : Text} (e : Int)

theorem startsInDigit_write (hne : ds ≠ []) (h : ∀ c ∈ ds, c.isDigit = true) :
    StartsInDigit (layout.write false ds e) := by
  obtain ⟨c, r, rfl⟩ := List.exists_cons_of_ne_nil hne
  have hc : c.isDigit = true := h c List.mem_cons_self
  simp only [write, Bool.false_eq_true, if_false, List.nil_append]
  split
  next =>
    split
    next => exact ⟨'0', _, rfl, rfl⟩
    next => exact ⟨c, _, rfl, hc⟩
  next => exact ⟨c, _, rfl, hc⟩

theorem isNumeral_of_mem_write (hmark : layout.exponentMark = 'e')
    (h : ∀ c ∈ ds, c.isDigit = true) : ∀ c ∈ layout.write false ds e, IsNumeral c := by
  have hds : ∀ c ∈ ds, IsNumeral c := fun c hc => .inl (h c hc)
  have htake (n : Nat) : ∀ c ∈ ds.take n, IsNumeral c := fun c hc => hds c (List.mem_of_mem_take hc)
  have hdrop (n : Nat) : ∀ c ∈ ds.drop n, IsNumeral c := fun c hc => hds c (List.mem_of_mem_drop hc)
  have hzero : ∀ c ∈ ['0'], IsNumeral c := List.forall_mem_singleton.2 (.inl rfl)
  have hzeros (n : Nat) : ∀ c ∈ List.replicate n '0', IsNumeral c := fun c hc =>
    hzero c (List.mem_singleton.2 (List.eq_of_mem_replicate hc))
  have hpoint : ∀ c ∈ ['.'], IsNumeral c :=
    List.forall_mem_singleton.2 (.inr (.inr (.inr (.inl rfl))))
  have hplus : ∀ c ∈ ['+'], IsNumeral c := List.forall_mem_singleton.2 (.inr (.inr (.inl rfl)))
  have hexponent : ∀ c ∈ [layout.exponentMark], IsNumeral c :=
    List.forall_mem_singleton.2 (.inr (.inr (.inr (.inr hmark))))
  simp only [write, Bool.false_eq_true, if_false, List.nil_append]
  split
  next =>
    split
    next =>
      have hlead := List.forall_mem_append.2 ⟨hpoint, hzeros (-e - 1).toNat⟩
      exact List.forall_mem_append.2 ⟨List.forall_mem_cons.2 ⟨.inl rfl, hlead⟩, hds⟩
    next =>
      have hfraction (n : Nat) :
          ∀ c ∈ if (ds.drop n).isEmpty = true then ['0'] else ds.drop n, IsNumeral c := by
        split
        next => exact hzero
        next => exact hdrop n
      simp only [List.forall_mem_append]
      exact ⟨⟨⟨htake _, hzeros _⟩, hpoint⟩, hfraction _⟩
  next =>
    have hmiddle : ∀ c ∈ if ds.length ≤ 1 then [] else ['.'], IsNumeral c := by
      split
      next => exact List.forall_mem_nil _
      next => exact hpoint
    have hsign : ∀ c ∈ if layout.plusSign = true ∧ 0 ≤ e then ['+'] else [], IsNumeral c := by
      split
      next => exact hplus
      next => exact List.forall_mem_nil _
    simp only [List.forall_mem_append]
    exact ⟨⟨⟨⟨⟨htake 1, hmiddle⟩, hdrop 1⟩, hexponent⟩, hsign⟩, Text.isNumeral_of_mem_ofInt e⟩

end Layout

end Decimal

namespace Number

theorem exists_magnitude (n : Number) :
    ∃ t, (n.toText = t ∨ n.toText = '-' :: t) ∧ StartsInDigit t ∧ ∀ c ∈ t, IsNumeral c := by
  cases n with
  | int n =>
    cases n with
    | ofNat n => exact ⟨_, .inl rfl, Text.startsInDigit_ofNat n, Text.isNumeral_of_mem_ofNat n⟩
    | negSucc n =>
      exact ⟨_, .inr rfl, Text.startsInDigit_ofNat (n + 1), Text.isNumeral_of_mem_ofNat (n + 1)⟩
  | float x =>
    let d := Decimal.shortest x.scaled.1 x.scaled.2
    have hdigits := d.isDigit_of_mem_digits
    refine ⟨layout.write false d.digits.1 d.digits.2, ?_,
      Decimal.Layout.startsInDigit_write _ d.digits_ne_nil hdigits,
      Decimal.Layout.isNumeral_of_mem_write _ rfl hdigits⟩
    simp only [toText]
    cases x.isNegative with
    | false => exact .inl rfl
    | true => exact .inr rfl

theorem isNumeral_of_mem_toText (n : Number) : ∀ c ∈ n.toText, IsNumeral c := by
  obtain ⟨t, h | h, -, ht⟩ := n.exists_magnitude
  · exact h ▸ ht
  · exact h ▸ List.forall_mem_cons.2 ⟨.inr (.inl rfl), ht⟩

theorem looksNumeric_toText (n : Number) : Expression.looksNumeric n.toText = true := by
  obtain ⟨_, h | h, ⟨c, r, rfl, hc⟩, -⟩ := n.exists_magnitude
  · rw [h]
    unfold Expression.looksNumeric
    split
    next heq =>
      cases heq
      exact absurd hc (by decide)
    next heq =>
      cases heq
      exact hc
    next heq => cases heq
  · rw [h]
    exact hc

end Number

end Stencil
