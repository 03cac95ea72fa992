import Stencil.Proofs.Text.Cut

/-!
Texts as bytes. A character of ASCII is one byte below 128, and every byte of any other character
is 128 or more. So a search for bytes of ASCII finds what a search for the characters finds, and
finds it between two characters.
-/

set_option autoImplicit false

namespace Stencil

def leadByte (c : Char) : UInt8 := (String.utf8EncodeChar c).headD 0

theorem encode_of_ascii {c : Char} (h : c.toNat < 128) :
    String.utf8EncodeChar c = [asciiByte c] := by
  have hle : c.val.toNat ≤ 127 := Nat.le_of_lt_succ h
  rw [String.utf8EncodeChar.eq_1, if_pos hle]
  rfl

theorem utf8Size_of_ascii {c : Char} (h : c.toNat < 128) : c.utf8Size = 1 := by
  rw [← String.length_utf8EncodeChar, encode_of_ascii h]
  rfl

theorem high_of_mem_encode {c : Char} (h : 128 ≤ c.toNat) :
    ∀ b ∈ String.utf8EncodeChar c, 128 ≤ b := by
  have hgt : ¬c.val.toNat ≤ 127 := Nat.not_le.2 h
  rw [String.utf8EncodeChar.eq_1, if_neg hgt]
  intro b hb
  rw [UInt8.le_iff_toNat_le]
  split at hb
  · simp only [List.mem_cons, List.not_mem_nil, or_false] at hb
    rcases hb with rfl | rfl <;> rw [UInt8.toNat_ofNat'] <;> simp <;> omega
  · split at hb
    · simp only [List.mem_cons, List.not_mem_nil, or_false] at hb
      rcases hb with rfl | rfl | rfl <;> rw [UInt8.toNat_ofNat'] <;> simp <;> omega
    · simp only [List.mem_cons, List.not_mem_nil, or_false] at hb
      rcases hb with rfl | rfl | rfl | rfl <;> rw [UInt8.toNat_ofNat'] <;> simp <;> omega

theorem encode_eq_cons (c : Char) :
    String.utf8EncodeChar c = leadByte c :: (String.utf8EncodeChar c).tail := by
  have hlen := String.length_utf8EncodeChar c
  have hpos := c.utf8Size_pos
  cases h : String.utf8EncodeChar c with
  | nil => simp [h] at hlen; omega
  | cons b bs => simp [leadByte, h]

theorem high_of_mem_encode_tail {c : Char} : ∀ b ∈ (String.utf8EncodeChar c).tail, 128 ≤ b := by
  by_cases hc : c.toNat < 128
  · simp [encode_of_ascii hc]
  · exact fun b hb => high_of_mem_encode (Nat.le_of_not_lt hc) b (List.mem_of_mem_tail hb)

theorem length_encode_tail (c : Char) :
    (String.utf8EncodeChar c).tail.length + 1 = c.utf8Size := by
  have hpos := c.utf8Size_pos
  rw [List.length_tail, String.length_utf8EncodeChar]
  omega

theorem leadByte_of_ascii {c : Char} (h : c.toNat < 128) : leadByte c = asciiByte c := by
  rw [leadByte, encode_of_ascii h]
  rfl

theorem leadByte_of_not_ascii {c : Char} (h : 128 ≤ c.toNat) : 128 ≤ leadByte c :=
  high_of_mem_encode h _ (by rw [encode_eq_cons]; exact List.mem_cons_self)

theorem toNat_asciiByte {a : Char} (h : a.toNat < 128) : (asciiByte a).toNat = a.toNat := by
  rw [asciiByte, UInt8.toNat_ofNat', Nat.mod_eq_of_lt (by omega)]

theorem leadByte_eq_iff {a : Char} (ha : a.toNat < 128) (c : Char) :
    leadByte c = asciiByte a ↔ c = a := by
  constructor
  · intro h
    by_cases hc : c.toNat < 128
    · rw [leadByte_of_ascii hc] at h
      have hn := congrArg UInt8.toNat h
      rw [toNat_asciiByte hc, toNat_asciiByte ha] at hn
      exact Char.toNat_inj.1 hn
    · have hhigh := leadByte_of_not_ascii (Nat.le_of_not_lt hc)
      rw [h, UInt8.le_iff_toNat_le, toNat_asciiByte ha] at hhigh
      exact absurd ha (Nat.not_lt.2 hhigh)
  · rintro rfl
    exact leadByte_of_ascii ha

theorem ne_asciiByte_of_high {b : UInt8} (hb : 128 ≤ b) {a : Char} (ha : a.toNat < 128) :
    b ≠ asciiByte a := by
  rintro rfl
  rw [UInt8.le_iff_toNat_le, toNat_asciiByte ha] at hb
  exact absurd ha (Nat.not_lt.2 hb)

namespace Text

def IsAscii (t : Text) : Prop := ∀ c ∈ t, c.toNat < 128

@[simp] theorem utf8_nil : utf8 [] = [] := rfl

theorem utf8_cons (c : Char) (t : Text) : utf8 (c :: t) = String.utf8EncodeChar c ++ utf8 t := rfl

@[simp] theorem utf8_append (t u : Text) : utf8 (t ++ u) = utf8 t ++ utf8 u :=
  List.flatMap_append

@[simp] theorem length_utf8 (t : Text) : (utf8 t).length = t.bytes := by
  induction t with
  | nil => rfl
  | cons c t ih => rw [utf8_cons, List.length_append, ih, String.length_utf8EncodeChar, bytes]

theorem utf8_eq_cons (c : Char) (t : Text) :
    utf8 (c :: t) = leadByte c :: ((String.utf8EncodeChar c).tail ++ utf8 t) := by
  rw [utf8_cons, encode_eq_cons]
  rfl

theorem drop_utf8_append (t u : Text) : (utf8 (t ++ u)).drop t.bytes = utf8 u := by
  rw [utf8_append, ← length_utf8, List.drop_left]

theorem isAscii_of_all {t : Text} (h : (t.all fun c => decide (c.toNat < 128)) = true) :
    t.IsAscii :=
  forall_mem_of_all h

theorem bytes_of_ascii {t : Text} (h : t.IsAscii) : t.bytes = t.length := by
  induction t with
  | nil => rfl
  | cons c t ih =>
    rw [bytes, utf8Size_of_ascii (h c List.mem_cons_self),
      ih fun d hd => h d (List.mem_cons_of_mem c hd), List.length_cons, Nat.add_comm]

def dropBytes? : Text → Nat → Option Text
  | t, 0 => some t
  | [], _ + 1 => none
  | c :: t, n + 1 => if c.utf8Size ≤ n + 1 then dropBytes? t (n + 1 - c.utf8Size) else none

def takeBytes? : Text → Nat → Option Text
  | _, 0 => some []
  | [], _ + 1 => none
  | c :: t, n + 1 =>
    if c.utf8Size ≤ n + 1 then (takeBytes? t (n + 1 - c.utf8Size)).map (c :: ·) else none

theorem dropBytes?_append (t u : Text) : dropBytes? (t ++ u) t.bytes = some u := by
  induction t with
  | nil => cases u <;> rfl
  | cons c t ih =>
    have hpos := c.utf8Size_pos
    obtain ⟨n, hn⟩ : ∃ n, bytes (c :: t) = n + 1 := Nat.exists_eq_add_one.2 (by rw [bytes]; omega)
    rw [hn, List.cons_append, dropBytes?, ← hn, bytes, if_pos (Nat.le_add_right _ _),
      Nat.add_sub_cancel_left, ih]

theorem takeBytes?_append (t u : Text) : takeBytes? (t ++ u) t.bytes = some t := by
  induction t with
  | nil => cases u <;> rfl
  | cons c t ih =>
    have hpos := c.utf8Size_pos
    obtain ⟨n, hn⟩ : ∃ n, bytes (c :: t) = n + 1 := Nat.exists_eq_add_one.2 (by rw [bytes]; omega)
    rw [hn, List.cons_append, takeBytes?, ← hn, bytes, if_pos (Nat.le_add_right _ _),
      Nat.add_sub_cancel_left, ih]
    rfl

def findBytes? (pattern : List UInt8) : List UInt8 → Option Nat
  | [] => if pattern = [] then some 0 else none
  | b :: bs =>
    if pattern.isPrefixOf (b :: bs) then some 0 else (findBytes? pattern bs).map (· + 1)

theorem utf8_isPrefixOf {pattern : Text} (h : pattern.IsAscii) (t : Text) :
    pattern.utf8.isPrefixOf t.utf8 = (pattern.isPrefixOf? t).isSome := by
  induction pattern generalizing t with
  | nil => rfl
  | cons a pattern ih =>
    have ha : a.toNat < 128 := h a List.mem_cons_self
    rw [utf8_cons, encode_of_ascii ha]
    cases t with
    | nil => rfl
    | cons c t =>
      change (asciiByte a :: utf8 pattern).isPrefixOf _ =
        (if a == c then pattern.isPrefixOf? t else none).isSome
      by_cases hac : c = a
      · subst hac
        have hpattern := ih (fun d hd => h d (List.mem_cons_of_mem c hd)) t
        rw [utf8_cons, encode_of_ascii ha]
        simp [hpattern]
      · have hlead : asciiByte a ≠ leadByte c := fun e => hac ((leadByte_eq_iff ha c).1 e.symm)
        rw [utf8_eq_cons]
        simp [List.isPrefixOf, hlead, Ne.symm hac]

theorem findBytes?_high {a : Char} (ha : a.toNat < 128) (pattern bs : List UInt8)
    {high : List UInt8} (h : ∀ b ∈ high, 128 ≤ b) :
    findBytes? (asciiByte a :: pattern) (high ++ bs) =
      (findBytes? (asciiByte a :: pattern) bs).map (· + high.length) := by
  induction high with
  | nil => simp
  | cons b high ih =>
    have hb : asciiByte a ≠ b := (ne_asciiByte_of_high (h b List.mem_cons_self) ha).symm
    rw [List.cons_append, findBytes?, ih fun d hd => h d (List.mem_cons_of_mem b hd)]
    simp [List.isPrefixOf, hb, Function.comp_def, Nat.add_assoc]

theorem findBytes?_utf8 {pattern : Text} (h : pattern.IsAscii) (hne : pattern ≠ []) (t : Text) :
    findBytes? pattern.utf8 t.utf8 = (cut pattern t).map fun p => p.1.bytes := by
  obtain ⟨a, p, rfl⟩ := List.exists_cons_of_ne_nil hne
  have ha : a.toNat < 128 := h a List.mem_cons_self
  have hutf8 : utf8 (a :: p) = asciiByte a :: utf8 p := by
    rw [utf8_cons, encode_of_ascii ha]
    rfl
  induction t with
  | nil => simp [findBytes?, cut, hutf8]
  | cons c t ih =>
    have hstart := utf8_isPrefixOf h (c :: t)
    rw [utf8_eq_cons c t] at hstart ⊢
    rw [findBytes?.eq_2, hstart, cut]
    cases hp : (a :: p).isPrefixOf? (c :: t) with
    | some rest => rfl
    | none =>
      rw [hutf8] at ih ⊢
      rw [findBytes?_high ha _ _ high_of_mem_encode_tail, ih]
      cases cut (a :: p) t with
      | none => rfl
      | some q =>
        change some (q.1.bytes + _ + 1) = some (c.utf8Size + q.1.bytes)
        rw [← length_encode_tail, Nat.add_assoc, Nat.add_comm]

end Text

end Stencil
