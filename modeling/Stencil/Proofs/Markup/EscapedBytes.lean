import Stencil.Proofs.Markup.ByteView
import Stencil.Proofs.Markup.ClosingPlaces

/-!
Escaping as it goes over the bytes of a text. It searches them for `</`, keeps the offsets at which
the tag stands behind that, and puts the text together from what lies between those offsets. Each
part is taken by its offsets, and taking it is a fault unless they are those of characters, in
order and in the text. That never happens: what is put together is the escaped text, in which
nothing closes the tag, and no text that keeps the characters and closes nothing is shorter.
-/

set_option autoImplicit false

namespace Stencil

/-- The offsets at which bytes go on with `pattern`, each behind the end of the one before. The
search passes over `skip` bytes first. -/
def offsetsOf (pattern : List UInt8) : Nat → Nat → List UInt8 → List Nat
  | _, _, [] => []
  | offset, skip + 1, _ :: bs => offsetsOf pattern (offset + 1) skip bs
  | offset, 0, b :: bs =>
    if pattern.isPrefixOf (b :: bs) then
      offset :: offsetsOf pattern (offset + 1) (pattern.length - 1) bs
    else offsetsOf pattern (offset + 1) 0 bs

def closesAt (tag source : Text) (offset : Nat) : Checked Bool := do
  let rest ← slice source (offset + 2) source.bytes
  return (rest.takeBytes? tag.bytes).any fun name => Byte.sameLetters name.utf8 tag.utf8

def closingAmong (tag source : Text) : List Nat → Checked (List Nat)
  | [] => return []
  | offset :: offsets => do
    let closes ← closesAt tag source offset
    let others ← closingAmong tag source offsets
    return if closes then offset :: others else others

/-- Goes on with a copy from `last`, with a backslash behind the byte at each of the offsets. -/
def copyBehind (source : Text) (last : Nat) (copied : Text) : List Nat → Checked Text
  | [] => do
    let rest ← slice source last source.bytes
    return copied ++ rest
  | offset :: offsets => do
    let piece ← slice source last (offset + 1)
    copyBehind source (offset + 1) (copied ++ piece ++ ['\\']) offsets

def escapeBytes (tag source : Text) : Checked Text := do
  let found := offsetsOf (Text.utf8 ['<', '/']) 0 0 source.utf8
  let offsets ← closingAmong tag source found
  if offsets.isEmpty then return source
  else copyBehind source 0 [] offsets

theorem offsetsOf_high {a : Char} (ha : a.toNat < 128) (pattern : List UInt8)
    {high : List UInt8} (h : ∀ b ∈ high, 128 ≤ b) (offset : Nat) (bs : List UInt8) :
    offsetsOf (asciiByte a :: pattern) offset 0 (high ++ bs) =
      offsetsOf (asciiByte a :: pattern) (offset + high.length) 0 bs := by
  induction high generalizing offset with
  | nil => rfl
  | cons b high ih =>
    have hb : asciiByte a ≠ b := (ne_asciiByte_of_high (h b List.mem_cons_self) ha).symm
    rw [List.cons_append, offsetsOf, List.isPrefixOf, beq_false_of_ne hb, Bool.false_and,
      if_neg Bool.false_ne_true, ih fun d hd => h d (List.mem_cons_of_mem b hd),
      List.length_cons, Nat.add_assoc, Nat.add_comm 1]

theorem offsetsOf_pass {c : Char} {t : Text} (h : ¬∃ r, c :: t = '<' :: '/' :: r)
    (offset : Nat) :
    offsetsOf (Text.utf8 ['<', '/']) offset 0 (Text.utf8 (c :: t)) =
      offsetsOf (Text.utf8 ['<', '/']) (offset + c.utf8Size) 0 t.utf8 := by
  have hpattern : Text.utf8 ['<', '/'] = asciiByte '<' :: [asciiByte '/'] := by decide
  have hnone : (Text.utf8 ['<', '/']).isPrefixOf (Text.utf8 (c :: t)) = false := by
    rw [Text.utf8_isPrefixOf (Text.isAscii_of_all rfl), Option.isSome_eq_false_iff,
      Option.isNone_iff_eq_none]
    cases hrest : List.isPrefixOf? ['<', '/'] (c :: t) with
    | none => rfl
    | some rest => exact absurd ⟨rest, Text.eq_append_of_isPrefixOf? hrest⟩ h
  rw [Text.utf8_eq_cons c t] at hnone ⊢
  rw [offsetsOf, hnone, if_neg Bool.false_ne_true, hpattern,
    offsetsOf_high (by decide) _ high_of_mem_encode_tail, ← length_encode_tail, Nat.add_assoc,
    Nat.add_comm 1]

theorem offsetsOf_opening (r : Text) (offset : Nat) :
    offsetsOf (Text.utf8 ['<', '/']) offset 0 (Text.utf8 ('<' :: '/' :: r)) =
      offset :: offsetsOf (Text.utf8 ['<', '/']) (offset + 1) 0 (Text.utf8 ('/' :: r)) := by
  have hpattern : Text.utf8 ['<', '/'] = [asciiByte '<', asciiByte '/'] := by decide
  have hslash : Text.utf8 ('/' :: r) = asciiByte '/' :: r.utf8 := by
    rw [Text.utf8_cons, encode_of_ascii (by decide)]
    rfl
  have hlt : Text.utf8 ('<' :: '/' :: r) = asciiByte '<' :: asciiByte '/' :: r.utf8 := by
    rw [Text.utf8_cons, encode_of_ascii (by decide), hslash]
    rfl
  have hne : (asciiByte '<' == asciiByte '/') = false := by decide
  simp [hpattern, hlt, hslash, offsetsOf, List.isPrefixOf, hne]

namespace Text

theorem bytes_singleton (c : Char) : bytes [c] = c.utf8Size := rfl

theorem eq_append_of_takeBytes? {t u : Text} {n : Nat} (h : t.takeBytes? n = some u) :
    ∃ v, t = u ++ v ∧ u.bytes = n := by
  fun_induction takeBytes? t n generalizing u with
  | case1 t =>
    cases h
    exact ⟨t, rfl, rfl⟩
  | case2 => cases h
  | case3 c t n hle ih =>
    obtain ⟨w, hw, rfl⟩ := Option.map_eq_some_iff.1 h
    obtain ⟨v, rfl, hbytes⟩ := ih hw
    exact ⟨v, rfl, by rw [bytes, hbytes]; omega⟩
  | case4 => cases h

theorem any_takeBytes? {tag : Text} (hascii : tag.IsAscii) (t : Text) :
    ((t.takeBytes? tag.bytes).any fun name => Byte.sameLetters name.utf8 tag.utf8) =
      begins tag t := by
  rw [begins_eq_sameLetters]
  cases htake : t.takeBytes? tag.bytes with
  | some name =>
    obtain ⟨after, rfl, hbytes⟩ := eq_append_of_takeBytes? htake
    rw [bytes_of_ascii hascii, ← length_utf8] at hbytes
    rw [Option.any_some, ← Byte.sameLetters_take hascii, utf8_append, List.take_left' hbytes]
  | none =>
    refine (Bool.eq_false_iff.2 fun hsame => ?_).symm
    have hlength := congrArg List.length (beq_iff_eq.1 hsame)
    rw [length_lower, length_lower] at hlength
    have hbytes := takeBytes?_append (t.take tag.length) (t.drop tag.length)
    rw [List.take_append_drop, bytes_of_ascii (isAscii_of_sameLetters hascii hsame), hlength,
      ← bytes_of_ascii hascii, htake] at hbytes
    cases hbytes

def closingOffsets (tag : Text) : Nat → Text → List Nat
  | _, [] => []
  | offset, c :: t =>
    let others := closingOffsets tag (offset + c.utf8Size) t
    if begins ('<' :: '/' :: tag) (c :: t) then offset :: others else others

end Text

section

variable {tag source : Text}

theorem closesAt_eq (hascii : tag.IsAscii) {before r : Text}
    (hsource : source = before ++ '<' :: '/' :: r) :
    closesAt tag source before.bytes =
      .ok (Text.begins ('<' :: '/' :: tag) ('<' :: '/' :: r)) := by
  have hrest : slice source (before.bytes + 2) source.bytes = .ok r :=
    slice_eq (t := before ++ ['<', '/']) (v := []) (by simp [hsource])
      (by simp (disch := decide) [Text.bytes, utf8Size_of_ascii])
      (by simp (disch := decide) [hsource, Text.bytes, utf8Size_of_ascii]; omega)
  simp [closesAt, hrest, bind, Except.bind, pure, Except.pure, Text.any_takeBytes? hascii]

theorem closingAmong_offsetsOf (hascii : tag.IsAscii) (t before : Text)
    (hsource : source = before ++ t) :
    closingAmong tag source (offsetsOf (Text.utf8 ['<', '/']) before.bytes 0 t.utf8) =
      .ok (Text.closingOffsets tag before.bytes t) := by
  induction t generalizing before with
  | nil => rfl
  | cons c t ih =>
    have hrest := ih (before ++ [c]) (by simp [hsource])
    rw [Text.bytes_append, Text.bytes_singleton] at hrest
    by_cases hopening : ∃ r, c :: t = '<' :: '/' :: r
    · obtain ⟨r, hr⟩ := hopening
      cases hr
      have hlt : '<'.utf8Size = 1 := rfl
      rw [hlt] at hrest
      have hcloses := closesAt_eq hascii hsource
      rw [offsetsOf_opening]
      simp only [closingAmong, Text.closingOffsets, hcloses, hrest, bind, Except.bind]
      rfl
    · have hnone : Text.begins ('<' :: '/' :: tag) (c :: t) = false :=
        Bool.eq_false_iff.2 fun hbegins => hopening (Text.exists_of_begins hbegins)
      rw [offsetsOf_pass hopening, hrest]
      simp [Text.closingOffsets, hnone]

theorem copyBehind_eq (t before pending copied : Text)
    (hsource : source = before ++ pending ++ t) :
    copyBehind source before.bytes copied
        (Text.closingOffsets tag (before ++ pending).bytes t) =
      .ok (copied ++ pending ++ escapeRawText tag t) := by
  induction t generalizing before pending copied with
  | nil =>
    have hrest : slice source before.bytes source.bytes = .ok pending :=
      slice_eq (v := []) hsource rfl (by simp [hsource])
    simp only [Text.closingOffsets, copyBehind, hrest, bind, Except.bind]
    simp [escapeRawText, pure, Except.pure]
  | cons c t ih =>
    have hbytes : (before ++ pending ++ [c]).bytes = (before ++ pending).bytes + c.utf8Size := by
      rw [Text.bytes_append, Text.bytes_singleton]
    rw [Text.closingOffsets, escapeRawText_cons]
    by_cases hbegins : Text.begins ('<' :: '/' :: tag) (c :: t) = true
    · obtain ⟨r, hr⟩ := Text.exists_of_begins hbegins
      obtain rfl : c = '<' := (List.cons.inj hr).1
      have hlt : '<'.utf8Size = 1 := rfl
      have hpiece : slice source before.bytes ((before ++ pending).bytes + 1) =
          .ok (pending ++ ['<']) :=
        slice_eq (v := t) (by simp [hsource]) rfl
          (by simp [Text.bytes_append, Text.bytes_singleton, hlt, Nat.add_assoc])
      have hrest := ih (before ++ pending ++ ['<']) []
        (copied ++ (pending ++ ['<']) ++ ['\\']) (by simp [hsource])
      rw [List.append_nil, hbytes, hlt] at hrest
      rw [if_pos hbegins, if_pos hbegins, copyBehind, hpiece, hlt]
      refine hrest.trans ?_
      simp
    · have hrest := ih before (pending ++ [c]) copied (by simp [hsource])
      rw [← List.append_assoc, hbytes] at hrest
      rw [if_neg hbegins, if_neg hbegins, hrest]
      simp

/-- No check fails, and what is put together is the escaped text. -/
theorem escapeBytes_eq (hascii : tag.IsAscii) (source : Text) :
    escapeBytes tag source = .ok (escapeRawText tag source) := by
  have hoffsets : closingAmong tag source
      (offsetsOf (Text.utf8 ['<', '/']) 0 0 source.utf8) =
        .ok (Text.closingOffsets tag 0 source) :=
    closingAmong_offsetsOf hascii source [] rfl
  have hcopy : copyBehind source 0 [] (Text.closingOffsets tag 0 source) =
      .ok (escapeRawText tag source) :=
    copyBehind_eq source [] [] [] rfl
  simp only [escapeBytes, hoffsets, bind, Except.bind]
  cases hplaces : Text.closingOffsets tag 0 source with
  | nil =>
    -- the text that is handed back is what a copy without places would have copied
    have hwhole : slice source 0 source.bytes = .ok source :=
      slice_eq (t := []) (v := []) (by simp) rfl (Nat.zero_add _).symm
    rw [hplaces, copyBehind, hwhole] at hcopy
    exact hcopy
  | cons offset offsets =>
    rw [hplaces] at hcopy
    exact hcopy

end

theorem Text.isAscii_of_isAlpha {t : Text} (h : ∀ c ∈ t, c.isAlpha = true) : t.IsAscii := by
  intro c hc
  have hletter : (c.isUpper || c.isLower) = true := h c hc
  rcases Bool.or_eq_true_iff.1 hletter with hupper | hlower
  · have hrange : 'A'.val ≤ c.val ∧ c.val ≤ 'Z'.val := of_decide_eq_true hupper
    exact Nat.lt_of_le_of_lt hrange.2 (by decide)
  · have hrange : (decide ('a'.val ≤ c.val) && decide (c.val ≤ 'z'.val)) = true := hlower
    exact Nat.lt_of_le_of_lt (of_decide_eq_true (Bool.and_eq_true_iff.1 hrange).2) (by decide)

theorem Text.lt_not_mem_lower_of_isAlpha {t : Text} (h : ∀ c ∈ t, c.isAlpha = true) :
    '<' ∉ t.lower := by
  intro hmem
  obtain ⟨c, hc, hlower⟩ := List.mem_map.1 hmem
  obtain rfl := Text.toLower_eq_lt_iff.1 hlower
  exact absurd (h _ hc) (by decide)

/-- For a tag of letters the copy over bytes takes every part of a text between characters, and
what it puts together has a backslash within each closing tag of the text, in whatever case, and is
the text otherwise. So nothing in it closes the tag, it is the text itself just if nothing in the
text does, and of the texts that keep all its characters in their order and close nothing it is the
shortest. -/
theorem escapeRawText_shortest {tag : Text} (hletters : ∀ c ∈ tag, c.isAlpha = true)
    (content : Text) :
    let closing : Text := '<' :: '/' :: tag
    let escaped := escapeRawText tag content
    escapeBytes tag content = .ok escaped ∧
      (∀ i, ¬Text.OccursAt closing escaped i) ∧
      escaped = content.insertBehind '\\' (fun i => decide (Text.OccursAt closing content i)) ∧
      (escaped = content ↔ ∀ i, ¬Text.OccursAt closing content i) ∧
      content.Sublist escaped ∧
      ∀ other, content.Sublist other → (∀ i, ¬Text.OccursAt closing other i) →
        escaped.length ≤ other.length := by
  intro closing escaped
  have hlt := Text.lt_not_mem_lower_of_isAlpha hletters
  have hcopy : escapeBytes tag content = .ok escaped :=
    escapeBytes_eq (Text.isAscii_of_isAlpha hletters) content
  have hnone : Text.closings tag escaped = 0 := closings_escapeRawText hlt content
  have hself : escaped = content ↔ Text.closings tag content = 0 := escapeRawText_eq_self_iff
  refine ⟨hcopy, Text.closings_eq_zero_iff.1 hnone, escapeRawText_eq_insertBehind tag content,
    hself.trans Text.closings_eq_zero_iff, sublist_escapeRawText tag content,
    fun other hkeeps hother => ?_⟩
  have hlength : escaped.length = content.length + Text.closings tag content :=
    length_escapeRawText tag content
  rw [hlength]
  exact Text.length_add_closings_le hlt hkeeps (Text.closings_eq_zero_iff.2 hother)

theorem escapeRawText_shortest_style :
    (∀ c ∈ ("style" : Text), c.isAlpha = true) ∧
      escapeBytes "style" "é</</style</STYLé<</Style" = .ok "é</<\\/style</STYLé<<\\/Style" ∧
      ∀ i, ¬Text.OccursAt "</style" "é</<\\/style</STYLé<<\\/Style" i := by
  have hletters : ∀ c ∈ ("style" : Text), c.isAlpha = true := Text.forall_mem_of_all (by decide)
  have hescaped : escapeRawText "style" "é</</style</STYLé<</Style" =
      "é</<\\/style</STYLé<<\\/Style".toList := by decide
  obtain ⟨hcopy, hnone, -⟩ := escapeRawText_shortest hletters "é</</style</STYLé<</Style"
  rw [hescaped] at hcopy hnone
  exact ⟨hletters, hcopy, hnone⟩

end Stencil
