import Stencil.Proofs.Markup.ByteScan
import Stencil.Proofs.Markup.Lookahead

/-!
What the scan over bytes sees where it stands between two characters. Its tests of a byte are the
tests of the character that begins there, its searches find what searches for characters find, and
its look ahead is the look ahead over characters.
-/

set_option autoImplicit false

namespace Stencil

theorem slice_eq {source t u v : Text} {start stop : Nat} (hsource : source = t ++ u ++ v)
    (hstart : start = t.bytes) (hstop : stop = t.bytes + u.bytes) :
    slice source start stop = .ok u := by
  subst hsource hstart hstop
  rw [slice, if_pos (Nat.le_add_right _ _), List.append_assoc, Text.dropBytes?_append,
    Option.bind_some, Nat.add_sub_cancel_left, Text.takeBytes?_append]

theorem bytesFrom_of_le {bs : List UInt8} {i : Nat} (h : i ≤ bs.length) :
    bytesFrom bs i = .ok (bs.drop i) := by
  rw [bytesFrom, bytesIn, if_pos ⟨h, Nat.le_refl _⟩, List.take_length]

theorem bytesFrom_append (t u : Text) : bytesFrom (t ++ u).utf8 t.bytes = .ok u.utf8 := by
  rw [bytesFrom_of_le (by simp), Text.drop_utf8_append]

theorem getElem?_utf8 (t : Text) (c : Char) (u : Text) {i : Nat} (hi : i < c.utf8Size) :
    (t ++ c :: u).utf8[t.bytes + i]? = (String.utf8EncodeChar c)[i]? := by
  rw [← String.length_utf8EncodeChar] at hi
  rw [Text.utf8_append, List.getElem?_append_right (by simp), Text.length_utf8,
    Nat.add_sub_cancel_left, Text.utf8_cons, List.getElem?_append_left hi]

theorem getElem?_utf8_lead (t : Text) (c : Char) (u : Text) :
    (t ++ c :: u).utf8[t.bytes]? = some (leadByte c) := by
  have h := getElem?_utf8 t c u c.utf8Size_pos
  rwa [Nat.add_zero, encode_eq_cons, List.getElem?_cons_zero] at h

theorem byteAt_append (t : Text) (c : Char) (u : Text) :
    byteAt (t ++ c :: u).utf8 t.bytes = .ok (leadByte c) := by
  rw [byteAt, getElem?_utf8_lead]

theorem minus_of_le {a b : Nat} (h : b ≤ a) : minus a b = .ok (a - b) := by
  rw [minus, if_pos h]

namespace Byte

theorem isSpace_lead (c : Char) : isSpace (leadByte c) = Tag.isSpace c := by
  simp (disch := decide) only [isSpace, Tag.isSpace, leadByte_eq_iff]

theorem endsName_lead (c : Char) : endsName (leadByte c) = Tag.endsName c := by
  simp (disch := decide) only [endsName, Tag.endsName, isSpace_lead, leadByte_eq_iff]

theorem isNameStart_lead (c : Char) : isNameStart (leadByte c) = Tag.isNameStart c := by
  have hle (a b : Char) : a ≤ b ↔ a.toNat ≤ b.toNat := Iff.rfl
  by_cases hc : c.toNat < 128
  · simp (disch := assumption) only [isNameStart, Tag.isNameStart, leadByte_of_ascii,
      UInt8.le_iff_toNat_le, hle, toNat_asciiByte]
    rfl
  · have hhigh := leadByte_of_not_ascii (Nat.le_of_not_lt hc)
    rw [UInt8.le_iff_toNat_le] at hhigh
    have hz : (asciiByte 'z').toNat = 122 := rfl
    have hZ : (asciiByte 'Z').toNat = 90 := rfl
    have h128 : (128 : UInt8).toNat = 128 := rfl
    have hlz : 'z'.toNat = 122 := rfl
    have hlZ : 'Z'.toNat = 90 := rfl
    simp only [isNameStart, Tag.isNameStart, UInt8.le_iff_toNat_le, hle]
    rw [decide_eq_false (by omega : ¬(leadByte c).toNat ≤ (asciiByte 'z').toNat),
      decide_eq_false (by omega : ¬(leadByte c).toNat ≤ (asciiByte 'Z').toNat),
      decide_eq_false (by omega : ¬c.toNat ≤ 'z'.toNat),
      decide_eq_false (by omega : ¬c.toNat ≤ 'Z'.toNat)]
    simp

theorem isSpace_high {b : UInt8} (h : 128 ≤ b) : isSpace b = false := by
  simp (disch := decide) [isSpace, ne_asciiByte_of_high h]

theorem endsName_high {b : UInt8} (h : 128 ≤ b) : endsName b = false := by
  simp (disch := decide) [endsName, isSpace_high h, ne_asciiByte_of_high h]

end Byte

theorem opensAt_eq_isPrefixOf (t : Text) :
    (Text.utf8 ['{', '{']).isPrefixOf t.utf8 = Marker.opensAt t := by
  rw [Text.utf8_isPrefixOf (Text.isAscii_of_all rfl), Bool.eq_iff_iff, Marker.opensAt_iff]
  constructor
  · intro h
    obtain ⟨r, hr⟩ := Option.isSome_iff_exists.1 h
    exact ⟨r, Text.eq_append_of_isPrefixOf? hr⟩
  · rintro ⟨r, rfl⟩
    rfl

theorem Marker.read?_double {r : Text} (h : ∀ r', r ≠ '{' :: r') :
    read? ('{' :: '{' :: r) = Text.cut ['}', '}'] r := by
  rw [read?]
  exact fun r' hr => h r' hr

theorem isPrefixOf_triple (r : Text) :
    (Text.utf8 ['{', '{', '{']).isPrefixOf (Text.utf8 ('{' :: '{' :: r)) =
      decide (r.head? = some '{') := by
  rw [Text.utf8_isPrefixOf (Text.isAscii_of_all rfl), Bool.eq_iff_iff, decide_eq_true_eq]
  cases r with
  | nil => decide
  | cons d r =>
    by_cases hd : d = '{'
    · subst hd
      exact iff_of_true rfl rfl
    · refine iff_of_false (fun h => hd ?_) (fun h => hd (Option.some.inj h))
      obtain ⟨r', hr⟩ := Option.isSome_iff_exists.1 h
      have := Text.eq_append_of_isPrefixOf? hr
      simp only [List.cons_append, List.cons.injEq] at this
      exact this.2.2.1

namespace ByteScanner

/-- The machine stands between these two parts of the source. -/
structure Between (source : Text) (m : ByteScanner) (before rest : Text) : Prop where
  source : source = before ++ rest
  index : m.index = before.bytes

variable {source before rest r : Text} {m : ByteScanner} {c : Char}

namespace Between

theorem lt_length (h : m.Between source before (c :: r)) : m.index < source.utf8.length := by
  have := c.utf8Size_pos
  rw [h.source, h.index, Text.length_utf8, Text.bytes_append, Text.bytes]
  omega

theorem bytesFrom (h : m.Between source before rest) :
    bytesFrom source.utf8 m.index = .ok rest.utf8 := by
  rw [h.source, h.index, bytesFrom_append]

theorem byteAt (h : m.Between source before (c :: r)) :
    byteAt source.utf8 m.index = .ok (leadByte c) := by
  rw [h.source, h.index, byteAt_append]

theorem opensMarker (h : m.Between source before (c :: r)) :
    m.opensMarker source (leadByte c) = .ok (Marker.opensAt (c :: r)) := by
  rw [ByteScanner.opensMarker, h.bytesFrom]
  by_cases hc : c = '{'
  · rw [if_pos ((leadByte_eq_iff (by decide) c).2 hc)]
    exact congrArg Except.ok (opensAt_eq_isPrefixOf _)
  · rw [if_neg (mt (leadByte_eq_iff (by decide) c).1 hc)]
    refine congrArg Except.ok (Eq.symm (Bool.eq_false_iff.2 fun hopens => ?_))
    obtain ⟨r', hr⟩ := Marker.opensAt_iff.1 hopens
    exact hc (List.cons.inj hr).1

end Between

theorem bytes_written (before body : Text) :
    (before ++ Marker.written body).bytes = before.bytes + 2 + body.bytes + 2 := by
  simp (disch := decide) [Marker.written, Text.bytes, utf8Size_of_ascii]
  omega

theorem slice_written {body after : Text} (h : source = before ++ (Marker.written body ++ after)) :
    slice source (before.bytes + 2) (before.bytes + 2 + body.bytes) = .ok body := by
  have hopening : (before ++ ['{', '{']).bytes = before.bytes + 2 := by
    simp (disch := decide) [Text.bytes, utf8Size_of_ascii]
  have hsource : source = before ++ ['{', '{'] ++ body ++ (['}', '}'] ++ after) := by
    simp [h, Marker.written]
  exact slice_eq hsource hopening.symm (by rw [hopening])

theorem getLast?_written (before body : Text) :
    (before ++ Marker.written body).getLast? = some '}' := by
  have hbrace : before ++ Marker.written body =
      before ++ '{' :: '{' :: (body ++ ['}']) ++ ['}'] := by simp [Marker.written]
  rw [hbrace, List.getLast?_concat]

theorem emitMarker_eq (resume : ScanState) (h : m.Between source before rest)
    (hopens : Marker.opensAt rest = true) :
    m.emitMarker source resume = .ok (match Marker.read? rest with
      | some (body, _) =>
        { m.emit source m.index (.marker body) with
          sectionStart := (before ++ Marker.written body).bytes
          index := (before ++ Marker.written body).bytes - 1
          state := resume }
      | none => m) := by
  obtain ⟨r, rfl⟩ := Marker.opensAt_iff.1 hopens
  obtain ⟨hsource, hindex⟩ := h
  have hwindow : bytesFrom source.utf8 m.index = .ok (Text.utf8 ('{' :: '{' :: r)) := by
    rw [hsource, hindex, bytesFrom_append]
  have hemitted {body after : Text}
      (hread : Marker.read? ('{' :: '{' :: r) = some (body, after)) :
      slice source (m.index + 2) (m.index + 2 + body.bytes) = .ok body ∧
        (before ++ Marker.written body).bytes = m.index + 2 + body.bytes + 2 := by
    rw [Marker.eq_of_read? hread] at hsource
    rw [hindex]
    exact ⟨slice_written hsource, bytes_written before body⟩
  simp only [emitMarker, hwindow, bind, Except.bind, isPrefixOf_triple]
  -- a third brace belongs to the body, and the marks that close are one longer
  by_cases htriple : r.head? = some '{'
  · obtain ⟨r, rfl⟩ := List.head?_eq_some_iff.1 htriple
    have hclosing : bytesFrom source.utf8 (m.index + List.length ['}', '}', '}']) =
        .ok (Text.utf8 r) := by
      have := bytesFrom_append (before ++ ['{', '{', '{']) r
      simpa (disch := decide) [hsource, hindex, Text.bytes, utf8Size_of_ascii] using this
    have hascii : Text.IsAscii ['}', '}', '}'] := Text.isAscii_of_all rfl
    simp only [List.head?_cons, decide_true, if_true, hclosing]
    rw [Text.findBytes?_utf8 hascii (by simp)]
    cases hcut : Text.cut ['}', '}', '}'] r with
    | none => simp [Marker.read?, hcut, pure, Except.pure]
    | some p =>
      obtain ⟨b, after⟩ := p
      have hread : Marker.read? ('{' :: '{' :: '{' :: r) = some ('{' :: b ++ ['}'], after) := by
        simp [Marker.read?, hcut]
      obtain ⟨hbody, hnext⟩ := hemitted hread
      have hbytes : Text.bytes ('{' :: b ++ ['}']) = 1 + b.bytes + 1 := by
        simp (disch := decide) [Text.bytes, utf8Size_of_ascii, Nat.add_assoc]
      have hstop : m.index + 2 + Text.bytes ('{' :: b ++ ['}']) = m.index + 3 + b.bytes + 1 := by
        omega
      rw [hstop] at hbody hnext
      simp only [Option.map_some, List.length_cons, List.length_nil, Nat.zero_add, hbody, hread,
        hnext]
      rw [minus_of_le (by omega)]
      rfl
  · have hclosing : bytesFrom source.utf8 (m.index + List.length ['}', '}']) =
        .ok (Text.utf8 r) := by
      have := bytesFrom_append (before ++ ['{', '{']) r
      simpa (disch := decide) [hsource, hindex, Text.bytes, utf8Size_of_ascii] using this
    have hascii : Text.IsAscii ['}', '}'] := Text.isAscii_of_all rfl
    have hread : Marker.read? ('{' :: '{' :: r) = Text.cut ['}', '}'] r :=
      Marker.read?_double fun r' hr => htriple (by rw [hr]; rfl)
    simp only [htriple, decide_false, Bool.false_eq_true, if_false, hclosing, hread]
    rw [Text.findBytes?_utf8 hascii (by simp)]
    cases hcut : Text.cut ['}', '}'] r with
    | none => simp [pure, Except.pure]
    | some p =>
      obtain ⟨b, after⟩ := p
      obtain ⟨hbody, hnext⟩ := hemitted (hread.trans hcut)
      simp only [Option.map_some, List.length_cons, List.length_nil, Nat.zero_add, hbody, hnext]
      rw [minus_of_le (by omega)]
      rfl

theorem emitMarker_none (resume : ScanState) (h : m.Between source before rest)
    (hopens : Marker.opensAt rest = true) (hread : Marker.read? rest = none) :
    m.emitMarker source resume = .ok m := by
  rw [emitMarker_eq resume h hopens, hread]

theorem through_char {α : Type} (before : Text) (c : Char) (r : Text) (f : Nat → α)
    (hf : ∀ i b, (before ++ c :: r).utf8[i]? = some b → 128 ≤ b → f i = f (i + 1)) :
    f (before.bytes + 1) = f (before ++ [c]).bytes := by
  have hend : (before ++ [c]).bytes = before.bytes + c.utf8Size := by simp [Text.bytes]
  have hpos := c.utf8Size_pos
  rw [hend]
  by_cases hc : c.toNat < 128
  · rw [utf8Size_of_ascii hc]
  · have hstep : ∀ k, k < c.utf8Size → f (before.bytes + k) = f (before.bytes + (k + 1)) := by
      intro k hk
      have hlen : k < (String.utf8EncodeChar c).length := by
        rwa [String.length_utf8EncodeChar]
      refine hf _ (String.utf8EncodeChar c)[k] ?_ ?_
      · rw [getElem?_utf8 before c r hk, List.getElem?_eq_getElem hlen]
      · exact high_of_mem_encode (Nat.le_of_not_lt hc) _ (List.getElem_mem hlen)
    have hall : ∀ k, k + 1 ≤ c.utf8Size → f (before.bytes + 1) = f (before.bytes + (k + 1)) := by
      intro k
      induction k with
      | zero => exact fun _ => rfl
      | succ k ih => exact fun hk => (ih (by omega)).trans (hstep (k + 1) (by omega))
    have := hall (c.utf8Size - 1) (by omega)
    rwa [Nat.sub_add_cancel hpos] at this

theorem selfClosingFrom_step {i j : Nat} {quote quote' : Option UInt8}
    (hi : i < source.utf8.length) (h : skim source i quote = .ok (.goesOn j quote'))
    (hlt : i < j) : selfClosingFrom source i quote = selfClosingFrom source j quote' := by
  rw [selfClosingFrom, if_pos hi, h]
  exact if_pos hlt

theorem skim_high {i : Nat} {b : UInt8} (hi : source.utf8[i]? = some b) (hb : 128 ≤ b)
    {quote : Option UInt8} (hquote : ∀ q ∈ quote, ¬128 ≤ q) :
    skim source i quote = .ok (.goesOn (i + 1) quote) := by
  have hlt := (List.getElem?_eq_some_iff.1 hi).1
  cases quote with
  | some q =>
    have hne : b ≠ q := fun e => hquote q rfl (e ▸ hb)
    simp [skim, byteAt, hi, bind, Except.bind, pure, Except.pure, hne]
  | none =>
    simp (disch := decide) [skim, byteAt, hi, bytesFrom_of_le (Nat.le_of_lt hlt), bind,
      Except.bind, pure, Except.pure, ne_asciiByte_of_high hb]

theorem selfClosingFrom_char {quote quote' : Option UInt8}
    (hquote : ∀ q ∈ quote', ¬128 ≤ q)
    (h : skim (before ++ c :: r) before.bytes quote = .ok (.goesOn (before.bytes + 1) quote')) :
    selfClosingFrom (before ++ c :: r) before.bytes quote =
      selfClosingFrom (before ++ c :: r) (before ++ [c]).bytes quote' := by
  have hpos := c.utf8Size_pos
  have hlt : before.bytes < (before ++ c :: r).utf8.length := by
    rw [Text.length_utf8, Text.bytes_append, Text.bytes]
    omega
  rw [selfClosingFrom_step hlt h (Nat.lt_succ_self _)]
  refine through_char before c r (fun i => selfClosingFrom _ i quote') fun i b hi hb => ?_
  exact selfClosingFrom_step (List.getElem?_eq_some_iff.1 hi).1 (skim_high hi hb hquote)
    (Nat.lt_succ_self i)

end ByteScanner

theorem Skim.selfClosing_cut (last : Char) (t : Text) :
    selfClosing .marker last t = match Text.cut ['}', '}'] t with
      | some (_, rest) => selfClosing .plain '}' rest
      | none => false := by
  induction t generalizing last with
  | nil => rfl
  | cons c t ih =>
    rw [Text.cut]
    cases hp : List.isPrefixOf? ['}', '}'] (c :: t) with
    | some rest =>
      rw [Text.eq_append_of_isPrefixOf? hp]
      rfl
    | none =>
      have hbraces : ¬['}', '}'] <+: c :: t := by
        rintro ⟨u, hu⟩
        rw [← hu] at hp
        cases hp
      rw [selfClosing_hidden hbraces, ih]
      cases Text.cut ['}', '}'] t <;> rfl

def Skim.ofQuote : Option Char → Skim
  | none => .plain
  | some q => .quoted q

namespace ByteScanner

variable {source before rest r : Text} {c : Char}

theorem byteAt_before (before rest : Text) (x : Char) :
    ∃ b, byteAt (before ++ [x] ++ rest).utf8 ((before ++ [x]).bytes - 1) = .ok b ∧
      (b = asciiByte '/' ↔ x = '/') := by
  have hpos := x.utf8Size_pos
  have hindex : (before ++ [x]).bytes - 1 = before.bytes + (x.utf8Size - 1) := by
    simp only [Text.bytes_append, Text.bytes]
    omega
  have hlen : x.utf8Size - 1 < (String.utf8EncodeChar x).length := by
    rw [String.length_utf8EncodeChar]
    omega
  have hget : (before ++ [x] ++ rest).utf8[before.bytes + (x.utf8Size - 1)]? =
      some (String.utf8EncodeChar x)[x.utf8Size - 1] := by
    rw [List.append_assoc, List.singleton_append, getElem?_utf8 before x rest (by omega),
      List.getElem?_eq_getElem hlen]
  refine ⟨_, by rw [hindex, byteAt, hget], ?_⟩
  by_cases hx : x.toNat < 128
  · simp only [encode_of_ascii hx, utf8Size_of_ascii hx, Nat.sub_self, List.getElem_cons_zero]
    rw [← leadByte_of_ascii hx]
    exact leadByte_eq_iff (by decide) x
  · refine iff_of_false (ne_asciiByte_of_high ?_ (by decide)) ?_
    · exact high_of_mem_encode (Nat.le_of_not_lt hx) _ (List.getElem_mem hlen)
    · rintro rfl
      exact hx (by decide)

theorem skim_quoted {q : Char} (hq : q.toNat < 128) (before r : Text) (c : Char) :
    skim (before ++ c :: r) before.bytes (some (asciiByte q)) =
      .ok (.goesOn (before.bytes + 1) ((if c = q then none else some q).map asciiByte)) := by
  simp only [skim, byteAt_append, bind, Except.bind]
  by_cases hc : c = q
  · rw [if_pos ((leadByte_eq_iff hq c).2 hc), if_pos hc]
    rfl
  · rw [if_neg (mt (leadByte_eq_iff hq c).1 hc), if_neg hc]
    rfl

theorem skim_quote (hc : c = '"' ∨ c = '\x27') (before r : Text) :
    skim (before ++ c :: r) before.bytes none =
      .ok (.goesOn (before.bytes + 1) (some (asciiByte c))) := by
  have hascii : c.toNat < 128 := by rcases hc with rfl | rfl <;> decide
  rw [← leadByte_of_ascii hascii]
  simp (disch := decide) only [skim, byteAt_append, bind, Except.bind, leadByte_eq_iff, hc, if_true]
  rfl

theorem skim_marker (before r : Text) :
    skim (before ++ '{' :: '{' :: r) before.bytes none =
      .ok (match Text.cut ['}', '}'] r with
        | some (b, _) => .goesOn (before ++ Marker.written b).bytes none
        | none => .ends false) := by
  have hascii : Text.IsAscii ['}', '}'] := Text.isAscii_of_all rfl
  have hopens : Marker.opensAt ('{' :: '{' :: r) = true := rfl
  have hopened : bytesFrom (before ++ '{' :: '{' :: r).utf8 (before.bytes + 2) =
      .ok (Text.utf8 r) := by
    have := bytesFrom_append (before ++ ['{', '{']) r
    simpa (disch := decide) [Text.bytes, utf8Size_of_ascii] using this
  have hstop (b : Text) : before.bytes + b.bytes + 4 = (before ++ Marker.written b).bytes := by
    rw [bytes_written]
    omega
  simp (disch := decide) only [skim, byteAt_append, bytesFrom_append, bind, Except.bind,
    leadByte_eq_iff, opensAt_eq_isPrefixOf, hopens, hopened, and_self, if_true,
    Text.findBytes?_utf8 hascii (by simp)]
  cases Text.cut ['}', '}'] r with
  | none => rfl
  | some p =>
    simp only [Option.map_some, hstop]
    rfl

theorem skim_end {last : Char} (hlast : before.getLast? = some '/' ↔ last = '/') (r : Text) :
    skim (before ++ '>' :: r) before.bytes none = .ok (.ends (decide (last = '/'))) := by
  have hopens : Marker.opensAt ('>' :: r) = false := rfl
  simp (disch := decide) only [skim, byteAt_append, bytesFrom_append, bind, Except.bind,
    leadByte_eq_iff, opensAt_eq_isPrefixOf, hopens, if_true, Bool.false_eq_true, and_false]
  rcases List.eq_nil_or_concat before with rfl | ⟨b, x, rfl⟩
  · have hslash : ¬last = '/' := mt hlast.2 (by simp)
    simp [Text.bytes, hslash, pure, Except.pure]
  · obtain ⟨y, hy, hyx⟩ := byteAt_before b ('>' :: r) x
    have hpos : 1 ≤ Text.bytes (b ++ [x]) := by
      have := x.utf8Size_pos
      simp only [Text.bytes_append, Text.bytes]
      omega
    rw [List.concat_eq_append] at hlast ⊢
    rw [List.getLast?_concat, Option.some.injEq] at hlast
    rw [if_neg (by decide), if_neg (Nat.ne_of_gt hpos), minus_of_le hpos]
    simp only [hy]
    rw [decide_eq_decide.2 (hyx.trans hlast)]
    rfl

theorem skim_char (hc : c ≠ '"' ∧ c ≠ '\x27' ∧ c ≠ '>') (hm : Marker.opensAt (c :: r) = false)
    (before : Text) :
    skim (before ++ c :: r) before.bytes none = .ok (.goesOn (before.bytes + 1) none) := by
  simp (disch := decide) only [skim, byteAt_append, bytesFrom_append, bind, Except.bind,
    leadByte_eq_iff, opensAt_eq_isPrefixOf, hm, hc, or_self, Bool.false_eq_true, and_false,
    if_false]
  rfl

/-- The look ahead over bytes has the answer of the look ahead over characters. -/
theorem selfClosingFrom_eq (quote : Option Char) (hquote : ∀ q ∈ quote, q.toNat < 128)
    (before rest : Text) (last : Char) (hlast : before.getLast? = some '/' ↔ last = '/') :
    selfClosingFrom (before ++ rest) before.bytes (quote.map asciiByte) =
      .ok (Skim.selfClosing (.ofQuote quote) last rest) := by
  -- a marker is passed in one go, so the recursion is on the length of what is left
  cases rest with
  | nil =>
    rw [List.append_nil, selfClosingFrom, if_neg (by simp), Skim.selfClosing_nil]
  | cons c r =>
    have hsource : before ++ c :: r = before ++ [c] ++ r := by simp
    have hlastc : (before ++ [c]).getLast? = some '/' ↔ c = '/' := by simp
    have hlt : before.bytes < (before ++ c :: r).utf8.length := by
      have := c.utf8Size_pos
      rw [Text.length_utf8, Text.bytes_append, Text.bytes]
      omega
    have hnext (quote' : Option Char) (hquote' : ∀ q ∈ quote', q.toNat < 128)
        (h : skim (before ++ c :: r) before.bytes (quote.map asciiByte) =
          .ok (.goesOn (before.bytes + 1) (quote'.map asciiByte))) :
        selfClosingFrom (before ++ c :: r) before.bytes (quote.map asciiByte) =
          .ok (Skim.selfClosing (.ofQuote quote') c r) := by
      rw [selfClosingFrom_char ?_ h, hsource, selfClosingFrom_eq quote' hquote' _ r c hlastc]
      rintro q hq hhigh
      obtain ⟨a, ha, rfl⟩ := Option.map_eq_some_iff.1 hq
      exact ne_asciiByte_of_high hhigh (hquote' a ha) rfl
    cases quote with
    | some q =>
      have hq : q.toNat < 128 := hquote q rfl
      refine (hnext (if c = q then none else some q) ?_ (skim_quoted hq before r c)).trans ?_
      · split
        · simp
        · exact hquote
      · rw [Skim.ofQuote, Skim.selfClosing_in_quotes]
        split <;> rfl
    | none =>
      rw [Option.map_none, Skim.ofQuote]
      by_cases hq : c = '"' ∨ c = '\x27'
      · have hc : c.toNat < 128 := by rcases hq with rfl | rfl <;> decide
        rw [Skim.selfClosing_quote hq]
        exact hnext (some c) (fun q hq => Option.some.inj hq ▸ hc) (skim_quote hq before r)
      by_cases hend : c = '>'
      · subst hend
        rw [Skim.selfClosing_end, selfClosingFrom, if_pos hlt, skim_end hlast]
      cases hm : Marker.opensAt (c :: r) with
      | true =>
        obtain ⟨u, hu⟩ := Marker.opensAt_iff.1 hm
        have hskim := skim_marker before u
        have hanswer : Skim.selfClosing .plain last (c :: r) = _ :=
          (congrArg _ hu).trans (Skim.selfClosing_cut '{' u)
        rw [← hu] at hskim
        cases hcut : Text.cut ['}', '}'] u with
        | none =>
          simp only [hcut] at hskim hanswer
          rw [selfClosingFrom, if_pos hlt, hskim, hanswer]
        | some p =>
          obtain ⟨b, after⟩ := p
          have hafter : c :: r = Marker.written b ++ after := by
            simp [hu, Marker.written, Text.eq_of_cut hcut]
          have hlast' : (before ++ Marker.written b).getLast? = some '/' ↔ '}' = '/' := by
            rw [getLast?_written]
            decide
          have hon : before.bytes < (before ++ Marker.written b).bytes := by
            rw [bytes_written]
            omega
          have hlen : after.length < (c :: r).length := by
            rw [hafter, Marker.written]
            simp only [List.length_append, List.length_cons]
            omega
          simp only [hcut] at hskim hanswer
          rw [selfClosingFrom_step hlt hskim hon, hanswer, hafter, ← List.append_assoc]
          exact selfClosingFrom_eq none (by simp) _ after '}' hlast'
      | false =>
        rw [not_or] at hq
        have hc : c ≠ '"' ∧ c ≠ '\x27' ∧ c ≠ '>' := ⟨hq.1, hq.2, hend⟩
        rw [Skim.selfClosing_char hc hm]
        exact hnext none (by simp) (skim_char hc hm before)
termination_by rest.length
decreasing_by
  all_goals first
  | assumption
  | exact Nat.lt_succ_self _

end ByteScanner

theorem forall_ascii (P : Char → Prop) (h : ∀ n < 128, P (Char.ofNat n)) {c : Char}
    (hc : c.toNat < 128) : P c := by
  have := h c.toNat hc
  rwa [Char.ofNat_toNat] at this

theorem toLower_of_not_ascii {c : Char} (hc : 128 ≤ c.toNat) : c.toLower = c := by
  unfold Char.toLower
  rw [dif_neg]
  rintro ⟨-, hZ⟩
  have hle : c.toNat ≤ 90 := hZ
  omega

theorem toLower_ascii {c : Char} (hc : c.toNat < 128) : c.toLower.toNat < 128 := by
  have hall : ∀ n < 128, (Char.ofNat n).toLower.toNat < 128 := by decide
  exact forall_ascii (fun c => c.toLower.toNat < 128) hall hc

theorem Byte.lower_ascii {c : Char} (hc : c.toNat < 128) :
    Byte.lower (asciiByte c) = asciiByte c.toLower := by
  have hall : ∀ n < 128,
      Byte.lower (asciiByte (Char.ofNat n)) = asciiByte (Char.ofNat n).toLower := by decide
  exact forall_ascii (fun c => Byte.lower (asciiByte c) = asciiByte c.toLower) hall hc

theorem Byte.lower_high {b : UInt8} (hb : 128 ≤ b) : Byte.lower b = b := by
  rw [Byte.lower, if_neg]
  rintro ⟨-, hZ⟩
  have h90 : asciiByte 'Z' = 90 := rfl
  rw [h90, UInt8.le_iff_toNat_le] at hZ
  rw [UInt8.le_iff_toNat_le] at hb
  have h1 : (90 : UInt8).toNat = 90 := rfl
  have h2 : (128 : UInt8).toNat = 128 := rfl
  omega

theorem lower_lead_eq_iff {a : Char} (ha : a.toNat < 128) (c : Char) :
    Byte.lower (leadByte c) = Byte.lower (asciiByte a) ↔ c.toLower = a.toLower := by
  rw [Byte.lower_ascii ha]
  by_cases hc : c.toNat < 128
  · rw [leadByte_of_ascii hc, Byte.lower_ascii hc, ← leadByte_of_ascii (toLower_ascii hc),
      leadByte_eq_iff (toLower_ascii ha)]
  · have hhigh := Nat.le_of_not_lt hc
    rw [Byte.lower_high (leadByte_of_not_ascii hhigh), toLower_of_not_ascii hhigh,
      leadByte_eq_iff (toLower_ascii ha)]

theorem Byte.sameLetters_take {tag : Text} (hascii : tag.IsAscii) (t : Text) :
    Byte.sameLetters (t.utf8.take tag.length) tag.utf8 =
      Text.sameLetters (t.take tag.length) tag := by
  induction tag generalizing t with
  | nil => rfl
  | cons a tag ih =>
    have ha : a.toNat < 128 := hascii a List.mem_cons_self
    rw [Text.utf8_cons, encode_of_ascii ha]
    cases t with
    | nil => rfl
    | cons c t =>
      rw [Bool.eq_iff_iff]
      have hsame := lower_lead_eq_iff ha c
      have htag := Bool.eq_iff_iff.1 (ih (fun d hd => hascii d (List.mem_cons_of_mem a hd)) t)
      simp only [Byte.sameLetters, Text.sameLetters, Text.lower, beq_iff_eq] at htag ⊢
      by_cases hc : c.toNat < 128
      · rw [Text.utf8_cons, encode_of_ascii hc, ← leadByte_of_ascii hc]
        simp only [List.singleton_append, List.length_cons, List.take_succ_cons, List.map_cons,
          List.cons.injEq, hsame, htag]
      · have hne : ¬c.toLower = a.toLower := by
          intro h
          have := toLower_ascii ha
          rw [← h, toLower_of_not_ascii (Nat.le_of_not_lt hc)] at this
          exact hc this
        rw [Text.utf8_eq_cons]
        simp only [List.singleton_append, List.length_cons, List.take_succ_cons, List.map_cons,
          List.cons.injEq, hsame, hne, false_and]

theorem Text.isAscii_of_sameLetters {t tag : Text} (hascii : tag.IsAscii)
    (h : sameLetters t tag = true) : t.IsAscii := by
  intro c hc
  have hmem : c.toLower ∈ tag.lower := by
    rw [← beq_iff_eq.1 h]
    exact List.mem_map_of_mem hc
  obtain ⟨a, ha, hlower⟩ := List.mem_map.1 hmem
  refine Nat.lt_of_not_le fun hhigh => ?_
  have := toLower_ascii (hascii a ha)
  rw [hlower, toLower_of_not_ascii hhigh] at this
  omega

theorem Text.length_le_bytes (t : Text) : t.length ≤ t.bytes := by
  induction t with
  | nil => exact Nat.le_refl _
  | cons c t ih =>
    have := c.utf8Size_pos
    simp only [List.length_cons, Text.bytes]
    omega

theorem Text.not_sameLetters_of_short {t tag : Text} (h : t.bytes < tag.length) :
    sameLetters (t.take tag.length) tag = false := by
  rw [Bool.eq_false_iff]
  intro hsame
  have hlen := congrArg List.length (beq_iff_eq.1 hsame)
  have := t.length_le_bytes
  simp only [Text.length_lower, List.length_take] at hlen
  omega

theorem Text.getElem?_behind {t tag : Text} (hascii : tag.IsAscii)
    (h : sameLetters (t.take tag.length) tag = true) :
    t.utf8[tag.length]? = (Text.utf8 (t.drop tag.length))[0]? := by
  have hlen := congrArg List.length (beq_iff_eq.1 h)
  rw [Text.length_lower, Text.length_lower] at hlen
  have hbytes : (Text.utf8 (t.take tag.length)).length = tag.length := by
    rw [Text.length_utf8, Text.bytes_of_ascii (Text.isAscii_of_sameLetters hascii h), hlen]
  conv =>
    lhs
    rw [← List.take_append_drop tag.length t, Text.utf8_append]
  rw [List.getElem?_append_right (Nat.le_of_eq hbytes), hbytes, Nat.sub_self]

namespace ByteScanner

variable {source before r : Text} {m : ByteScanner}

theorem atRawTextEnd_eq {tag : Text} (h : m.Between source before ('<' :: r))
    (htag : m.rawTextTag = some tag) (hascii : tag.IsAscii) :
    m.atRawTextEnd source = .ok (closesRawText tag ('<' :: r)) := by
  have hlt : Text.utf8 ('<' :: r) = asciiByte '<' :: r.utf8 := by
    rw [Text.utf8_cons, encode_of_ascii (by decide)]
    rfl
  have htaglen : tag.utf8.length = tag.length := by
    rw [Text.length_utf8, Text.bytes_of_ascii hascii]
  simp only [atRawTextEnd, htag, h.bytesFrom, htaglen, bind, Except.bind]
  cases r with
  | nil =>
    rw [if_pos (by rw [hlt]; simp)]
    rfl
  | cons d u =>
    have hsecond : byteAt (Text.utf8 ('<' :: d :: u)) 1 = .ok (leadByte d) := by
      rw [byteAt, hlt, Text.utf8_eq_cons]
      rfl
    have hlength : (Text.utf8 ('<' :: d :: u)).length = 1 + (d.utf8Size + Text.bytes u) := by
      rw [hlt, List.length_cons, Text.length_utf8, Text.bytes, Nat.add_comm]
    by_cases hd : d = '/'
    · subst hd
      have hutf8 : Text.utf8 ('/' :: u) = asciiByte '/' :: Text.utf8 u := by
        rw [Text.utf8_cons, encode_of_ascii (by decide)]
        rfl
      have hslash : '/'.utf8Size = 1 := rfl
      rw [closesRawText, Text.afterCaseless?]
      by_cases hshort : (Text.utf8 ('<' :: '/' :: u)).length < tag.length + 2
      · rw [if_pos hshort, Text.not_sameLetters_of_short (by omega)]
        rfl
      · have hname : bytesIn (Text.utf8 ('<' :: '/' :: u)) 2 (2 + tag.length) =
            .ok ((Text.utf8 u).take tag.length) := by
          rw [bytesIn, if_pos ⟨by omega, by omega⟩, hlt, hutf8, Nat.add_comm]
          rfl
        have hget : (Text.utf8 ('<' :: '/' :: u))[2 + tag.length]? =
            (Text.utf8 u)[tag.length]? := by
          rw [hlt, hutf8, Nat.add_comm]
          rfl
        have hslashByte : ¬leadByte '/' ≠ asciiByte '/' := by decide
        simp only [if_neg hshort, hsecond, if_neg hslashByte, hname, hget,
          Byte.sameLetters_take hascii]
        by_cases hsame : Text.sameLetters (u.take tag.length) tag = true
        · rw [if_pos hsame, if_pos hsame, Text.getElem?_behind hascii hsame]
          cases u.drop tag.length with
          | nil => rfl
          | cons e v =>
            rw [Text.utf8_eq_cons, List.getElem?_cons_zero]
            simp (disch := decide) only [leadByte_eq_iff, Byte.isSpace_lead]
            rfl
        · rw [if_neg hsame, if_neg hsame]
          rfl
    · have hcloses : closesRawText tag ('<' :: d :: u) = false := by
        rw [closesRawText]
        exact fun _ hu => hd (List.cons.inj (List.cons.inj hu).2).1
      have hne : leadByte d ≠ asciiByte '/' := mt (leadByte_eq_iff (by decide) d).1 hd
      rw [hcloses]
      simp only [hsecond, if_pos hne]
      split <;> rfl

end ByteScanner

end Stencil
