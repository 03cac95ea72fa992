import Stencil.Proofs.Markup.ByteTracks

/-!
What a `<` opens outside of start tags, read from the bytes: a declaration goes on to the first `>`,
a comment to its end or that of the source, and a start tag up to the end of its name.
-/

set_option autoImplicit false

namespace Stencil

namespace ByteScanner

variable {source before rest r : Text} {m m' : ByteScanner} {s : Scanner} {c : Char}

theorem handle_through (hstate : m.state = .inDeclaration ∨ m.state = .afterClosingTagName)
    (b : UInt8) : m.handle source b = .ok (m.stateInDeclaration b) := by
  rcases hstate with h | h <;> rw [handle, h] <;> rfl

theorem run_throughTagEnd (hstate : m.state = .inDeclaration ∨ m.state = .afterClosingTagName)
    (t : Text) {before : Text} (hsource : source = before ++ t) :
    ∃ m' : ByteScanner, run source { m with index := before.bytes } = m'.run source ∧
      m'.events = m.events ∧ m'.openTags = m.openTags ∧
      m'.index = (before ++ (throughTagEnd t).1).bytes ∧ m'.Settled ∧
      ((throughTagEnd t).2 ≠ [] → m'.state = .text) := by
  induction t generalizing before with
  | nil =>
    refine ⟨_, rfl, rfl, rfl, by rw [throughTagEnd, List.append_nil], ?_, fun h => absurd rfl h⟩
    rcases hstate with h | h
    · exact settled_of_state .inDeclaration h (by decide)
    · exact settled_of_state .afterClosingTagName h (by decide)
  | cons c r ih =>
    have hm : Between source { m with index := before.bytes } before (c :: r) := ⟨hsource, rfl⟩
    by_cases hc : c = '>'
    · subst hc
      have hhandle : handle source (leadByte '>') { m with index := before.bytes } =
          .ok (stateInDeclaration (leadByte '>') { m with index := before.bytes }) :=
        handle_through (m := { m with index := before.bytes }) hstate _
      rw [stateInDeclaration, if_pos (by decide)] at hhandle
      have hend : (before ++ ['>']).bytes = before.bytes + 1 := by
        rw [Text.bytes_append]
        rfl
      exact ⟨_, run_char hm hhandle rfl (.inl (by decide)), rfl, rfl, rfl, fun _ => hend.symm,
        fun _ => rfl⟩
    · have hne : ¬leadByte c = asciiByte '>' := mt (leadByte_eq_iff (by decide) c).1 hc
      have hhandle : handle source (leadByte c) { m with index := before.bytes } =
          .ok (stateInDeclaration (leadByte c) { m with index := before.bytes }) :=
        handle_through (m := { m with index := before.bytes }) hstate _
      rw [stateInDeclaration, if_neg hne] at hhandle
      have hpass : m.state.passesHigh = true := by rcases hstate with h | h <;> rw [h] <;> rfl
      have hr : source = before ++ [c] ++ r := by simp [hsource]
      obtain ⟨m', hrun, hevents, htags, hindex, hsettled, htext⟩ := ih hr
      rw [List.append_assoc] at hindex
      rw [throughTagEnd, if_neg hc]
      exact ⟨m', (run_char hm hhandle rfl (.inr hpass)).trans hrun, hevents, htags, hindex,
        hsettled, htext⟩

theorem Stands.run_opening (hs : m.Stands source s before) (hrest : s.rest = '<' :: r)
    (hstate : m.state = .text) (hstart : m.sectionStart = m.index) :
    m.run source =
      run source { m with state := .beforeTagName, index := (before ++ ['<']).bytes } := by
  have hhandle : m.handle source (leadByte '<') = .ok { m with state := .beforeTagName } := by
    rw [handle, hstate, stateText]
    refine (if_pos (by decide)).trans ?_
    rw [flush_empty source .chars m hstart]
    cases m
    cases hstart
    rfl
  exact run_char (hs.between hrest) hhandle rfl (.inl (by decide))

structure AtOpening (source : Text) (m : ByteScanner) (s : Scanner) (before r : Text) : Prop where
  read : s.HasRead source before
  rest : s.rest = '<' :: r
  state : m.state = .beforeTagName
  index : m.index = (before ++ ['<']).bytes
  openTags : m.openTags = s.openTags

theorem beforeTagName_eq (hm : m.Between source before (c :: r)) :
    m.stateBeforeTagName source (leadByte c) =
      if c = '!' then
        if (['-', '-'].isPrefixOf? r).isSome then m.readComment source
        else .ok { m with state := .inDeclaration }
      else if c = '?' then .ok { m with state := .inDeclaration }
      else if Tag.isNameStart c then
        .ok { m with sectionStart := m.index, state := .inTagName }
      else if c = '/' then .ok { m with state := .beforeClosingTagName }
      else stateText source (leadByte c) { m with state := .text } := by
  simp (disch := decide) only [stateBeforeTagName, leadByte_eq_iff, Byte.isNameStart_lead]
  by_cases hc : c = '!'
  · subst hc
    have hsource : source = before ++ ['!'] ++ r := by simp [hm.source]
    have hwindow : bytesFrom source.utf8 (m.index + 1) = .ok r.utf8 := by
      have hindex : m.index + 1 = (before ++ ['!']).bytes := by
        rw [Text.bytes_append, hm.index]
        rfl
      rw [hindex, hsource, bytesFrom_append]
    have hascii : Text.IsAscii ['-', '-'] := Text.isAscii_of_all rfl
    simp only [if_true, hwindow, bind, Except.bind, Text.utf8_isPrefixOf hascii]
    rfl
  · simp only [if_neg hc]
    rfl

namespace AtOpening

theorem between (h : m.AtOpening source s before (c :: r)) :
    m.Between source (before ++ ['<']) (c :: r) :=
  ⟨by rw [h.read.source, h.rest]; simp, h.index⟩

theorem handle_eq (h : m.AtOpening source s before (c :: r)) :
    m.handle source (leadByte c) = m.stateBeforeTagName source (leadByte c) := by
  rw [handle, h.state]

theorem does_declaration (h : m.AtOpening source s before (c :: r)) (hc : c.toNat < 128)
    (hhandle : m.handle source (leadByte c) = .ok { m with state := .inDeclaration }) :
    m.Does source (s.declaration c r) := by
  have hsource : source = before ++ ['<'] ++ [c] ++ r := by
    rw [h.between.source]
    simp
  have hrun := run_char h.between hhandle rfl (.inl hc)
  obtain ⟨m', hrun', hevents, htags, hindex, hsettled, htext⟩ :=
    run_throughTagEnd (m := { m with state := .inDeclaration }) (.inl rfl) r hsource
  have hthrough : r = (throughTagEnd r).1 ++ (throughTagEnd r).2 :=
    (throughTagEnd_append r).symm
  refine does_of_run h.read ?_ (hrun.trans hrun') (hevents.trans (List.append_nil _).symm) ?_
    (htags.trans h.openTags) hsettled htext
  · rw [h.rest]
    simp [← hthrough]
  · rw [hindex]
    simp

theorem spot_index (h : m.AtOpening source s before r) :
    (⟨m.index, lineAt source m.index⟩ : Spot) = s.spot.past ['<'] := by
  have hrest : s.rest = ['<'] ++ r := h.rest
  rw [h.index, spot_eq (hasRead_pass h.read hrest .content)]
  rfl

theorem content_index (h : m.AtOpening source s before r) :
    m.index + 3 = (before ++ ['<', '!', '-', '-']).bytes := by
  rw [h.index]
  simp (disch := decide) [Text.bytes, utf8Size_of_ascii]

theorem does_emitted {text piece after : Text}
    (h : m.AtOpening source s before ('!' :: '-' :: '-' :: r)) (hr : r = piece ++ after)
    (hread : m.readComment source = .ok { m.emit source m.index (.comment text) with
      index := (before ++ ['<', '!', '-', '-'] ++ piece).bytes - 1
      sectionStart := (before ++ ['<', '!', '-', '-'] ++ piece).bytes
      state := .text }) :
    m.Does source ⟨[⟨s.spot.past ['<'], .comment text⟩],
      s.pass ("<!--" ++ piece) after .content⟩ := by
  have hb : source.utf8[m.index]? = some (leadByte '!') := by
    rw [h.between.source, h.index, getElem?_utf8_lead]
  have hhandle : m.handle source (leadByte '!') = m.readComment source := by
    rw [h.handle_eq, beforeTagName_eq h.between]
    rfl
  have hpassed : m.index + 3 ≤ (before ++ ['<', '!', '-', '-'] ++ piece).bytes := by
    rw [h.content_index, Text.bytes_append _ piece]
    exact Nat.le_add_right _ _
  have hlast : m.index ≤ (before ++ ['<', '!', '-', '-'] ++ piece).bytes - 1 := by omega
  have hend : (before ++ ['<', '!', '-', '-'] ++ piece).bytes - 1 + 1 =
      (before ++ ['<', '!', '-', '-'] ++ piece).bytes := Nat.sub_add_cancel (by omega)
  have hrun := run_of_handle hb (hhandle.trans hread) hlast
  have hopening : ("<!--" : Text) = ['<', '!', '-', '-'] := rfl
  refine does_of_run h.read ?_ hrun ?_ ?_ h.openTags (fun _ => ?_) fun _ => rfl
  · rw [h.rest, hr, hopening]
    simp
  · exact congrArg (m.events ++ [⟨·, .comment text⟩]) h.spot_index
  · rw [hopening, ← List.append_assoc]
    exact hend
  · exact hend.symm

theorem does_comment (h : m.AtOpening source s before ('!' :: '-' :: '-' :: r)) :
    m.Does source (s.comment r) := by
  have hopen : source = before ++ ['<', '!', '-', '-'] ++ r := by
    rw [h.read.source, h.rest]
    simp
  have hwindow : bytesFrom source.utf8 (m.index + 3) = .ok r.utf8 := by
    rw [h.content_index, hopen, bytesFrom_append]
  have hascii : Text.IsAscii ['-', '-', '>'] := Text.isAscii_of_all rfl
  have hfind := Text.findBytes?_utf8 hascii (List.cons_ne_nil _ _) r
  have hclosing : ("-->" : Text) = ['-', '-', '>'] := rfl
  simp only [Scanner.comment, hclosing]
  cases hcut : Text.cut ['-', '-', '>'] r with
  | some p =>
    obtain ⟨text, after⟩ := p
    have hr : r = text ++ ['-', '-', '>'] ++ after := Text.eq_of_cut hcut
    have hslice : slice source (m.index + 3) (m.index + 3 + text.bytes) = .ok text :=
      slice_eq (v := ['-', '-', '>'] ++ after) (by rw [hopen, hr]; simp) h.content_index
        (by rw [h.content_index])
    have hend : m.index + 3 + text.bytes + 3 =
        (before ++ ['<', '!', '-', '-'] ++ (text ++ ['-', '-', '>'])).bytes := by
      simp (disch := decide) [h.index, Text.bytes, utf8Size_of_ascii]
      omega
    simp only
    rw [List.append_assoc]
    refine h.does_emitted hr ?_
    simp only [readComment, hwindow, hfind, hcut, Option.map_some, hslice, bind, Except.bind,
      ← hend]
    rfl
  | none =>
    have hend : source.utf8.length = (before ++ ['<', '!', '-', '-'] ++ r).bytes := by
      rw [Text.length_utf8, hopen]
    have hslice : slice source (m.index + 3) source.utf8.length = .ok r :=
      slice_eq (v := []) (by rw [hopen, List.append_nil]) h.content_index
        (by rw [hend, Text.bytes_append])
    have hpos : 1 ≤ source.utf8.length := by
      rw [hend, Text.bytes_append, ← h.content_index]
      omega
    refine h.does_emitted (List.append_nil r).symm ?_
    simp only [readComment, hwindow, hfind, hcut, Option.map_none, hslice, minus_of_le hpos, bind,
      Except.bind, ← hend]
    rfl

end AtOpening

theorem inTagName_pass (hm : m.Between source before (c :: r))
    (h : endsTagName (c :: r) = false) : m.stateInTagName source (leadByte c) = .ok m := by
  simp only [endsTagName, Bool.or_eq_false_iff] at h
  simp only [stateInTagName, hm.opensMarker, Byte.endsName_lead, h, Bool.false_eq_true, or_self,
    if_false, bind, Except.bind]
  rfl

theorem inTagName_end {start piece : Text} (hm : m.Between source (start ++ piece) (c :: r))
    (hstate : m.state = .inTagName) (hstart : m.sectionStart = start.bytes)
    (hslash : (start ++ piece).getLast? ≠ some '/') (h : endsTagName (c :: r) = true) :
    let unary := Tag.isVoid piece || Skim.selfClosing .plain ' ' (c :: r)
    m.handle source (leadByte c) =
      handle source (leadByte c) { m.emit source start.bytes (.tagStart piece unary) with
        tag := piece, unary, sectionStart := m.index, state := .beforeAttrName } := by
  intro unary
  have hends : Byte.endsName (leadByte c) = true ∨ Marker.opensAt (c :: r) = true := by
    rw [Byte.endsName_lead]
    simpa only [endsTagName, Bool.or_eq_true] using h
  have hname : slice source m.sectionStart m.index = .ok piece :=
    slice_eq hm.source hstart (hm.index.trans (Text.bytes_append start piece))
  have hunary : m.isUnary source piece = .ok unary := by
    have hlast : (start ++ piece).getLast? = some '/' ↔ ' ' = '/' :=
      iff_of_false hslash (by decide)
    have hlook := selfClosingFrom_eq none (by simp) (start ++ piece) (c :: r) ' ' hlast
    rw [← hm.source, ← hm.index] at hlook
    simp only [unary, isUnary]
    split
    next hvoid =>
      rw [hvoid]
      rfl
    next hvoid =>
      rw [eq_false_of_ne_true hvoid]
      exact hlook
  rw [handle, hstate]
  simp only [stateInTagName, hm.opensMarker, if_pos hends, hname, hunary, bind, Except.bind]
  rw [hstart]
  rfl

theorem getLast?_ne_slash {before name : Text} (hne : name ≠ []) (hname : '/' ∉ name) :
    (before ++ name).getLast? ≠ some '/' := by
  cases hx : name.getLast? with
  | none => exact absurd (List.getLast?_eq_none_iff.1 hx) hne
  | some x =>
    rw [List.getLast?_append, hx, Option.some_or]
    rintro ⟨⟩
    exact hname (List.mem_of_getLast? hx)

theorem endsTagName_of_isNameStart (hc : Tag.isNameStart c = true) (r : Text) :
    endsTagName (c :: r) = false := by
  rw [← Bool.not_eq_true]
  simp only [endsTagName, Tag.endsName, Tag.isSpace, Bool.or_eq_true, decide_eq_true_eq,
    Marker.opensAt_iff]
  rintro (((rfl | rfl) | (((rfl | rfl) | rfl) | rfl) | rfl) | ⟨u, hu⟩)
  any_goals cases hc
  cases hu
  cases hc

theorem AtOpening.does_startTag (h : m.AtOpening source s before (c :: r))
    (hc : Tag.isNameStart c = true) : m.Does source (s.startTag (c :: r)) := by
  have hne : c ≠ '!' ∧ c ≠ '?' := by
    constructor <;> rintro rfl <;> cases hc
  have hhandle : m.handle source (leadByte c) =
      .ok { m with sectionStart := m.index, state := .inTagName } := by
    rw [h.handle_eq, beforeTagName_eq h.between, if_neg hne.1, if_neg hne.2, if_pos hc]
  have hfirst := endsTagName_of_isNameStart hc r
  have hsource : source = before ++ ['<'] ++ [c] ++ r := by
    rw [h.between.source]
    simp
  have hrun := (run_char h.between hhandle rfl (.inr rfl)).trans
    (run_until { m with sectionStart := m.index, state := .inTagName } endsTagName rfl
      (fun hat hgo => inTagName_pass ⟨hat, rfl⟩ hgo) r hsource)
  have hmore : before ++ ['<'] ++ [c] ++ (Text.splitWhen endsTagName r).1 =
      before ++ ['<'] ++ (c :: (Text.splitWhen endsTagName r).1) := by simp
  have hpiece : s.rest = '<' :: (c :: (Text.splitWhen endsTagName r).1) ++
      (Text.splitWhen endsTagName r).2 := by
    rw [h.rest, List.cons_append, List.cons_append, Text.splitWhen_append]
  rw [hmore] at hrun
  have hindex : before ++ ['<'] ++ (c :: (Text.splitWhen endsTagName r).1) =
      before ++ '<' :: (c :: (Text.splitWhen endsTagName r).1) := by simp
  simp only [Scanner.startTag, Text.splitWhen_cons_of_not hfirst]
  cases hafter : (Text.splitWhen endsTagName r).2 with
  | nil =>
    rw [hafter] at hpiece
    exact does_of_run h.read hpiece hrun (List.append_nil _).symm (congrArg Text.bytes hindex)
      h.openTags (settled_of_state .inTagName rfl (by decide)) fun h => absurd rfl h
  | cons d u =>
    have hstop := (Text.splitWhen_rest endsTagName r).resolve_left (by simp [hafter])
    rw [hafter] at hpiece hstop
    have hnext : source =
        before ++ ['<'] ++ (c :: (Text.splitWhen endsTagName r).1) ++ d :: u := by
      rw [hindex, List.append_assoc, ← hpiece, ← h.read.source]
    have hat : Between source { m with
        sectionStart := m.index
        state := .inTagName
        index := (before ++ ['<'] ++ (c :: (Text.splitWhen endsTagName r).1)).bytes }
      (before ++ ['<'] ++ (c :: (Text.splitWhen endsTagName r).1)) (d :: u) := ⟨hnext, rfl⟩
    have hslash : '/' ∉ c :: (Text.splitWhen endsTagName r).1 := by
      rintro (_ | ⟨_, hmem⟩)
      · cases hc
      · obtain ⟨u, hu⟩ := Text.exists_of_mem_splitWhen hmem
        cases hu
    have hname := inTagName_end hat rfl h.index (getLast?_ne_slash (List.cons_ne_nil _ _) hslash)
      hstop
    refine does_of_run h.read hpiece (hrun.trans (run_congr hat ?_ hname)) ?_
      (congrArg Text.bytes hindex) h.openTags (settled_of_state .beforeAttrName rfl (by decide))
      fun _ => ⟨rfl, rfl, rfl⟩
    · rfl
    · rw [← h.spot_index, h.index]
      rfl

end ByteScanner

end Stencil
