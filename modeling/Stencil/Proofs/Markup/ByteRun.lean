import Stencil.Proofs.Markup.ByteView

/-!
Runs of the scan over bytes. A character that means nothing in the state the machine is in is passed
in as many turns as it has bytes. Text and values are gathered: the machine goes on while nothing
stops it, and what it has gathered when something does is one event.
-/

set_option autoImplicit false

namespace Stencil

def ScanState.passesHigh : ScanState → Bool
  | .text | .inTagName | .inClosingTagName | .afterClosingTagName | .inAttrName | .inAttrValueDq
  | .inAttrValueSq | .inAttrValueNq | .inDeclaration | .inRawText => true
  | _ => false

namespace ByteScanner

variable {source before rest r : Text} {m m' : ByteScanner} {c : Char} {b : UInt8}

theorem opensMarker_high (hb : 128 ≤ b) : m.opensMarker source b = .ok false := by
  rw [opensMarker, if_neg (ne_asciiByte_of_high hb (by decide))]
  rfl

theorem handle_high (hb : 128 ≤ b) (hs : m.state.passesHigh = true) :
    m.handle source b = .ok m := by
  have hne {a : Char} (ha : a.toNat < 128) : b ≠ asciiByte a := ne_asciiByte_of_high hb ha
  cases hstate : m.state <;> rw [hstate] at hs <;> first
    | exact absurd hs Bool.false_ne_true
    | simp (disch := decide) [handle, hstate, stateText, stateInTagName, stateInClosingTagName,
        stateAfterClosingTagName, stateInAttrName, stateInAttrValueQuoted, stateInAttrValueNq,
        stateInDeclaration, stateInRawText, endsRawText, opensMarker_high hb, hne,
        Byte.endsName_high hb, Byte.isSpace_high hb, bind, Except.bind, pure, Except.pure]

theorem run_of_handle (hb : source.utf8[m.index]? = some b) (h : m.handle source b = .ok m')
    (hle : m.index ≤ m'.index) : m.run source = run source { m' with index := m'.index + 1 } := by
  have hstep : m.step source = .ok { m' with index := m'.index + 1 } := by
    simp only [step, byteAt, hb, h, bind, Except.bind]
    rfl
  rw [run, if_pos (List.getElem?_eq_some_iff.1 hb).1, hstep]
  exact if_pos (Nat.lt_succ_of_le hle)

theorem run_congr (hm : m.Between source before (c :: r)) (hindex : m'.index = m.index)
    (h : m.handle source (leadByte c) = m'.handle source (leadByte c)) :
    m.run source = m'.run source := by
  have hm' : m'.Between source before (c :: r) := ⟨hm.source, hindex.trans hm.index⟩
  have hstep : m.step source = m'.step source := by
    simp only [step, hm.byteAt, hm'.byteAt, bind, Except.bind, h]
  rw [run, if_pos hm.lt_length, run.eq_def _ m', if_pos hm'.lt_length, hstep, hindex]

theorem run_char (hm : m.Between source before (c :: r))
    (h : m.handle source (leadByte c) = .ok m') (hindex : m'.index = m.index)
    (hpass : c.toNat < 128 ∨ m'.state.passesHigh = true) :
    m.run source = run source { m' with index := (before ++ [c]).bytes } := by
  have hb : source.utf8[m.index]? = some (leadByte c) := by
    rw [hm.source, hm.index, getElem?_utf8_lead]
  rw [run_of_handle hb h (Nat.le_of_eq hindex.symm), hindex, hm.index]
  rcases hpass with hc | hstate
  · rw [Text.bytes_append, Text.bytes, utf8Size_of_ascii hc]
    rfl
  · refine through_char before c r (fun i => run source { m' with index := i }) fun i b hi hb => ?_
    rw [← hm.source] at hi
    have hplace : source.utf8[({ m' with index := i } : ByteScanner).index]? = some b := hi
    exact run_of_handle hplace (handle_high hb hstate) (Nat.le_refl _)

theorem run_until (m : ByteScanner) (stop : Text → Bool) (hhigh : m.state.passesHigh = true)
    (hpass : ∀ {before : Text} {c : Char} {r : Text}, source = before ++ c :: r →
      stop (c :: r) = false →
      handle source (leadByte c) { m with index := before.bytes } =
        .ok { m with index := before.bytes })
    (t : Text) {before : Text} (hsource : source = before ++ t) :
    run source { m with index := before.bytes } =
      run source { m with index := (before ++ (Text.splitWhen stop t).1).bytes } := by
  induction t generalizing before with
  | nil => rw [Text.splitWhen, List.append_nil]
  | cons c r ih =>
    by_cases hstop : stop (c :: r) = true
    · rw [Text.splitWhen_of_stop (.inr hstop), List.append_nil]
    · have hgo := eq_false_of_ne_true hstop
      have hr : source = before ++ [c] ++ r := by simp [hsource]
      have hrest := ih hr
      rw [List.append_assoc] at hrest
      rw [Text.splitWhen_cons_of_not hgo,
        run_char ⟨hsource, rfl⟩ (hpass hsource hgo) rfl (.inr hhigh)]
      exact hrest

theorem run_marker {resume : ScanState} {body after : Text}
    (hm : m.Between source before (c :: r))
    (h : m.handle source (leadByte c) = m.emitMarker source resume)
    (hread : Marker.read? (c :: r) = some (body, after)) :
    m.run source = run source { m.emit source m.index (.marker body) with
      sectionStart := (before ++ Marker.written body).bytes
      index := (before ++ Marker.written body).bytes
      state := resume } := by
  have hopens : Marker.opensAt (c :: r) = true := by
    rw [Marker.eq_of_read? hread]
    rfl
  have hemit := emitMarker_eq resume hm hopens
  rw [hread] at hemit
  have hb : source.utf8[m.index]? = some (leadByte c) := by
    rw [hm.source, hm.index, getElem?_utf8_lead]
  have hpos : m.index + 1 ≤ (before ++ Marker.written body).bytes := by
    rw [hm.index, bytes_written]
    omega
  rw [run_of_handle hb (h.trans hemit) (Nat.le_sub_one_of_lt hpos)]
  simp only [Nat.sub_add_cancel (Nat.le_trans (Nat.le_add_left 1 _) hpos)]

def placed (m : ByteScanner) (sectionStart index : Nat) (events : List Located) : ByteScanner :=
  { m with sectionStart, index, events }

theorem flush_empty (source : Text) (event : Text → Event) (m : ByteScanner)
    (h : m.sectionStart = m.index) :
    m.flush source event m.index = .ok m := by
  rw [flush, if_neg (by omega)]
  cases m
  cases h
  rfl

theorem flush_section {start piece rest : Text} (hsource : source = start ++ piece ++ rest)
    (hpiece : piece ≠ []) (event : Text → Event) (m : ByteScanner) (events : List Located) :
    (m.placed start.bytes (start ++ piece).bytes events).flush source event
        (start ++ piece).bytes =
      .ok (m.placed (start ++ piece).bytes (start ++ piece).bytes
        (events ++ [⟨⟨start.bytes, lineAt source start.bytes⟩, event piece⟩])) := by
  have hlt : start.bytes < (start ++ piece).bytes := by
    obtain ⟨d, u, rfl⟩ := List.exists_cons_of_ne_nil hpiece
    have := d.utf8Size_pos
    simp only [Text.bytes_append, Text.bytes]
    omega
  rw [flush]
  refine (if_pos hlt).trans ?_
  simp only [placed, bind, Except.bind]
  rw [slice_eq hsource rfl (Text.bytes_append start piece)]
  rfl

/-- In its state the machine gathers into one event what stands up to a `stop` or a marker. What it
does there comes after the event, and at a marker it is to emit it and go on gathering. -/
structure Gathers (source : Text) (m : ByteScanner) (event : Text → Event) (stop : Text → Bool) :
    Prop where
  high : m.state.passesHigh = true
  handles : ∀ {before : Text} {c : Char} {r : Text}, source = before ++ c :: r →
    ∃ act : ByteScanner → Checked ByteScanner,
      (stop (c :: r) = false → act = emitMarker source m.state) ∧
      ∀ start events, (m.placed start before.bytes events).handle source (leadByte c) =
        if stop (c :: r) || Marker.opensAt (c :: r) then
          (m.placed start before.bytes events).flush source event before.bytes >>= act
        else .ok (m.placed start before.bytes events)

namespace Gathers

variable {event : Text → Event} {stop : Text → Bool} {start piece : Text} {events : List Located}

theorem passed (h : Gathers source m event stop) (t : Text) {before : Text}
    (hsource : source = before ++ t) (start : Nat) (events : List Located) :
    (m.placed start before.bytes events).run source =
      (m.placed start
        (before ++ (Text.splitWhen (fun u => stop u || Marker.opensAt u) t).1).bytes
        events).run source := by
  refine run_until (m.placed start before.bytes events)
    (fun u => stop u || Marker.opensAt u) h.high (fun {before c r} hsource hhalt => ?_) t hsource
  obtain ⟨act, -, hact⟩ := h.handles hsource
  have hhandle := hact start events
  rw [hhalt] at hhandle
  exact hhandle

theorem emitted (h : Gathers source m event stop)
    (hsource : source = start ++ piece ++ c :: r) (hpiece : piece ≠ [])
    (hhalt : (stop (c :: r) || Marker.opensAt (c :: r)) = true) (events : List Located) :
    (m.placed start.bytes (start ++ piece).bytes events).run source =
      (m.placed (start ++ piece).bytes (start ++ piece).bytes
        (events ++ [⟨⟨start.bytes, lineAt source start.bytes⟩, event piece⟩])).run source := by
  obtain ⟨act, -, hact⟩ := h.handles hsource
  have hbetween : (m.placed start.bytes (start ++ piece).bytes events).Between source
      (start ++ piece) (c :: r) := ⟨hsource, rfl⟩
  refine run_congr hbetween rfl ?_
  rw [hact, hact, if_pos hhalt, if_pos hhalt, flush_section hsource hpiece]
  exact congrArg (· >>= act) (flush_empty source event (m.placed _ _ _) rfl).symm

theorem first (h : Gathers source m event stop) (hsource : source = before ++ c :: r)
    (hstop : stop (c :: r) = false) (hread : Marker.read? (c :: r) = none)
    (events : List Located) :
    (m.placed before.bytes before.bytes events).run source =
      (m.placed before.bytes (before ++ [c]).bytes events).run source := by
  obtain ⟨act, hmark, hact⟩ := h.handles hsource
  have hhandle := hact before.bytes events
  rw [hmark hstop, hstop, Bool.false_or] at hhandle
  have hbetween : (m.placed before.bytes before.bytes events).Between source before (c :: r) :=
    ⟨hsource, rfl⟩
  suffices hstays : (m.placed before.bytes before.bytes events).handle source (leadByte c) =
      .ok (m.placed before.bytes before.bytes events) from
    run_char hbetween hstays rfl (.inr h.high)
  rw [hhandle]
  by_cases hopens : Marker.opensAt (c :: r) = true
  · have hempty := flush_empty source event (m.placed before.bytes before.bytes events) rfl
    have hemit := emitMarker_eq m.state hbetween hopens
    rw [hread] at hemit
    rw [if_pos hopens]
    exact (congrArg (· >>= emitMarker source m.state) hempty).trans hemit
  · rw [if_neg hopens]

theorem marked (h : Gathers source m event stop) {body after : Text}
    (hsource : source = before ++ c :: r) (hstop : stop (c :: r) = false)
    (hread : Marker.read? (c :: r) = some (body, after)) (events : List Located) :
    (m.placed before.bytes before.bytes events).run source =
      (m.placed (before ++ Marker.written body).bytes (before ++ Marker.written body).bytes
        (events ++ [⟨⟨before.bytes, lineAt source before.bytes⟩, .marker body⟩])).run source := by
  obtain ⟨act, hmark, hact⟩ := h.handles hsource
  have hhandle := hact before.bytes events
  have hopens : Marker.opensAt (c :: r) = true := by
    rw [Marker.eq_of_read? hread]
    rfl
  have hbetween : (m.placed before.bytes before.bytes events).Between source before (c :: r) :=
    ⟨hsource, rfl⟩
  have hempty := flush_empty source event (m.placed before.bytes before.bytes events) rfl
  rw [hmark hstop, hopens, Bool.or_true, if_pos rfl] at hhandle
  exact run_marker hbetween
    (hhandle.trans (congrArg (· >>= emitMarker source m.state) hempty)) hread

theorem gathered (h : Gathers source m event stop) (hsource : source = before ++ c :: r)
    (events : List Located)
    (hfirst : (m.placed before.bytes before.bytes events).run source =
      (m.placed before.bytes (before ++ [c]).bytes events).run source) :
    let cut := Text.splitWhen (fun u => stop u || Marker.opensAt u) r
    let stopped := (before ++ (c :: cut.1)).bytes
    (m.placed before.bytes before.bytes events).run source =
      if cut.2 = [] then (m.placed before.bytes stopped events).run source
      else (m.placed stopped stopped (events ++
        [⟨⟨before.bytes, lineAt source before.bytes⟩, event (c :: cut.1)⟩])).run source := by
  intro cut stopped
  have hrun := hfirst.trans (h.passed r (by simp [hsource]) before.bytes events)
  rw [List.append_assoc] at hrun
  split
  · exact hrun
  next hrest =>
    obtain ⟨d, u, hcut⟩ := List.exists_cons_of_ne_nil hrest
    have hhalt := (Text.splitWhen_rest (fun u => stop u || Marker.opensAt u) r).resolve_left hrest
    have happend : cut.1 ++ cut.2 = r := Text.splitWhen_append _ r
    rw [hcut] at hhalt happend
    have hnext : source = before ++ (c :: cut.1) ++ d :: u := by
      rw [List.append_assoc, List.cons_append, happend, hsource]
    exact hrun.trans (h.emitted hnext (by simp) hhalt events)

end Gathers

theorem opensMarker_placed (hsource : source = before ++ c :: r) (start : Nat)
    (events : List Located) :
    (m.placed start before.bytes events).opensMarker source (leadByte c) =
      .ok (Marker.opensAt (c :: r)) :=
  Between.opensMarker ⟨hsource, rfl⟩

theorem gathers_text (hstate : m.state = .text) :
    Gathers source m .chars Scanner.isOpening where
  high := by rw [hstate]; rfl
  handles {before c r} hsource := by
    by_cases hc : c = '<'
    · subst hc
      have hopening : Scanner.isOpening ('<' :: r) = true := rfl
      refine ⟨fun m' => .ok { m' with state := .beforeTagName, sectionStart := m'.index },
        fun h => absurd (hopening.symm.trans h) (by decide), fun start events => ?_⟩
      rw [handle, placed, hstate]
      exact if_pos ((leadByte_eq_iff (by decide) '<').2 rfl)
    · refine ⟨emitMarker source .text, fun _ => by rw [hstate], fun start events => ?_⟩
      have hstop : Scanner.isOpening (c :: r) = false := by simp [Scanner.isOpening, hc]
      have hopens := opensMarker_placed (m := m) hsource start events
      have hne : ¬leadByte c = asciiByte '<' := mt (leadByte_eq_iff (by decide) c).1 hc
      have hplaced : (m.placed start before.bytes events).state = .text := hstate
      simp only [handle, hplaced, stateText, if_neg hne, hopens, hstop, Bool.false_or, bind,
        Except.bind]
      split <;> rfl

theorem endsValue_iff (hsource : source = before ++ c :: r) :
    (Byte.isSpace (leadByte c) = true ∨ leadByte c = asciiByte '>' ∨
      leadByte c = asciiByte '/' ∧ source.utf8[before.bytes + 1]? = some (asciiByte '>')) ↔
      endsValue (c :: r) = true := by
  rw [Byte.isSpace_lead, leadByte_eq_iff (by decide), leadByte_eq_iff (by decide)]
  by_cases hc : c = '/'
  · subst hc
    have hslash : (before ++ ['/']).bytes = before.bytes + 1 := by
      simp (disch := decide) [Text.bytes, utf8Size_of_ascii]
    have hr : source = before ++ ['/'] ++ r := by simp [hsource]
    rw [← hslash, hr]
    cases r with
    | nil =>
      rw [List.append_nil, List.getElem?_eq_none (by simp)]
      decide
    | cons d u =>
      rw [getElem?_utf8_lead, Option.some.injEq, leadByte_eq_iff (by decide)]
      by_cases hd : d = '>'
      · subst hd
        simp [endsValue]
      · have hends : endsValue ('/' :: d :: u) = ('/' = '>' || Tag.isSpace '/') := by
          rw [endsValue]
          exact fun _ _ htail => hd (List.cons.inj htail).1
        rw [hends]
        simp [hd, Tag.isSpace]
  · rw [endsValue_of_ne hc]
    simp [hc, or_comm]

theorem gathers_unquoted (hstate : m.state = .inAttrValueNq) :
    Gathers source m .attrValue endsValue where
  high := by rw [hstate]; rfl
  handles {before c r} hsource := by
    by_cases hstop : endsValue (c :: r) = true
    · refine ⟨fun m' => (m'.endAttr source).stateBeforeAttrName source (leadByte c),
        fun h => absurd hstop (by simp [h]), fun start events => ?_⟩
      rw [hstop, Bool.true_or, if_pos rfl, handle, placed, hstate]
      exact if_pos ((endsValue_iff hsource).2 hstop)
    · refine ⟨emitMarker source .inAttrValueNq, fun _ => by rw [hstate], fun start events => ?_⟩
      have hopens := opensMarker_placed (m := m) hsource start events
      have hne := mt (endsValue_iff hsource).1 hstop
      have hplaced : (m.placed start before.bytes events).state = .inAttrValueNq := hstate
      have hindex : (m.placed start before.bytes events).index = before.bytes := rfl
      simp only [handle, hplaced, stateInAttrValueNq, hindex, if_neg hne, hopens, hstop,
        Bool.false_or, bind, Except.bind]
      split <;> rfl

theorem state_of_flush {event : Text → Event} {stop : Nat}
    (h : m.flush source event stop = .ok m') : m'.state = m.state := by
  rw [flush] at h
  split at h
  · cases hslice : slice source m.sectionStart stop with
    | error e => simp [hslice, bind, Except.bind] at h
    | ok t =>
      simp only [hslice, bind, Except.bind, pure, Except.pure, Except.ok.injEq] at h
      rw [← h]
      rfl
  · cases h
    rfl

def quotedState (quote : Char) : ScanState :=
  if quote = '"' then .inAttrValueDq else .inAttrValueSq

theorem handle_quoted {quote : Char} (hquote : quote = '"' ∨ quote = '\x27')
    (hstate : m.state = quotedState quote) :
    m.handle source b = m.stateInAttrValueQuoted source (asciiByte quote) b := by
  rcases hquote with rfl | rfl <;> rw [handle, hstate] <;> rfl

theorem gathers_quoted {quote : Char} (hquote : quote = '"' ∨ quote = '\x27')
    (hstate : m.state = quotedState quote) :
    Gathers source m .attrValue fun u => u.head? = some quote where
  high := by rcases hquote with rfl | rfl <;> rw [hstate] <;> rfl
  handles {before c r} hsource := by
    have hascii : quote.toNat < 128 := by rcases hquote with rfl | rfl <;> decide
    by_cases hc : c = quote
    · subst hc
      refine ⟨fun m' => .ok { m'.endAttr source with sectionStart := m'.index + 1 },
        fun h => by simp at h, fun start events => ?_⟩
      rw [handle_quoted hquote (m := m.placed start before.bytes events) hstate]
      simp only [List.head?_cons, decide_true, Bool.true_or, if_true]
      exact if_pos (leadByte_of_ascii hascii)
    · refine ⟨emitMarker source m.state, fun _ => rfl, fun start events => ?_⟩
      have hopens := opensMarker_placed (m := m) hsource start events
      have hne : ¬leadByte c = asciiByte quote := mt (leadByte_eq_iff hascii c).1 hc
      rw [handle_quoted hquote (m := m.placed start before.bytes events) hstate]
      simp only [stateInAttrValueQuoted, if_neg hne, hopens, List.head?_cons, Option.some.injEq, hc,
        decide_false, Bool.false_or, bind, Except.bind]
      split
      · cases hflush : (m.placed start before.bytes events).flush source .attrValue
          before.bytes with
        | error e => simp only [placed] at hflush ⊢; rw [hflush]
        | ok m' =>
          have hstate' : m'.state = (m.placed start before.bytes events).state :=
            state_of_flush hflush
          simp only [placed] at hflush hstate' ⊢
          rw [hflush]
          simp only [hstate']
      · rfl

theorem endsRawText_eq {tag : Text} (hm : m.Between source before (c :: r))
    (htag : m.rawTextTag = some tag) (hascii : tag.IsAscii) :
    m.endsRawText source (leadByte c) = .ok (closesRawText tag (c :: r)) := by
  rw [endsRawText]
  by_cases hc : c = '<'
  · subst hc
    rw [if_pos (by decide)]
    exact atRawTextEnd_eq hm htag hascii
  · have hcloses : closesRawText tag (c :: r) = false := by
      rw [closesRawText]
      exact fun _ h => hc (List.cons.inj h).1
    rw [if_neg (mt (leadByte_eq_iff (by decide) c).1 hc), hcloses]
    rfl

theorem gathers_rawText {tag : Text} (hstate : m.state = .inRawText)
    (htag : m.rawTextTag = some tag) (hascii : tag.IsAscii) :
    Gathers source m .chars (closesRawText tag) where
  high := by rw [hstate]; rfl
  handles {before c r} hsource := by
    have hends (start : Nat) (events : List Located) :
        (m.placed start before.bytes events).endsRawText source (leadByte c) =
          .ok (closesRawText tag (c :: r)) := endsRawText_eq ⟨hsource, rfl⟩ htag hascii
    by_cases hstop : closesRawText tag (c :: r) = true
    · refine ⟨fun m' => .ok { m' with
          rawTextTag := none, state := .beforeTagName, sectionStart := m'.index },
        fun h => absurd hstop (by simp [h]), fun start events => ?_⟩
      have hplaced : (m.placed start before.bytes events).state = .inRawText := hstate
      simp only [handle, hplaced, stateInRawText, hends, hstop, Bool.true_or, if_true, bind,
        Except.bind]
      rfl
    · refine ⟨emitMarker source .inRawText, fun _ => by rw [hstate], fun start events => ?_⟩
      have hopens := opensMarker_placed (m := m) hsource start events
      have hplaced : (m.placed start before.bytes events).state = .inRawText := hstate
      simp only [handle, hplaced, stateInRawText, hends, hopens, hstop, Bool.false_or,
        Bool.false_eq_true, if_false, bind, Except.bind]
      split <;> rfl

end ByteScanner

end Stencil
