import Stencil.Proofs.Markup.ByteRun
import Stencil.Proofs.Markup.StartTags
import Stencil.Proofs.Markup.TagNames

/-!
The scan over bytes follows the scan over characters. Where the scanner stands the machine stands,
in a state that fits the region the scanner is in, and for a step of the scanner it runs on to where
the scanner stands then and emits the same events at the same spots. So no check of the machine
fails on any source, it ends, and its events are those of the scan.
-/

set_option autoImplicit false

namespace Stencil

namespace ByteScanner

variable {source before rest r : Text} {m m' : ByteScanner} {s : Scanner} {c : Char}

def InTag (m : ByteScanner) (t : StartTag) : Prop := m.tag = t.name ∧ m.unary = t.unary

def Fits (m : ByteScanner) : Region → Prop
  | .content => m.state = .text
  | .rawText tag => m.state = .inRawText ∧ m.rawTextTag = some tag ∧ tag.IsAscii
  | .tag t => m.state = .beforeAttrName ∧ m.InTag t
  | .attrName t name => m.state = .afterAttrName ∧ m.InTag t ∧ m.attr = name
  | .attrEquals t name => m.state = .beforeAttrValue ∧ m.InTag t ∧ m.attr = name
  | .quoted t name quote =>
    m.state = quotedState quote ∧ (quote = '"' ∨ quote = '\x27') ∧ m.sectionStart = m.index ∧
      m.InTag t ∧ m.attr = name
  | .unquoted t name =>
    m.state = .inAttrValueNq ∧ m.sectionStart = m.index ∧ m.InTag t ∧ m.attr = name

def Settled (m : ByteScanner) : Prop :=
  m.state = .text ∨ m.state = .inRawText → m.sectionStart = m.index

theorem settled_of_state (state : ScanState) (hstate : m.state = state)
    (h : state ≠ .text ∧ state ≠ .inRawText) : m.Settled := by
  subst hstate
  exact fun hstate => absurd hstate (not_or.2 h)

/-- The machine stands where the scanner does. -/
structure Stands (source : Text) (m : ByteScanner) (s : Scanner) (before : Text) : Prop where
  read : s.HasRead source before
  index : m.index = before.bytes
  openTags : m.openTags = s.openTags

/-- The machine stands where the scanner does, in a state that fits. At the end of the source its
state matters no more. -/
structure Tracks (source : Text) (m : ByteScanner) (s : Scanner) (before : Text) : Prop
    extends Stands source m s before where
  settled : m.Settled
  region : s.rest ≠ [] → m.Fits s.region

def Does (source : Text) (m : ByteScanner) (step : Scanner.Step) : Prop :=
  ∃ (m' : ByteScanner) (before : Text), m.run source = m'.run source ∧
    m'.events = m.events ++ step.events ∧ m'.Tracks source step.next before

theorem spot_eq (hs : s.HasRead source before) :
    (⟨before.bytes, lineAt source before.bytes⟩ : Spot) = s.spot := by
  rw [hs.spot, hs.source, lineAt_append, Spot.past, Spot.start, Nat.zero_add]

theorem hasRead_pass (hs : s.HasRead source before) {piece rest : Text}
    (hrest : s.rest = piece ++ rest) (region : Region) :
    (s.pass piece rest region).HasRead source (before ++ piece) where
  source := by rw [hs.source, hrest, List.append_assoc]; rfl
  spot := by rw [Scanner.pass, hs.spot, Spot.past_append]

theorem does_of_run {piece rest : Text} {region : Region} {events : List Located}
    (hread : s.HasRead source before) (hrest : s.rest = piece ++ rest)
    (hrun : m.run source = m'.run source) (hevents : m'.events = m.events ++ events)
    (hindex : m'.index = (before ++ piece).bytes) (htags : m'.openTags = s.openTags)
    (hsettled : m'.Settled) (hfits : rest ≠ [] → m'.Fits region) :
    m.Does source ⟨events, s.pass piece rest region⟩ :=
  ⟨m', before ++ piece, hrun, hevents, ⟨hasRead_pass hread hrest region, hindex, htags⟩, hsettled,
    hfits⟩

theorem does_pass {piece rest : Text} {region : Region} {events : List Located}
    (hs : m.Stands source s before) (hrest : s.rest = piece ++ rest)
    (hrun : m.run source = m'.run source) (hevents : m'.events = m.events ++ events)
    (hindex : m'.index = (before ++ piece).bytes) (htags : m'.openTags = m.openTags)
    (hsettled : m'.Settled) (hfits : rest ≠ [] → m'.Fits region) :
    m.Does source ⟨events, s.pass piece rest region⟩ :=
  does_of_run hs.read hrest hrun hevents hindex (htags.trans hs.openTags) hsettled hfits

theorem Does.of_run {step : Scanner.Step} {events : List Located}
    (hrun : m.run source = m'.run source) (hevents : m'.events = m.events ++ events)
    (h : m'.Does source step) : m.Does source ⟨events ++ step.events, step.next⟩ := by
  obtain ⟨m'', after, hrun', hevents', htracks⟩ := h
  exact ⟨m'', after, hrun.trans hrun', by rw [hevents', hevents, List.append_assoc], htracks⟩

namespace Stands

variable (hs : m.Stands source s before) (hrest : s.rest = c :: r)

include hs hrest in
theorem between : m.Between source before (c :: r) := ⟨hrest ▸ hs.read.source, hs.index⟩

include hs in
theorem emit_index (event : Event) : (m.emit source m.index event).events =
    m.events ++ [⟨s.spot, event⟩] := by
  rw [emit, hs.index, spot_eq hs.read]

theorem does_char {events : List Located} {region : Region}
    (hs : m.Stands source s before) (hrest : s.rest = c :: r) (hc : c.toNat < 128)
    (hhandle : m.handle source (leadByte c) = .ok m') (hindex : m'.index = m.index)
    (hevents : m'.events = m.events ++ events) (htags : m'.openTags = m.openTags)
    (hsettled : Settled { m' with index := m.index + 1 })
    (hfits : Fits { m' with index := m.index + 1 } region) :
    m.Does source ⟨events, s.pass [c] r region⟩ := by
  have hend : (before ++ [c]).bytes = m.index + 1 := by
    rw [Text.bytes_append, hs.index, Text.bytes, utf8Size_of_ascii hc]
    rfl
  have hrun := run_char (hs.between hrest) hhandle hindex (.inl hc)
  rw [hend] at hrun
  exact does_pass hs hrest hrun hevents hend.symm htags hsettled fun _ => hfits

end Stands

theorem isAscii_of_holdsText {tag : Text} (h : Tag.holdsText tag.lower = true) : tag.IsAscii := by
  have hlower : tag.lower.IsAscii := by
    rcases Tag.holdsText_iff.1 h with h | h <;> rw [h] <;> exact Text.isAscii_of_all rfl
  exact Text.isAscii_of_sameLetters hlower (by
    rw [Text.sameLetters, Tag.lower_of_holdsText h]
    exact beq_self_eq_true _)

theorem beforeAttrName_eq (hm : m.Between source before (c :: r)) :
    m.stateBeforeAttrName source (leadByte c) =
      if c = '>' then .ok (m.finishOpenTag source)
      else if Marker.opensAt (c :: r) then m.emitMarker source .beforeAttrName
      else if c = '/' || Tag.isSpace c then .ok m
      else .ok { m with state := .inAttrName, sectionStart := m.index } := by
  simp (disch := decide) only [stateBeforeAttrName, hm.opensMarker, leadByte_eq_iff,
    Byte.isSpace_lead, bind, Except.bind, Bool.or_eq_true, decide_eq_true_eq]
  rfl

theorem isAscii_of_isSpace (hc : Tag.isSpace c = true) : c.toNat < 128 := by
  simp only [Tag.isSpace, Bool.or_eq_true, decide_eq_true_eq] at hc
  rcases hc with (((rfl | rfl) | rfl) | rfl) | rfl <;> decide

theorem finishOpenTag_eq (source : Text) {t : StartTag} (ht : m.InTag t) :
    ∃ state raw, m.finishOpenTag source =
        { m.emit source m.index (.tagEnd t.name t.unary) with
          sectionStart := m.index + 1
          openTags := if t.unary then m.openTags else t.name :: m.openTags
          rawTextTag := raw
          state } ∧
      ∀ m' : ByteScanner, m'.state = state → m'.rawTextTag = raw →
        m'.Fits (if t.unary then .content
          else if Tag.holdsText t.name.lower then .rawText t.name else .content) := by
  obtain ⟨htag, hunary⟩ := ht
  simp only [finishOpenTag, ← htag, ← hunary]
  cases hun : m.unary with
  | true => exact ⟨.text, m.rawTextTag, by simp [emit, hun], fun m' hstate _ => hstate⟩
  | false =>
    cases hholds : Tag.holdsText m.tag.lower with
    | true =>
      exact ⟨.inRawText, some m.tag, by simp [emit, hun, hholds],
        fun m' hstate hraw => ⟨hstate, hraw, isAscii_of_holdsText hholds⟩⟩
    | false =>
      exact ⟨.text, m.rawTextTag, by simp [emit, hun, hholds], fun m' hstate _ => hstate⟩

theorem Stands.does_endTag {t : StartTag} (hs : m.Stands source s before)
    (hrest : s.rest = '>' :: r) (hfit : m.Fits (.tag t)) : m.Does source (s.endTag t r) := by
  obtain ⟨hstate, ht⟩ := hfit
  have hm := hs.between hrest
  obtain ⟨state, raw, hfinish, hregion⟩ := finishOpenTag_eq source ht
  have hhandle : m.handle source (leadByte '>') = .ok (m.finishOpenTag source) := by
    rw [handle, hstate]
    exact (beforeAttrName_eq hm).trans (if_pos rfl)
  rw [hfinish] at hhandle
  have hend : (before ++ ['>']).bytes = m.index + 1 := by
    rw [Text.bytes_append, hs.index]
    rfl
  have hpiece : s.rest = ['>'] ++ r := hrest
  have hread := hasRead_pass hs.read hpiece .content
  refine ⟨_, _, run_char hm hhandle rfl (.inl (by decide)), hs.emit_index _,
    ⟨⟨hread.source, hread.spot⟩, rfl, ?_⟩, fun _ => hend.symm, fun _ => hregion _ rfl rfl⟩
  simp only [Scanner.endTag, hs.openTags]

theorem inAttrName_pass (hm : m.Between source before (c :: r))
    (h : endsAttrName (c :: r) = false) : m.stateInAttrName source (leadByte c) = .ok m := by
  simp only [endsAttrName, Bool.or_eq_false_iff, decide_eq_false_iff_not] at h
  simp (disch := decide) only [stateInAttrName, hm.opensMarker, leadByte_eq_iff,
    Byte.endsName_lead, h, Bool.false_eq_true, or_self, if_false, bind, Except.bind]
  rfl

theorem inAttrName_end {start piece : Text} (hm : m.Between source (start ++ piece) (c :: r))
    (hstate : m.state = .inAttrName) (hstart : m.sectionStart = start.bytes)
    (h : endsAttrName (c :: r) = true) :
    m.handle source (leadByte c) =
      handle source (leadByte c) { m.emit source start.bytes (.attrStart piece) with
        attr := piece, sectionStart := m.index, state := .afterAttrName } := by
  have hends : leadByte c = asciiByte '=' ∨ Byte.endsName (leadByte c) = true ∨
      Marker.opensAt (c :: r) = true := by
    rw [leadByte_eq_iff (by decide), Byte.endsName_lead]
    simpa only [endsAttrName, Bool.or_eq_true, decide_eq_true_eq, or_assoc] using h
  have hname : slice source m.sectionStart m.index = .ok piece :=
    slice_eq hm.source hstart (hm.index.trans (Text.bytes_append start piece))
  rw [handle, hstate]
  simp only [stateInAttrName, hm.opensMarker, if_pos hends, hname, bind, Except.bind]
  rw [hstart]
  rfl

theorem Stands.does_attrName {t : StartTag} (hs : m.Stands source s before)
    (hrest : s.rest = c :: r) (hfit : m.Fits (.tag t)) (hend : c ≠ '>')
    (hopens : Marker.opensAt (c :: r) = false)
    (hskip : ¬(decide (c = '/') || Tag.isSpace c) = true) :
    m.Does source (s.attrName t c r) := by
  obtain ⟨hstate, htag⟩ := hfit
  have hm := hs.between hrest
  have hhandle : m.handle source (leadByte c) =
      .ok { m with state := .inAttrName, sectionStart := m.index } := by
    rw [handle, hstate]
    refine (beforeAttrName_eq hm).trans ?_
    rw [if_neg hend, if_neg (by simp [hopens]), if_neg hskip]
  have hsource : source = before ++ [c] ++ r := by simp [hm.source]
  have hmore : (before ++ [c] ++ (Text.splitWhen endsAttrName r).1) =
      before ++ (c :: (Text.splitWhen endsAttrName r).1) := by simp
  have hrun := (run_char hm hhandle rfl (.inr rfl)).trans
    (run_until { m with state := .inAttrName, sectionStart := m.index } endsAttrName rfl
      (fun hat hgo => inAttrName_pass ⟨hat, rfl⟩ hgo) r hsource)
  rw [hmore] at hrun
  have hpiece : s.rest = c :: (Text.splitWhen endsAttrName r).1 ++
      (Text.splitWhen endsAttrName r).2 := by
    rw [hrest, List.cons_append, Text.splitWhen_append]
  simp only [Scanner.attrName]
  cases hafter : (Text.splitWhen endsAttrName r).2 with
  | nil =>
    rw [hafter] at hpiece
    exact does_pass hs hpiece hrun (List.append_nil _).symm rfl rfl
      (settled_of_state .inAttrName rfl (by decide)) fun h => absurd rfl h
  | cons d u =>
    have hstop := (Text.splitWhen_rest endsAttrName r).resolve_left (by simp [hafter])
    rw [hafter] at hpiece hstop
    have hnext : source = before ++ (c :: (Text.splitWhen endsAttrName r).1) ++ d :: u := by
      rw [List.append_assoc, ← hpiece, ← hs.read.source]
    have hat : Between source { m with
        state := .inAttrName
        sectionStart := m.index
        index := (before ++ (c :: (Text.splitWhen endsAttrName r).1)).bytes }
      (before ++ (c :: (Text.splitWhen endsAttrName r).1)) (d :: u) := ⟨hnext, rfl⟩
    have hname := inAttrName_end hat rfl hs.index hstop
    refine does_pass hs hpiece (hrun.trans (run_congr hat ?_ hname)) ?_ rfl rfl
      (settled_of_state .afterAttrName rfl (by decide)) fun _ => ⟨rfl, htag, rfl⟩
    · rfl
    · rw [← spot_eq hs.read]
      rfl

theorem Stands.does_inTag {t : StartTag} (hs : m.Stands source s before)
    (hrest : s.rest = c :: r) (hfit : m.Fits (.tag t)) : m.Does source (s.inTag t c r) := by
  have hm := hs.between hrest
  have hhandle : m.handle source (leadByte c) = m.stateBeforeAttrName source (leadByte c) := by
    rw [handle, hfit.1]
  have hunsettled {i : Nat} : Settled { m with index := i } :=
    settled_of_state .beforeAttrName hfit.1 (by decide)
  rw [Scanner.inTag]
  by_cases hend : c = '>'
  · subst hend
    rw [if_pos rfl]
    exact hs.does_endTag hrest hfit
  rw [if_neg hend]
  by_cases hopens : Marker.opensAt (c :: r) = true
  · have hemit : m.handle source (leadByte c) = m.emitMarker source .beforeAttrName := by
      rw [hhandle, beforeAttrName_eq hm, if_neg hend, if_pos hopens]
    rw [if_pos hopens]
    cases hread : Marker.read? (c :: r) with
    | some p =>
      obtain ⟨body, after⟩ := p
      exact does_pass hs (hrest.trans (Marker.eq_of_read? hread)) (run_marker hm hemit hread)
        (hs.emit_index _) rfl rfl (settled_of_state .beforeAttrName rfl (by decide))
        fun _ => ⟨rfl, hfit.2⟩
    | none =>
      have hc : c.toNat < 128 := by
        obtain ⟨u, hu⟩ := Marker.opensAt_iff.1 hopens
        cases hu
        decide
      have hstays := emitMarker_none .beforeAttrName hm hopens hread
      exact hs.does_char hrest hc (hemit.trans hstays) rfl (List.append_nil _).symm rfl
        hunsettled hfit
  · rw [if_neg hopens]
    by_cases hskip : (decide (c = '/') || Tag.isSpace c) = true
    · have hc : c.toNat < 128 := by
        rw [Bool.or_eq_true, decide_eq_true_eq] at hskip
        rcases hskip with rfl | h
        · decide
        · exact isAscii_of_isSpace h
      have hstays : m.handle source (leadByte c) = .ok m := by
        rw [hhandle, beforeAttrName_eq hm, if_neg hend, if_neg hopens, if_pos hskip]
      rw [if_pos hskip]
      exact hs.does_char hrest hc hstays rfl (List.append_nil _).symm rfl hunsettled hfit
    · rw [if_neg hskip]
      exact hs.does_attrName hrest hfit hend (eq_false_of_ne_true hopens) hskip

theorem Stands.does_endAttr {t : StartTag} {name : Text} (hs : m.Stands source s before)
    (hrest : s.rest = c :: r) (ht : m.InTag t) (hname : m.attr = name)
    (hhandle : m.handle source (leadByte c) =
      (m.endAttr source).stateBeforeAttrName source (leadByte c)) :
    m.Does source (s.endAttr t name c r) := by
  have hrun : m.run source = (m.endAttr source).run source :=
    run_congr (hs.between hrest) rfl hhandle
  have hstands : (m.endAttr source).Stands source s before := ⟨hs.read, hs.index, hs.openTags⟩
  have hevents : (m.endAttr source).events = m.events ++ [⟨s.spot, .attrEnd name⟩] := by
    rw [← hname]
    exact hs.emit_index _
  exact (hstands.does_inTag hrest ⟨rfl, ht⟩).of_run hrun hevents

section

variable {event : Text → Event} {stop : Text → Bool} {more after : Text}

theorem Stands.eq_placed (hs : m.Stands source s before) (hstart : m.sectionStart = m.index) :
    m = m.placed before.bytes before.bytes m.events := by
  cases m
  cases hs.index
  cases hstart
  rfl

theorem Stands.does_marked {body : Text} (hs : m.Stands source s before)
    (hrest : s.rest = c :: r) (h : Gathers source m event stop)
    (hstart : m.sectionStart = m.index) (hstop : stop (c :: r) = false)
    (hread : Marker.read? (c :: r) = some (body, after))
    (hfits : ∀ i events, (m.placed i i events).Fits s.region) :
    m.Does source (s.read (.marker body) (Marker.written body) after s.region) := by
  have hrun := h.marked (hs.between hrest).source hstop hread m.events
  rw [← hs.eq_placed hstart, spot_eq hs.read] at hrun
  exact does_pass hs (hrest.trans (Marker.eq_of_read? hread)) hrun rfl rfl rfl (fun _ => rfl)
    fun _ => hfits _ _

theorem Stands.run_gathered (hs : m.Stands source s before) (hrest : s.rest = c :: r)
    (h : Gathers source m event stop) (hstart : m.sectionStart = m.index)
    (hfirst : (m.placed before.bytes before.bytes m.events).run source =
      (m.placed before.bytes (before ++ [c]).bytes m.events).run source)
    (hcut : Text.splitWhen (fun u => stop u || Marker.opensAt u) r = (more, after)) :
    s.rest = c :: more ++ after ∧
      m.run source =
        if after = [] then (m.placed before.bytes (before ++ c :: more).bytes m.events).run source
        else (m.placed (before ++ c :: more).bytes (before ++ c :: more).bytes
          (m.events ++ [⟨s.spot, event (c :: more)⟩])).run source := by
  have hrun := h.gathered (hs.between hrest).source m.events hfirst
  have happend := Text.splitWhen_append (fun u => stop u || Marker.opensAt u) r
  rw [← hs.eq_placed hstart, spot_eq hs.read, hcut] at hrun
  rw [hcut] at happend
  exact ⟨by rw [hrest, List.cons_append, happend], hrun⟩

end

theorem Stands.does_inValue {stop : Text → Bool} (hs : m.Stands source s before)
    (hrest : s.rest = c :: r) (h : Gathers source m .attrValue stop)
    (hstate : m.state ≠ .text ∧ m.state ≠ .inRawText) (hstart : m.sectionStart = m.index)
    (hstop : stop (c :: r) = false)
    (hfits : ∀ i events, (m.placed i i events).Fits s.region) :
    m.Does source (s.inValue stop c r) := by
  rw [Scanner.inValue]
  cases hread : Marker.read? (c :: r) with
  | some p => exact hs.does_marked hrest h hstart hstop hread hfits
  | none =>
    have hfirst := h.first (hs.between hrest).source hstop hread m.events
    simp only
    cases hcut : Text.splitWhen (fun u => stop u || Marker.opensAt u) r with
    | mk more after =>
      obtain ⟨hpiece, hrun⟩ := hs.run_gathered hrest h hstart hfirst hcut
      cases after with
      | nil =>
        exact does_pass hs hpiece (hrun.trans (if_pos rfl)) (List.append_nil _).symm rfl rfl
          (settled_of_state m.state rfl hstate) fun h => absurd rfl h
      | cons d u =>
        exact does_pass hs hpiece (hrun.trans (if_neg (List.cons_ne_nil d u))) rfl rfl rfl
          (fun _ => rfl) fun _ => hfits _ _

theorem finish_congr (h : m.flushText source source.utf8.length =
    m'.flushText source source.utf8.length) : m.finish source = m'.finish source := by
  simp only [finish, h]

theorem run_end {start piece : Text} (hsource : source = start ++ piece) (hpiece : piece ≠ [])
    (hstate : m.state = .text ∨ m.state = .inRawText) (events : List Located) :
    (m.placed start.bytes (start ++ piece).bytes events).run source =
      (m.placed (start ++ piece).bytes (start ++ piece).bytes
        (events ++ [⟨⟨start.bytes, lineAt source start.bytes⟩, .chars piece⟩])).run source := by
  have hlength : source.utf8.length = (start ++ piece).bytes := by
    rw [Text.length_utf8, hsource]
  have hend (i : Nat) (events : List Located) :
      (m.placed i (start ++ piece).bytes events).run source =
        (m.placed i (start ++ piece).bytes events).finish source := by
    rw [run, if_neg (by rw [hlength]; exact Nat.lt_irrefl _)]
  have hcut : source = start ++ piece ++ [] := by rw [List.append_nil, hsource]
  have hflush := flush_section hcut hpiece .chars m events
  have hempty := flush_empty source .chars (m.placed (start ++ piece).bytes
    (start ++ piece).bytes
    (events ++ [⟨⟨start.bytes, lineAt source start.bytes⟩, .chars piece⟩])) rfl
  rw [hend, hend]
  refine finish_congr ?_
  rw [hlength]
  exact (if_pos hstate).trans (hflush.trans ((if_pos hstate).trans hempty).symm)

theorem Stands.does_inText {stop : Text → Bool} (hs : m.Stands source s before)
    (hrest : s.rest = c :: r) (h : Gathers source m .chars stop)
    (hstate : m.state = .text ∨ m.state = .inRawText) (hstart : m.sectionStart = m.index)
    (hstop : ∀ p, Marker.read? (c :: r) = some p → stop (c :: r) = false)
    (hfirst : Marker.read? (c :: r) = none →
      (m.placed before.bytes before.bytes m.events).run source =
        (m.placed before.bytes (before ++ [c]).bytes m.events).run source)
    (hfits : ∀ i events, (m.placed i i events).Fits s.region) :
    m.Does source (s.inText stop c r) := by
  rw [Scanner.inText]
  cases hread : Marker.read? (c :: r) with
  | some p => exact hs.does_marked hrest h hstart (hstop p hread) hread hfits
  | none =>
    simp only
    cases hcut : Text.splitWhen (fun u => stop u || Marker.opensAt u) r with
    | mk more after =>
      obtain ⟨hpiece, hrun⟩ := hs.run_gathered hrest h hstart (hfirst hread) hcut
      cases after with
      | nil =>
        have hsource : source = before ++ (c :: more) := by
          rw [hs.read.source, hpiece, List.append_nil]
        have hend := run_end hsource (List.cons_ne_nil c more) hstate m.events
        rw [spot_eq hs.read] at hend
        exact does_pass hs hpiece ((hrun.trans (if_pos rfl)).trans hend) rfl rfl rfl
          (fun _ => rfl) fun h => absurd rfl h
      | cons d u =>
        exact does_pass hs hpiece (hrun.trans (if_neg (List.cons_ne_nil d u))) rfl rfl rfl
          (fun _ => rfl) fun _ => hfits _ _

theorem Stands.does_attrNameRegion {t : StartTag} {name : Text} (hs : m.Stands source s before)
    (hrest : s.rest = c :: r) (hfit : m.Fits (.attrName t name)) :
    m.Does source
      (if c = '=' then s.silent [c] r (.attrEquals t name)
        else if Tag.isSpace c then s.silent [c] r (.attrName t name)
        else s.endAttr t name c r) := by
  obtain ⟨hstate, ht, hname⟩ := hfit
  have hhandle : m.handle source (leadByte c) = m.stateAfterAttrName source (leadByte c) := by
    rw [handle, hstate]
  simp (disch := decide) only [stateAfterAttrName, leadByte_eq_iff, Byte.isSpace_lead] at hhandle
  by_cases heq : c = '='
  · subst heq
    rw [if_pos rfl] at hhandle ⊢
    exact hs.does_char hrest (by decide) hhandle rfl (List.append_nil _).symm rfl
      (settled_of_state .beforeAttrValue rfl (by decide)) ⟨rfl, ht, hname⟩
  rw [if_neg heq] at hhandle ⊢
  by_cases hspace : Tag.isSpace c = true
  · rw [if_pos hspace] at hhandle ⊢
    exact hs.does_char hrest (isAscii_of_isSpace hspace) hhandle rfl (List.append_nil _).symm rfl
      (settled_of_state .afterAttrName hstate (by decide)) ⟨hstate, ht, hname⟩
  · rw [if_neg hspace] at hhandle ⊢
    exact hs.does_endAttr hrest ht hname hhandle

theorem Stands.does_inUnquoted {t : StartTag} {name : Text} (hs : m.Stands source s before)
    (hrest : s.rest = c :: r) (hfit : m.Fits (.unquoted t name)) :
    m.Does source (s.inUnquoted t name c r) := by
  obtain ⟨hstate, hstart, ht, hname⟩ := hfit
  have hm := hs.between hrest
  rw [Scanner.inUnquoted]
  by_cases hends : endsValue (c :: r) = true
  · have hhandle : m.handle source (leadByte c) =
        (m.endAttr source).stateBeforeAttrName source (leadByte c) := by
      rw [handle, hstate, stateInAttrValueNq]
      rw [hm.index]
      refine (if_pos ((endsValue_iff hm.source).2 hends)).trans ?_
      rw [← hm.index, flush_empty source .attrValue m hstart]
      rfl
    rw [if_pos hends]
    exact hs.does_endAttr hrest ht hname hhandle
  · rw [if_neg hends]
    have hs' : m.Stands source { s with region := .unquoted t name } before :=
      ⟨⟨hs.read.source, hs.read.spot⟩, hs.index, hs.openTags⟩
    exact hs'.does_inValue hrest (gathers_unquoted hstate) (by rw [hstate]; decide) hstart
      (eq_false_of_ne_true hends) fun _ _ => ⟨hstate, rfl, ht, hname⟩

theorem Stands.does_inQuoted {t : StartTag} {name : Text} {quote : Char}
    (hs : m.Stands source s before) (hrest : s.rest = c :: r)
    (hregion : s.region = .quoted t name quote) (hfit : m.Fits (.quoted t name quote)) :
    m.Does source (s.inQuoted t name quote c r) := by
  obtain ⟨hstate, hquote, hstart, ht, hname⟩ := hfit
  have hm := hs.between hrest
  rw [Scanner.inQuoted]
  by_cases hc : c = quote
  · subst hc
    have hascii : c.toNat < 128 := by rcases hquote with rfl | rfl <;> decide
    have hhandle : m.handle source (leadByte c) =
        .ok { m.endAttr source with sectionStart := m.index + 1 } := by
      rw [handle_quoted hquote hstate, stateInAttrValueQuoted]
      refine (if_pos (leadByte_of_ascii hascii)).trans ?_
      rw [flush_empty source .attrValue m hstart]
      rfl
    have hevents : (m.endAttr source).events = m.events ++ [⟨s.spot, .attrEnd name⟩] := by
      rw [← hname]
      exact hs.emit_index _
    rw [if_pos rfl]
    exact hs.does_char hrest hascii hhandle rfl hevents rfl
      (settled_of_state .beforeAttrName rfl (by decide)) ⟨rfl, ht⟩
  · rw [if_neg hc]
    have hne : m.state ≠ .text ∧ m.state ≠ .inRawText := by
      rw [hstate]
      rcases hquote with rfl | rfl <;> decide
    exact hs.does_inValue hrest (gathers_quoted hquote hstate) hne hstart
      (by simpa using hc) fun _ _ => by rw [hregion]; exact ⟨hstate, hquote, rfl, ht, hname⟩

theorem Stands.does_attrEquals {t : StartTag} {name : Text} (hs : m.Stands source s before)
    (hrest : s.rest = c :: r) (hfit : m.Fits (.attrEquals t name)) :
    m.Does source
      (if c = '"' ∨ c = '\x27' then s.silent [c] r (.quoted t name c)
        else if c = '>' then s.endAttr t name c r
        else if Tag.isSpace c then s.silent [c] r (.attrEquals t name)
        else s.inUnquoted t name c r) := by
  obtain ⟨hstate, ht, hname⟩ := hfit
  have hm := hs.between hrest
  have hhandle : m.handle source (leadByte c) = m.stateBeforeAttrValue source (leadByte c) := by
    rw [handle, hstate]
  simp (disch := decide) only [stateBeforeAttrValue, leadByte_eq_iff, Byte.isSpace_lead]
    at hhandle
  by_cases hquote : c = '"' ∨ c = '\x27'
  · have hhandle' : m.handle source (leadByte c) =
        .ok { m with state := quotedState c, sectionStart := m.index + 1 } := by
      rcases hquote with rfl | rfl <;> exact hhandle
    have hascii : c.toNat < 128 := by rcases hquote with rfl | rfl <;> decide
    have hne : quotedState c ≠ .text ∧ quotedState c ≠ .inRawText := by
      rcases hquote with rfl | rfl <;> decide
    rw [if_pos hquote]
    exact hs.does_char hrest hascii hhandle' rfl (List.append_nil _).symm rfl
      (settled_of_state (quotedState c) rfl hne) ⟨rfl, hquote, rfl, ht, hname⟩
  rw [if_neg hquote]
  rw [not_or] at hquote
  rw [if_neg hquote.1, if_neg hquote.2] at hhandle
  by_cases hend : c = '>'
  · rw [if_pos hend] at hhandle ⊢
    exact hs.does_endAttr hrest ht hname hhandle
  rw [if_neg hend] at hhandle ⊢
  by_cases hspace : Tag.isSpace c = true
  · rw [if_pos hspace] at hhandle ⊢
    exact hs.does_char hrest (isAscii_of_isSpace hspace) hhandle rfl (List.append_nil _).symm rfl
      (settled_of_state .beforeAttrValue hstate (by decide)) ⟨hstate, ht, hname⟩
  · rw [if_neg hspace] at hhandle ⊢
    have hrun : m.run source =
        run source { m with sectionStart := m.index, state := .inAttrValueNq } :=
      run_congr hm rfl hhandle
    have hs' : Stands source { m with sectionStart := m.index, state := .inAttrValueNq } s before :=
      ⟨hs.read, hs.index, hs.openTags⟩
    exact (hs'.does_inUnquoted hrest ⟨rfl, rfl, ht, hname⟩).of_run hrun (List.append_nil _).symm

end ByteScanner

end Stencil
