import Stencil.Proofs.Markup.ByteOpenings

/-!
The scan over bytes of a whole source. A closing tag closes the tags that the scanner closes, at the
end of its name, and a `<` that opens nothing is text. So each step of the scanner is done by a run
of the machine, and the machine reads a source to its end with every check passed.
-/

set_option autoImplicit false

namespace Stencil

namespace ByteScanner

variable {source before rest r : Text} {m m' : ByteScanner} {s : Scanner} {c : Char}

theorem run_spaces (hstate : m.state = .beforeClosingTagName) (t : Text) {before : Text}
    (hsource : source = before ++ t) :
    run source { m with index := before.bytes } =
      run source { m with index := (before ++ t.takeWhile Tag.isSpace).bytes } := by
  induction t generalizing before with
  | nil => rw [List.takeWhile_nil, List.append_nil]
  | cons c r ih =>
    by_cases hc : Tag.isSpace c = true
    · have hhandle : handle source (leadByte c) { m with index := before.bytes } =
          .ok { m with index := before.bytes } := by
        rw [handle]
        simp only [hstate, stateBeforeClosingTagName, Byte.isSpace_lead, hc, if_true]
        rfl
      have hm : Between source { m with index := before.bytes } before (c :: r) := ⟨hsource, rfl⟩
      have hr : source = before ++ [c] ++ r := by simp [hsource]
      have hrest := ih hr
      rw [List.append_assoc] at hrest
      rw [List.takeWhile_cons_of_pos hc,
        run_char hm hhandle rfl (.inl (isAscii_of_isSpace hc))]
      exact hrest
    · rw [List.takeWhile_cons_of_neg hc, List.append_nil]

theorem foldl_close (source : Text) (offset : Nat) (closed : List Text) (m : ByteScanner) :
    closed.foldl (fun n tag => n.emit source offset (.close tag)) m =
      { m with events := m.events ++
        closed.map fun tag => ⟨⟨offset, lineAt source offset⟩, .close tag⟩ } := by
  induction closed generalizing m with
  | nil => simp
  | cons tag closed ih =>
    rw [List.foldl_cons, ih]
    simp [emit]

theorem closeTag_eq (source name : Text) (m : ByteScanner) :
    m.closeTag source name =
      let (closed, left) := (closedBy? name m.openTags).getD ([], m.openTags)
      { m with
        events := m.events ++
          closed.map fun tag => ⟨⟨m.index, lineAt source m.index⟩, .close tag⟩
        openTags := left } := by
  rw [closeTag]
  cases closedBy? name m.openTags with
  | none => simp
  | some p =>
    simp only [Option.getD_some, foldl_close]

theorem inClosingTagName_pass (h : endsClosingName (c :: r) = false) :
    m.stateInClosingTagName source (leadByte c) = .ok m := by
  simp only [endsClosingName, Bool.or_eq_false_iff, decide_eq_false_iff_not] at h
  simp (disch := decide) only [stateInClosingTagName, leadByte_eq_iff, Byte.isSpace_lead, h,
    Bool.false_eq_true, or_self, if_false]
  rfl

theorem inClosingTagName_end {start piece : Text}
    (hm : m.Between source (start ++ piece) (c :: r)) (hstate : m.state = .inClosingTagName)
    (hstart : m.sectionStart = start.bytes) (h : endsClosingName (c :: r) = true) :
    m.handle source (leadByte c) = .ok { m.closeTag source piece with
      sectionStart := m.index + 1
      state := if c = '>' then .text else .afterClosingTagName } := by
  have hends : c = '>' ∨ Byte.isSpace (leadByte c) = true := by
    rw [Byte.isSpace_lead]
    simpa only [endsClosingName, Bool.or_eq_true, decide_eq_true_eq] using h
  have hname : slice source m.sectionStart m.index = .ok piece :=
    slice_eq hm.source hstart (hm.index.trans (Text.bytes_append start piece))
  have htest : leadByte c = asciiByte '>' ↔ c = '>' := leadByte_eq_iff (by decide) c
  rw [handle, hstate]
  simp only [stateInClosingTagName, if_pos hends, hname, bind, Except.bind, htest]
  rfl

def closedAs (source name : Text) (m : ByteScanner) : ByteScanner :=
  { m.closeTag source name with sectionStart := m.index + 1, state := .afterClosingTagName }

theorem run_closedAs {start name : Text} (hm : m.Between source (start ++ name) (c :: r))
    (hstate : m.state = .inClosingTagName) (hstart : m.sectionStart = start.bytes)
    (h : endsClosingName (c :: r) = true) :
    m.run source = (m.closedAs source name).run source := by
  have hindex : (m.closeTag source name).index = m.index := by rw [closeTag_eq]
  have hm' : (m.closedAs source name).Between source (start ++ name) (c :: r) :=
    ⟨hm.source, hindex.trans hm.index⟩
  refine run_congr hm hindex ((inClosingTagName_end hm hstate hstart h).trans ?_)
  have htest : leadByte c = asciiByte '>' ↔ c = '>' := leadByte_eq_iff (by decide) c
  have hthrough : handle source (leadByte c) (m.closedAs source name) =
      .ok ((m.closedAs source name).stateAfterClosingTagName (leadByte c)) := rfl
  rw [hthrough]
  simp only [stateAfterClosingTagName, htest, closedAs, hindex]
  split <;> rfl

structure AtClosing (source : Text) (m : ByteScanner) (s : Scanner) (before r : Text) : Prop where
  read : s.HasRead source before
  rest : s.rest = '<' :: '/' :: r
  state : m.state = .beforeClosingTagName
  index : m.index = (before ++ ['<', '/']).bytes
  openTags : m.openTags = s.openTags

theorem isSpace_behind {t u : Text} (h : t.drop (t.takeWhile Tag.isSpace).length = c :: u) :
    Tag.isSpace c = false := by
  induction t with
  | nil => cases h
  | cons d t ih =>
    by_cases hd : Tag.isSpace d = true
    · rw [List.takeWhile_cons_of_pos hd] at h
      exact ih h
    · rw [List.takeWhile_cons_of_neg hd] at h
      cases h
      exact eq_false_of_ne_true hd

theorem run_closingName (hm : m.Between source before (c :: r))
    (hstate : m.state = .beforeClosingTagName) (hspace : Tag.isSpace c = false) (hc : c ≠ '>') :
    m.run source = run source { m with
      state := .inClosingTagName
      sectionStart := before.bytes
      index := (before ++ (c :: (Text.splitWhen endsClosingName r).1)).bytes } := by
  have hhandle : m.handle source (leadByte c) =
      .ok { m with state := .inClosingTagName, sectionStart := before.bytes } := by
    rw [handle]
    simp (disch := decide) only [hstate, stateBeforeClosingTagName, Byte.isSpace_lead, hspace,
      leadByte_eq_iff, hc, Bool.false_eq_true, if_false, hm.index]
    rfl
  have hsource : source = before ++ [c] ++ r := by simp [hm.source]
  have hrun := (run_char hm hhandle rfl (.inr rfl)).trans
    (run_until { m with state := .inClosingTagName, sectionStart := before.bytes }
      endsClosingName rfl (fun _ hgo => inClosingTagName_pass hgo) r hsource)
  rwa [List.append_assoc] at hrun

namespace AtClosing

theorem between (h : m.AtClosing source s before r) :
    m.Between source (before ++ ['<', '/']) r :=
  ⟨by rw [h.read.source, h.rest]; simp, h.index⟩

end AtClosing

theorem does_through {piece after : Text} {events : List Located}
    (hread : s.HasRead source before) (hrest : s.rest = piece ++ after)
    (hrun : m.run source = m'.run source) (hstate : m'.state = .afterClosingTagName)
    (hindex : m'.index = (before ++ piece).bytes) (hevents : m'.events = m.events ++ events) :
    m.Does source ⟨events, { (s.pass piece after .content).pass
      (throughTagEnd after).1 (throughTagEnd after).2 .content with openTags := m'.openTags }⟩ := by
  have hread' := hasRead_pass hread hrest .content
  have hthrough : (s.pass piece after .content).rest =
      (throughTagEnd after).1 ++ (throughTagEnd after).2 := (throughTagEnd_append after).symm
  have hread'' := hasRead_pass hread' hthrough .content
  obtain ⟨m'', hrun', hevents', htags, hindex', hsettled, htext⟩ :=
    run_throughTagEnd (.inr hstate) after hread'.source
  rw [← hindex] at hrun'
  exact ⟨m'', _, hrun.trans hrun', hevents'.trans hevents,
    ⟨⟨hread''.source, hread''.spot⟩, hindex', htags⟩, hsettled, htext⟩

/-- The machine stands where the name of a closing tag is to begin, with `front` before it. -/
structure AtName (source : Text) (m : ByteScanner) (s : Scanner) (before front t : Text) :
    Prop where
  read : s.HasRead source before
  rest : s.rest = front ++ t
  state : m.state = .beforeClosingTagName
  index : m.index = (before ++ front).bytes
  openTags : m.openTags = s.openTags

namespace AtName

variable {front t more after : Text}

theorem between (h : m.AtName source s before front t) : m.Between source (before ++ front) t :=
  ⟨by rw [h.read.source, h.rest, List.append_assoc], h.index⟩

theorem does_ended (h : m.AtName source s before front []) :
    m.Does source ⟨[], s.pass front [] .content⟩ :=
  does_of_run h.read h.rest rfl (List.append_nil _).symm h.index h.openTags
    (settled_of_state .beforeClosingTagName h.state (by decide)) fun hne => absurd rfl hne

theorem does_nameless (h : m.AtName source s before front ('>' :: t)) :
    m.Does source ⟨[], { (s.pass front ('>' :: t) .content).pass (throughTagEnd ('>' :: t)).1
      (throughTagEnd ('>' :: t)).2 .content with openTags := s.openTags }⟩ := by
  have hthrough : m.handle source (leadByte '>') =
      handle source (leadByte '>') { m with state := .afterClosingTagName } := by
    rw [handle, handle, h.state]
    rfl
  have hrun : m.run source = run source { m with state := .afterClosingTagName } :=
    run_congr h.between rfl hthrough
  have hdoes := does_through h.read h.rest hrun rfl h.index (List.append_nil _).symm
  rwa [h.openTags] at hdoes

def named (m : ByteScanner) (before front name : Text) : ByteScanner :=
  { m with
    state := .inClosingTagName
    sectionStart := (before ++ front).bytes
    index := (before ++ front ++ name).bytes }

variable (h : m.AtName source s before front (c :: r)) (hspace : Tag.isSpace c = false)
  (hc : c ≠ '>') (hname : Text.splitWhen endsClosingName r = (more, after))
include h hname

theorem rest_named : s.rest = front ++ (c :: more) ++ after := by
  have hr : more ++ after = r := by
    rw [← Text.splitWhen_append endsClosingName r, hname]
  rw [h.rest, ← hr]
  simp

include hspace hc

theorem run_named : m.run source = (named m before front (c :: more)).run source := by
  have hrun := run_closingName h.between h.state hspace hc
  rwa [hname] at hrun

theorem does_unended (hafter : after = []) :
    m.Does source ⟨[], s.pass (front ++ c :: more) after .content⟩ := by
  subst hafter
  exact does_of_run h.read (h.rest_named hname) (h.run_named hspace hc hname)
    (List.append_nil _).symm (congrArg Text.bytes (List.append_assoc before front _)) h.openTags
    (settled_of_state .inClosingTagName rfl (by decide)) fun hne => absurd rfl hne

theorem does_named (hafter : after ≠ []) :
    let s' := s.pass (front ++ c :: more) after .content
    let (closed, left) := (closedBy? (c :: more) s.openTags).getD ([], s.openTags)
    m.Does source ⟨closed.map fun tag => ⟨s'.spot, .close tag⟩,
      { s'.pass (throughTagEnd after).1 (throughTagEnd after).2 .content with
        openTags := left }⟩ := by
  have hrest := h.rest_named hname
  obtain ⟨d, u, rfl⟩ := List.exists_cons_of_ne_nil hafter
  have hstop : endsClosingName (d :: u) = true := by
    have hstop := Text.splitWhen_rest endsClosingName r
    rw [hname] at hstop
    exact hstop.resolve_left hafter
  have hat : (named m before front (c :: more)).Between source (before ++ front ++ c :: more)
      (d :: u) := ⟨by rw [h.read.source, hrest]; simp, rfl⟩
  have hclosed := run_closedAs hat rfl rfl hstop
  have hdoes := does_through h.read hrest ((h.run_named hspace hc hname).trans hclosed) rfl
    (by rw [closedAs, closeTag_eq]; exact congrArg Text.bytes (List.append_assoc before front _))
    (by rw [closedAs, closeTag_eq]; rfl)
  rw [closedAs, closeTag_eq, named, List.append_assoc,
    spot_eq (hasRead_pass h.read hrest .content), h.openTags] at hdoes
  exact hdoes

end AtName

namespace AtClosing

theorem run_atName (h : m.AtClosing source s before r) :
    ∃ m' : ByteScanner, m.run source = m'.run source ∧ m'.events = m.events ∧
      m'.AtName source s before ("</" ++ r.takeWhile Tag.isSpace)
        (r.drop (r.takeWhile Tag.isSpace).length) := by
  have hrun := run_spaces h.state r h.between.source
  rw [← h.index, List.append_assoc] at hrun
  refine ⟨_, hrun, rfl, h.read, ?_, h.state, rfl, h.openTags⟩
  rw [h.rest, List.append_assoc,
    List.prefix_iff_eq_append.1 (List.takeWhile_prefix Tag.isSpace (l := r))]
  rfl

theorem does_closingTag (h : m.AtClosing source s before r) :
    m.Does source (s.closingTag r) := by
  obtain ⟨m', hrun, hevents, hat⟩ := h.run_atName
  suffices hdoes : m'.Does source (s.closingTag r) from
    hdoes.of_run hrun (hevents.trans (List.append_nil _).symm)
  have hbehind {c : Char} {u : Text} := isSpace_behind (c := c) (t := r) (u := u)
  simp only [Scanner.closingTag]
  generalize ("</" : Text) ++ r.takeWhile Tag.isSpace = front at hat ⊢
  generalize r.drop (r.takeWhile Tag.isSpace).length = t at hat hbehind ⊢
  match t with
  | [] =>
    have hname : Text.splitWhen endsClosingName [] = ([], []) := rfl
    rw [hname, List.append_nil]
    exact hat.does_ended
  | c :: t =>
    by_cases hc : c = '>'
    · subst hc
      have hname : Text.splitWhen endsClosingName ('>' :: t) = ([], '>' :: t) :=
        Text.splitWhen_of_stop (.inr rfl)
      rw [hname, List.append_nil]
      exact hat.does_nameless
    · have hspace := hbehind rfl
      have hfirst : endsClosingName (c :: t) = false := by simp [endsClosingName, hc, hspace]
      rw [Text.splitWhen_cons_of_not hfirst]
      cases hname : Text.splitWhen endsClosingName t with
      | mk more after =>
        cases after with
        | nil => exact hat.does_unended hspace hc hname rfl
        | cons d u => exact hat.does_named hspace hc hname (List.cons_ne_nil d u)

end AtClosing

theorem AtOpening.does_closingTag (h : m.AtOpening source s before ('/' :: r)) :
    m.Does source (s.closingTag r) := by
  have hhandle : m.handle source (leadByte '/') =
      .ok { m with state := .beforeClosingTagName } := by
    rw [h.handle_eq, beforeTagName_eq h.between]
    rfl
  have hrun := run_char h.between hhandle rfl (.inl (by decide))
  rw [List.append_assoc] at hrun
  have hat : AtClosing source { m with
      state := .beforeClosingTagName
      index := (before ++ ['<', '/']).bytes } s before r := ⟨h.read, h.rest, rfl, rfl, h.openTags⟩
  exact hat.does_closingTag.of_run hrun (List.append_nil _).symm

theorem endsNothing_eq {d : Char} (hd : d ≠ '!' ∧ d ≠ '?' ∧ d ≠ '/' ∧ Tag.isNameStart d = false)
    (hm : m.Between source before (d :: r)) (hstate : m.state = .beforeTagName) :
    m.handle source (leadByte d) = handle source (leadByte d) { m with state := .text } := by
  rw [handle, hstate]
  refine (beforeTagName_eq hm).trans ?_
  rw [if_neg hd.1, if_neg hd.2.1, if_neg (by simp [hd.2.2.2]), if_neg hd.2.2.1]
  rfl

theorem Stands.does_loneOpening {d : Char} (hs : m.Stands source s before)
    (hrest : s.rest = '<' :: d :: r) (hregion : s.region = .content) (hstate : m.state = .text)
    (hstart : m.sectionStart = m.index)
    (hd : d ≠ '!' ∧ d ≠ '?' ∧ d ≠ '/' ∧ Tag.isNameStart d = false) :
    m.Does source (s.inText Scanner.isOpening '<' (d :: r)) := by
  refine hs.does_inText hrest (gathers_text hstate) (.inl hstate) hstart (fun p hp => ?_)
    (fun _ => ?_) fun _ _ => by rw [hregion]; exact hstate
  · have hnone : Marker.read? ('<' :: d :: r) = none := rfl
    rw [hnone] at hp
    cases hp
  · have hsource : source = before ++ ['<'] ++ d :: r := by simp [hs.read.source, hrest]
    have hat : Between source { m with
        state := .beforeTagName
        index := (before ++ ['<']).bytes } (before ++ ['<']) (d :: r) := ⟨hsource, rfl⟩
    have hopening : run source { m with
          state := .beforeTagName
          index := (before ++ ['<']).bytes } =
        run source { m with state := .text, index := (before ++ ['<']).bytes } := by
      refine run_congr hat ?_ (endsNothing_eq hd hat rfl)
      rfl
    have hrun := (hs.run_opening hrest hstate hstart).trans hopening
    cases m
    cases hs.index
    cases hstart
    cases hstate
    exact hrun

theorem Stands.does_inContent (hs : m.Stands source s before) (hrest : s.rest = c :: r)
    (hregion : s.region = .content) (hstate : m.state = .text) (hstart : m.sectionStart = m.index) :
    m.Does source (s.inContent c r) := by
  unfold Scanner.inContent
  by_cases hc : c = '<'
  · subst hc
    have hrun := hs.run_opening hrest hstate hstart
    have hat : AtOpening source { m with
        state := .beforeTagName
        index := (before ++ ['<']).bytes } s before r := ⟨hs.read, hrest, rfl, rfl, hs.openTags⟩
    have hsame {step : Scanner.Step} (h : Does source { m with
        state := .beforeTagName
        index := (before ++ ['<']).bytes } step) : m.Does source step :=
      h.of_run hrun (List.append_nil _).symm
    rw [if_pos rfl]
    split
    next =>
      exact does_pass hs hrest hrun (List.append_nil _).symm rfl rfl
        (settled_of_state .beforeTagName rfl (by decide)) fun h => absurd rfl h
    next r' => exact hsame hat.does_comment
    next d r' hcomment =>
      by_cases hdecl : d = '!' ∨ d = '?'
      · have hascii : d.toNat < 128 := by rcases hdecl with rfl | rfl <;> decide
        have hhandle : handle source (leadByte d) { m with
              state := .beforeTagName
              index := (before ++ ['<']).bytes } = .ok { m with
            state := .inDeclaration
            index := (before ++ ['<']).bytes } := by
          rw [hat.handle_eq, beforeTagName_eq hat.between]
          rcases hdecl with rfl | rfl
          · rw [if_pos rfl, if_neg]
            intro hprefix
            obtain ⟨u, hu⟩ := Option.isSome_iff_exists.1 hprefix
            exact hcomment u rfl (Text.eq_append_of_isPrefixOf? hu)
          · rfl
        rw [if_pos hdecl]
        exact hsame (hat.does_declaration hascii hhandle)
      rw [if_neg hdecl]
      rw [not_or] at hdecl
      by_cases hslash : d = '/'
      · subst hslash
        exact hsame hat.does_closingTag
      rw [if_neg hslash]
      by_cases hname : Tag.isNameStart d = true
      · rw [if_pos hname]
        exact hsame (hat.does_startTag hname)
      · rw [if_neg hname]
        exact hs.does_loneOpening hrest hregion hstate hstart
          ⟨hdecl.1, hdecl.2, hslash, eq_false_of_ne_true hname⟩
  · have hstop : Scanner.isOpening (c :: r) = false := by simp [Scanner.isOpening, hc]
    rw [if_neg hc]
    exact hs.does_inText hrest (gathers_text hstate) (.inl hstate) hstart (fun _ _ => hstop)
      (fun hread => (gathers_text hstate).first (hs.between hrest).source hstop hread m.events)
      fun _ _ => by rw [hregion]; exact hstate

theorem Stands.does_inRawText {tag : Text} (hs : m.Stands source s before)
    (hrest : s.rest = c :: r) (hregion : s.region = .rawText tag) (hfit : m.Fits (.rawText tag))
    (hstart : m.sectionStart = m.index) : m.Does source (s.inRawText tag c r) := by
  obtain ⟨hstate, htag, hascii⟩ := hfit
  have hgathers : Gathers source m .chars (closesRawText tag) :=
    gathers_rawText hstate htag hascii
  rw [Scanner.inRawText]
  by_cases hcloses : closesRawText tag (c :: r) = true
  · obtain ⟨r', rfl, rfl⟩ : ∃ r', c = '<' ∧ r = '/' :: r' := by
      unfold closesRawText at hcloses
      split at hcloses
      next r' heq =>
        cases heq
        exact ⟨r', rfl, rfl⟩
      next => cases hcloses
    have hm := hs.between hrest
    have hends := endsRawText_eq hm htag hascii
    rw [hcloses] at hends
    have hhandle : m.handle source (leadByte '<') = .ok { m with
        rawTextTag := none
        state := .beforeTagName
        sectionStart := m.index } := by
      rw [handle, hstate]
      simp only [stateInRawText, hends, if_true, bind, Except.bind]
      rw [flush_empty source .chars m hstart]
      rfl
    have hrun := run_char hm hhandle rfl (.inl (by decide))
    have hat : AtOpening source { m with
        rawTextTag := none
        state := .beforeTagName
        sectionStart := m.index
        index := (before ++ ['<']).bytes } s before ('/' :: r') :=
      ⟨hs.read, hrest, rfl, rfl, hs.openTags⟩
    rw [if_pos hcloses]
    exact hat.does_closingTag.of_run hrun (List.append_nil _).symm
  · have hstop := eq_false_of_ne_true hcloses
    rw [if_neg hcloses]
    exact hs.does_inText hrest hgathers (.inr hstate) hstart (fun _ _ => hstop)
      (fun hread => hgathers.first (hs.between hrest).source hstop hread m.events)
      fun _ _ => by rw [hregion]; exact ⟨hstate, htag, hascii⟩

theorem Tracks.does_step (h : m.Tracks source s before) (hrest : s.rest = c :: r) :
    m.Does source (s.step c r) := by
  have hs := h.toStands
  have hfit := h.region (by simp [hrest])
  have hsettled := h.settled
  cases hregion : s.region with
  | content =>
    rw [hregion] at hfit
    simp only [Scanner.step, hregion]
    exact hs.does_inContent hrest hregion hfit (hsettled (.inl hfit))
  | rawText tag =>
    rw [hregion] at hfit
    simp only [Scanner.step, hregion]
    exact hs.does_inRawText hrest hregion hfit (hsettled (.inr hfit.1))
  | tag t =>
    rw [hregion] at hfit
    simp only [Scanner.step, hregion]
    exact hs.does_inTag hrest hfit
  | attrName t name =>
    rw [hregion] at hfit
    simp only [Scanner.step, hregion]
    exact hs.does_attrNameRegion hrest hfit
  | attrEquals t name =>
    rw [hregion] at hfit
    simp only [Scanner.step, hregion]
    exact hs.does_attrEquals hrest hfit
  | quoted t name quote =>
    rw [hregion] at hfit
    simp only [Scanner.step, hregion]
    exact hs.does_inQuoted hrest hregion hfit
  | unquoted t name =>
    rw [hregion] at hfit
    simp only [Scanner.step, hregion]
    exact hs.does_inUnquoted hrest hfit

theorem Tracks.finish_eq (h : m.Tracks source s before) (hrest : s.rest = []) :
    m.run source = .ok (m.events ++ s.finish) := by
  have hsource : source = before := by rw [h.read.source, hrest, List.append_nil]
  have hlength : source.utf8.length = m.index := by rw [Text.length_utf8, h.index, ← hsource]
  have hflush : m.flushText source m.index = .ok m := by
    rw [flushText]
    split
    next hstate => exact flush_empty source .chars m (h.settled hstate)
    next => rfl
  have hspot : (⟨m.index, lineAt source m.index⟩ : Spot) = s.spot := by
    rw [h.index, spot_eq h.read]
  rw [run, if_neg (by rw [hlength]; exact Nat.lt_irrefl _)]
  simp only [finish, hlength, hflush, bind, Except.bind, foldl_close]
  simp only [emit, hspot, h.openTags, Scanner.finish, List.append_assoc]
  rfl

theorem Tracks.run_eq (h : m.Tracks source s before) :
    m.run source = .ok (m.events ++ s.run) := by
  induction hn : s.rest.length using Nat.strongRecOn generalizing m s before with
  | ind n ih =>
    subst hn
    rw [Scanner.run]
    split
    next hrest => exact h.finish_eq hrest
    next c r hrest =>
      obtain ⟨m', before', hrun, hevents, htracks⟩ := h.does_step hrest
      have hlt := Scanner.length_step_lt s c r
      rw [← hrest] at hlt
      rw [hrun, ih _ hlt htracks rfl, hevents, List.append_assoc]

end ByteScanner

/-- The scan over bytes never fails a check, on any source, and reads the events of the scan. -/
theorem scanBytes_eq (source : Text) : scanBytes source = .ok (scan source) := by
  have h : ByteScanner.start.Tracks source (.start source) [] :=
    { read := ⟨rfl, rfl⟩, index := rfl, openTags := rfl, settled := fun _ => rfl,
      region := fun _ => rfl }
  exact h.run_eq

end Stencil
