import Stencil.Proofs.Markup.Bounded
import Stencil.Proofs.Markup.Closings
import Stencil.Proofs.Markup.EventSpots
import Stencil.Proofs.Markup.Writing

/-!
Running text is cut into runs and markers without loss. A run takes its first character whatever it
is, a marker has both of its braces in the text, and a brace that opens no marker stays in its run.
So the events of a source that opens no tag, or of the content of an element that holds only text,
give that text back when they are written one after another.
-/

set_option autoImplicit false

namespace Stencil

def Event.isRun : Event → Bool
  | .chars _ | .marker _ => true
  | _ => false

/-- Runs of text and markers that make up a text. -/
structure Copies (events : List Event) (t : Text) : Prop where
  isRun : ∀ event ∈ events, event.isRun = true
  text : events.flatMap Event.extent = t

namespace Copies

variable {t u : Text} {events more : List Event}

theorem nil : Copies [] [] := ⟨by simp, rfl⟩

theorem chars (t : Text) : Copies [.chars t] t := ⟨by simp [Event.isRun], by simp [Event.extent]⟩

theorem marker (body : Text) : Copies [.marker body] (Marker.written body) :=
  ⟨by simp [Event.isRun], by simp [Event.extent]⟩

theorem append (h : Copies events t) (g : Copies more u) : Copies (events ++ more) (t ++ u) := by
  refine ⟨fun event hevent => ?_, by rw [List.flatMap_append, h.text, g.text]⟩
  rcases List.mem_append.1 hevent with hevent | hevent
  · exact h.isRun event hevent
  · exact g.isRun event hevent

end Copies

theorem Marker.exists_of_read?_append {t rest body after : Text} (hrest : '}' ∉ rest)
    (h : read? (t ++ rest) = some (body, after)) :
    ∃ more, t = written body ++ more ∧ after = more ++ rest := by
  rcases List.append_eq_append_iff.1 (eq_of_read? h) with ⟨excess, hwritten, hexcess⟩ | hmore
  · rcases List.eq_nil_or_concat excess with rfl | ⟨excess, c, rfl⟩
    · exact ⟨[], by simpa using hwritten.symm, by simpa using hexcess.symm⟩
    · have hlast := congrArg List.getLast? hwritten
      simp [written, List.getLast?_append, List.getLast?_cons] at hlast
      simp [← hlast] at hexcess
      simp [hexcess] at hrest
  · exact hmore

namespace Scanner

/-- A step in running text takes a piece of it and reads that as a run or a marker. -/
theorem inText_copies (s : Scanner) {stop : Text → Bool} (c : Char) (t : Text) {rest : Text}
    (hstop : rest = [] ∨ stop rest = true) (hrest : '}' ∉ rest) :
    ∃ event piece more, c :: t = piece ++ more ∧ Copies [event] piece ∧ piece ≠ [] ∧
      s.inText stop c (t ++ rest) =
        ⟨[⟨s.spot, event⟩], s.pass piece (more ++ rest) s.region⟩ := by
  unfold inText
  split
  next body after hread =>
    obtain ⟨more, htext, rfl⟩ := Marker.exists_of_read?_append (t := c :: t) hrest hread
    exact ⟨.marker body, _, more, htext, .marker body, List.cons_ne_nil _ _, rfl⟩
  next =>
    obtain ⟨before, after, rfl, hcut⟩ : ∃ before after, t = before ++ after ∧
        Text.splitWhen (fun u => stop u || Marker.opensAt u) (t ++ rest) =
          (before, after ++ rest) := by
      rcases hstop with rfl | hstop
      · have hsplit := Text.splitWhen_append (fun u => stop u || Marker.opensAt u) t
        exact ⟨_, _, hsplit.symm, by rw [List.append_nil, List.append_nil]⟩
      · exact Text.splitWhen_append_of_stop _ t (by simp [hstop])
    rw [hcut]
    exact ⟨.chars (c :: before), c :: before, after, rfl, .chars _, List.cons_ne_nil _ _, rfl⟩

theorem scans_copies (region : Region) (tags : List Text) {stop : Text → Bool} {rest : Text}
    (hstop : rest = [] ∨ stop rest = true) (hrest : '}' ∉ rest) (t : Text)
    (hstep : ∀ spot c u, c :: u <:+ t →
      step ⟨region, spot, c :: (u ++ rest), tags⟩ c (u ++ rest) =
        inText ⟨region, spot, c :: (u ++ rest), tags⟩ stop c (u ++ rest)) (spot : Spot) :
    ∃ ls, Scans ⟨region, spot, t ++ rest, tags⟩ ls ⟨region, spot.past t, rest, tags⟩ ∧
      Copies (ls.map Located.event) t := by
  induction hn : t.length using Nat.strongRecOn generalizing t spot with
  | ind n ih =>
    cases t with
    | nil => exact ⟨[], .nil _, .nil⟩
    | cons c t =>
      obtain ⟨event, piece, more, htext, hcopies, hne, heq⟩ :=
        inText_copies ⟨region, spot, c :: (t ++ rest), tags⟩ c t hstop hrest
      have hfirst : Scans ⟨region, spot, c :: (t ++ rest), tags⟩ [⟨spot, event⟩]
          ⟨region, spot.past piece, more ++ rest, tags⟩ :=
        .single rfl ((hstep spot c t (List.suffix_refl _)).trans heq)
      have hshorter : more.length < n := by
        have hlength := congrArg List.length htext
        have hpiece := List.length_pos_iff.2 hne
        rw [List.length_append] at hlength
        omega
      obtain ⟨ls, hscans, hmore⟩ := ih more.length hshorter more
        (fun spot d u hu => hstep spot d u (htext ▸ hu.trans (List.suffix_append piece more)))
        (spot.past piece) rfl
      refine ⟨⟨spot, event⟩ :: ls, ?_, htext ▸ hcopies.append hmore⟩
      have hscans := hfirst.append hscans
      rwa [← Spot.past_append, ← htext] at hscans

end Scanner

/-- Every `<` has a character after it with which it begins no tag. -/
def Text.OpensNothing (t : Text) : Prop :=
  ∀ u, '<' :: u <:+ t → ∃ c r, u = c :: r ∧ Tag.isNameStart c = false ∧
    c ≠ '/' ∧ c ≠ '!' ∧ c ≠ '?'

namespace Scanner

theorem inContent_eq_inText (s : Scanner) {t : Text} (ht : t.OpensNothing) {c : Char} {u : Text}
    (hu : c :: u <:+ t) : s.inContent c u = s.inText isOpening c u := by
  by_cases hc : c = '<'
  · subst hc
    obtain ⟨d, r, rfl, hstart, hslash, hbang, hask⟩ := ht u hu
    simp only [inContent, if_true]
    split
    next heq => cases heq
    next heq => exact absurd (List.cons.inj heq).1 hbang
    next heq =>
      obtain ⟨rfl, rfl⟩ := List.cons.inj heq
      simp [hstart, hslash, hbang, hask]
  · simp [inContent, hc]

theorem inRawText_eq_inText (s : Scanner) {tag t : Text} (htag : Tag.holdsText tag = true)
    (ht : Text.ClosesNone tag t) {c : Char} {u : Text} (hu : c :: u <:+ t) :
    s.inRawText tag c (u ++ Node.tagEnd tag) =
      s.inText (closesRawText tag) c (u ++ Node.tagEnd tag) := by
  have hlower : '<' ∉ tag.lower := by
    rw [Tag.lower_of_holdsText htag]
    exact Tag.lt_not_mem_of_holdsText htag
  have hcloses := closesRawText_append hlower ht hu (List.cons_ne_nil c u) []
  rw [List.append_nil, List.cons_append] at hcloses
  simp [inRawText, hcloses]

theorem run_nil (spot : Spot) : run ⟨.content, spot, [], []⟩ = [⟨spot, .done⟩] := by
  rw [run]
  rfl

theorem scans_content {t : Text} (ht : t.OpensNothing) (spot : Spot) :
    ∃ ls, Scans ⟨.content, spot, t, []⟩ ls ⟨.content, spot.past t, [], []⟩ ∧
      Copies (ls.map Located.event) t := by
  have hcopies := scans_copies .content [] (.inl rfl) (by simp) t (fun spot c u hu => by
    rw [List.append_nil]
    exact inContent_eq_inText ⟨.content, spot, c :: u, []⟩ ht hu) spot
  rwa [List.append_nil] at hcopies

theorem scans_holdsText {tag t : Text} (htag : Tag.holdsText tag = true)
    (ht : Text.ClosesNone tag t) (spot : Spot) :
    ∃ ls stop, Scans ⟨.content, spot, '<' :: (tag ++ '>' :: (t ++ Node.tagEnd tag)), []⟩ ls
        ⟨.content, stop, [], []⟩ ∧
      ∃ events, ls.map Located.event =
          [.tagStart tag false, .tagEnd tag false] ++ events ++ [.close tag] ∧
        Copies events t := by
  have hname := Tag.isName_of_holdsText htag
  have hvoid := Tag.isVoid_of_holdsText htag
  have hafter : afterTag tag [] = (.rawText tag, [tag]) := by
    simp [afterTag, hvoid, Tag.lower_of_holdsText htag, htag]
  have hbrace : '}' ∉ Node.tagEnd tag := by
    rcases Tag.holdsText_iff.1 htag with rfl | rfl <;> decide
  have hcloses := closesRawText_tagEnd tag []
  rw [List.append_nil] at hcloses
  have hskim : Skim.selfClosing .plain ' ' ('>' :: (t ++ Node.tagEnd tag)) = false := rfl
  have hstart := scans_tagStart spot hname [] (.inr rfl) hskim
  have hend := scans_tagEnd (spot.past ('<' :: tag)) tag [] (t ++ Node.tagEnd tag)
  obtain ⟨ls, hcopied, hcopies⟩ := scans_copies (.rawText tag) [tag] (.inr hcloses) hbrace t
    (fun spot c u hu => inRawText_eq_inText ⟨.rawText tag, spot, _, [tag]⟩ htag ht hu)
    ((spot.past ('<' :: tag)).past ['>'])
  have hclose := scans_close_rawText (((spot.past ('<' :: tag)).past ['>']).past t) hname [] []
  rw [hafter] at hend
  rw [List.append_nil] at hclose
  refine ⟨_, _, ((hstart.append hend).append hcopied).append hclose, _, ?_, hcopies⟩
  simp [hvoid]

end Scanner

/-- A source that opens no tag is cut into runs and markers that give it back. So is the content of
an element that holds only text, if the element's closing tag does not begin in it. -/
theorem scan_copies (t : Text) :
    (t.OpensNothing →
      ∃ events, (scan t).map Located.event = events ++ [.done] ∧ Copies events t) ∧
    ∀ tag, Tag.holdsText tag = true → Text.ClosesNone tag t →
      ∃ events, (scan ("<" ++ tag ++ ">" ++ t ++ "</" ++ tag ++ ">")).map Located.event =
          [.tagStart tag false, .tagEnd tag false] ++ events ++ [.close tag, .done] ∧
        Copies events t := by
  refine ⟨fun ht => ?_, fun tag htag ht => ?_⟩
  · obtain ⟨ls, hscans, hcopies⟩ := Scanner.scans_content ht .start
    refine ⟨ls.map Located.event, ?_, hcopies⟩
    rw [scan, Scanner.start, hscans, Scanner.run_nil, List.map_append]
    rfl
  · obtain ⟨ls, stop, hscans, events, hevents, hcopies⟩ := Scanner.scans_holdsText htag ht .start
    have hsource : ("<" ++ tag ++ ">" ++ t ++ "</" ++ tag ++ ">" : Text) =
        '<' :: (tag ++ '>' :: (t ++ Node.tagEnd tag)) := by simp [Node.tagEnd]
    refine ⟨events, ?_, hcopies⟩
    rw [hsource, scan, Scanner.start, hscans, Scanner.run_nil, List.map_append, hevents]
    simp

/-- Braces that close nothing, one brace too many, and a marker that is never closed:
`a < {b}} {{{c}}}} {{d`. -/
def looseBraces : Text :=
  "a < \x7bb\x7d\x7d \x7b\x7b\x7bc\x7d\x7d\x7d\x7d \x7b\x7bd"

theorem opensNothing_looseBraces : Text.OpensNothing looseBraces := by
  intro u hu
  unfold looseBraces at hu
  simp [List.suffix_cons_iff] at hu
  subst hu
  exact ⟨' ', _, rfl, by decide⟩

theorem scan_copies_looseBraces :
    (∃ events, (scan looseBraces).map Located.event = events ++ [.done] ∧
      Copies events looseBraces) ∧
    ∃ events, (scan ("<" ++ "style".toList ++ ">" ++ looseBraces ++ "</" ++ "style".toList ++
        ">")).map Located.event =
        [.tagStart "style" false, .tagEnd "style" false] ++ events ++ [.close "style", .done] ∧
      Copies events looseBraces := by
  obtain ⟨hcontent, hholds⟩ := scan_copies looseBraces
  exact ⟨hcontent opensNothing_looseBraces,
    hholds "style" (by decide) (Text.closesNone_of_closings (by decide))⟩

end Stencil
