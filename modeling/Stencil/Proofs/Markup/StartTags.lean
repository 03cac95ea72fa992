import Stencil.Proofs.Markup.Bounded
import Stencil.Proofs.Markup.Lookahead
import Stencil.Proofs.Markup.Steps

/-!
Where start tags begin and end. The scanner knows where it is: its spot is the place after all that
it has read. A step stays in its start tag or outside of any, or it opens a tag, or it ends the one
that it is in at a `>`.
-/

set_option autoImplicit false

namespace Stencil

def Event.boundsTag : Event → Bool
  | .tagStart _ _ | .tagEnd _ _ => true
  | _ => false

def Region.startTag? : Region → Option StartTag
  | .content | .rawText _ => none
  | .tag t | .attrName t _ | .attrEquals t _ | .quoted t _ _ | .unquoted t _ => some t

def Place.startTag? : Place → Option StartTag
  | .content | .rawText | .ended => none
  | .tag t | .attr t _ => some t

theorem Region.startTag?_eq (region : Region) : region.startTag? = region.place.startTag? := by
  cases region <;> rfl

theorem Region.StaysIn.startTag?_eq {region other : Region} (h : region.StaysIn other) :
    region.startTag? = other.startTag? := by
  rw [Region.startTag?_eq, h.place, ← Region.startTag?_eq]

namespace Scanner

def Step.Consumes (step : Step) (s : Scanner) (t : Text) : Prop :=
  ∃ piece, t = piece ++ step.next.rest ∧ step.next.spot = s.spot.past piece

structure Step.Stays (step : Step) (s : Scanner) (t : Text) : Prop where
  consumes : step.Consumes s t
  events : ∀ l ∈ step.events, l.event.boundsTag = false
  region : step.next.region.startTag? = s.region.startTag?

/-- The step reads the name of a start tag. -/
structure Step.Opens (step : Step) (s : Scanner) (t : Text) (tag : StartTag) : Prop where
  outside : s.region.startTag? = none
  text : t = '<' :: (tag.name ++ step.next.rest)
  spot : step.next.spot = s.spot.past ('<' :: tag.name)
  events : step.events = [⟨s.spot.past ['<'], .tagStart tag.name tag.unary⟩]
  region : step.next.region.startTag? = some tag
  name : '/' ∉ tag.name
  unary : tag.unary = (Tag.isVoid tag.name || Skim.selfClosing .plain ' ' step.next.rest)

structure Step.Ends (step : Step) (s : Scanner) (t : Text) (tag : StartTag) : Prop where
  inside : s.region.startTag? = some tag
  text : t = '>' :: step.next.rest
  spot : step.next.spot = s.spot.past ['>']
  events : ∃ before, step.events = before ++ [⟨s.spot, .tagEnd tag.name tag.unary⟩] ∧
    ∀ l ∈ before, l.event.boundsTag = false

section

variable {s : Scanner} (piece : Text) {rest : Text} {region : Region}

theorem stays_silent (h : region.startTag? = s.region.startTag?) :
    (s.silent piece rest region).Stays s (piece ++ rest) :=
  ⟨⟨piece, rfl, rfl⟩, by simp [silent], h⟩

theorem stays_read {event : Event} (he : event.boundsTag = false)
    (h : region.startTag? = s.region.startTag?) :
    (s.read event piece rest region).Stays s (piece ++ rest) :=
  ⟨⟨piece, rfl, rfl⟩, by simp [read, he], h⟩

end

theorem Step.Acts.stays_or_bounds {step : Step} {s : Scanner} {t : Text} (h : step.Acts s t) :
    step.Stays s t ∨ (∃ tag, step.Opens s t tag) ∨ ∃ tag, step.Ends s t tag := by
  have htag {s : Scanner} {tag : StartTag} (h : s.region.place = .tag tag) :
      s.region.startTag? = some tag := by
    rw [Region.startTag?_eq, h, Place.startTag?]
  have hattr {s : Scanner} {tag : StartTag} {name : Text} (h : s.region.place = .attr tag name) :
      s.region.startTag? = some tag := by
    rw [Region.startTag?_eq, h, Place.startTag?]
  induction h with
  | silent h => exact .inl (stays_silent _ h.startTag?_eq)
  | marker h hread =>
    rw [Marker.eq_of_read? hread]
    exact .inl (stays_read _ rfl h.startTag?_eq)
  | chars h => exact .inl (stays_read _ rfl rfl)
  | @endTag s tag rest h => exact .inr (.inr ⟨tag, htag h, rfl, rfl, [], rfl, by simp⟩)
  | attrStart h => exact .inl (stays_read _ rfl (htag h).symm)
  | attrValue h hregion => exact .inl (stays_read _ rfl hregion.startTag?_eq)
  | attrEnd h => exact .inl (stays_read [_] rfl (hattr h).symm)
  | @endAttr s tag name t step h hstep ih =>
    rcases ih with hstays | ⟨_, hopens⟩ | ⟨other, hends⟩
    · exact .inl ⟨hstays.consumes, List.forall_mem_cons.2 ⟨rfl, hstays.events⟩,
        hstays.region.trans (hattr h).symm⟩
    · cases hopens.outside
    · obtain ⟨before, hevents, hbefore⟩ := hends.events
      refine .inr (.inr ⟨other, (hattr h).trans hends.inside, hends.text, hends.spot,
        ⟨s.spot, .attrEnd name⟩ :: before, ?_, List.forall_mem_cons.2 ⟨rfl, hbefore⟩⟩)
      rw [hevents]
      rfl
  | @startTag s name rest unary h hname hunary =>
    have hout : s.region.startTag? = none := by rw [h, Region.startTag?]
    exact .inr (.inl ⟨⟨name, unary⟩, hout, rfl, rfl, rfl, rfl, hname, hunary⟩)
  | @closingTag s r h =>
    obtain ⟨piece, through, rest, closed, left, htext, -, hstep⟩ := closingTag_closes s r
    have hout : s.region.startTag? = none := by
      rcases h with h | ⟨tag, h, -⟩ <;> rw [h, Region.startTag?]
    rw [hstep, htext]
    exact .inl ⟨⟨piece ++ through, rfl, rfl⟩, List.forall_mem_map.2 fun _ _ => rfl, hout.symm⟩
  | comment h =>
    exact .inl ⟨⟨_, rfl, rfl⟩, List.forall_mem_singleton.2 rfl, by rw [h]; rfl⟩

/-- A step from outside a start tag opens none or one; a step inside one stays in it or ends it. -/
theorem step_cases (s : Scanner) (c : Char) (r : Text) :
    (s.step c r).Stays s (c :: r) ∨ (∃ tag, (s.step c r).Opens s (c :: r) tag) ∨
      ∃ tag, (s.step c r).Ends s (c :: r) tag :=
  (acts_step s c r).stays_or_bounds

theorem step_consumes (s : Scanner) (c : Char) (r : Text) :
    (s.step c r).Consumes s (c :: r) := by
  rcases step_cases s c r with h | ⟨tag, h⟩ | ⟨tag, h⟩
  · exact h.consumes
  · exact ⟨'<' :: tag.name, h.text, h.spot⟩
  · exact ⟨['>'], h.text, h.spot⟩

theorem opens_of_tagStart {s : Scanner} {c : Char} {r : Text} {start : Spot} {tag : StartTag}
    {pre post : List Located}
    (h : (s.step c r).events = pre ++ ⟨start, .tagStart tag.name tag.unary⟩ :: post) :
    (s.step c r).Opens s (c :: r) tag ∧ pre = [] ∧ post = [] := by
  have hmem : ⟨start, .tagStart tag.name tag.unary⟩ ∈ (s.step c r).events := by
    rw [h]
    simp
  rcases step_cases s c r with hstays | ⟨other, hopens⟩ | ⟨other, hends⟩
  · cases hstays.events _ hmem
  · have hevents := hopens.events
    rw [h, List.append_eq_singleton_iff] at hevents
    simp only [List.cons.injEq, Located.mk.injEq, Event.tagStart.injEq, List.cons_ne_nil, and_false,
      or_false] at hevents
    obtain ⟨hpre, ⟨-, hname, hunary⟩, hpost⟩ := hevents
    obtain rfl : tag = other := by
      cases tag
      cases other
      cases hname
      cases hunary
      rfl
    exact ⟨hopens, hpre, hpost⟩
  · obtain ⟨evs, hevents, hevs⟩ := hends.events
    rw [hevents, List.mem_append, List.mem_singleton] at hmem
    rcases hmem with hmem | hmem
    · cases hevs _ hmem
    · cases hmem

structure HasRead (s : Scanner) (source before : Text) : Prop where
  source : source = before ++ s.rest
  spot : s.spot = Spot.start.past before

theorem Step.Consumes.hasRead {s : Scanner} {step : Step} {t source before : Text}
    (h : step.Consumes s t) (hs : s.HasRead source before) (ht : s.rest = t) :
    ∃ piece, t = piece ++ step.next.rest ∧ step.next.HasRead source (before ++ piece) := by
  obtain ⟨piece, hpiece, hspot⟩ := h
  refine ⟨piece, hpiece, ?_, ?_⟩
  · rw [hs.source, ht, hpiece, List.append_assoc]
  · rw [hspot, hs.spot, Spot.past_append]

/-- The scanner is in a start tag that begins behind `before` and of which it has read `inside`
after the name. -/
structure InStartTag (s : Scanner) (source : Text) (tag : StartTag) (before inside : Text) :
    Prop where
  region : s.region.startTag? = some tag
  hasRead : s.HasRead source (before ++ '<' :: (tag.name ++ inside))
  name : '/' ∉ tag.name
  unary : tag.unary = (Tag.isVoid tag.name || Skim.selfClosing .plain ' ' (inside ++ s.rest))

theorem Step.Opens.inStartTag {s : Scanner} {step : Step} {t source before : Text}
    {tag : StartTag} (h : step.Opens s t tag) (hs : s.HasRead source before) (ht : s.rest = t) :
    step.next.InStartTag source tag before [] := by
  refine ⟨h.region, ⟨?_, ?_⟩, h.name, h.unary⟩
  · rw [hs.source, ht, h.text]
    simp
  · rw [h.spot, hs.spot, ← Spot.past_append, List.append_nil]

theorem Step.Stays.inStartTag {s : Scanner} {step : Step} {t source before inside : Text}
    {tag : StartTag} (h : step.Stays s t) (hs : s.InStartTag source tag before inside)
    (ht : s.rest = t) : ∃ piece, step.next.InStartTag source tag before (inside ++ piece) := by
  obtain ⟨piece, hpiece, hread⟩ := h.consumes.hasRead hs.hasRead ht
  refine ⟨piece, h.region.trans hs.region, ?_, hs.name, ?_⟩
  · simpa using hread
  · rw [hs.unary, ht, hpiece, List.append_assoc]

theorem InStartTag.ends {s : Scanner} {source : Text} {tag : StartTag} {before inside : Text}
    (h : s.InStartTag source tag before inside) {l : Located}
    (hl : s.run.find? (fun l => l.event.boundsTag) = some l) :
    ∃ inside after, source = before ++ '<' :: (tag.name ++ inside) ++ '>' :: after ∧
      l = ⟨Spot.start.past (before ++ '<' :: (tag.name ++ inside)),
        .tagEnd tag.name tag.unary⟩ ∧
      tag.unary =
        (Tag.isVoid tag.name || Skim.selfClosing .plain ' ' (inside ++ '>' :: after)) := by
  fun_induction run s generalizing inside with
  | case1 s hrest =>
    have hmem := List.mem_of_find?_eq_some hl
    have hbounds := List.find?_some hl
    simp only [finish, List.mem_append, List.mem_map, List.mem_singleton] at hmem
    rcases hmem with ⟨_, -, rfl⟩ | rfl <;> cases hbounds
  | case2 s c r hrest ih =>
    rcases step_cases s c r with hstays | ⟨_, hopens⟩ | ⟨other, hends⟩
    · -- the scanner is still in the tag, and the event sought is read later
      have hnone : (s.step c r).events.find? (fun l => l.event.boundsTag) = none :=
        List.find?_eq_none.2 fun l hl => by simp [hstays.events l hl]
      rw [List.find?_append, hnone, Option.none_or] at hl
      obtain ⟨piece, hnext⟩ := hstays.inStartTag h hrest
      exact ih hnext hl
    · have hout := hopens.outside
      rw [h.region] at hout
      cases hout
    · have hin := hends.inside
      rw [h.region, Option.some.injEq] at hin
      subst hin
      obtain ⟨evs, hevents, hevs⟩ := hends.events
      have hnone : evs.find? (fun l => l.event.boundsTag) = none :=
        List.find?_eq_none.2 fun l hl => by simp [hevs l hl]
      rw [hevents, List.append_assoc, List.find?_append, hnone, Option.none_or,
        List.singleton_append, List.find?_cons_of_pos rfl, Option.some.injEq] at hl
      refine ⟨inside, (s.step c r).next.rest, ?_, ?_, ?_⟩
      · rw [h.hasRead.source, hrest, hends.text]
      · rw [← hl, h.hasRead.spot]
      · rw [h.unary, hrest, hends.text]

theorem HasRead.begins {s : Scanner} {source before : Text} (h : s.HasRead source before)
    (tag : StartTag) {pre post : List Located} {start : Spot}
    (hrun : s.run = pre ++ ⟨start, .tagStart tag.name tag.unary⟩ :: post) :
    ∃ (s' : Scanner) (before : Text), s'.InStartTag source tag before [] ∧
      start = Spot.start.past (before ++ ['<']) ∧ s'.run = post := by
  fun_induction run s generalizing before pre with
  | case1 s hrest =>
    have hmem : ⟨start, .tagStart tag.name tag.unary⟩ ∈ s.finish := by
      rw [hrun]
      simp
    simp [finish] at hmem
  | case2 s c r hrest ih =>
    obtain ⟨_, -, hread⟩ := (step_consumes s c r).hasRead h hrest
    -- the event is read after this step, or in it
    rcases List.append_eq_append_iff.1 hrun with ⟨pre', -, hnext⟩ | ⟨found, hevents, hpost⟩
    · exact ih hread hnext
    · match found with
      | [] =>
        have hnext : (s.step c r).next.run = [] ++ _ := hpost.symm
        exact ih hread hnext
      | x :: found =>
        rw [List.cons_append, List.cons.injEq] at hpost
        obtain ⟨rfl, rfl⟩ := hpost
        obtain ⟨hopens, rfl, rfl⟩ := opens_of_tagStart hevents
        refine ⟨_, before, hopens.inStartTag h hrest, ?_, rfl⟩
        have hstart := hopens.events
        rw [hevents] at hstart
        simp only [List.nil_append, List.cons.injEq, Located.mk.injEq, and_true] at hstart
        rw [hstart, h.spot, Spot.past_append]

end Scanner

/-- A start tag stands in the source from the `<` of its first event to the `>` of its last one. -/
theorem scan_startTag {source : Text} {pre inner post : List Located} {start stop : Spot}
    {tag name : Text} {unary final : Bool}
    (h : scan source = pre ++ ⟨start, .tagStart tag unary⟩ ::
      (inner ++ ⟨stop, .tagEnd name final⟩ :: post))
    (hinner : ∀ l ∈ inner, l.event.boundsTag = false) :
    ∃ before inside after, source = before ++ '<' :: (tag ++ inside) ++ '>' :: after ∧
      start = Spot.start.past (before ++ ['<']) ∧
      stop = Spot.start.past (before ++ '<' :: (tag ++ inside)) ∧ name = tag ∧ final = unary ∧
      '/' ∉ tag ∧
      unary = (Tag.isVoid tag || Skim.selfClosing .plain ' ' (inside ++ '>' :: after)) := by
  have hstart : (Scanner.start source).HasRead source [] := ⟨rfl, rfl⟩
  obtain ⟨s, before, hs, hspot, hrun⟩ := hstart.begins ⟨tag, unary⟩ h
  have hnone : inner.find? (fun l => l.event.boundsTag) = none :=
    List.find?_eq_none.2 fun l hl => by simp [hinner l hl]
  have hfind : s.run.find? (fun l => l.event.boundsTag) = some ⟨stop, .tagEnd name final⟩ := by
    rw [hrun, List.find?_append, hnone]
    rfl
  obtain ⟨inside, after, hsource, hend, hunary⟩ := hs.ends hfind
  simp only [Located.mk.injEq, Event.tagEnd.injEq] at hend
  exact ⟨before, inside, after, hsource, hspot, hend.1, hend.2.1, hend.2.2, hs.name, hunary⟩

theorem endsInSlash_tag {tag : Text} (h : '/' ∉ tag) (before inside : Text) :
    Text.EndsInSlash (before ++ '<' :: (tag ++ inside)) ↔ Text.EndsInSlash inside := by
  unfold Text.EndsInSlash
  cases inside with
  | nil =>
    simp only [List.append_nil, List.getLast?_nil, reduceCtorEq, iff_false, List.getLast?_append,
      List.getLast?_cons]
    intro hlast
    have hmem : '/' ∈ '<' :: tag := List.mem_of_getLast? (by simpa [List.getLast?_cons] using hlast)
    rcases List.mem_cons.1 hmem with heq | hmem
    · cases heq
    · exact h hmem
  | cons c inside => simp [List.getLast?_append, List.getLast?_cons]

/-- Whether a start tag that is not void is taken for one that ends in a slash is decided by the
look-ahead. That is right exactly if the look-ahead stops at a `>` which has a slash before it just
when the tag's own `>` has, or if it stops nowhere and the tag ends in no slash. -/
theorem scan_unary_iff {source : Text} {pre inner post : List Located} {start stop : Spot}
    {tag name : Text} {unary final : Bool}
    (h : scan source = pre ++ ⟨start, .tagStart tag unary⟩ ::
      (inner ++ ⟨stop, .tagEnd name final⟩ :: post))
    (hinner : ∀ l ∈ inner, l.event.boundsTag = false) (hv : Tag.isVoid tag = false) :
    ∃ before inside after, source = before ++ '<' :: (tag ++ inside) ++ '>' :: after ∧
      start = Spot.start.past (before ++ ['<']) ∧
      stop = Spot.start.past (before ++ '<' :: (tag ++ inside)) ∧ name = tag ∧ final = unary ∧
      ((unary = true ↔ Text.EndsInSlash (before ++ '<' :: (tag ++ inside))) ↔
        (∃ look, Skim.EndsAt (inside ++ '>' :: after) look ∧
          (Text.EndsInSlash look ↔ Text.EndsInSlash inside)) ∨
        (∀ look, ¬Skim.EndsAt (inside ++ '>' :: after) look) ∧ ¬Text.EndsInSlash inside) := by
  obtain ⟨before, inside, after, hsource, hstart, hstop, hname, hfinal, hslash, hunary⟩ :=
    scan_startTag h hinner
  refine ⟨before, inside, after, hsource, hstart, hstop, hname, hfinal, ?_⟩
  rw [hv, Bool.false_or] at hunary
  rw [endsInSlash_tag hslash, hunary]
  exact Skim.selfClosing_iff_endsInSlash _ inside

/-- In `<p a'b/>` the apostrophe of a name hides the end of the tag. -/
theorem scan_apostrophe :
    scan "<p a'b/>" = [⟨⟨1, 1⟩, .tagStart "p" false⟩, ⟨⟨3, 1⟩, .attrStart "a'b"⟩,
        ⟨⟨6, 1⟩, .attrEnd "a'b"⟩, ⟨⟨7, 1⟩, .tagEnd "p" false⟩, ⟨⟨8, 1⟩, .close "p"⟩,
        ⟨⟨8, 1⟩, .done⟩] ∧
      Tag.isVoid "p" = false ∧ Spot.start.past "<p a'b/" = ⟨7, 1⟩ ∧
      Text.EndsInSlash "<p a'b/" := by
  refine ⟨?_, by decide, by decide, by unfold Text.EndsInSlash; decide⟩
  rw [scan_eq_runFor]
  decide

theorem scan_unary_iff_apostrophe :
    ∃ before inside after, ("<p a'b/>" : Text) = before ++ '<' :: ("p" ++ inside) ++ '>' :: after ∧
      Spot.mk 7 1 = Spot.start.past (before ++ '<' :: ("p" ++ inside)) ∧
      ((false = true ↔ Text.EndsInSlash (before ++ '<' :: ("p" ++ inside))) ↔
        (∃ look, Skim.EndsAt (inside ++ '>' :: after) look ∧
          (Text.EndsInSlash look ↔ Text.EndsInSlash inside)) ∨
        (∀ look, ¬Skim.EndsAt (inside ++ '>' :: after) look) ∧ ¬Text.EndsInSlash inside) := by
  have hscan : scan "<p a'b/>" = [] ++ ⟨⟨1, 1⟩, .tagStart "p" false⟩ ::
      ([⟨⟨3, 1⟩, .attrStart "a'b"⟩, ⟨⟨6, 1⟩, .attrEnd "a'b"⟩] ++
        ⟨⟨7, 1⟩, .tagEnd "p" false⟩ :: [⟨⟨8, 1⟩, .close "p"⟩, ⟨⟨8, 1⟩, .done⟩]) := by
    rw [scan_eq_runFor]
    decide
  obtain ⟨before, inside, after, hsource, -, hstop, -, -, hright⟩ :=
    scan_unary_iff hscan (by decide) (by decide)
  exact ⟨before, inside, after, hsource, hstop, hright⟩

end Stencil
