import Stencil.Proofs.Markup.StartTags
import Stencil.Proofs.Template.Lockstep

/-!
Which opening markers are still open. The bodies of markers are opened in four places: in the
draft, in kept text, in an attribute and in a branch inside a tag. The last two are inside a start
tag, so what is open in them was opened after all that is open in the first two. A template that
compiles has closed all but what it opened inside a start tag that is never finished.
-/

set_option autoImplicit false

namespace Stencil

variable {δ : Dialect}

/-- The opening markers that are not closed after an event, innermost first, given those before it.
There are none if a closing marker has nothing to close. -/
def Options.openAfter (o : Options δ) (unclosed : List Located) (l : Located) :
    Option (List Located) :=
  match l.event with
  | .marker body =>
    let (mode, expression) := o.language.split body
    if expression = "else" then some unclosed
    else if mode.opensBody then some (l :: unclosed)
    else if mode = .close then
      match unclosed with
      | [] => none
      | _ :: rest => some rest
    else some unclosed
  | _ => some unclosed

def Options.openMarkers (o : Options δ) (events : List Located) : Option (List Located) :=
  events.foldlM o.openAfter []

/-- A start tag begins that is not finished, and after its beginning come these events. -/
def EndsInTag (events inside : List Located) : Prop :=
  ∃ pre start post, events = pre ++ start :: post ∧
    (∃ tag unary, start.event = .tagStart tag unary) ∧
    (∀ l ∈ post, l.event.boundsTag = false) ∧ ∀ l ∈ inside, l ∈ post

theorem EndsInTag.concat {events inside inside' : List Located} (h : EndsInTag events inside)
    {l : Located} (hl : l.event.boundsTag = false) (hi : ∀ m ∈ inside', m = l ∨ m ∈ inside) :
    EndsInTag (events ++ [l]) inside' := by
  obtain ⟨pre, start, post, hevents, hstart, hpost, hinside⟩ := h
  refine ⟨pre, start, post ++ [l], by simp [hevents], hstart, ?_, fun m hm => ?_⟩
  · intro m hm
    rcases List.mem_append.1 hm with hm | hm
    · exact hpost m hm
    · rw [List.mem_singleton.1 hm, hl]
  · rcases hi m hm with rfl | hm
    · simp
    · simp [hinside m hm]

theorem endsInTag_tagStart (events : List Located) {l : Located} {tag : Text} {unary : Bool}
    (hl : l.event = .tagStart tag unary) : EndsInTag (events ++ [l]) [] :=
  ⟨events, l, [], rfl, ⟨tag, unary, hl⟩, by simp, by simp⟩

def Place.InStartTag : Place → Prop
  | .tag _ | .attr _ _ => True
  | .content | .rawText | .ended => False

theorem Place.eq_of_not_inStartTag {place : Place} (hp : place ≠ .ended)
    (h : ¬place.InStartTag) : place = .content ∨ place = .rawText := by
  cases place with
  | content => exact .inl rfl
  | rawText => exact .inr rfl
  | tag | attr => exact absurd trivial h
  | ended => exact absurd rfl hp

theorem Place.not_inStartTag_closed (place : Place) : ¬place.closed.InStartTag := by
  cases place <;> exact id

theorem Place.not_inStartTag_inside (tag : Text) : ¬(Place.inside tag).InStartTag := by
  rcases Place.inside_eq tag with h | h <;> rw [h] <;> exact id

def openSections (d : Option (TextDraft δ)) : Nat := d.elim 0 fun d => d.sections.length

theorem Change.Counts.add {change : Change δ} {n m : Nat} (h : change.Counts n m) (k : Nat) :
    change.Counts (k + n) (k + m) := by
  cases change <;> simp only [Change.Counts] at h ⊢ <;> omega

theorem Change.Levels.counts {change : Change δ} {ls ls' : List Level} (h : change.Levels ls ls') :
    change.Counts (ls.count .body) (ls'.count .body) := by
  cases change <;> simp only [Change.Levels] at h <;> simp [Change.Counts, h]

namespace Assembly

def innerBodies (a : Assembly δ) : Nat :=
  openSections (a.tag.bind TagDraft.branch) + openSections (a.attr.bind AttrDraft.draft)

def outerBodies (a : Assembly δ) : Nat :=
  a.markup.levels.count .body + openSections a.rawText

structure Tracks (a : Assembly δ) (p : Position) (events inner outer : List Located) : Prop where
  length_inner : inner.length = a.innerBodies
  length_outer : outer.length = a.outerBodies
  inTag : inner ≠ [] ∨ p.place.InStartTag → EndsInTag events inner

section

variable {o : Options δ} {a b : Assembly δ} {p q : Position} {events inner outer : List Located}

theorem tracks_start : Tracks (empty : Assembly δ) .start [] [] [] :=
  ⟨rfl, rfl, fun h => by rcases h with h | h <;> simp [Position.start, Place.InStartTag] at h⟩

theorem AtPlace.innerBodies_eq_zero {place : Place} (h : a.AtPlace place)
    (hp : place = .content ∨ place = .rawText) : a.innerBodies = 0 := by
  obtain ⟨htag, hattr⟩ : a.tag = none ∧ a.attr = none := by rcases hp with rfl | rfl <;> exact h
  simp [innerBodies, htag, hattr, openSections]

theorem AtPlace.tag_isSome {place : Place} (h : a.AtPlace place) (hp : place.InStartTag) :
    a.tag.isSome := by
  cases place with
  | content | rawText | ended => exact hp.elim
  | tag t =>
    obtain ⟨⟨draft, htag, -⟩, -⟩ := h
    simp [htag]
  | attr t name =>
    obtain ⟨draft, htag, -⟩ := h
    simp [htag]

theorem AtPlace.inStartTag {place : Place} (h : a.AtPlace place) (hp : place ≠ .ended)
    (hs : a.tag.isSome ∨ a.attr.isSome) : place.InStartTag := by
  cases place with
  | content | rawText =>
    obtain ⟨htag, hattr⟩ := h
    simp [htag, hattr] at hs
  | tag | attr => trivial
  | ended => exact hp rfl

theorem Tracks.keeps (h : a.Tracks p events inner outer) {l : Located}
    (hin : b.innerBodies = a.innerBodies) (hout : b.outerBodies = a.outerBodies)
    (hl : l.event.boundsTag = false) (hq : q.place.InStartTag → p.place.InStartTag) :
    b.Tracks q (events ++ [l]) inner outer :=
  ⟨h.length_inner.trans hin.symm, h.length_outer.trans hout.symm, fun hi =>
    (h.inTag (hi.imp id hq)).concat hl fun _ => .inr⟩

theorem openAfter_of_counts {mode : Mode} {expression body : Text} {change : Change δ}
    (hsplit : o.language.split body = (mode, expression)) (helse : expression ≠ "else")
    (hchange : change.OfMode mode)
    (spot : Spot) {us : List Located} (vs : List Located) {n : Nat}
    (hn : change.Counts us.length n) :
    ∃ us', o.openAfter (us ++ vs) ⟨spot, .marker body⟩ = some (us' ++ vs) ∧ us'.length = n ∧
      ∀ l ∈ us', l = ⟨spot, .marker body⟩ ∨ l ∈ us := by
  simp only [Options.openAfter, hsplit, if_neg helse]
  unfold Change.OfMode at hchange
  by_cases hopens : mode.opensBody = true
  · rw [if_pos hopens] at hchange ⊢
    obtain ⟨name, rfl⟩ := hchange
    exact ⟨_ :: us, rfl, hn.symm, fun l hl => List.mem_cons.1 hl⟩
  · rw [if_neg hopens] at hchange ⊢
    by_cases hclose : mode = .close
    · rw [if_pos hclose] at hchange ⊢
      obtain ⟨definition, rfl⟩ := hchange
      cases us with
      | nil => cases hn
      | cons u us => exact ⟨us, rfl, Nat.succ.inj hn, fun l hl => .inr (List.mem_cons_of_mem u hl)⟩
    · rw [if_neg hclose] at hchange ⊢
      subst hchange
      exact ⟨us, rfl, hn.symm, fun l => .inr⟩

theorem Turns.innerBodies (h : a.Turns b) : b.innerBodies = a.innerBodies := by
  cases h with
  | attr hattr hd =>
    simp [Assembly.innerBodies, openSections, hattr, TextDraft.length_sections_turn hd]
  | branch htag hd =>
    simp [Assembly.innerBodies, openSections, htag, TextDraft.length_sections_turn hd]
  | rawText | markup => rfl

theorem Turns.outerBodies (h : a.Turns b) : b.outerBodies = a.outerBodies := by
  cases h with
  | attr | branch => rfl
  | rawText hraw hd =>
    simp [Assembly.outerBodies, openSections, hraw, TextDraft.length_sections_turn hd]
  | markup hd => simp [Assembly.outerBodies, MarkupDraft.levels_turn hd]

theorem Tracks.changeInner (h : a.Tracks p events inner outer) (hp : p.place.InStartTag)
    {mode : Mode} {expression body : Text} {change : Change δ} {spot : Spot}
    (hsplit : o.language.split body = (mode, expression)) (helse : expression ≠ "else")
    (hchange : change.OfMode mode)
    (hin : change.Counts a.innerBodies b.innerBodies) (hout : b.outerBodies = a.outerBodies) :
    ∃ inner', o.openAfter (inner ++ outer) ⟨spot, .marker body⟩ = some (inner' ++ outer) ∧
      b.Tracks p (events ++ [⟨spot, .marker body⟩]) inner' outer := by
  rw [← h.length_inner] at hin
  obtain ⟨inner', hopen, hlength, hmem⟩ := openAfter_of_counts hsplit helse hchange spot outer hin
  exact ⟨inner', hopen, hlength, h.length_outer.trans hout.symm, fun _ =>
    (h.inTag (.inr hp)).concat rfl hmem⟩

theorem Tracks.changeOuter (h : a.Tracks p events inner outer) (hp : ¬p.place.InStartTag)
    {mode : Mode} {expression body : Text} {change : Change δ} {spot : Spot}
    (hsplit : o.language.split body = (mode, expression)) (helse : expression ≠ "else")
    (hchange : change.OfMode mode)
    (hzero : a.innerBodies = 0) (hin : b.innerBodies = a.innerBodies)
    (hout : change.Counts a.outerBodies b.outerBodies) :
    ∃ outer', o.openAfter (inner ++ outer) ⟨spot, .marker body⟩ = some ([] ++ outer') ∧
      b.Tracks p (events ++ [⟨spot, .marker body⟩]) [] outer' := by
  obtain rfl : inner = [] := List.eq_nil_of_length_eq_zero (h.length_inner.trans hzero)
  rw [← h.length_outer] at hout
  obtain ⟨outer', hopen, hlength, -⟩ := openAfter_of_counts hsplit helse hchange spot [] hout
  rw [List.append_nil, List.append_nil] at hopen
  exact ⟨outer', hopen, (hin.trans hzero).symm, hlength, fun hi => absurd hi (by simp [hp])⟩

theorem Marks.bodies {mode : Mode} {expression : Text} {line : Nat}
    (hm : Marks o a mode expression line b) (hl : Lockstep o a p) (hp : p.place ≠ .ended) :
    ∃ change : Change δ, change.OfMode mode ∧
      ((a.tag.isSome ∨ a.attr.isSome) ∧ change.Counts a.innerBodies b.innerBodies ∧
          b.outerBodies = a.outerBodies ∨
        a.tag = none ∧ b.innerBodies = a.innerBodies ∧
          change.Counts a.outerBodies b.outerBodies) := by
  cases hm with
  | @branch head draft d change htag hd =>
    refine ⟨change, Draft.ofMode_of_apply hd, .inl ⟨.inl (by simp [htag]), ?_, ?_⟩⟩
    · simpa [innerBodies, openSections, htag, hl.place.attr_eq_none hp htag] using
        TextDraft.counts_apply hd
    · simp [outerBodies]
  | @branchEnd head draft d change parts htag hd hparts =>
    refine ⟨change, Draft.ofMode_of_apply hd, .inl ⟨.inl (by simp [htag]), ?_, ?_⟩⟩
    · simpa [innerBodies, openSections, htag, hl.place.attr_eq_none hp htag,
        TextDraft.sections_of_finish hparts] using TextDraft.counts_apply hd
    · simp [outerBodies]
  | @attr attr d change hattr htag hd =>
    have htag : a.tag.bind TagDraft.branch = none := by
      rcases ha : a.tag with _ | ⟨head, _ | draft⟩
      · rfl
      · rfl
      · exact absurd ha (htag head draft)
    -- an attribute without a draft has as many sections as the one that is begun for it
    have hdraft : openSections attr.draft = (attr.draft.getD
        (TextDraft.empty.addText (Text.unescapeAttribute attr.value))).sections.length := by
      cases attr.draft with
      | none => exact (TextDraft.length_sections_addText .empty _).symm
      | some draft => rfl
    have hcounts := TextDraft.counts_apply hd
    rw [← hdraft] at hcounts
    refine ⟨change, Draft.ofMode_of_apply hd, .inl ⟨.inr (by simp [hattr]), ?_, ?_⟩⟩
    · simpa [innerBodies, htag, hattr, openSections] using hcounts
    · simp [outerBodies]
  | @tagValue head e htag hattr hmode he =>
    subst hmode
    exact ⟨.none, rfl, .inl ⟨.inl (by simp [htag]), by simp [innerBodies, htag, Change.Counts], rfl⟩⟩
  | @tagBranch head d change htag hattr hd =>
    refine ⟨change, Draft.ofMode_of_apply hd, .inl ⟨.inl (by simp [htag]), ?_, ?_⟩⟩
    · have hcounts : change.Counts 0 d.sections.length := TextDraft.counts_apply hd
      simpa [innerBodies, openSections, htag, hattr] using hcounts
    · simp [outerBodies]
  | @rawText draft d change htag hattr hraw hd =>
    refine ⟨change, Draft.ofMode_of_apply hd, .inr ⟨htag, by simp [innerBodies], ?_⟩⟩
    simpa [outerBodies, openSections, hraw] using
      Change.Counts.add (TextDraft.counts_apply hd) (a.markup.levels.count .body)
  | @markup d change htag hattr hraw hd =>
    have hlevels := MarkupDraft.levels_apply hd
    obtain ⟨openings, warnings, hfollow, -⟩ := follow_eq
      (a := { a with markup := d }.record change) o (by simpa [hl.levels] using hlevels) expression
      line
    rw [hfollow]
    refine ⟨change, Draft.ofMode_of_apply hd, .inr ⟨htag, by simp [innerBodies], ?_⟩⟩
    simpa [outerBodies, openSections, hraw] using Change.Levels.counts hlevels

theorem Tracks.marker {body : Text} {spot : Spot} {line : Nat} (hl : Lockstep o a p)
    (h : a.Tracks p events inner outer) (hp : p.place ≠ .ended)
    (hs : a.marker o body line = .ok b) :
    ∃ inner' outer', o.openAfter (inner ++ outer) ⟨spot, .marker body⟩ =
        some (inner' ++ outer') ∧
      b.Tracks p (events ++ [⟨spot, .marker body⟩]) inner' outer' := by
  rcases marker_cases hs with ⟨helse, ht⟩ | ⟨helse, ⟨hcomment, rfl⟩ | hm⟩
  · have hopen : o.openAfter (inner ++ outer) ⟨spot, .marker body⟩ = some (inner ++ outer) := by
      simp [Options.openAfter, helse]
    exact ⟨inner, outer, hopen, h.keeps ht.innerBodies ht.outerBodies rfl id⟩
  · have hopen : o.openAfter (inner ++ outer) ⟨spot, .marker body⟩ = some (inner ++ outer) := by
      simp [Options.openAfter, hcomment, Mode.opensBody]
    exact ⟨inner, outer, hopen, h.keeps rfl rfl rfl id⟩
  · obtain ⟨change, hmode, ⟨hinside, hin, hout⟩ | ⟨htag, hin, hout⟩⟩ := hm.bodies hl hp
    · obtain ⟨inner', hopen, ht⟩ :=
        h.changeInner (hl.place.inStartTag hp hinside) rfl helse hmode hin hout
      exact ⟨inner', outer, hopen, ht⟩
    · have hplace : ¬p.place.InStartTag := fun hinside => by
        simpa [htag] using hl.place.tag_isSome hinside
      have hzero := hl.place.innerBodies_eq_zero (Place.eq_of_not_inStartTag hp hplace)
      obtain ⟨outer', hopen, ht⟩ := h.changeOuter hplace rfl helse hmode hzero hin hout
      exact ⟨[], outer', hopen, ht⟩

theorem Tracks.inner_eq_nil (h : a.Tracks p events inner outer) (hz : a.innerBodies = 0) :
    inner = [] := List.eq_nil_of_length_eq_zero (h.length_inner.trans hz)

theorem Tracks.bounds (h : a.Tracks p events inner outer) {l : Located}
    (ha : a.innerBodies = 0) (hb : b.innerBodies = 0) (hout : b.outerBodies = a.outerBodies)
    (hq : q.place.InStartTag → EndsInTag (events ++ [l]) []) :
    b.Tracks q (events ++ [l]) inner outer := by
  obtain rfl := h.inner_eq_nil ha
  exact ⟨hb.symm, h.length_outer.trans hout.symm, fun hi => hq (by simpa using hi)⟩

theorem Tracks.tagEnd {t : StartTag} {ts : List Text} {spot : Spot} {line : Nat}
    (hl : Lockstep o a ⟨.tag t, ts⟩) (h : a.Tracks ⟨.tag t, ts⟩ events inner outer)
    (hs : a.tagEnd o t.name t.unary line = .ok b) (hq : ¬q.place.InStartTag) :
    b.Tracks q (events ++ [⟨spot, .tagEnd t.name t.unary⟩]) inner outer := by
  obtain ⟨⟨⟨head, branch⟩, htag, -⟩, hattr⟩ := hl.place
  have hraw := hl.rawText_eq_none (by simp)
  simp only [Assembly.tagEnd, htag] at hs
  split at hs
  · cases hs
  next hbranch =>
    obtain rfl : branch = none := by simpa using hbranch
    cases hs
    have hzero : a.innerBodies = 0 := by simp [innerBodies, htag, hattr, openSections]
    refine h.bounds hzero ?_ ?_ fun hi => absurd hi hq
    · split
      · simp only [addUnary]
        split
        · simp [innerBodies, hattr, openSections]
        · split <;> simp [innerBodies, hattr, openSections]
      · simp only [openElement]
        split <;> simp [innerBodies, hattr, openSections]
    · split
      · simp only [addUnary]
        split
        · simp [outerBodies]
        · split <;> simp [outerBodies]
      · simp only [openElement]
        split
        · simp [outerBodies, Opener.level]
        · simp only [outerBodies, hraw]
          split <;> simp [openSections, TextDraft.empty]

theorem Tracks.close {place : Place} {tag : Text} {ts : List Text} {spot : Spot} {line : Nat}
    (hl : Lockstep o a ⟨place, tag :: ts⟩) (h : a.Tracks ⟨place, tag :: ts⟩ events inner outer)
    (hs : a.close o tag line = .ok b) :
    b.Tracks ⟨place.closed, ts⟩ (events ++ [⟨spot, .close tag⟩]) inner outer := by
  have hc := hl.closes hs
  have hraw : openSections b.rawText = openSections a.rawText := by
    rcases hc.rawText with ⟨hsections, hnone⟩ | ⟨hsame, -⟩
    · rw [hnone]
      cases hr : a.rawText with
      | none => rfl
      | some d => simp [openSections, hsections d hr]
    · rw [hsame]
  refine h.keeps ?_ ?_ rfl fun hi => absurd hi place.not_inStartTag_closed
  · simp [innerBodies, hc.tag, hc.attr]
  · simp [outerBodies, hc.bodies, hraw]

theorem Tracks.attrStart {t : StartTag} {name : Text} {ts : List Text} {spot : Spot}
    (hl : Lockstep o a ⟨.tag t, ts⟩) (h : a.Tracks ⟨.tag t, ts⟩ events inner outer) :
    (a.attrStart name).Tracks ⟨.attr t name, ts⟩ (events ++ [⟨spot, .attrStart name⟩])
      inner outer := by
  obtain ⟨⟨⟨head, branch⟩, htag, -⟩, hattr⟩ := hl.place
  refine h.keeps ?_ ?_ rfl fun _ => trivial
  · cases branch with
    | none => simp [Assembly.attrStart, htag, hattr, innerBodies, openSections]
    | some draft =>
      simp [Assembly.attrStart, htag, hattr, innerBodies, openSections,
        TextDraft.length_sections_addText]
  · cases branch <;> simp [Assembly.attrStart, htag, outerBodies]

theorem Tracks.attrValue {t : StartTag} {name value : Text} {ts : List Text} {spot : Spot}
    (hl : Lockstep o a ⟨.attr t name, ts⟩) (h : a.Tracks ⟨.attr t name, ts⟩ events inner outer) :
    (a.attrValue value).Tracks ⟨.attr t name, ts⟩ (events ++ [⟨spot, .attrValue value⟩])
      inner outer := by
  obtain ⟨⟨head, branch⟩, htag, -, -⟩ := hl.place
  refine h.keeps ?_ ?_ rfl id
  · cases branch with
    | some draft =>
      simp [Assembly.attrValue, htag, innerBodies, openSections, TextDraft.length_sections_addText]
    | none =>
      rcases hattr : a.attr with _ | ⟨attrName, before, _ | draft⟩ <;>
        simp [Assembly.attrValue, htag, hattr, innerBodies, openSections,
          TextDraft.length_sections_addText]
  · cases branch with
    | some draft => simp [Assembly.attrValue, htag, outerBodies]
    | none =>
      rcases hattr : a.attr with _ | ⟨attrName, before, _ | draft⟩ <;>
        simp [Assembly.attrValue, htag, hattr, outerBodies]

theorem openSections_of_attrResult {attr : AttrDraft δ} {name : Text} {line : Nat}
    {value : AttrValue δ} (h : attrResult attr name line = .ok value) :
    openSections attr.draft = 0 := by
  unfold attrResult at h
  split at h
  next hd =>
    rw [hd]
    rfl
  next draft hd =>
    cases hf : draft.finish with
    | error code =>
      rw [hf] at h
      cases h
    | ok parts => simp [hd, openSections, TextDraft.sections_of_finish hf]

theorem Tracks.attrEnd {t : StartTag} {name : Text} {ts : List Text} {spot : Spot} {line : Nat}
    (hl : Lockstep o a ⟨.attr t name, ts⟩) (h : a.Tracks ⟨.attr t name, ts⟩ events inner outer)
    (hs : a.attrEnd o name line = .ok b) :
    b.Tracks ⟨.tag t, ts⟩ (events ++ [⟨spot, .attrEnd name⟩]) inner outer := by
  obtain ⟨⟨head, branch⟩, htag, -, hbranch⟩ := hl.place
  cases branch with
  | some draft =>
    simp only [Assembly.attrEnd, htag] at hs
    cases hs
    refine h.keeps ?_ rfl rfl fun _ => trivial
    simp [htag, innerBodies, openSections, TextDraft.length_sections_addText]
  | none =>
    cases hattr : a.attr with
    | none =>
      simp only [Assembly.attrEnd, htag, hattr] at hs
      cases hs
      exact h.keeps rfl rfl rfl fun _ => trivial
    | some attr =>
      simp only [Assembly.attrEnd, htag, hattr] at hs
      obtain ⟨value, hvalue, hs⟩ := exists_of_bind_ok hs
      have hzero := openSections_of_attrResult hvalue
      cases hs
      refine h.keeps ?_ ?_ rfl fun _ => trivial
      · have hbefore : a.innerBodies = 0 := by
          rw [innerBodies, htag, hattr]
          exact (Nat.zero_add _).trans hzero
        rw [hbefore]
        split <;> rfl
      · split <;> rfl

theorem Tracks.chars {content : Text} {spot : Spot} (h : a.Tracks p events inner outer) :
    (a.chars content).Tracks p (events ++ [⟨spot, .chars content⟩]) inner outer := by
  unfold Assembly.chars
  split
  next draft hraw =>
    refine h.keeps rfl ?_ rfl id
    simp [outerBodies, openSections, hraw, TextDraft.length_sections_addText]
  next => exact h.keeps rfl (by simp [outerBodies]) rfl id

theorem Tracks.step {l : Located} (hl : Lockstep o a p) (h : a.Tracks p events inner outer)
    (hm : p.Moves l.event q) (hs : step o a l = .ok b) :
    ∃ inner' outer', o.openAfter (inner ++ outer) l = some (inner' ++ outer') ∧
      b.Tracks q (events ++ [l]) inner' outer' := by
  obtain ⟨spot, event⟩ := l
  -- noting the line changes nothing that is kept in step
  have hl : Lockstep o { a with lastLine := spot.line } p := ⟨hl.1, hl.2, hl.3, hl.4⟩
  have h : Tracks { a with lastLine := spot.line } p events inner outer := ⟨h.1, h.2, h.3⟩
  cases hm with
  | tagStart tag unary ts =>
    cases hs
    have hzero := hl.place.innerBodies_eq_zero (.inl rfl)
    refine ⟨inner, outer, rfl, h.bounds hzero ?_ rfl fun _ => endsInTag_tagStart events rfl⟩
    have hattr : a.attr = none := hl.place.2
    simp [Assembly.tagStart, innerBodies, hattr, openSections]
  | tagEndUnary tag ts =>
    exact ⟨inner, outer, rfl, h.tagEnd hl hs id⟩
  | tagEnd tag ts =>
    exact ⟨inner, outer, rfl, h.tagEnd hl hs (Place.not_inStartTag_inside tag)⟩
  | close place tag ts => exact ⟨inner, outer, rfl, h.close hl hs⟩
  | attrStart t name ts =>
    cases hs
    exact ⟨inner, outer, rfl, h.attrStart hl⟩
  | attrValue t name value ts =>
    cases hs
    exact ⟨inner, outer, rfl, h.attrValue hl⟩
  | attrEnd t name ts => exact ⟨inner, outer, rfl, h.attrEnd hl hs⟩
  | chars place content ts hplace =>
    cases hs
    exact ⟨inner, outer, rfl, h.chars⟩
  | marker place body ts hplace => exact h.marker hl hplace hs
  | comment content ts =>
    cases hs
    exact ⟨inner, outer, rfl, h.keeps rfl (by simp [outerBodies]) rfl id⟩
  | done place =>
    cases hs
    exact ⟨inner, outer, rfl, h.keeps rfl rfl rfl (by simp [Place.InStartTag])⟩

theorem Tracks.run {ls : List Located} (hr : p.Reads ls q) (hl : Lockstep o a p)
    (h : a.Tracks p events inner outer) (hs : ls.foldlM (Assembly.step o) a = .ok b) :
    ∃ inner' outer', ls.foldlM o.openAfter (inner ++ outer) = some (inner' ++ outer') ∧
      b.Tracks q (events ++ ls) inner' outer' := by
  induction hr generalizing a events inner outer with
  | nil p =>
    cases hs
    exact ⟨inner, outer, rfl, by simpa using h⟩
  | @cons p q r l ls m t ih =>
    rw [List.foldlM_cons] at hs
    obtain ⟨c, hc, hs⟩ := exists_of_bind_ok hs
    obtain ⟨inner₁, outer₁, hopen₁, h₁⟩ := h.step hl m hc
    obtain ⟨inner₂, outer₂, hopen₂, h₂⟩ := ih (hl.step m hc) h₁ hs
    refine ⟨inner₂, outer₂, ?_, by simpa using h₂⟩
    rw [List.foldlM_cons, hopen₁]
    exact hopen₂

end

end Assembly

/-- A template that compiles has closed every marker it opened, but for those that it opened inside
a start tag that it ends in. -/
theorem compile_openMarkers (o : Options δ) (serial : Nat) (template : Text) {c : Compiled δ}
    (h : compile o serial template = .ok c) :
    ∃ unclosed, o.openMarkers (scan (o.clean template)) = some unclosed ∧
      (unclosed = [] ∨ EndsInTag (scan (o.clean template)) unclosed) := by
  obtain ⟨compiled, hevents⟩ : ∃ compiled,
      compileEvents o serial (scan (o.clean template)) = .ok compiled := by
    unfold compile at h
    cases hc : compileEvents o serial (scan (o.clean template)) with
    | error e =>
      rw [hc] at h
      cases h
    | ok compiled => exact ⟨compiled, rfl⟩
  obtain ⟨a, ha, hevents⟩ := exists_of_bind_ok hevents
  obtain ⟨body, hbody, -⟩ := exists_of_bind_ok hevents
  have hreads := reads_scan (o.clean template)
  have hl := Assembly.lockstep_start.run hreads ha
  obtain ⟨inner, outer, hopen, ht⟩ := Assembly.tracks_start.run hreads Assembly.lockstep_start ha
  have hlevels := MarkupDraft.levels_finish (Draft.of_atLine_ok hbody)
  have hraw := hl.rawText_eq_none (by simp)
  obtain rfl : outer = [] := List.eq_nil_of_length_eq_zero <| ht.length_outer.trans <| by
    simp [Assembly.outerBodies, hlevels, hraw, openSections]
  refine ⟨inner, by simpa [Options.openMarkers] using hopen, ?_⟩
  by_cases hinner : inner = []
  · exact .inl hinner
  · exact .inr (ht.inTag (.inl hinner))

/-- A source that ends in a start tag, inside a branch: `<p {{#a}}`. -/
def openTag : Text := "<p \x7b\x7b#a\x7d\x7d"

theorem scan_openTag : scan ((Options.standard none).clean openTag) =
    [⟨⟨1, 1⟩, .tagStart "p" false⟩, ⟨⟨3, 1⟩, .marker "#a"⟩, ⟨⟨9, 1⟩, .done⟩] := by
  have hclean : (Options.standard none).clean openTag = openTag := by decide
  rw [hclean, scan_eq_runFor]
  decide

theorem exists_compile_openTag : ∃ c, compile (.standard none) 0 openTag = .ok c := by
  have hcompile (site : Site) : (Options.standard none).language.compile .branch "a" site =
      .ok ⟨"a", .lookup "a", false, site.line⟩ :=
    Expression.compileAt_name (by decide) (by decide) rfl .branch site
  have hsplit : (Options.standard none).language.split "#a" = (.branch, "a".toList) := by decide
  have helse : "a".toList ≠ "else".toList := by decide
  simp only [compile, scan_openTag, compileEvents, List.foldlM_cons, List.foldlM_nil,
    Assembly.step, Assembly.tagStart, Assembly.marker, hsplit, if_neg helse, reduceCtorEq,
    if_false, Assembly.empty, Assembly.markerInTag, Draft.apply, hcompile]
  exact ⟨_, rfl⟩

theorem compile_openMarkers_openTag : ∃ unclosed,
    (Options.standard none).openMarkers (scan ((Options.standard none).clean openTag)) =
      some unclosed ∧
    (unclosed = [] ∨ EndsInTag (scan ((Options.standard none).clean openTag)) unclosed) := by
  obtain ⟨c, hc⟩ := exists_compile_openTag
  exact compile_openMarkers (.standard none) 0 openTag hc

/-- A template compiles with the body of a marker open. -/
theorem compile_openTag : (∃ c, compile (.standard none) 0 openTag = .ok c) ∧
    (Options.standard none).openMarkers (scan ((Options.standard none).clean openTag)) =
      some [⟨⟨3, 1⟩, .marker "#a"⟩] := by
  refine ⟨exists_compile_openTag, ?_⟩
  rw [scan_openTag]
  decide

end Stencil
