import Stencil.Proofs.Template.Levels
import Stencil.Proofs.Template.WellNested

/-!
What is open, kept three times over. The draft holds its sections with the elements open in each,
the assembly lists its openings, and the scanner lists its open tags. After every event that is
taken in, the openings are the levels of the draft one by one, and their tags are the open tags.
So nothing that a closing tag or a closing marker takes off the draft can be missing there.
-/

set_option autoImplicit false

namespace Stencil

variable {δ : Dialect}

namespace Assembly

/-- What an assembly holds of the start tag and the attribute around a place. In a branch inside
the tag the attribute is text of that branch. -/
def AtPlace (a : Assembly δ) : Place → Prop
  | .content | .rawText => a.tag = none ∧ a.attr = none
  | .tag t => (∃ draft, a.tag = some draft ∧ draft.head.tag = t.name) ∧ a.attr = none
  | .attr t _ => ∃ draft, a.tag = some draft ∧ draft.head.tag = t.name ∧
      (draft.branch.isSome → a.attr = none)
  | .ended => True

/-- The openings are the levels of the draft, and their tags are the tags open at the position.
Text is kept only inside an innermost element that holds it. -/
structure Lockstep (o : Options δ) (a : Assembly δ) (p : Position) : Prop where
  levels : a.markup.levels = a.openings.flatMap Opening.levels
  openTags : a.openings.filterMap Opening.tag? = p.openTags
  place : a.AtPlace p.place
  rawText : a.rawText.isSome →
    p.place = .rawText ∧ ∃ tag ∈ p.openTags.head?, o.keepsText tag = true

section

variable {o : Options δ} {a b : Assembly δ} {p q : Position}

theorem lockstep_start : Lockstep o (empty : Assembly δ) .start :=
  ⟨rfl, rfl, ⟨rfl, rfl⟩, fun h => by cases h⟩

theorem Lockstep.rawText_eq_none (h : Lockstep o a p) (hp : p.place ≠ .rawText) :
    a.rawText = none := by
  cases hr : a.rawText with
  | none => rfl
  | some d => exact absurd (h.rawText (by simp [hr])).1 hp

theorem Lockstep.keeps {place next : Place} {ts : List Text} (h : Lockstep o a ⟨place, ts⟩)
    (hm : b.markup.levels = a.markup.levels) (ho : b.openings = a.openings) (hs : b.AtPlace next)
    (hr : b.rawText.isSome → a.rawText.isSome ∧ next = .rawText) : Lockstep o b ⟨next, ts⟩ := by
  refine ⟨?_, ho ▸ h.openTags, hs, fun hb => ?_⟩
  · rw [hm, ho, h.levels]
  · obtain ⟨ha, hplace⟩ := hr hb
    exact ⟨hplace, (h.rawText ha).2⟩

def EndsText (tag : Text) (before after : Option (TextDraft δ)) : Prop :=
  (∀ d ∈ before, d.sections = []) ∧ after = none ∨ after = before ∧ Tag.holdsText tag = false

theorem endRawText_ok {tag : Text} {line : Nat} (h : a.endRawText tag line = .ok b) :
    ∃ markup rawText, b = { a with markup, rawText } ∧ markup.levels = a.markup.levels ∧
      EndsText tag a.rawText rawText := by
  unfold endRawText at h
  split at h
  next hraw =>
    cases h
    exact ⟨a.markup, a.rawText, rfl, rfl, .inl (by simp [hraw])⟩
  next d hraw =>
    split at h
    next hholds =>
      obtain ⟨parts, hparts, h⟩ := exists_of_bind_ok h
      cases h
      have hd := TextDraft.sections_of_finish (Draft.of_atLine_ok hparts)
      exact ⟨_, none, rfl, MarkupDraft.levels_add _ _, .inl ⟨by simpa [hraw] using hd, rfl⟩⟩
    next hholds =>
      cases h
      exact ⟨a.markup, a.rawText, rfl, rfl, .inr ⟨rfl, by simpa using hholds⟩⟩

theorem define_eq (o : Options δ) (head : ElementHead δ) (body : Option (Body δ)) (line : Nat) :
    ∃ openings partials warnings, a.define o head body line = { a with
        openings, partials, warnings } ∧
      openings.flatMap Opening.levels = a.openings.flatMap Opening.levels ∧
      openings.filterMap Opening.tag? = a.openings.filterMap Opening.tag? := by
  unfold define
  split
  · exact ⟨_, _, _, rfl, rfl, rfl⟩
  · split
    · exact ⟨a.openings, a.partials, a.warnings, rfl, rfl, rfl⟩
    next tag handler nested templates rest hos =>
      exact ⟨_, _, _, rfl, by simp [hos, Opening.levels], by simp [hos, Opening.tag?]⟩
    · exact ⟨_, _, _, rfl, rfl, rfl⟩

def namespacesAfter (a : Assembly δ) (tag : Text) : List Namespace :=
  if (Namespace.ofTag? tag).isSome then a.namespaces.tail else a.namespaces

theorem close_eq (o : Options δ) (tag : Text) (line : Nat) :
    a.close o tag line = match a.openings with
      | .element _ :: rest =>
        { a with openings := rest, namespaces := a.namespacesAfter tag }.closeElement tag line
      | .custom _ handler nested templates :: rest =>
        { a with openings := rest, namespaces := a.namespacesAfter tag }.closeCustom o tag handler
          nested templates line
      | _ => failure .unbalancedSection line (some (Node.tagEnd tag)) := by
  unfold close namespacesAfter
  by_cases hns : (Namespace.ofTag? tag).isSome = true <;> simp only [hns] <;> rfl

theorem takeElement?_endRawText {tag t : Text} {line : Nat} {ls : List Level}
    (hl : a.markup.levels = .element t :: ls) (h : a.endRawText tag line = .ok b) :
    ∃ e d rawText, b.markup.takeElement? = some (e, d) ∧ d.levels = ls ∧
      b = { a with markup := b.markup, rawText } ∧ EndsText tag a.rawText rawText := by
  obtain ⟨markup, rawText, rfl, hmarkup, hraw⟩ := endRawText_ok h
  obtain ⟨e, d, htake, -, hd⟩ := MarkupDraft.takeElement?_of_levels (hmarkup.trans hl)
  exact ⟨e, d, rawText, htake, hd, rfl, hraw⟩

theorem closeElement_ok {tag t : Text} {line : Nat} {ls : List Level}
    (hl : a.markup.levels = .element t :: ls) (h : a.closeElement tag line = .ok b) :
    ∃ markup rawText, b = { a with markup, rawText } ∧ markup.levels = ls ∧
      EndsText tag a.rawText rawText := by
  obtain ⟨a₁, hend, h⟩ := exists_of_bind_ok h
  obtain ⟨e, d, rawText, htake, hd, ha₁, hraw⟩ := takeElement?_endRawText hl hend
  simp only [htake] at h
  cases h
  exact ⟨_, rawText, by rw [ha₁], (MarkupDraft.levels_add _ _).trans hd, hraw⟩

theorem closeCustom_ok {tag t : Text} {handler : δ.TagHandler} {nested : Bool}
    {templates : Dict (Body δ)} {line : Nat} {ls : List Level}
    (hl : a.markup.levels = .content :: .element t :: ls)
    (h : a.closeCustom o tag handler nested templates line = .ok b) :
    ∃ markup rawText openings partials warnings,
      b = { a with markup, rawText, openings, partials, warnings } ∧ markup.levels = ls ∧
      openings.flatMap Opening.levels = a.openings.flatMap Opening.levels ∧
      openings.filterMap Opening.tag? = a.openings.filterMap Opening.tag? ∧
      EndsText tag a.rawText rawText := by
  obtain ⟨content, d₁, hcustom, hd₁⟩ := MarkupDraft.closeCustom_of_levels hl
  simp only [closeCustom, hcustom] at h
  obtain ⟨a₁, hend, h⟩ := exists_of_bind_ok h
  obtain ⟨e, d, rawText, htake, hd, ha₁, hraw⟩ :=
    takeElement?_endRawText (a := { a with markup := d₁ }) hd₁ hend
  simp only [htake] at h
  split at h
  · cases h
    obtain ⟨openings, partials, warnings, hdefine, hlevels, htags⟩ :=
      define_eq (a := { a₁ with markup := d }) o e.head
        (if content.isEmpty then none else some content) line
    rw [hdefine]
    rw [ha₁] at hlevels htags ⊢
    exact ⟨d, rawText, openings, partials, warnings, rfl, hd, hlevels, htags, hraw⟩
  · cases h
    rw [ha₁]
    exact ⟨_, rawText, a.openings, a.partials, a.warnings, rfl,
      (MarkupDraft.levels_add _ _).trans hd, rfl, rfl, hraw⟩

structure Closes (a : Assembly δ) (name : Text) (b : Assembly δ) : Prop where
  tag : b.tag = a.tag
  attr : b.attr = a.attr
  levels : b.markup.levels = b.openings.flatMap Opening.levels
  openTags : b.openings.filterMap Opening.tag? = (a.openings.filterMap Opening.tag?).tail
  /-- no body of a marker is closed -/
  bodies : b.markup.levels.count .body = a.markup.levels.count .body
  rawText : EndsText name a.rawText b.rawText

theorem Lockstep.closes {tag : Text} {line : Nat} (h : Lockstep o a p)
    (hs : a.close o tag line = .ok b) : a.Closes tag b := by
  have hlevels := h.levels
  rw [close_eq] at hs
  generalize a.namespacesAfter tag = namespaces at hs
  split at hs
  next t rest hos =>
    simp only [hos, List.flatMap_cons, Opening.levels, List.cons_append, List.nil_append]
      at hlevels
    obtain ⟨markup, rawText, rfl, hm, hr⟩ :=
      closeElement_ok (a := { a with openings := rest, namespaces }) hlevels hs
    exact ⟨rfl, rfl, hm, by simp [hos, Opening.tag?], by simp [hlevels, hm], hr⟩
  next t handler nested templates rest hos =>
    simp only [hos, List.flatMap_cons, Opening.levels, List.cons_append, List.nil_append]
      at hlevels
    obtain ⟨markup, rawText, openings, partials, warnings, rfl, hm, ho, ht, hr⟩ :=
      closeCustom_ok (a := { a with openings := rest, namespaces }) hlevels hs
    exact ⟨rfl, rfl, hm.trans ho.symm, by simp [ht, hos, Opening.tag?], by simp [hlevels, hm], hr⟩
  next => cases hs

theorem Lockstep.close {place : Place} {tag : Text} {ts : List Text} {line : Nat}
    (h : Lockstep o a ⟨place, tag :: ts⟩) (hs : a.close o tag line = .ok b) :
    Lockstep o b ⟨place.closed, ts⟩ := by
  have hc := h.closes hs
  refine ⟨hc.levels, by rw [hc.openTags, h.openTags]; rfl, ?_, fun hb => ?_⟩
  · have hp := h.place
    cases place with
    | content | rawText => exact ⟨hc.tag.trans hp.1, hc.attr.trans hp.2⟩
    | tag | attr | ended => trivial
  · -- text that is still kept after the tag would be that of another element
    rcases hc.rawText with ⟨-, hnone⟩ | ⟨hsame, hholds⟩
    · simp [hnone] at hb
    · obtain ⟨-, t, ht, hk⟩ := h.rawText (hsame ▸ hb)
      cases ht
      simp [Options.keepsText, hholds] at hk

theorem Lockstep.tagEnd {t : StartTag} {ts : List Text} {line : Nat}
    (h : Lockstep o a ⟨.tag t, ts⟩) (hs : a.tagEnd o t.name t.unary line = .ok b) :
    Lockstep o b (if t.unary then ⟨.content, ts⟩ else ⟨.inside t.name, t.name :: ts⟩) := by
  obtain ⟨⟨draft, htag, hname⟩, hattr⟩ := h.place
  have hraw := h.rawText_eq_none (by simp)
  obtain ⟨tag, unary⟩ := t
  simp only [Assembly.tagEnd, htag] at hs
  split at hs
  · cases hs
  · cases hs
    cases unary with
    | true =>
      simp only [if_true, addUnary]
      have hkeeps (markup : MarkupDraft δ) (hm : markup.levels = a.markup.levels) :
          Lockstep o { a with tag := none, markup } ⟨.content, ts⟩ :=
        h.keeps hm rfl ⟨rfl, hattr⟩ fun hb => by simp [hraw] at hb
      split
      · exact hkeeps _ (MarkupDraft.levels_add _ _)
      · split
        · exact hkeeps _ rfl
        · exact hkeeps _ (MarkupDraft.levels_add _ _)
    | false =>
      have hinside {c : Assembly δ} (ht : c.tag = none) (ha : c.attr = none) :
          c.AtPlace (.inside tag) := by
        rcases Place.inside_eq tag with hi | hi <;> rw [hi] <;> exact ⟨ht, ha⟩
      have hopenTags := h.openTags
      simp only [Bool.false_eq_true, if_false, openElement, hname]
      cases hh : o.handlers.tag? tag with
      | some handler =>
        refine ⟨?_, ?_, hinside rfl hattr, fun hb => ?_⟩
        · simp [Opening.levels, Opener.level, hname, h.levels]
        · simp [Opening.tag?, hopenTags]
        · simp [hraw] at hb
      | none =>
        refine ⟨?_, ?_, hinside rfl hattr, fun hb => ?_⟩
        · simp [Opening.levels, hname, h.levels]
        · simp [Opening.tag?, hopenTags]
        · have hk : o.keepsText tag = true := by
            by_cases hholds : Tag.holdsText tag = true
            · simp [Options.keepsText, hholds, hh]
            · simp [hholds, hraw] at hb
          exact ⟨keepsText_place hk, tag, rfl, hk⟩

theorem Lockstep.attrStart {t : StartTag} {name : Text} {ts : List Text}
    (h : Lockstep o a ⟨.tag t, ts⟩) : Lockstep o (a.attrStart name) ⟨.attr t name, ts⟩ := by
  obtain ⟨⟨⟨head, branch⟩, htag, hname⟩, hattr⟩ := h.place
  have hraw := h.rawText_eq_none (by simp)
  cases branch with
  | none =>
    simp only [Assembly.attrStart, htag]
    exact h.keeps rfl rfl ⟨_, rfl, hname, fun hb => by cases hb⟩ fun hb => by simp [hraw] at hb
  | some draft =>
    simp only [Assembly.attrStart, htag]
    exact h.keeps rfl rfl ⟨_, rfl, hname, fun _ => hattr⟩ fun hb => by simp [hraw] at hb

theorem Lockstep.attrValue {t : StartTag} {name value : Text} {ts : List Text}
    (h : Lockstep o a ⟨.attr t name, ts⟩) :
    Lockstep o (a.attrValue value) ⟨.attr t name, ts⟩ := by
  obtain ⟨⟨head, branch⟩, htag, hname, hbranch⟩ := h.place
  have hraw := h.rawText_eq_none (by simp)
  have hkeeps {c : Assembly δ} (hm : c.markup = a.markup) (ho : c.openings = a.openings)
      (hr : c.rawText = a.rawText) (hp : c.AtPlace (.attr t name)) :
      Lockstep o c ⟨.attr t name, ts⟩ :=
    h.keeps (hm ▸ rfl) ho hp fun hb => by simp [hr, hraw] at hb
  cases branch with
  | some draft =>
    simp only [Assembly.attrValue, htag]
    exact hkeeps rfl rfl rfl ⟨_, rfl, hname, fun _ => hbranch rfl⟩
  | none =>
    cases hattr : a.attr with
    | none =>
      simp only [Assembly.attrValue, htag, hattr]
      exact h
    | some attr =>
      obtain ⟨attrName, before, draft⟩ := attr
      cases draft <;> simp only [Assembly.attrValue, htag, hattr] <;>
        exact hkeeps rfl rfl rfl ⟨_, rfl, hname, fun hb => by cases hb⟩

theorem Lockstep.attrEnd {t : StartTag} {name : Text} {ts : List Text} {line : Nat}
    (h : Lockstep o a ⟨.attr t name, ts⟩) (hs : a.attrEnd o name line = .ok b) :
    Lockstep o b ⟨.tag t, ts⟩ := by
  obtain ⟨⟨head, branch⟩, htag, hname, hbranch⟩ := h.place
  have hraw := h.rawText_eq_none (by simp)
  have hkeeps {c : Assembly δ} (hm : c.markup = a.markup) (ho : c.openings = a.openings)
      (hr : c.rawText = a.rawText) (hp : c.AtPlace (.tag t)) : Lockstep o c ⟨.tag t, ts⟩ :=
    h.keeps (hm ▸ rfl) ho hp fun hb => by simp [hr, hraw] at hb
  cases branch with
  | some draft =>
    simp only [Assembly.attrEnd, htag] at hs
    cases hs
    exact hkeeps rfl rfl rfl ⟨⟨_, rfl, hname⟩, hbranch rfl⟩
  | none =>
    cases hattr : a.attr with
    | none =>
      simp only [Assembly.attrEnd, htag, hattr] at hs
      cases hs
      exact hkeeps rfl rfl rfl ⟨⟨_, htag, hname⟩, hattr⟩
    | some attr =>
      simp only [Assembly.attrEnd, htag, hattr] at hs
      obtain ⟨value, -, hs⟩ := exists_of_bind_ok hs
      cases hs
      split <;> exact hkeeps rfl rfl rfl ⟨⟨_, rfl, hname⟩, rfl⟩

theorem exists_marker_of_levels {openings : List (Opening δ)} {ls : List Level}
    (h : openings.flatMap Opening.levels = .body :: ls) :
    ∃ name rest, openings = .marker name :: rest ∧ rest.flatMap Opening.levels = ls := by
  match openings, h with
  | .marker name :: rest, h => exact ⟨name, rest, rfl, (List.cons.inj h).2⟩
  | .element _ :: _, h => cases h
  | .custom _ _ _ _ :: _, h => cases h

theorem follow_eq (o : Options δ) {change : Change δ} {ls : List Level}
    (h : change.Levels (a.openings.flatMap Opening.levels) ls) (expression : Text) (line : Nat) :
    ∃ openings warnings, a.follow o expression line change = { a with openings, warnings } ∧
      openings.flatMap Opening.levels = ls ∧
      openings.filterMap Opening.tag? = a.openings.filterMap Opening.tag? := by
  cases change with
  | none => exact ⟨a.openings, a.warnings, rfl, h.symm, rfl⟩
  | opened name => exact ⟨_, a.warnings, rfl, h.symm, rfl⟩
  | closed definition =>
    obtain ⟨name, rest, hos, hrest⟩ := exists_marker_of_levels h
    simp only [follow, hos]
    split
    · exact ⟨rest, _, rfl, hrest, rfl⟩
    · exact ⟨rest, a.warnings, rfl, hrest, rfl⟩

theorem AtPlace.attr_eq_none {place : Place} (h : a.AtPlace place) (hp : place ≠ .ended)
    {head : ElementHead δ} {draft : TextDraft δ} (ht : a.tag = some ⟨head, some draft⟩) :
    a.attr = none := by
  cases place with
  | content | rawText => exact h.2
  | tag t => exact h.2
  | attr t name =>
    obtain ⟨_, htag, -, hbranch⟩ := h
    rw [ht] at htag
    cases htag
    exact hbranch rfl
  | ended => exact absurd rfl hp

theorem AtPlace.marked {place : Place} (h : a.AtPlace place)
    (htag : b.tag.map (fun t => t.head.tag) = a.tag.map fun t => t.head.tag)
    (hattr : b.attr.isSome → a.attr.isSome)
    (hbranch : ∀ head draft, b.tag = some ⟨head, some draft⟩ → b.attr = none) :
    b.AtPlace place := by
  have hnone (ha : a.attr = none) : b.attr = none := by
    cases hb : b.attr with
    | none => rfl
    | some _ => simp [ha, hb] at hattr
  have hsome {draft : TagDraft δ} (ha : a.tag = some draft) :
      ∃ d, b.tag = some d ∧ d.head.tag = draft.head.tag := by
    simpa [ha] using htag
  cases place with
  | content | rawText => exact ⟨by simpa [h.1] using htag, hnone h.2⟩
  | tag t =>
    obtain ⟨⟨draft, ha, hname⟩, hattr⟩ := h
    obtain ⟨d, hb, hd⟩ := hsome ha
    exact ⟨⟨d, hb, hd.trans hname⟩, hnone hattr⟩
  | attr t name =>
    obtain ⟨draft, ha, hname, -⟩ := h
    obtain ⟨⟨head, branch⟩, hb, hd⟩ := hsome ha
    refine ⟨_, hb, hd.trans hname, fun hsome => ?_⟩
    obtain ⟨draft, rfl⟩ := Option.isSome_iff_exists.1 hsome
    exact hbranch head draft hb
  | ended => trivial

theorem Lockstep.marked (h : Lockstep o a p) (hm : b.markup.levels = a.markup.levels)
    (ho : b.openings = a.openings) (hr : b.rawText.isSome = a.rawText.isSome)
    (htag : b.tag.map (fun t => t.head.tag) = a.tag.map fun t => t.head.tag)
    (hattr : b.attr.isSome → a.attr.isSome)
    (hbranch : ∀ head draft, b.tag = some ⟨head, some draft⟩ → b.attr = none) :
    Lockstep o b p :=
  h.keeps hm ho (h.place.marked htag hattr hbranch) fun hb => by
    rw [hr] at hb
    exact ⟨hb, (h.rawText hb).1⟩

theorem Lockstep.turns (h : Lockstep o a p) (hp : p.place ≠ .ended) (ht : a.Turns b) :
    Lockstep o b p := by
  cases ht with
  | @attr name value draft d hattr hd =>
    refine h.marked rfl rfl rfl rfl (fun _ => by rw [hattr]; rfl) fun head branch htag => ?_
    rw [h.place.attr_eq_none hp htag] at hattr
    cases hattr
  | @branch head draft d htag hd =>
    exact h.marked rfl rfl rfl (by rw [htag]; rfl) id fun _ _ _ => h.place.attr_eq_none hp htag
  | @rawText draft d hraw hd =>
    exact h.marked rfl rfl (by rw [hraw]; rfl) rfl id
      fun _ _ htag => h.place.attr_eq_none hp htag
  | markup hd =>
    exact h.marked (MarkupDraft.levels_turn hd) rfl rfl rfl id
      fun _ _ htag => h.place.attr_eq_none hp htag

theorem Lockstep.marks {mode : Mode} {expression : Text} {line : Nat} (h : Lockstep o a p)
    (hp : p.place ≠ .ended) (hm : Marks o a mode expression line b) : Lockstep o b p := by
  cases hm with
  | @branch head draft d change htag hd =>
    exact h.marked (by simp) (by simp) (by simp) (by simp [htag]) (by simp)
      fun _ _ _ => by simpa using h.place.attr_eq_none hp htag
  | @branchEnd head draft d change parts htag hd hparts =>
    exact h.marked (by simp) (by simp) (by simp) (by simp [htag]) (by simp)
      fun _ _ _ => by simpa using h.place.attr_eq_none hp htag
  | @attr attr d change hattr htag hd =>
    exact h.marked (by simp) (by simp) (by simp) (by simp) (by simp [hattr])
      fun head draft hb => absurd (by simpa using hb) (htag head draft)
  | @tagValue head e htag hattr hmode he =>
    exact h.marked rfl rfl rfl (by rw [htag]; rfl) id fun _ _ _ => hattr
  | @tagBranch head d change htag hattr hd =>
    exact h.marked (by simp) (by simp) (by simp) (by simp [htag]) (by simp)
      fun _ _ _ => by simpa using hattr
  | @rawText draft d change htag hattr hraw hd =>
    exact h.marked (by simp) (by simp) (by simp [hraw]) (by simp) (by simp)
      fun _ _ _ => by simpa using hattr
  | @markup d change htag hattr hraw hd =>
    have hlevels := MarkupDraft.levels_apply hd
    rw [h.levels] at hlevels
    obtain ⟨openings, warnings, hfollow, ho, ht⟩ := follow_eq
      (a := { a with markup := d }.record change) o (by simpa using hlevels) expression line
    rw [hfollow]
    refine ⟨by simpa using ho.symm, ?_, h.place.marked (by simp) (by simp) ?_, fun hb => ?_⟩
    · rw [ht, record_openings]
      exact h.openTags
    · exact fun _ _ _ => by simpa using hattr
    · exact h.rawText (by simpa using hb)

theorem Lockstep.marker {body : Text} {line : Nat} (h : Lockstep o a p) (hp : p.place ≠ .ended)
    (hs : a.marker o body line = .ok b) : Lockstep o b p := by
  rcases marker_cases hs with ⟨-, ht⟩ | ⟨-, ⟨-, rfl⟩ | hm⟩
  · exact h.turns hp ht
  · exact h
  · exact h.marks hp hm

theorem Lockstep.step {l : Located} (h : Lockstep o a p) (hm : p.Moves l.event q)
    (hs : step o a l = .ok b) : Lockstep o b q := by
  obtain ⟨spot, event⟩ := l
  -- noting the line changes nothing that is kept in step
  have h : Lockstep o { a with lastLine := spot.line } p := ⟨h.1, h.2, h.3, h.4⟩
  cases hm with
  | tagStart tag unary ts =>
    cases hs
    exact h.keeps rfl rfl ⟨⟨_, rfl, rfl⟩, h.place.2⟩ fun hb => by
      have hraw := h.rawText_eq_none (by simp)
      simp [Assembly.tagStart, hraw] at hb
  | tagEndUnary tag ts =>
    exact h.tagEnd hs
  | tagEnd tag ts =>
    exact h.tagEnd hs
  | close place tag ts => exact h.close hs
  | attrStart t name ts =>
    cases hs
    exact h.attrStart
  | attrValue t name value ts =>
    cases hs
    exact h.attrValue
  | attrEnd t name ts => exact h.attrEnd hs
  | chars place content ts hplace =>
    cases hs
    simp only [chars]
    split
    next d hraw =>
      have hsome : Option.isSome ({ a with lastLine := spot.line }).rawText := by rw [hraw]; rfl
      refine h.keeps rfl rfl ?_ fun _ => ⟨hsome, (h.rawText hsome).1⟩
      rcases hplace with rfl | rfl <;> exact h.place
    next hraw =>
      refine h.keeps (MarkupDraft.levels_addText _ _) rfl ?_ fun hb => ⟨hb, (h.rawText hb).1⟩
      rcases hplace with rfl | rfl <;> exact h.place
  | marker place body ts hplace => exact h.marker hplace hs
  | comment content ts =>
    cases hs
    exact h.keeps (MarkupDraft.levels_add _ _) rfl h.place fun hb => ⟨hb, (h.rawText hb).1⟩
  | done place =>
    cases hs
    refine h.keeps rfl rfl trivial fun hb => ?_
    obtain ⟨-, t, ht, -⟩ := h.rawText hb
    cases ht

theorem Lockstep.run {ls : List Located} (hr : p.Reads ls q) (h : Lockstep o a p)
    (hs : ls.foldlM (Assembly.step o) a = .ok b) : Lockstep o b q := by
  induction hr generalizing a with
  | nil =>
    cases hs
    exact h
  | cons m t ih =>
    rw [List.foldlM_cons] at hs
    obtain ⟨c, hc, hs⟩ := exists_of_bind_ok hs
    exact ih (h.step m hc) hs

end

/-- Whatever a closing tag or a closing marker takes next is there. Only the text of an element
that holds text can keep its closing tag from being taken in. -/
structure Closable (a : Assembly δ) : Prop where
  element : ∀ {tag rest}, a.openings = .element tag :: rest →
    ∀ {name line b}, a.endRawText name line = .ok b → b.markup.takeElement?.isSome
  custom : ∀ {tag handler nested templates rest},
    a.openings = .custom tag handler nested templates :: rest →
    ∃ content markup, a.markup.closeCustom = .ok (content, markup) ∧
      ∀ {name line b}, { a with markup }.endRawText name line = .ok b →
        b.markup.takeElement?.isSome
  marker : ∀ {expression line markup change},
    Draft.close a.markup expression line = .ok (markup, change) →
    ∃ name rest, a.openings = .marker name :: rest

theorem Lockstep.closable {o : Options δ} {a : Assembly δ} {p : Position} (h : Lockstep o a p) :
    a.Closable := by
  have hlevels := h.levels
  refine ⟨fun hos => ?_, fun hos => ?_, fun hclose => ?_⟩
  · intro name line b hend
    rw [hos] at hlevels
    obtain ⟨e, d, -, htake, -⟩ := takeElement?_endRawText hlevels hend
    rw [htake]
    rfl
  · rw [hos] at hlevels
    obtain ⟨content, markup, hcustom, hmarkup⟩ := MarkupDraft.closeCustom_of_levels hlevels
    refine ⟨content, markup, hcustom, fun hend => ?_⟩
    obtain ⟨e, d, -, htake, -⟩ := takeElement?_endRawText (a := { a with markup }) hmarkup hend
    rw [htake]
    rfl
  · obtain ⟨-, hbody⟩ := MarkupDraft.levels_close hclose
    rw [h.levels] at hbody
    obtain ⟨name, rest, hos, -⟩ := exists_marker_of_levels hbody
    exact ⟨name, rest, hos⟩

end Assembly

/-- The scanner gets to another one by steps that read these events. -/
inductive Scanner.Reaches : Scanner → List Located → Scanner → Prop
  | refl (s : Scanner) : Reaches s [] s
  | step {s t : Scanner} {c : Char} {r : Text} {ls : List Located} (hs : s.rest = c :: r)
      (h : (s.step c r).next.Reaches ls t) : Reaches s ((s.step c r).events ++ ls) t

theorem Scanner.Reaches.standsAt {s t : Scanner} {ls : List Located} {p : Position}
    (h : s.Reaches ls t) (hp : s.StandsAt p) : ∃ q, p.Reads ls q ∧ t.StandsAt q := by
  induction h generalizing p with
  | refl s => exact ⟨p, .nil p, hp⟩
  | step hs h ih =>
    obtain ⟨q, hq, hnext⟩ := Scanner.walks_step _ hs hp
    obtain ⟨q', hq', ht⟩ := ih hnext
    exact ⟨q', hq.append hq', ht⟩

theorem Position.Reads.of_append {p r : Position} {ls ms : List Located}
    (h : p.Reads (ls ++ ms) r) : ∃ q, p.Reads ls q ∧ q.Reads ms r := by
  induction ls generalizing p with
  | nil => exact ⟨p, .nil p, h⟩
  | cons l ls ih =>
    cases h with
    | cons m t =>
      obtain ⟨q, hq, ht⟩ := ih t
      exact ⟨q, .cons m hq, ht⟩

/-- After every event of a source that is taken in, the openings are the levels of the draft, their
tags are the tags open there, and what is closed next can be closed. -/
theorem lockstep_scan (o : Options δ) {source : Text} {ls ms : List Located} {a : Assembly δ}
    (hscan : scan source = ls ++ ms) (ha : ls.foldlM (Assembly.step o) .empty = .ok a) :
    a.markup.levels = a.openings.flatMap Opening.levels ∧
      (∃ p, Position.start.Reads ls p ∧ a.openings.filterMap Opening.tag? = p.openTags) ∧
      (∀ s, (Scanner.start source).Reaches ls s →
        a.openings.filterMap Opening.tag? = s.openTags) ∧
      a.Closable := by
  obtain ⟨p, hp, -⟩ := (hscan ▸ reads_scan source).of_append
  have h : a.Lockstep o p := Assembly.lockstep_start.run hp ha
  refine ⟨h.levels, ⟨p, hp, h.openTags⟩, fun s hs => ?_, h.closable⟩
  obtain ⟨q, hq, hstands⟩ := hs.standsAt (Scanner.standsAt_start source)
  rw [h.openTags, hstands.openTags, hp.unique hq]

theorem lockstep_scan_content : ∃ a : Assembly .standard,
    [⟨⟨1, 1⟩, .tagStart "content" false⟩, ⟨⟨8, 1⟩, .tagEnd "content" false⟩,
      ⟨⟨10, 1⟩, .tagStart "b" false⟩, ⟨⟨11, 1⟩, .tagEnd "b" false⟩].foldlM
        (Assembly.step (.standard none)) .empty = .ok a ∧
      a.markup.levels = [.element "b", .content, .element "content"] ∧
      a.markup.levels = a.openings.flatMap Opening.levels ∧
      (∃ p : Position, a.openings.filterMap Opening.tag? = p.openTags) ∧ a.Closable := by
  have hscan : scan "<content><b>" =
      [⟨⟨1, 1⟩, .tagStart "content" false⟩, ⟨⟨8, 1⟩, .tagEnd "content" false⟩,
        ⟨⟨10, 1⟩, .tagStart "b" false⟩, ⟨⟨11, 1⟩, .tagEnd "b" false⟩] ++
      [⟨⟨12, 1⟩, .close "b"⟩, ⟨⟨12, 1⟩, .close "content"⟩, ⟨⟨12, 1⟩, .done⟩] := by
    rw [scan_eq_runFor]
    decide
  obtain ⟨hlevels, ⟨p, -, htags⟩, -, hclosable⟩ := lockstep_scan (.standard none) hscan rfl
  exact ⟨_, rfl, rfl, hlevels, ⟨p, htags⟩, hclosable⟩

end Stencil
