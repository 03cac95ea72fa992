import Stencil.Proofs.Markup.Steps

/-!
The grammar of events. A position says where in a document the next event stands and which tags are
open there, and each event moves it in one way. The events of a source are a walk through these
positions from the start to past the end: attributes stand in start tags, a start tag ends as it
began, and a tag is closed only while it is the innermost one.
-/

set_option autoImplicit false

namespace Stencil

namespace Place

def inside (tag : Text) : Place := if Tag.holdsText tag.lower then .rawText else .content

theorem inside_eq (tag : Text) : inside tag = .rawText ∨ inside tag = .content := by
  by_cases h : Tag.holdsText tag.lower = true <;> simp [inside, h]

/-- The place after a closing tag. Only the end of the source closes a tag inside a start tag. -/
def closed : Place → Place
  | .content | .rawText => .content
  | .tag _ | .attr _ _ | .ended => .ended

end Place

/-- A place and the tags open there, innermost first. -/
structure Position where
  place : Place
  openTags : List Text

namespace Position

def start : Position := ⟨.content, []⟩

inductive Moves : Position → Event → Position → Prop
  | tagStart (tag : Text) (unary : Bool) (ts : List Text) :
      Moves ⟨.content, ts⟩ (.tagStart tag unary) ⟨.tag ⟨tag, unary⟩, ts⟩
  | tagEndUnary (tag : Text) (ts : List Text) :
      Moves ⟨.tag ⟨tag, true⟩, ts⟩ (.tagEnd tag true) ⟨.content, ts⟩
  | tagEnd (tag : Text) (ts : List Text) :
      Moves ⟨.tag ⟨tag, false⟩, ts⟩ (.tagEnd tag false) ⟨.inside tag, tag :: ts⟩
  | close (place : Place) (tag : Text) (ts : List Text) :
      Moves ⟨place, tag :: ts⟩ (.close tag) ⟨place.closed, ts⟩
  | attrStart (t : StartTag) (name : Text) (ts : List Text) :
      Moves ⟨.tag t, ts⟩ (.attrStart name) ⟨.attr t name, ts⟩
  | attrValue (t : StartTag) (name value : Text) (ts : List Text) :
      Moves ⟨.attr t name, ts⟩ (.attrValue value) ⟨.attr t name, ts⟩
  | attrEnd (t : StartTag) (name : Text) (ts : List Text) :
      Moves ⟨.attr t name, ts⟩ (.attrEnd name) ⟨.tag t, ts⟩
  | chars (place : Place) (content : Text) (ts : List Text)
      (h : place = .content ∨ place = .rawText) :
      Moves ⟨place, ts⟩ (.chars content) ⟨place, ts⟩
  | marker (place : Place) (body : Text) (ts : List Text) (h : place ≠ .ended) :
      Moves ⟨place, ts⟩ (.marker body) ⟨place, ts⟩
  | comment (content : Text) (ts : List Text) :
      Moves ⟨.content, ts⟩ (.comment content) ⟨.content, ts⟩
  | done (place : Place) : Moves ⟨place, []⟩ .done ⟨.ended, []⟩

inductive Reads : Position → List Located → Position → Prop
  | nil (p : Position) : Reads p [] p
  | cons {p q r : Position} {l : Located} {ls : List Located} (h : p.Moves l.event q)
      (t : Reads q ls r) : Reads p (l :: ls) r

theorem Reads.single {p q : Position} {l : Located} (h : p.Moves l.event q) : p.Reads [l] q :=
  .cons h (.nil q)

theorem Reads.append {p q r : Position} {ls ms : List Located} (h : p.Reads ls q)
    (g : q.Reads ms r) : p.Reads (ls ++ ms) r := by
  induction h with
  | nil => exact g
  | cons m _ ih => exact .cons m (ih g)

theorem Moves.unique {p q r : Position} {e : Event} (h : p.Moves e q) (g : p.Moves e r) :
    q = r := by
  cases h <;> cases g <;> rfl

theorem Reads.unique {p q r : Position} {ls : List Located} (h : p.Reads ls q)
    (g : p.Reads ls r) : q = r := by
  induction h with
  | nil =>
    cases g
    rfl
  | cons m _ ih =>
    cases g with
    | cons m' t => exact ih (m.unique m' ▸ t)

theorem reads_closes (spot : Spot) (closed left : List Text) (place : Place) :
    ∃ place', Reads ⟨place, closed ++ left⟩ (closed.map fun tag => ⟨spot, .close tag⟩)
      ⟨place', left⟩ := by
  induction closed generalizing place with
  | nil => exact ⟨place, .nil _⟩
  | cons tag closed ih =>
    obtain ⟨place', h⟩ := ih place.closed
    exact ⟨place', .cons (.close place tag _) h⟩

theorem reads_closes_content (spot : Spot) (closed left : List Text) :
    Reads ⟨.content, closed ++ left⟩ (closed.map fun tag => ⟨spot, .close tag⟩)
      ⟨.content, left⟩ := by
  induction closed with
  | nil => exact .nil _
  | cons tag closed ih => exact .cons (.close .content tag _) ih

end Position

theorem Region.place_ne_ended (region : Region) : region.place ≠ .ended := by
  cases region <;> simp [place]

namespace Scanner

/-- The scanner is at a position. It is in raw text only inside an innermost tag that holds text;
it may have left raw text with no event only where nothing is left of the source. -/
structure StandsAt (s : Scanner) (p : Position) : Prop where
  openTags : s.openTags = p.openTags
  place : s.region.place = p.place ∨ s.rest = [] ∧ s.region = .content ∧ p.place = .rawText
  rawText : ∀ tag, s.region = .rawText tag → Tag.holdsText tag.lower = true ∧
    s.openTags.head? = some tag

theorem StandsAt.place_eq {s : Scanner} {p : Position} (h : s.StandsAt p) (hr : s.rest ≠ []) :
    s.region.place = p.place := by
  rcases h.place with hp | ⟨hrest, -⟩
  · exact hp
  · exact absurd hrest hr

def Step.Walks (step : Step) (p : Position) : Prop :=
  ∃ q, p.Reads step.events q ∧ step.next.StandsAt q

theorem standsAt_pass {s : Scanner} {piece rest : Text} {region : Region}
    (h : ∀ tag, region ≠ .rawText tag) :
    (s.pass piece rest region).StandsAt ⟨region.place, s.openTags⟩ :=
  ⟨rfl, .inl rfl, fun tag ht => absurd ht (h tag)⟩

theorem walks_endTag (s : Scanner) (t : StartTag) (r : Text) :
    (s.endTag t r).Walks ⟨.tag t, s.openTags⟩ := by
  obtain ⟨tag, unary⟩ := t
  cases unary with
  | true =>
    exact ⟨_, .single (.tagEndUnary tag s.openTags), rfl, .inl rfl, fun _ h => by cases h⟩
  | false =>
    refine ⟨_, .single (.tagEnd tag s.openTags), rfl, .inl ?_, fun name h => ?_⟩
    · by_cases hh : Tag.holdsText tag.lower = true <;> simp [endTag, Place.inside, hh, Region.place]
    · by_cases hh : Tag.holdsText tag.lower = true <;> simp [endTag, hh] at h ⊢
      exact ⟨h ▸ hh, h⟩

theorem walks_closingTag (s : Scanner) (r : Text) :
    (s.closingTag r).Walks ⟨.content, s.openTags⟩ := by
  obtain ⟨piece, through, rest, closed, left, -, htags, hstep⟩ := closingTag_closes s r
  rw [hstep, htags]
  exact ⟨⟨.content, left⟩, Position.reads_closes_content _ closed left, rfl, .inl rfl,
    fun _ h => by cases h⟩

theorem endsClosingName_of_sameLetters {tag name : Text} (htag : Tag.holdsText tag.lower = true)
    (hname : Text.sameLetters name tag = true) {c : Char} (hc : c ∈ name) :
    Tag.isSpace c = false ∧ c ≠ '>' := by
  simp only [Text.sameLetters, beq_iff_eq] at hname
  rw [← hname] at htag
  have hlower : c.toLower ∈ name.lower := List.mem_map_of_mem hc
  simp only [Tag.holdsText, decide_eq_true_eq, Bool.decide_or, Bool.or_eq_true] at htag
  have hletter : c.toLower ∈ "style".toList ∨ c.toLower ∈ "script".toList := by
    rcases htag with h | h
    · exact .inl (h ▸ hlower)
    · exact .inr (h ▸ hlower)
  refine ⟨?_, fun h => ?_⟩
  · cases hspace : Tag.isSpace c with
    | false => rfl
    | true =>
      simp only [Tag.isSpace, Bool.or_eq_true, decide_eq_true_eq, or_assoc] at hspace
      rcases hspace with rfl | rfl | rfl | rfl | rfl <;> exact absurd hletter (by decide)
  · subst h
    exact absurd hletter (by decide)

theorem closingTag_of_closesRawText {tag : Text} (htag : Tag.holdsText tag.lower = true)
    {c : Char} {r : Text} (hc : closesRawText tag (c :: r) = true) :
    ∃ name after, Text.splitWhen endsClosingName
        ((r.drop 1).drop ((r.drop 1).takeWhile Tag.isSpace).length) = (name, after) ∧
      tag.sameLetters name = true ∧ name ≠ [] := by
  unfold closesRawText at hc
  split at hc
  next r' heq =>
    cases heq
    simp only [List.drop_succ_cons, List.drop_zero]
    unfold Text.afterCaseless? at hc
    by_cases hname : Text.sameLetters (r'.take tag.length) tag = true
    · rw [if_pos hname] at hc
      have hends {c : Char} := endsClosingName_of_sameLetters htag hname (c := c)
      have hsplit : r' = r'.take tag.length ++ r'.drop tag.length := by simp
      generalize r'.take tag.length = name at hname hends hsplit
      generalize r'.drop tag.length = after at hc hsplit
      subst hsplit
      have hne : name ≠ [] := by
        rintro rfl
        have hempty : tag.lower = [] := (LawfulBEq.eq_of_beq hname).symm
        rw [hempty] at htag
        exact absurd htag (by decide)
      have hspaces : (name ++ after).takeWhile Tag.isSpace = [] := by
        obtain ⟨d, name, rfl⟩ := List.exists_cons_of_ne_nil hne
        simp [(hends List.mem_cons_self).1]
      have hstop : after = [] ∨ endsClosingName after = true := by
        cases after with
        | nil => exact .inl rfl
        | cons d after => exact .inr hc
      refine ⟨name, after, ?_, ?_, hne⟩
      · rw [hspaces]
        refine Text.splitWhen_append_rest_of_mem (fun d hd u => ?_) hstop
        simp [endsClosingName, hends hd]
      · simp only [Text.sameLetters, beq_iff_eq] at hname ⊢
        exact hname.symm
    · simp [hname] at hc
  next => cases hc

theorem walks_closingTag_rawText (s : Scanner) {tag : Text} {ts : List Text}
    (htag : Tag.holdsText tag.lower = true) (hs : s.openTags = tag :: ts) {c : Char} {r : Text}
    (hc : closesRawText tag (c :: r) = true) :
    (s.closingTag (r.drop 1)).Walks ⟨.rawText, tag :: ts⟩ := by
  obtain ⟨name, after, hsplit, hname, hne⟩ := closingTag_of_closesRawText htag hc
  have hclosed : closedBy? name (tag :: ts) = some ([tag], ts) := by
    simp [closedBy?, hname]
  have hempty : name.isEmpty = false := by simpa using hne
  simp only [closingTag, hsplit]
  cases after with
  | nil => exact ⟨_, .nil _, hs, .inr ⟨rfl, rfl, rfl⟩, fun _ h => by cases h⟩
  | cons d after =>
    refine ⟨⟨.content, ts⟩, ?_, ?_, .inl rfl, fun _ h => by cases h⟩
    · simp only [pass, hs, hempty, hclosed]
      exact .single (.close .rawText tag ts)
    · simp only [pass, hs, hempty, hclosed]
      rfl

/-- From the place of the scanner a step reads on in the grammar. -/
theorem Step.Acts.walks {step : Step} {s : Scanner} {t : Text} (h : step.Acts s t)
    (hraw : ∀ tag, s.region = .rawText tag → Tag.holdsText tag.lower = true ∧
      s.openTags.head? = some tag) : step.Walks ⟨s.region.place, s.openTags⟩ := by
  have hstays {s : Scanner} (hraw : ∀ tag, s.region = .rawText tag →
        Tag.holdsText tag.lower = true ∧ s.openTags.head? = some tag)
      (piece rest : Text) {region : Region} (h : region.StaysIn s.region) :
      (s.pass piece rest region).StandsAt ⟨s.region.place, s.openTags⟩ :=
    ⟨rfl, .inl h.place, fun tag htag => hraw tag (h.rawText tag htag)⟩
  induction h with
  | silent h => exact ⟨_, .nil _, hstays hraw _ _ h⟩
  | marker h _ =>
    exact ⟨_, .single (.marker _ _ _ (Region.place_ne_ended _)), hstays hraw _ _ h⟩
  | chars h => exact ⟨_, .single (.chars _ _ _ h), hstays hraw _ _ (.refl _)⟩
  | @endTag s tag rest h =>
    rw [h]
    exact walks_endTag s tag rest
  | attrStart h =>
    rw [h]
    exact ⟨_, .single (.attrStart _ _ _), standsAt_pass fun _ h => by cases h⟩
  | attrValue h hregion =>
    refine ⟨_, .single ?_, hstays hraw _ _ hregion⟩
    rw [h]
    exact .attrValue _ _ _ _
  | attrEnd h =>
    rw [h]
    exact ⟨_, .single (.attrEnd _ _ _), standsAt_pass fun _ h => by cases h⟩
  | endAttr h hstep ih =>
    obtain ⟨q, hq, hnext⟩ := ih fun _ h => by cases h
    rw [h]
    exact ⟨q, .cons (.attrEnd _ _ _) hq, hnext⟩
  | startTag h =>
    rw [h]
    exact ⟨_, .single (.tagStart _ _ _), standsAt_pass fun _ h => by cases h⟩
  | @closingTag s r h =>
    rcases h with h | ⟨tag, h, hcloses⟩
    · rw [h]
      exact walks_closingTag s r
    · obtain ⟨htag, hhead⟩ := hraw tag h
      obtain ⟨ts, hts⟩ := List.head?_eq_some_iff.1 hhead
      rw [h, hts]
      exact walks_closingTag_rawText s htag hts hcloses
  | comment h =>
    rw [h]
    exact ⟨_, .single (.comment _ _), standsAt_pass fun _ h => by cases h⟩

theorem walks_step (s : Scanner) {c : Char} {r : Text} (hr : s.rest = c :: r) {p : Position}
    (hs : s.StandsAt p) : (s.step c r).Walks p := by
  have hplace := hs.place_eq (by simp [hr])
  obtain ⟨place, ts⟩ := p
  obtain rfl : s.openTags = ts := hs.openTags
  obtain rfl : s.region.place = place := hplace
  exact (acts_step s c r).walks hs.rawText

theorem reads_finish (s : Scanner) {p : Position} (hs : s.StandsAt p) :
    p.Reads s.finish ⟨.ended, []⟩ := by
  obtain ⟨place, ts⟩ := p
  obtain rfl : s.openTags = ts := hs.openTags
  obtain ⟨place', h⟩ := Position.reads_closes s.spot s.openTags [] place
  rw [List.append_nil] at h
  exact h.append (.single (.done place'))

theorem reads_run (s : Scanner) {p : Position} (hs : s.StandsAt p) :
    p.Reads s.run ⟨.ended, []⟩ := by
  fun_induction run s generalizing p with
  | case1 s h => exact reads_finish s hs
  | case2 s c r h ih =>
    obtain ⟨q, hq, hnext⟩ := walks_step s h hs
    exact hq.append (ih hnext)

theorem standsAt_start (source : Text) : (Scanner.start source).StandsAt .start :=
  ⟨rfl, .inl rfl, fun _ h => by cases h⟩

end Scanner

/-- The events of every source follow the grammar. -/
theorem reads_scan (source : Text) : Position.start.Reads (scan source) ⟨.ended, []⟩ :=
  Scanner.reads_run _ (Scanner.standsAt_start source)

end Stencil
