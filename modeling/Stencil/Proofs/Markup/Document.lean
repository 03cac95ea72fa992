import Stencil.Proofs.Markup.Grammar

/-!
The events of a source as a document: content, in which elements nest, and then the end. Only a
source that ends inside a start tag is cut off there, and then nothing follows but the closing of
the elements around. A walk through the positions of the grammar is gathered into elements from
the left: what has been read is a content for every tag that is open, and each event adds to the
innermost one or closes it.
-/

set_option autoImplicit false

namespace Stencil

inductive Event.InValue : Event → Prop
  | value {value : Text} (h : value ≠ []) : InValue (.attrValue value)
  | marker (body : Text) : InValue (.marker body)

inductive Event.InHeldText : Event → Prop
  | chars {text : Text} (h : text ≠ []) : InHeldText (.chars text)
  | marker (body : Text) : InHeldText (.marker body)

namespace Document

inductive InTag : List Event → Prop
  | nil : InTag []
  | marker (body : Text) {es : List Event} (h : InTag es) : InTag (.marker body :: es)
  | attr (name : Text) {vs es : List Event} (hv : ∀ e ∈ vs, e.InValue) (h : InTag es) :
      InTag (.attrStart name :: (vs ++ .attrEnd name :: es))

/-- Text, markers, comments and whole elements. An element is closed by its own name unless it is
unary, and one that holds text has no elements in it. -/
inductive Content : List Event → Prop
  | nil : Content []
  | chars {text : Text} {es : List Event} (ht : text ≠ []) (h : Content es) :
      Content (.chars text :: es)
  | marker (body : Text) {es : List Event} (h : Content es) : Content (.marker body :: es)
  | comment (text : Text) {es : List Event} (h : Content es) : Content (.comment text :: es)
  | unary (tag : Text) {inTag es : List Event} (ht : InTag inTag) (h : Content es) :
      Content (.tagStart tag true :: (inTag ++ .tagEnd tag true :: es))
  | element {tag : Text} {inTag children es : List Event} (ht : InTag inTag)
      (htag : Tag.holdsText tag.lower = false) (hc : Content children) (h : Content es) :
      Content (.tagStart tag false :: (inTag ++ .tagEnd tag false ::
        (children ++ .close tag :: es)))
  | textHolder {tag : Text} {inTag held es : List Event} (ht : InTag inTag)
      (htag : Tag.holdsText tag.lower = true) (hc : ∀ e ∈ held, e.InHeldText) (h : Content es) :
      Content (.tagStart tag false :: (inTag ++ .tagEnd tag false :: (held ++ .close tag :: es)))

/-- Content that is cut off at a place in a start tag. The elements around that tag are closed and
nothing else follows. -/
inductive CutOff : Place → List Event → Prop
  | tag (t : StartTag) {inTag : List Event} (ht : InTag inTag) :
      CutOff (.tag t) (.tagStart t.name t.unary :: inTag)
  | attr (t : StartTag) (name : Text) {inTag vs : List Event} (ht : InTag inTag)
      (hv : ∀ e ∈ vs, e.InValue) :
      CutOff (.attr t name) (.tagStart t.name t.unary :: (inTag ++ .attrStart name :: vs))
  | inside {place : Place} {tag : Text} {inTag children : List Event} (ht : InTag inTag)
      (htag : Tag.holdsText tag.lower = false) (h : CutOff place children) :
      CutOff place (.tagStart tag false :: (inTag ++ .tagEnd tag false ::
        (children ++ [.close tag])))
  | after {place : Place} {before es : List Event} (hb : Content before) (h : CutOff place es) :
      CutOff place (before ++ es)

theorem InTag.append {es fs : List Event} (h : InTag es) (g : InTag fs) : InTag (es ++ fs) := by
  induction h with
  | nil => exact g
  | marker body _ ih => exact .marker body ih
  | attr name hv _ ih => simpa using InTag.attr name hv ih

theorem Content.append {es fs : List Event} (h : Content es) (g : Content fs) :
    Content (es ++ fs) := by
  induction h with
  | nil => exact g
  | chars ht _ ih => exact .chars ht ih
  | marker body _ ih => exact .marker body ih
  | comment text _ ih => exact .comment text ih
  | unary tag ht _ ih => simpa using Content.unary tag ht ih
  | element ht htag hc _ _ ih => simpa using Content.element ht htag hc ih
  | textHolder ht htag hc _ ih => simpa using Content.textHolder ht htag hc ih

/-- A content for every open tag, the innermost last, each behind the start of its tag. -/
inductive Opened : List Text → List Event → Prop
  | root {es : List Event} (h : Content es) : Opened [] es
  | inside {tag : Text} {ts : List Text} {es inTag children : List Event} (h : Opened ts es)
      (ht : InTag inTag) (htag : Tag.holdsText tag.lower = false) (hc : Content children) :
      Opened (tag :: ts) (es ++ .tagStart tag false :: (inTag ++ .tagEnd tag false :: children))

theorem Opened.append {ts : List Text} {es fs : List Event} (h : Opened ts es) (g : Content fs) :
    Opened ts (es ++ fs) := by
  cases h with
  | root h => exact .root (h.append g)
  | inside h ht htag hc => simpa using Opened.inside h ht htag (hc.append g)

theorem Opened.close {tag : Text} {ts : List Text} {es : List Event} (h : Opened (tag :: ts) es) :
    Opened ts (es ++ [.close tag]) := by
  cases h with
  | inside h ht htag hc => simpa using h.append (.element ht htag hc .nil)

theorem Opened.closeAll {ts : List Text} {es : List Event} (h : Opened ts es) :
    Content (es ++ ts.map Event.close) := by
  induction ts generalizing es with
  | nil =>
    cases h with
    | root h => simpa using h
  | cons tag ts ih => simpa using ih h.close

theorem Opened.cutOff {ts : List Text} {es fs : List Event} {place : Place} (h : Opened ts es)
    (g : CutOff place fs) : CutOff place (es ++ fs ++ ts.map Event.close) := by
  induction h generalizing fs with
  | root h => simpa using CutOff.after h g
  | inside h ht htag hc ih => simpa using ih (.inside ht htag (.after hc g))

/-- What has been read at a position. -/
inductive Spells : Position → List Event → Prop
  | content {ts : List Text} {es : List Event} (h : Opened ts es) : Spells ⟨.content, ts⟩ es
  | rawText {tag : Text} {ts : List Text} {es inTag held : List Event} (h : Opened ts es)
      (ht : InTag inTag) (htag : Tag.holdsText tag.lower = true)
      (hc : ∀ e ∈ held, e.InHeldText) :
      Spells ⟨.rawText, tag :: ts⟩
        (es ++ .tagStart tag false :: (inTag ++ .tagEnd tag false :: held))
  | tag {t : StartTag} {ts : List Text} {es inTag : List Event} (h : Opened ts es)
      (ht : InTag inTag) : Spells ⟨.tag t, ts⟩ (es ++ .tagStart t.name t.unary :: inTag)
  | attr {t : StartTag} {name : Text} {ts : List Text} {es inTag vs : List Event}
      (h : Opened ts es) (ht : InTag inTag) (hv : ∀ e ∈ vs, e.InValue) :
      Spells ⟨.attr t name, ts⟩
        (es ++ .tagStart t.name t.unary :: (inTag ++ .attrStart name :: vs))

end Document

theorem forall_mem_concat {α : Type} {P : α → Prop} {xs : List α} {x : α} (h : ∀ y ∈ xs, P y)
    (hx : P x) : ∀ y ∈ xs ++ [x], P y :=
  List.forall_mem_append.2 ⟨h, List.forall_mem_singleton.2 hx⟩

/-- What a step can read: a text or a value is not empty, and the end is not read by a step. -/
def Event.Taken : Event → Prop
  | .chars text | .attrValue text => text ≠ []
  | .done => False
  | _ => True

namespace Document

theorem Spells.step {p q : Position} {es : List Event} {e : Event} (h : Spells p es)
    (hm : p.Moves e q) (he : e.Taken) (hq : q.place ≠ .ended) : Spells q (es ++ [e]) := by
  cases hm with
  | tagStart tag unary ts =>
    cases h with
    | content h => exact .tag (t := ⟨tag, unary⟩) h .nil
  | tagEndUnary tag ts =>
    cases h with
    | tag h ht => simpa using Spells.content (h.append (.unary tag ht .nil))
  | tagEnd tag ts =>
    cases h with
    | tag h ht =>
      by_cases htag : Tag.holdsText tag.lower = true
      · simpa [Place.inside, htag] using Spells.rawText h ht htag (by simp)
      · rw [Bool.not_eq_true] at htag
        simpa [Place.inside, htag] using Spells.content (h.inside ht htag .nil)
  | close place tag ts =>
    cases h with
    | content h => exact .content h.close
    | rawText h ht htag hc =>
      simpa [Place.closed] using Spells.content (h.append (.textHolder ht htag hc .nil))
    | tag | attr => exact absurd rfl hq
  | attrStart t name ts =>
    cases h with
    | tag h ht => simpa using Spells.attr h ht (List.forall_mem_nil Event.InValue)
  | attrValue t name value ts =>
    cases h with
    | attr h ht hv => simpa using Spells.attr h ht (forall_mem_concat hv (.value he))
  | attrEnd t name ts =>
    cases h with
    | attr h ht hv => simpa using Spells.tag h (ht.append (.attr name hv .nil))
  | chars place content ts hplace =>
    cases h with
    | content h => exact .content (h.append (.chars he .nil))
    | rawText h ht htag hc =>
      simpa using Spells.rawText h ht htag (forall_mem_concat hc (.chars he))
    | tag | attr => simp at hplace
  | marker place body ts hplace =>
    cases h with
    | content h => exact .content (h.append (.marker body .nil))
    | rawText h ht htag hc =>
      simpa using Spells.rawText h ht htag (forall_mem_concat hc (.marker body))
    | tag h ht => simpa using Spells.tag h (ht.append (.marker body .nil))
    | attr h ht hv => simpa using Spells.attr h ht (forall_mem_concat hv (.marker body))
  | comment content ts =>
    cases h with
    | content h => exact .content (h.append (.comment content .nil))
  | done => exact absurd rfl hq

end Document

theorem Position.Moves.not_ended {p q : Position} {e : Event} (h : p.Moves e q)
    (hq : q.place ≠ .ended) : p.place ≠ .ended := by
  intro hp
  cases h with
  | close place tag ts =>
    obtain rfl : place = .ended := hp
    exact hq rfl
  | marker place body ts hplace => exact hplace hp
  | chars place content ts hplace => rcases hplace with rfl | rfl <;> cases hp
  | done place => exact hq rfl
  | _ => cases hp

theorem Position.Reads.not_ended {p q : Position} {ls : List Located} (h : p.Reads ls q)
    (hq : q.place ≠ .ended) : p.place ≠ .ended := by
  induction h with
  | nil => exact hq
  | cons m _ ih => exact m.not_ended (ih hq)

theorem Document.Spells.run {p q : Position} {es : List Event} {ls : List Located}
    (h : Spells p es) (hr : p.Reads ls q) (hls : ∀ l ∈ ls, l.event.Taken)
    (hq : q.place ≠ .ended) : Spells q (es ++ ls.map Located.event) := by
  induction hr generalizing es with
  | nil => simpa using h
  | cons m t ih =>
    obtain ⟨hl, hls⟩ := List.forall_mem_cons.1 hls
    simpa using ih (h.step m hl (t.not_ended hq)) hls hq

namespace Scanner

/-- Every event of the step is one that a step can read. -/
def Step.Takes (step : Step) : Prop := ∀ l ∈ step.events, l.event.Taken

theorem Step.Acts.takes {step : Step} {s : Scanner} {t : Text} (h : step.Acts s t) :
    step.Takes := by
  have hread {spot : Spot} {event : Event} {next : Scanner} (h : event.Taken) :
      Step.Takes ⟨[⟨spot, event⟩], next⟩ := List.forall_mem_singleton.2 h
  induction h with
  | silent => exact List.forall_mem_nil _
  | chars | attrValue => exact hread (List.cons_ne_nil _ _)
  | endAttr _ _ ih => exact List.forall_mem_cons.2 ⟨trivial, ih⟩
  | @closingTag s r =>
    obtain ⟨piece, through, rest, closed, left, -, -, hstep⟩ := closingTag_closes s r
    rw [hstep]
    exact List.forall_mem_map.2 fun _ _ => trivial
  | _ => exact hread trivial

/-- The scanner once nothing is left of the source. -/
def last (s : Scanner) : Scanner :=
  match _h : s.rest with
  | [] => s
  | c :: r => last (s.step c r).next
termination_by s.rest.length
decreasing_by rw [_h]; exact length_step_lt s c r

theorem run_eq_finish (s : Scanner) {p : Position} (hs : s.StandsAt p) :
    ∃ ls q, s.run = ls ++ s.last.finish ∧ p.Reads ls q ∧ s.last.StandsAt q ∧
      ∀ l ∈ ls, l.event.Taken := by
  fun_induction last s generalizing p with
  | case1 s h =>
    refine ⟨[], p, ?_, .nil p, hs, by simp⟩
    rw [run]
    split
    next => rfl
    next c r hc => simp [h] at hc
  | case2 s c r h ih =>
    obtain ⟨q, hq, hnext⟩ := walks_step s h hs
    obtain ⟨ls, q', hrun, hreads, hlast, htaken⟩ := ih hnext
    refine ⟨(s.step c r).events ++ ls, q', ?_, hq.append hreads, hlast,
      List.forall_mem_append.2 ⟨(acts_step s c r).takes, htaken⟩⟩
    rw [List.append_assoc, ← hrun, run]
    split
    next hc => simp [h] at hc
    next c' r' hc =>
      rw [h, List.cons.injEq] at hc
      obtain ⟨rfl, rfl⟩ := hc
      rfl

end Scanner

/-- A document whose source ends in this place. -/
def Document (place : Place) (es : List Event) : Prop :=
  match place with
  | .tag _ | .attr _ _ => Document.CutOff place es
  | .content | .rawText | .ended => Document.Content es

/-- Once the open tags are closed, what has been read is a document. -/
theorem Document.Spells.document {p : Position} {es : List Event} (h : Spells p es) :
    Document p.place (es ++ p.openTags.map Event.close) := by
  cases h with
  | content h => exact h.closeAll
  | rawText h ht htag hc =>
    have hclosed := (h.append (.textHolder ht htag hc .nil)).closeAll
    simpa [Document] using hclosed
  | tag h ht => exact h.cutOff (.tag _ ht)
  | attr h ht hv => exact h.cutOff (.attr _ _ ht hv)

/-- The events of every source are those of a document and then the end. The document is cut off in
a start tag, and in an attribute, just if the source ends there. -/
theorem document_scan (source : Text) : ∃ es,
    (scan source).map Located.event = es ++ [.done] ∧ .done ∉ es ∧
      Document (Scanner.start source).last.region.place es := by
  obtain ⟨ls, q, hrun, hreads, hstands, htaken⟩ :=
    (Scanner.start source).run_eq_finish (Scanner.standsAt_start source)
  have hplace : Document (Scanner.start source).last.region.place =
      Document q.place := by
    rcases hstands.place with h | ⟨-, hregion, hq⟩
    · rw [h]
    · rw [hregion, hq]
      rfl
  have hq : q.place ≠ .ended := by
    rcases hstands.place with h | ⟨-, -, h⟩
    · rw [← h]
      cases (Scanner.start source).last.region <;> simp [Region.place]
    · simp [h]
  have hspells := (Document.Spells.content (.root .nil)).run hreads htaken hq
  refine ⟨ls.map Located.event ++ q.openTags.map Event.close, ?_, ?_, ?_⟩
  · simp [scan, hrun, Scanner.finish, hstands.openTags, List.map_map, Function.comp_def]
  · simp only [List.mem_append, List.mem_map, reduceCtorEq, and_false, exists_false, or_false,
      not_exists, not_and]
    intro l hl hdone
    have h := htaken l hl
    rw [hdone] at h
    exact h
  · rw [hplace]
    exact hspells.document

end Stencil
