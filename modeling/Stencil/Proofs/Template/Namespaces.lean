import Stencil.Proofs.Template.Definitions
import Stencil.Proofs.Template.PlacedElements

/-!
The namespaces of elements. An assembly pushes a namespace where a start tag begins and pops one
where a tag is closed, both by the name of the tag alone. Between these two the tag is open unless
it has no content, in which case nothing was pushed: so the namespaces are at any time those of the
open tags, and an element gets the one of the innermost tag around it that opens one.
-/

set_option autoImplicit false

namespace Stencil

variable {δ : Dialect}

/-- The namespace inside tags, innermost first. -/
def Namespace.within (tags : List Text) : Namespace := (tags.findSome? ofTag?).getD .html

theorem Namespace.within_cons (tag : Text) (tags : List Text) :
    within (tag :: tags) = ((ofTag? tag).or (tags.filterMap ofTag?).head?).getD .html := by
  rw [within, List.findSome?_cons, List.head?_filterMap]
  cases ofTag? tag <;> rfl

def Event.openTags (event : Event) (tags : List Text) : List Text :=
  match event with
  | .tagEnd tag false => tag :: tags
  | .close _ => tags.tail
  | _ => tags

/-- The tags that are open after events, innermost first, if these tags were before. -/
def openTags (tags : List Text) (ls : List Located) : List Text :=
  ls.foldl (fun tags l => l.event.openTags tags) tags

/-- The element begins in the source inside the tags that are around it, and its namespace is that
of the innermost of these tags and its own that opens one. -/
structure PlacedElement.StandsIn (e : PlacedElement) (source : Text) : Prop where
  opens : ∃ before spot unary after,
    scan source = before ++ ⟨spot, .tagStart e.tag unary⟩ :: after ∧ openTags [] before = e.around
  ns : e.ns = .within (e.tag :: e.around)

namespace Position

theorem Moves.openTags {p q : Position} {e : Event} (h : p.Moves e q) :
    q.openTags = e.openTags p.openTags := by
  cases h <;> rfl

/-- The tags whose namespaces are open: a tag with content counts from its start on. -/
def scope (p : Position) : List Text :=
  match p.place with
  | .tag t | .attr t _ => if t.unary then p.openTags else t.name :: p.openTags
  | .content | .rawText | .ended => p.openTags

end Position

namespace Assembly

def PartialsFit (P : PlacedElement → Prop) (Q : Text → Body δ → List Text → Prop)
    (partials : Dict (Body δ)) : Prop :=
  ∀ d ∈ partials, ∃ around, Q d.1 d.2 around ∧ Part.Fit P d.2 around

theorem PartialsFit.insert {P : PlacedElement → Prop} {Q : Text → Body δ → List Text → Prop}
    {partials : Dict (Body δ)} (h : PartialsFit P Q partials) {name : Text} {body : Body δ}
    {around : List Text} (hview : Q name body around) (hbody : Part.Fit P body around) :
    PartialsFit P Q (partials.insert name body) := by
  intro d hd
  rcases Dict.mem_insert hd with hd | rfl
  · exact h d hd
  · exact ⟨around, hview, hbody⟩

/-- Every element of an assembly has the property, the one in the start tag included, and the
namespaces that are open are those of the open tags. After the end of the source this need not be:
a start tag that it cuts off has pushed its namespace. -/
structure Fit (P : PlacedElement → Prop) (Q : Text → Body δ → List Text → Prop) (a : Assembly δ)
    (p : Position) : Prop where
  markup : a.markup.Fit P a.openings
  partials : PartialsFit P Q a.partials
  head : p.place ≠ .ended → ∀ t ∈ a.tag, P (t.head.placed p.openTags)
  namespaces : p.place ≠ .ended → a.namespaces = p.scope.filterMap Namespace.ofTag?

section

variable {P : PlacedElement → Prop} {Q : Text → Body δ → List Text → Prop} {o : Options δ}
  {a b : Assembly δ} {p q : Position}

theorem fit_start : Fit P Q (empty : Assembly δ) .start :=
  ⟨.root .nil, by simp [PartialsFit, empty], by simp [empty], fun _ => rfl⟩

theorem Fit.keeps (h : Fit P Q a p) (hmarkup : b.markup.Fit P b.openings)
    (hpartials : b.partials = a.partials) (hns : b.namespaces = a.namespaces)
    (hhead : b.tag.map (fun t => t.head.placed) = a.tag.map fun t => t.head.placed)
    (hended : q.place ≠ .ended → p.place ≠ .ended ∧ q.openTags = p.openTags ∧ q.scope = p.scope) :
    Fit P Q b q := by
  refine ⟨hmarkup, hpartials ▸ h.partials, fun hq t ht => ?_, fun hq => ?_⟩
  · obtain ⟨hp, htags, -⟩ := hended hq
    have hplaced : a.tag.map (fun t => t.head.placed) = some t.head.placed := by
      rw [← hhead, ht]
      rfl
    obtain ⟨s, hs, heq⟩ := Option.map_eq_some_iff.1 hplaced
    rw [htags, ← heq]
    exact h.head hp s hs
  · obtain ⟨hp, -, hscope⟩ := hended hq
    rw [hns, hscope]
    exact h.namespaces hp

theorem fit_endRawText {tag : Text} {line : Nat} {os : List (Opening δ)}
    (h : a.markup.Fit P os) (hs : a.endRawText tag line = .ok b) :
    ∃ markup rawText, b = { a with markup, rawText } ∧ markup.Fit P os := by
  unfold endRawText at hs
  split at hs
  next => cases hs; exact ⟨a.markup, a.rawText, rfl, h⟩
  next =>
    split at hs
    next =>
      obtain ⟨parts, -, hs⟩ := exists_of_bind_ok hs
      cases hs
      exact ⟨_, none, rfl, h.add fun _ he => by cases he⟩
    next => cases hs; exact ⟨a.markup, a.rawText, rfl, h⟩

theorem endRawText_withElement {d : MarkupDraft δ} {head : ElementHead δ} {ps : Body δ}
    (hmarkup : a.markup = d.withElement ⟨head, ps⟩) {tag : Text} {line : Nat}
    (hs : a.endRawText tag line = .ok b) :
    ∃ ps' rawText, b = { a with markup := d.withElement ⟨head, ps'⟩, rawText } := by
  unfold endRawText at hs
  split at hs
  next => cases hs; exact ⟨ps, a.rawText, by rw [← hmarkup]⟩
  next =>
    split at hs
    next =>
      obtain ⟨parts, -, hs⟩ := exists_of_bind_ok hs
      cases hs
      exact ⟨_, none, by rw [hmarkup, MarkupDraft.add_withElement]⟩
    next => cases hs; exact ⟨ps, a.rawText, by rw [← hmarkup]⟩

theorem fit_closeElement {t tag : Text} {line : Nat}
    (h : a.markup.Fit P (.element t :: a.openings)) (hs : a.closeElement tag line = .ok b) :
    ∃ markup rawText, b = { a with markup, rawText } ∧ markup.Fit P a.openings := by
  obtain ⟨a₁, hend, hs⟩ := exists_of_bind_ok hs
  obtain ⟨markup, rawText, rfl, h⟩ := fit_endRawText h hend
  obtain ⟨d, head, ps, rfl, rfl, h, hhead, hps⟩ := h.exists_element
  simp only [MarkupDraft.takeElement?_withElement] at hs
  cases hs
  exact ⟨_, rawText, rfl, h.add (Part.fit_element hhead hps)⟩

theorem fit_define (hmarkup : a.markup.Fit P a.openings)
    (hpartials : PartialsFit P Q a.partials) {body : Option (Body δ)}
    (hbody : ∀ ps ∈ body, Part.Fit P ps (definitionTag :: a.openings.filterMap Opening.tag?))
    {head : ElementHead δ} {places : List Nat}
    (hview : Holder.around a.openings places = .view → ∀ name, head.static? definitionName = some name →
      ∀ ps ∈ body, Q name ps (definitionTag :: a.openings.filterMap Opening.tag?)) (line : Nat) :
    ∃ openings partials warnings, a.define o head body line = { a with
        openings, partials, warnings } ∧
      a.markup.Fit P openings ∧ PartialsFit P Q partials := by
  unfold define
  split
  next => exact ⟨a.openings, a.partials, _, rfl, hmarkup, hpartials⟩
  next name hname =>
    split
    next => exact ⟨a.openings, a.partials, a.warnings, rfl, hmarkup, hpartials⟩
    next ps tag handler nested templates rest hos =>
      rw [hos] at hmarkup hbody
      exact ⟨_, a.partials, a.warnings, rfl, hmarkup.insert name (hbody ps rfl), hpartials⟩
    next ps hplain =>
      have haround : Holder.around a.openings places = .view := by
        unfold Holder.around
        split
        next hos => exact absurd hos (hplain _ _ _ _ _)
        next => rfl
      exact ⟨a.openings, _, a.warnings, rfl, hmarkup,
        hpartials.insert (hview haround name hname ps rfl) (hbody ps rfl)⟩

theorem fit_closeCustom {tag : Text} {handler : δ.TagHandler} {nested : Bool}
    {templates : Dict (Body δ)} {rest : List (Opening δ)} {namespaces : List Namespace}
    {spot : Spot} {u : TagPlaces}
    (h : a.markup.Fit P (.custom tag handler nested templates :: rest))
    (hpartials : PartialsFit P Q a.partials)
    (hos : a.openings = .custom tag handler nested templates :: rest)
    (hview : ∀ d ∈ a.definition? o u ⟨spot, .close tag⟩, ∀ name body, d.Gives .view name body →
      Q name body (tag :: rest.filterMap Opening.tag?))
    (hs : ({ a with openings := rest, namespaces }).closeCustom o tag handler nested templates
      spot.line = .ok b) :
    ∃ markup rawText openings partials warnings,
      b = { a with markup, rawText, openings, namespaces, partials, warnings } ∧
      markup.Fit P openings ∧ PartialsFit P Q partials := by
  obtain ⟨d, head, ps, hmarkup, rfl, h, hhead, htemplates, hps⟩ := h.exists_custom
  have hcustom : a.markup.closeCustom = .ok (ps, d.withElement ⟨head, []⟩) := by
    rw [hmarkup]
    rfl
  simp only [closeCustom, hcustom] at hs
  obtain ⟨a₁, hend, hs⟩ := exists_of_bind_ok hs
  obtain ⟨ps', rawText, rfl⟩ := endRawText_withElement rfl hend
  have hbody : ∀ qs ∈ (if ps.isEmpty then none else some ps : Option (Body δ)),
      Part.Fit P qs (head.tag :: rest.filterMap Opening.tag?) := by
    intro qs hqs
    split at hqs <;> cases hqs
    exact hps
  simp only [MarkupDraft.takeElement?_withElement] at hs
  split at hs
  next hdefinition =>
    cases hs
    rw [hdefinition] at hbody hview hos
    obtain ⟨openings, partials, warnings, hdefine, hfit, hpartials⟩ := fit_define (o := o)
      (a := { a with openings := rest, namespaces, markup := d, rawText }) h hpartials hbody
      (fun haround name hname qs hqs => hview _ (definition?_close hmarkup hos u spot _) name qs
        ⟨haround, by simp, hname, hqs⟩) spot.line
    exact ⟨d, rawText, openings, partials, warnings, hdefine, hfit, hpartials⟩
  next =>
    cases hs
    exact ⟨_, rawText, rest, a.partials, a.warnings, rfl,
      h.add (Part.fit_custom hhead hbody (by simpa using htemplates)), hpartials⟩

theorem Fit.close {place : Place} {tag : Text} {ts : List Text} {spot : Spot} {u : TagPlaces}
    (h : Fit P Q a ⟨place, tag :: ts⟩) (hlock : Lockstep o a ⟨place, tag :: ts⟩)
    (hview : ∀ d ∈ a.definition? o u ⟨spot, .close tag⟩, ∀ name body, d.Gives .view name body →
      Q name body (tag :: ts))
    (hs : a.close o tag spot.line = .ok b) : Fit P Q b ⟨place.closed, ts⟩ := by
  have hclosed : b.markup.Fit P b.openings ∧ PartialsFit P Q b.partials ∧
      b.tag = a.tag ∧ b.namespaces = a.namespacesAfter tag := by
    have hmarkup := h.markup
    have hopenTags := hlock.openTags
    rw [close_eq] at hs
    split at hs
    next t rest hos =>
      rw [hos] at hmarkup
      obtain ⟨markup, rawText, rfl, hmarkup⟩ := fit_closeElement
        (a := { a with openings := rest, namespaces := a.namespacesAfter tag }) hmarkup hs
      exact ⟨hmarkup, h.partials, rfl, rfl⟩
    next t handler nested templates rest hos =>
      rw [hos] at hmarkup hopenTags
      obtain ⟨rfl, rfl⟩ := List.cons.inj hopenTags
      obtain ⟨markup, rawText, openings, partials, warnings, rfl, hmarkup, hpartials⟩ :=
        fit_closeCustom hmarkup h.partials hos hview hs
      exact ⟨hmarkup, hpartials, rfl, rfl⟩
    next => cases hs
  obtain ⟨hmarkup, hpartials, htag, hns⟩ := hclosed
  have hcontent (hp : place.closed ≠ .ended) : place = .content ∨ place = .rawText := by
    cases place with
    | content | rawText => simp
    | tag | attr | ended => exact absurd rfl hp
  refine ⟨hmarkup, hpartials, fun hp t ht => ?_, fun hp => ?_⟩
  · have hnone : a.tag = none := by
      rcases hcontent hp with rfl | rfl <;> exact hlock.place.1
    rw [htag, hnone] at ht
    cases ht
  · have hscope : a.namespaces = (tag :: ts).filterMap Namespace.ofTag? := by
      rcases hcontent hp with rfl | rfl <;> exact h.namespaces (by simp)
    have hafter : b.namespaces = ts.filterMap Namespace.ofTag? := by
      rw [hns, namespacesAfter, hscope]
      cases hown : Namespace.ofTag? tag <;> simp [hown]
    rcases hcontent hp with rfl | rfl <;> exact hafter

theorem Fit.tagStart {tag : Text} {unary : Bool} {ts : List Text} (h : Fit P Q a ⟨.content, ts⟩)
    (hhead : P ⟨tag, .within (tag :: ts), ts⟩) :
    Fit P Q (a.tagStart tag unary) ⟨.tag ⟨tag, unary⟩, ts⟩ := by
  have hns : a.namespaces = ts.filterMap Namespace.ofTag? := h.namespaces (by simp)
  have hwithin := Namespace.within_cons tag ts
  rw [← hns] at hwithin
  refine ⟨h.markup, h.partials, fun _ t ht => ?_, fun _ => ?_⟩
  · cases ht
    rw [hwithin] at hhead
    cases hown : Namespace.ofTag? tag <;> simpa [ElementHead.placed, hown] using hhead
  · cases hown : Namespace.ofTag? tag <;> cases unary <;>
      simp [Assembly.tagStart, Position.scope, hown, hns]

theorem Fit.tagEnd {t : StartTag} {ts : List Text} {line : Nat} (h : Fit P Q a ⟨.tag t, ts⟩)
    (hlock : Lockstep o a ⟨.tag t, ts⟩)
    (hs : a.tagEnd o t.name t.unary line = .ok b) :
    Fit P Q b (if t.unary then ⟨.content, ts⟩ else ⟨.inside t.name, t.name :: ts⟩) := by
  obtain ⟨⟨draft, htag, hname⟩, -⟩ := hlock.place
  have hopenTags : a.openings.filterMap Opening.tag? = ts := hlock.openTags
  have hhead : P (draft.head.placed ts) := h.head (by simp) draft htag
  have hns := h.namespaces (by simp)
  have hmarkup := h.markup
  obtain ⟨tag, unary⟩ := t
  simp only [Assembly.tagEnd, htag] at hs
  split at hs
  · cases hs
  cases hs
  cases unary with
  | true =>
    have hkeeps (markup : MarkupDraft δ) (hm : markup.Fit P a.openings) :
        Fit P Q { a with tag := none, markup } ⟨.content, ts⟩ :=
      ⟨hm, h.partials, (fun _ _ ht => by cases ht), fun _ => hns⟩
    simp only [if_true, addUnary]
    rw [← hopenTags] at hhead
    split
    next => exact hkeeps _ (hmarkup.add (Part.fit_element hhead .nil))
    next =>
      split
      · exact hkeeps _ hmarkup
      · exact hkeeps _ (hmarkup.add (Part.fit_custom hhead (by simp) (by simp)))
  | false =>
    have hinside {c : Assembly δ} (hmarkup : c.markup.Fit P c.openings)
        (hpartials : c.partials = a.partials) (htag : c.tag = none)
        (hnamespaces : c.namespaces = a.namespaces) :
        Fit P Q c ⟨.inside tag, tag :: ts⟩ := by
      refine ⟨hmarkup, hpartials ▸ h.partials, fun _ t ht => ?_, fun _ => ?_⟩
      · rw [htag] at ht
        cases ht
      · rw [hnamespaces, hns]
        rcases Place.inside_eq tag with hi | hi <;> rw [hi] <;> rfl
    simp only [Bool.false_eq_true, if_false, openElement]
    rw [← hopenTags] at hhead
    split
    next handler _ =>
      exact hinside (.custom hmarkup hhead handler _ (by simp) .nil) rfl rfl rfl
    next => exact hinside (.element hmarkup hhead .nil) rfl rfl rfl

structure SameTag (a b : Assembly δ) : Prop where
  markup : b.markup = a.markup
  openings : b.openings = a.openings
  partials : b.partials = a.partials
  namespaces : b.namespaces = a.namespaces
  head : b.tag.map (fun t => t.head.placed) = a.tag.map fun t => t.head.placed

theorem Fit.sameTag (h : Fit P Q a p) (hs : a.SameTag b)
    (hq : q.place ≠ .ended → p.place ≠ .ended ∧ q.openTags = p.openTags ∧ q.scope = p.scope) :
    Fit P Q b q :=
  h.keeps (by rw [hs.markup, hs.openings]; exact h.markup) hs.partials hs.namespaces hs.head hq

theorem sameTag_attrStart (a : Assembly δ) (name : Text) : a.SameTag (a.attrStart name) := by
  unfold attrStart
  split
  next => exact ⟨rfl, rfl, rfl, rfl, rfl⟩
  next htag => exact ⟨rfl, rfl, rfl, rfl, by rw [htag]; rfl⟩
  next => exact ⟨rfl, rfl, rfl, rfl, rfl⟩

theorem sameTag_attrValue (a : Assembly δ) (value : Text) : a.SameTag (a.attrValue value) := by
  unfold attrValue
  split
  next htag => exact ⟨rfl, rfl, rfl, rfl, by rw [htag]; rfl⟩
  next => split <;> exact ⟨rfl, rfl, rfl, rfl, rfl⟩
  next => exact ⟨rfl, rfl, rfl, rfl, rfl⟩

theorem sameTag_attrEnd {name : Text} {line : Nat} (hs : a.attrEnd o name line = .ok b) :
    a.SameTag b := by
  unfold attrEnd at hs
  split at hs
  next htag => cases hs; exact ⟨rfl, rfl, rfl, rfl, by rw [htag]; rfl⟩
  next => cases hs; exact ⟨rfl, rfl, rfl, rfl, rfl⟩
  next =>
    obtain ⟨value, -, hs⟩ := exists_of_bind_ok hs
    split at hs
    next htag => cases hs; split <;> exact ⟨rfl, rfl, rfl, rfl, by simp [warn, htag]⟩
    next t htag => cases hs; split <;> exact ⟨rfl, rfl, rfl, rfl, by simp [htag]; rfl⟩

theorem Fit.markup_apply {mode : Mode} {expression : Text} {line : Nat} {d : MarkupDraft δ}
    {change : Change δ} (h : Fit P Q a p) (htags : a.openings.filterMap Opening.tag? = p.openTags)
    (hview : ∀ d ∈ change.definition? line a.partials, ∀ name body, d.Gives .view name body →
      Q name body p.openTags)
    (hd : Draft.apply o.language (a.site o line) a.markup mode expression = .ok (d, change)) :
    Fit P Q (({ a with markup := d }.record change).follow o expression line change) p := by
  have hchange := h.markup.apply hd
  cases change with
  | none => exact ⟨hchange, h.partials, h.head, h.namespaces⟩
  | opened name => exact ⟨hchange name, h.partials, h.head, h.namespaces⟩
  | closed definition =>
    obtain ⟨name, rest, hos, hfit, hdefinition⟩ := hchange
    cases definition with
    | none =>
      obtain ⟨warnings, hfollow, -⟩ :=
        follow_closed (o := o) (a := { a with markup := d }) hos expression line none
      change Fit P Q (({ a with markup := d } : Assembly δ).follow o expression line (.closed none)) p
      rw [hfollow]
      exact ⟨hfit, h.partials, h.head, h.namespaces⟩
    | some definition =>
      obtain ⟨defined, body⟩ := definition
      obtain ⟨warnings, hfollow, -⟩ := follow_closed (o := o)
        (a := { a with markup := d, partials := a.partials.insert defined body }) hos expression
        line (some (defined, body))
      simp only [record]
      rw [hfollow]
      rw [hos] at htags
      have hdefined : Part.Fit P body p.openTags := htags ▸ hdefinition _ rfl
      have hgiven := hview _ rfl defined body ⟨rfl, by simp, rfl, rfl⟩
      exact ⟨hfit, h.partials.insert hgiven hdefined, h.head, h.namespaces⟩

theorem Fit.marker {body : Text} {spot : Spot} {u : TagPlaces} (h : Fit P Q a p)
    (hlock : Lockstep o a p)
    (hview : ∀ d ∈ a.definition? o u ⟨spot, .marker body⟩, ∀ name ps, d.Gives .view name ps →
      Q name ps p.openTags)
    (hs : a.marker o body spot.line = .ok b) : Fit P Q b p := by
  have hsame {c : Assembly δ} (hc : a.SameTag c) : Fit P Q c p :=
    h.sameTag hc fun hp => ⟨hp, rfl, rfl⟩
  rcases marker_cases hs with ⟨-, ht⟩ | ⟨helse, ⟨-, rfl⟩ | hm⟩
  · cases ht with
    | attr | rawText => exact hsame ⟨rfl, rfl, rfl, rfl, rfl⟩
    | branch htag => exact hsame ⟨rfl, rfl, rfl, rfl, by rw [htag]; rfl⟩
    | markup hd => exact ⟨h.markup.turn hd, h.partials, h.head, h.namespaces⟩
  · exact h
  · cases hm with
    | branch htag hd | branchEnd htag hd | tagBranch htag _ hd =>
      rw [TextDraft.not_defines hd]
      exact hsame ⟨rfl, rfl, rfl, rfl, by rw [htag]; rfl⟩
    | attr _ _ hd | rawText _ _ _ hd =>
      rw [TextDraft.not_defines hd]
      exact hsame ⟨rfl, rfl, rfl, rfl, rfl⟩
    | tagValue htag => exact hsame ⟨rfl, rfl, rfl, rfl, by rw [htag]; rfl⟩
    | markup htag hattr hraw hd =>
      rw [definition?_of_inContent htag hattr hraw helse hd] at hview
      exact h.markup_apply hlock.openTags hview hd

theorem Fit.step {l : Located} {u : TagPlaces} (h : Fit P Q a p) (hlock : Lockstep o a p)
    (hm : p.Moves l.event q) (hs : step o a l = .ok b)
    (hstart : ∀ tag unary, l.event = .tagStart tag unary →
      P ⟨tag, .within (tag :: p.openTags), p.openTags⟩)
    (hview : ∀ d ∈ a.definition? o u l, ∀ name body, d.Gives .view name body →
      Q name body p.openTags) : Fit P Q b q := by
  obtain ⟨spot, event⟩ := l
  -- noting the line changes nothing that an element is made of
  have hlock : Lockstep o { a with lastLine := spot.line } p :=
    ⟨hlock.1, hlock.2, hlock.3, hlock.4⟩
  have h : Fit P Q { a with lastLine := spot.line } p := ⟨h.1, h.2, h.3, h.4⟩
  cases hm with
  | tagStart tag unary ts =>
    cases hs
    exact h.tagStart (hstart tag unary rfl)
  | tagEndUnary tag ts => exact h.tagEnd hlock hs
  | tagEnd tag ts => exact h.tagEnd hlock hs
  | close place tag ts => exact h.close hlock hview hs
  | attrStart t name ts =>
    cases hs
    exact h.sameTag (sameTag_attrStart _ name) fun _ => ⟨by simp, rfl, rfl⟩
  | attrValue t name value ts =>
    cases hs
    exact h.sameTag (sameTag_attrValue _ value) fun hp => ⟨hp, rfl, rfl⟩
  | attrEnd t name ts => exact h.sameTag (sameTag_attrEnd hs) fun _ => ⟨by simp, rfl, rfl⟩
  | chars place content ts hplace =>
    cases hs
    simp only [chars]
    split
    next => exact h.sameTag ⟨rfl, rfl, rfl, rfl, rfl⟩ fun hp => ⟨hp, rfl, rfl⟩
    next => exact ⟨h.markup.addText _, h.partials, h.head, h.namespaces⟩
  | marker place body ts hplace => exact h.marker (u := u) hlock hview hs
  | comment content ts =>
    cases hs
    exact ⟨h.markup.add (fun _ he => by cases he), h.partials, h.head, h.namespaces⟩
  | done place =>
    cases hs
    exact h.sameTag ⟨rfl, rfl, rfl, rfl, rfl⟩ fun hp => absurd rfl hp

/-- A run of events in which every start tag begins an element that has the property, and every
definition for the view has the other one with the tags that are open at its end. -/
theorem Fit.run {ls : List Located} {u : TagPlaces} (h : Fit P Q a p) (hr : p.Reads ls q)
    (hlock : Lockstep o a p) (hs : ls.foldlM (Assembly.step o) a = .ok b)
    (hstart : ∀ before spot tag unary after, ls = before ++ ⟨spot, .tagStart tag unary⟩ :: after →
      P ⟨tag, .within (tag :: openTags p.openTags before), openTags p.openTags before⟩)
    (hview : ∀ before l after c, ls = before ++ l :: after →
      before.foldlM (Assembly.step o) a = .ok c → ∀ d ∈ c.definition? o (u.past before) l,
        ∀ name body, d.Gives .view name body → Q name body (openTags p.openTags before)) :
    Fit P Q b q := by
  induction hr generalizing a u with
  | nil =>
    cases hs
    exact h
  | @cons p q r l ls hm hr ih =>
    rw [List.foldlM_cons] at hs
    obtain ⟨c, hc, hs⟩ := exists_of_bind_ok hs
    have hstep : Fit P Q c q := h.step hlock hm hc
      (fun tag unary hl => hstart [] l.spot tag unary ls (by rw [← hl]; rfl))
      (hview [] l ls a rfl rfl)
    refine ih (u := u.after l.event) hstep (hlock.step hm hc) hs ?_ ?_
    · intro before spot tag unary after hls
      rw [hm.openTags]
      exact hstart (l :: before) spot tag unary after (by rw [hls]; rfl)
    · intro before l' after c' hls hc'
      rw [hm.openTags]
      exact hview (l :: before) l' after c' (by rw [hls]; rfl)
        (by rw [List.foldlM_cons, hc]; exact hc')

end

end Assembly

/-- The event, after those before it, ends a definition of this name and body for the view. -/
def Options.Defines (o : Options δ) (before : List Located) (l : Located) (name : Text)
    (body : Body δ) : Prop :=
  ∃ a d, before.foldlM (Assembly.step o) .empty = .ok a ∧
    a.definition? o (TagPlaces.start.past before) l = some d ∧ d.Gives .view name body

/-- In a template that compiles, every element has the namespace of the innermost tag that opens
one, of its own and those that are open around its start tag in the source: the tags around it in
the body that it is compiled to and, in a partial, those that are open where its definition ends. -/
theorem compile_namespaces {o : Options δ} {serial : Nat} {template : Text} {c : Compiled δ}
    (hc : compile o serial template = .ok c) :
    (∀ e ∈ Part.placedAll c.view.body [], e.StandsIn (o.clean template)) ∧
      ∀ d ∈ c.view.partials, ∃ before l after, scan (o.clean template) = before ++ l :: after ∧
        o.Defines before l d.1 d.2.body ∧
        ∀ e ∈ Part.placedAll d.2.body (openTags [] before), e.StandsIn (o.clean template) := by
  obtain ⟨a, body, ha, hbody, rfl⟩ := exists_of_compile_ok hc
  have h : a.Fit (fun e => e.StandsIn (o.clean template))
      (fun name body around => ∃ before l after, scan (o.clean template) = before ++ l :: after ∧
        o.Defines before l name body ∧ openTags [] before = around) ⟨.ended, []⟩ :=
    Assembly.fit_start.run (reads_scan _) Assembly.lockstep_start ha
      (fun before spot tag unary after hscan => ⟨⟨before, spot, unary, after, hscan, rfl⟩, rfl⟩)
      fun before l after c hscan hc d hd name body hgives =>
        ⟨before, l, after, hscan, ⟨c, d, hc, hd, hgives⟩, rfl⟩
  refine ⟨h.markup.finish hbody, fun d hd => ?_⟩
  obtain ⟨⟨name, ps⟩, hps, rfl⟩ := List.mem_map.1 hd
  obtain ⟨_, ⟨before, l, after, hscan, hdefines, rfl⟩, hfit⟩ := h.partials (name, ps) hps
  exact ⟨before, l, after, hscan, hdefines, hfit⟩

/-- `<svg>{{<t}}<a></a>{{/t}}<math/></svg><b></b>` -/
def drawing : Text :=
  "<svg>\x7b\x7b<t\x7d\x7d<a></a>\x7b\x7b/t\x7d\x7d<math/></svg><b></b>"

theorem scan_drawing : scan drawing =
    [⟨⟨1, 1⟩, .tagStart "svg" false⟩, ⟨⟨4, 1⟩, .tagEnd "svg" false⟩, ⟨⟨5, 1⟩, .marker "<t"⟩,
      ⟨⟨12, 1⟩, .tagStart "a" false⟩, ⟨⟨13, 1⟩, .tagEnd "a" false⟩, ⟨⟨17, 1⟩, .close "a"⟩,
      ⟨⟨18, 1⟩, .marker "/t"⟩, ⟨⟨25, 1⟩, .tagStart "math" true⟩, ⟨⟨30, 1⟩, .tagEnd "math" true⟩,
      ⟨⟨36, 1⟩, .close "svg"⟩, ⟨⟨38, 1⟩, .tagStart "b" false⟩, ⟨⟨39, 1⟩, .tagEnd "b" false⟩,
      ⟨⟨43, 1⟩, .close "b"⟩, ⟨⟨44, 1⟩, .done⟩] := by
  rw [scan_eq_runFor]
  decide +kernel

theorem compile_namespaces_drawing :
    ∃ c, compile (Options.standard none).asWritten 0 drawing = .ok c ∧
      Part.placedAll c.view.body [] =
        [⟨"svg", .svg, []⟩, ⟨"math", .mathMl, ["svg".toList]⟩, ⟨"b", .html, []⟩] ∧
      (∀ e ∈ Part.placedAll c.view.body [],
        e.StandsIn ((Options.standard none).asWritten.clean drawing)) ∧
      ∀ d ∈ c.view.partials, ∃ before l after,
        scan ((Options.standard none).asWritten.clean drawing) = before ++ l :: after ∧
        (Options.standard none).asWritten.Defines before l d.1 d.2.body ∧
        ∀ e ∈ Part.placedAll d.2.body (openTags [] before),
          e.StandsIn ((Options.standard none).asWritten.clean drawing) := by
  have hc : compile (Options.standard none).asWritten 0 drawing =
      .ok ⟨.template 0 [.element ⟨"svg", .svg, [], []⟩ [.element ⟨"math", .mathMl, [], []⟩ []],
        .element ⟨"b", .html, [], []⟩ []]
        [("t", [.element ⟨"a", .svg, [], []⟩ []])] none, []⟩ :=
    compile_of_scan rfl scan_drawing (by with_unfolding_all rfl)
  obtain ⟨hbody, hpartials⟩ := compile_namespaces hc
  exact ⟨_, hc, rfl, hbody, hpartials⟩

end Stencil
