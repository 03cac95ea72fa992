import Stencil.Proofs.Expression.Lookup
import Stencil.Proofs.Template.OpenMarkers

/-!
What an event inside a start tag can reach. Attributes and markers there change the tag, its
attribute and the definitions of the template, and leave the markup around the tag and what is open
in it. One marker reaches further: an `else` that has no branch in the tag or its attribute to turn
goes to the branch around the tag, and the element of the tag then stands in the other body.
-/

set_option autoImplicit false

namespace Stencil

variable {δ : Dialect}

/-- The events between the beginning of a start tag and its end. -/
def Event.inTag : Event → Bool
  | .attrStart _ | .attrValue _ | .attrEnd _ | .marker _ => true
  | .tagStart _ _ | .tagEnd _ _ | .close _ | .chars _ | .comment _ | .done => false

/-- An `else` where neither the tag nor its attribute has a body to turn. -/
def Options.turnsAround (o : Options δ) (a : Assembly δ) : Event → Bool
  | .marker body =>
    (o.language.split body).2 = "else" && (a.tag.bind TagDraft.branch).isNone &&
      (a.attr.bind AttrDraft.draft).isNone
  | _ => false

theorem Options.turnsAround_of_ne_else {o : Options δ} {a : Assembly δ} {body : Text}
    (h : (o.language.split body).2 ≠ "else") : o.turnsAround a (.marker body) = false := by
  simp only [turnsAround, h, decide_false, Bool.false_and]

/-- The element of a tag that ends is put where the markup is being written: opened, added without
content, or left out if all it could do is define something. -/
inductive MarkupDraft.Puts (d : MarkupDraft δ) (head : ElementHead δ) : MarkupDraft δ → Prop
  | opened : Puts d head (d.openElement head)
  | openedContent : Puts d head ((d.openElement head).openSection .custom)
  | element : Puts d head (d.add (.element head []))
  | custom (call : CustomTag δ) : Puts d head (d.add (.custom head call none none))
  | nothing : Puts d head d

theorem MarkupDraft.turn_turn {d d' : MarkupDraft δ} (h : d.turn = .ok d') :
    d'.turn = .ok d' := by
  unfold turn at h
  split at h
  next mode e layer ss hd =>
    split at h
    next hempty =>
      cases h
      simp [turn, hempty]
    next => cases h
  next => cases h

namespace Assembly

variable {o : Options δ} {a b c : Assembly δ}

/-- What an event inside a start tag leaves around the tag. -/
structure StaysInTag (o : Options δ) (a : Assembly δ) (e : Event) (b : Assembly δ) : Prop where
  markup : if o.turnsAround a e then a.markup.turn = .ok b.markup else b.markup = a.markup
  openings : b.openings = a.openings
  tag : b.tag.isSome
  rawText : b.rawText = none

theorem StaysInTag.of_eq {e : Event} (ht : o.turnsAround a e = false)
    (hm : b.markup = a.markup) (ho : b.openings = a.openings) (htag : b.tag.isSome)
    (hraw : b.rawText = none) : StaysInTag o a e b :=
  ⟨by rw [if_neg (by simp [ht])]; exact hm, ho, htag, hraw⟩

theorem staysInTag_turn {body : Text} {line : Nat} (htag : a.tag.isSome) (hraw : a.rawText = none)
    (helse : (o.language.split body).2 = "else") (h : a.turn line = .ok b) :
    StaysInTag o a (.marker body) b := by
  unfold turn at h
  split at h
  all_goals
    obtain ⟨d, hd, h⟩ := exists_of_bind_ok h
    cases h
  next hattr => exact .of_eq (by simp [Options.turnsAround, hattr]) rfl rfl htag hraw
  next hbranch _ => exact .of_eq (by simp [Options.turnsAround, hbranch]) rfl rfl rfl hraw
  next hsome _ _ => simp [hraw] at hsome
  next hattr hbranch hnone =>
    refine ⟨?_, rfl, htag, hraw⟩
    have hturns : o.turnsAround a (.marker body) = true := by
      rcases ha : a.attr with _ | ⟨name, value, _ | draft⟩ <;>
        rcases ht : a.tag with _ | ⟨head, _ | branch⟩ <;>
        simp_all [Options.turnsAround]
    rw [if_pos hturns]
    exact Draft.of_atLine_ok hd

theorem staysInTag_marks {body : Text} {mode : Mode} {expression : Text} {line : Nat}
    (htag : a.tag.isSome) (hraw : a.rawText = none) (helse : (o.language.split body).2 ≠ "else")
    (h : Marks o a mode expression line b) : StaysInTag o a (.marker body) b := by
  have hturns := Options.turnsAround_of_ne_else (a := a) helse
  cases h with
  | branch | branchEnd | tagValue | tagBranch =>
    exact .of_eq hturns (by simp) (by simp) rfl (by simp [hraw])
  | attr => exact .of_eq hturns (by simp) (by simp) (by simpa using htag) (by simp [hraw])
  | rawText hnone | markup hnone => simp [hnone] at htag

theorem staysInTag_attrStart (name : Text) (htag : a.tag.isSome) (hraw : a.rawText = none) :
    StaysInTag o a (.attrStart name) (a.attrStart name) := by
  obtain ⟨⟨head, branch⟩, ht⟩ := Option.isSome_iff_exists.1 htag
  cases branch <;> simp only [attrStart, ht] <;> exact .of_eq rfl rfl rfl rfl hraw

theorem staysInTag_attrValue (value : Text) (htag : a.tag.isSome) (hraw : a.rawText = none) :
    StaysInTag o a (.attrValue value) (a.attrValue value) := by
  unfold attrValue
  split
  · exact .of_eq rfl rfl rfl rfl hraw
  · split <;> exact .of_eq rfl rfl rfl htag hraw
  · exact .of_eq rfl rfl rfl htag hraw

theorem staysInTag_attrEnd {name : Text} {line : Nat} (htag : a.tag.isSome) (hraw : a.rawText = none)
    (h : a.attrEnd o name line = .ok b) : StaysInTag o a (.attrEnd name) b := by
  unfold attrEnd at h
  split at h
  · cases h
    exact .of_eq rfl rfl rfl rfl hraw
  · cases h
    exact .of_eq rfl rfl rfl htag hraw
  · obtain ⟨value, -, h⟩ := exists_of_bind_ok h
    split at h
    next hnone => simp [hnone] at htag
    next =>
      cases h
      refine .of_eq rfl ?_ ?_ rfl ?_ <;> simp only [warn] <;> split <;> first | rfl | exact hraw

theorem staysInTag_step {l : Located} (htag : a.tag.isSome) (hraw : a.rawText = none)
    (hl : l.event.inTag = true) (h : step o a l = .ok b) : StaysInTag o a l.event b := by
  obtain ⟨spot, event⟩ := l
  suffices hs : StaysInTag o { a with lastLine := spot.line } event b from ⟨hs.1, hs.2, hs.3, hs.4⟩
  cases event with
  | attrStart name =>
    cases h
    exact staysInTag_attrStart name htag hraw
  | attrValue value =>
    cases h
    exact staysInTag_attrValue value htag hraw
  | attrEnd name => exact staysInTag_attrEnd htag hraw h
  | marker body =>
    rcases marker_cases h with ⟨helse, -⟩ | ⟨helse, ⟨-, rfl⟩ | hm⟩
    · exact staysInTag_turn htag hraw helse ((marker_of_else helse).symm.trans h)
    · exact .of_eq (Options.turnsAround_of_ne_else helse) rfl rfl htag hraw
    · exact staysInTag_marks htag hraw helse hm
  | _ => cases hl

/-- Whether one of the events turns the body around the tag, in the state that it meets. -/
def TurnedAround (o : Options δ) (a : Assembly δ) (events : List Located) : Prop :=
  ∃ before l after b, events = before ++ l :: after ∧ before.foldlM (step o) a = .ok b ∧
    o.turnsAround b l.event = true

theorem not_turnedAround_nil : ¬TurnedAround o a [] := by
  rintro ⟨before, l, after, -, h, -⟩
  simp at h

theorem turnedAround_cons {l : Located} {ls : List Located} (h : step o a l = .ok b) :
    TurnedAround o a (l :: ls) ↔ o.turnsAround a l.event = true ∨ TurnedAround o b ls := by
  constructor
  · rintro ⟨before, m, after, c, hls, hc, hm⟩
    cases before with
    | nil =>
      cases hls
      cases hc
      exact .inl hm
    | cons k before =>
      cases hls
      rw [List.foldlM_cons, h] at hc
      exact .inr ⟨before, m, after, c, rfl, hc, hm⟩
  · rintro (hl | ⟨before, m, after, c, rfl, hc, hm⟩)
    · exact ⟨[], l, ls, a, rfl, rfl, hl⟩
    · refine ⟨l :: before, m, after, c, rfl, ?_, hm⟩
      rw [List.foldlM_cons, h]
      exact hc

theorem foldlM_inTag {events : List Located} (htag : a.tag.isSome) (hraw : a.rawText = none)
    (hevents : ∀ l ∈ events, l.event.inTag = true) (h : events.foldlM (step o) a = .ok c) :
    c.openings = a.openings ∧ c.tag.isSome ∧ c.rawText = none ∧
      (TurnedAround o a events ∧ a.markup.turn = .ok c.markup ∨
        ¬TurnedAround o a events ∧ c.markup = a.markup) := by
  induction events generalizing a with
  | nil =>
    cases h
    exact ⟨rfl, htag, hraw, .inr ⟨not_turnedAround_nil, rfl⟩⟩
  | cons l events ih =>
    rw [List.foldlM_cons] at h
    obtain ⟨b, hb, h⟩ := exists_of_bind_ok h
    have hl := staysInTag_step htag hraw (hevents l List.mem_cons_self) hb
    obtain ⟨ho, ht, hr, hm⟩ := ih hl.tag hl.rawText (fun m hm => hevents m (List.mem_cons_of_mem l hm)) h
    refine ⟨ho.trans hl.openings, ht, hr, ?_⟩
    have hmarkup := hl.markup
    rw [turnedAround_cons hb]
    by_cases hturns : o.turnsAround a l.event = true
    · -- the body stays turned, so a second `else` adds nothing
      rw [if_pos hturns] at hmarkup
      rcases hm with ⟨-, hturn⟩ | ⟨-, hsame⟩
      · rw [MarkupDraft.turn_turn hmarkup, Except.ok.injEq] at hturn
        exact .inl ⟨.inl hturns, hturn ▸ hmarkup⟩
      · exact .inl ⟨.inl hturns, hsame ▸ hmarkup⟩
    · rw [if_neg hturns] at hmarkup
      rcases hm with ⟨hturned, hturn⟩ | ⟨hnot, hsame⟩
      · exact .inl ⟨.inr hturned, hmarkup ▸ hturn⟩
      · exact .inr ⟨by simp [hturns, hnot], hsame.trans hmarkup⟩

theorem puts_tagEnd {tag : Text} {unary : Bool} {line : Nat} (htag : a.tag.isSome)
    (h : a.tagEnd o tag unary line = .ok b) : ∃ head, a.markup.Puts head b.markup := by
  obtain ⟨⟨head, branch⟩, ht⟩ := Option.isSome_iff_exists.1 htag
  refine ⟨head, ?_⟩
  simp only [tagEnd, ht] at h
  split at h
  · cases h
  · cases h
    cases unary with
    | true =>
      simp only [if_true, addUnary]
      split
      · exact .element
      · split
        · exact .nothing
        · exact .custom _
    | false =>
      simp only [Bool.false_eq_true, if_false, openElement]
      split
      · exact .openedContent
      · exact .opened

end Assembly

/-- While a start tag is read, from its beginning through any number of attributes and markers, what
is open around the tag stays as it is, and so does the markup, unless an `else` turned the body
around it that no body in the tag or its attribute took. The next attribute or marker does the same,
and the end of the tag puts the element where the markup then is. -/
theorem foldlM_startTag (o : Options δ) {source : Text} {before inside after : List Located}
    {start : Located} {tag : Text} {unary : Bool} {a c : Assembly δ}
    (hscan : scan source = before ++ start :: (inside ++ after))
    (hstart : start.event = .tagStart tag unary)
    (hinside : ∀ l ∈ inside, l.event.inTag = true)
    (ha : before.foldlM (Assembly.step o) .empty = .ok a)
    (hc : (start :: inside).foldlM (Assembly.step o) a = .ok c) :
    c.openings = a.openings ∧
    (Assembly.TurnedAround o a (start :: inside) ∧ a.markup.turn = .ok c.markup ∨
      ¬Assembly.TurnedAround o a (start :: inside) ∧ c.markup = a.markup) ∧
    (∀ l d, l.event.inTag = true → Assembly.step o c l = .ok d → d.openings = c.openings ∧
      if o.turnsAround c l.event then c.markup.turn = .ok d.markup else d.markup = c.markup) ∧
    ∀ l d, l.event = .tagEnd tag unary → Assembly.step o c l = .ok d →
      ∃ head, c.markup.Puts head d.markup := by
  obtain ⟨p, hbefore, hrest⟩ := (hscan ▸ reads_scan source).of_append
  have hl := Assembly.lockstep_start.run hbefore ha
  obtain ⟨spot, event⟩ := start
  simp only at hstart
  subst hstart
  have hraw : a.rawText = none := by
    cases hrest with
    | cons hm _ =>
      cases hm
      exact hl.rawText_eq_none (by simp)
  rw [List.foldlM_cons] at hc
  obtain ⟨b, hb, hc⟩ := exists_of_bind_ok hc
  obtain ⟨htag, hraw, hmarkup, hopenings⟩ : b.tag.isSome ∧ b.rawText = none ∧
      b.markup = a.markup ∧ b.openings = a.openings := by
    cases hb
    exact ⟨rfl, hraw, rfl, rfl⟩
  obtain ⟨ho, htag, hraw, hm⟩ := Assembly.foldlM_inTag htag hraw hinside hc
  refine ⟨ho.trans hopenings, ?_, fun l d hl hd => ?_, fun l d hl hd => ?_⟩
  · rw [Assembly.turnedAround_cons hb, ← hmarkup]
    simpa [Options.turnsAround] using hm
  · have hs := Assembly.staysInTag_step htag hraw hl hd
    exact ⟨hs.openings, hs.markup⟩
  · obtain ⟨spot, event⟩ := l
    simp only at hl
    subst hl
    exact Assembly.puts_tagEnd (a := { c with lastLine := spot.line }) htag hd

/-- An `else` in a start tag that stands in a branch: `{{#a}}<p {{else}}>x</p>{{/a}}`. -/
def turnedTag : Text := "\x7b\x7b#a\x7d\x7d<p \x7b\x7belse\x7d\x7d>x</p>\x7b\x7b/a\x7d\x7d"

theorem scan_turnedTag : scan turnedTag =
    [⟨⟨0, 1⟩, .marker "#a"⟩] ++ ⟨⟨7, 1⟩, .tagStart "p" false⟩ :: ([⟨⟨9, 1⟩, .marker "else"⟩] ++
      [⟨⟨17, 1⟩, .tagEnd "p" false⟩, ⟨⟨18, 1⟩, .chars "x"⟩, ⟨⟨22, 1⟩, .close "p"⟩,
        ⟨⟨23, 1⟩, .marker "/a"⟩, ⟨⟨29, 1⟩, .done⟩]) := by
  rw [scan_eq_runFor]
  decide

theorem clean_turnedTag : (Options.standard none).clean turnedTag = turnedTag := by decide

def tagInBranch (inverse : Option (Body .standard)) : Assembly .standard where
  markup := ⟨.empty, [⟨.branch .branch ⟨"a", .lookup "a", false, 1⟩, ⟨[], inverse, []⟩⟩]⟩
  tag := some ⟨⟨"p", .html, [], []⟩, none⟩
  attr := none
  openings := [.marker "a"]
  namespaces := []
  rawText := none
  partials := []
  warnings := []
  lastLine := 1

theorem step_turnedTag_open :
    Assembly.step (.standard none) .empty ⟨⟨0, 1⟩, .marker "#a"⟩ =
      .ok { tagInBranch none with tag := none } := by
  have hcompile (site : Site) : (Options.standard none).language.compile .branch "a" site =
      .ok ⟨"a", .lookup "a", false, site.line⟩ :=
    Expression.compileAt_name (by decide) (by decide) rfl .branch site
  have hopens : (Options.standard none).language.split "#a" = (.branch, "a".toList) := by decide
  have helse : "a".toList ≠ "else".toList := by decide
  simp only [Assembly.step, Assembly.marker, hopens, if_neg helse, reduceCtorEq, if_false,
    Assembly.empty, Assembly.markerInContent, Draft.apply, hcompile]
  rfl

theorem step_turnedTag_else :
    Assembly.step (.standard none) (tagInBranch none) ⟨⟨9, 1⟩, .marker "else"⟩ =
      .ok (tagInBranch (some [])) := by
  have helse : ((Options.standard none).language.split "else").2 = "else".toList := by decide
  simp only [Assembly.step, Assembly.marker_of_else helse]
  rfl

theorem step_turnedTag_start :
    Assembly.step (.standard none) { tagInBranch none with tag := none }
        ⟨⟨7, 1⟩, .tagStart "p" false⟩ = .ok (tagInBranch none) := rfl

theorem foldlM_startTag_turnedTag :
    Assembly.TurnedAround (.standard none) { tagInBranch none with tag := none }
        [⟨⟨7, 1⟩, .tagStart "p" false⟩, ⟨⟨9, 1⟩, .marker "else"⟩] ∧
      (tagInBranch none).markup.turn = .ok (tagInBranch (some [])).markup := by
  have hbefore : [⟨⟨0, 1⟩, .marker "#a"⟩].foldlM (Assembly.step (.standard none)) .empty =
      .ok { tagInBranch none with tag := none } := by
    simp only [List.foldlM_cons, List.foldlM_nil, step_turnedTag_open]
    rfl
  have hinside : [⟨⟨7, 1⟩, .tagStart "p" false⟩, ⟨⟨9, 1⟩, .marker "else"⟩].foldlM
      (Assembly.step (.standard none)) { tagInBranch none with tag := none } =
        .ok (tagInBranch (some [])) := by
    simp only [List.foldlM_cons, step_turnedTag_start]
    exact step_turnedTag_else
  obtain ⟨-, ⟨hturned, hmarkup⟩ | ⟨-, hsame⟩, -⟩ := foldlM_startTag (.standard none) scan_turnedTag
    rfl (by decide) hbefore hinside
  · exact ⟨hturned, hmarkup⟩
  · simp [tagInBranch] at hsame

/-- The marker in the tag changes the markup around it: the tag begins in the body of the marker
that opens the branch, and its element is compiled into the body after `else`. -/
theorem compile_turnedTag :
    Assembly.step (.standard none) { tagInBranch none with tag := none }
        ⟨⟨7, 1⟩, .tagStart "p" false⟩ = .ok (tagInBranch none) ∧
    Assembly.step (.standard none) (tagInBranch none) ⟨⟨9, 1⟩, .marker "else"⟩ =
      .ok (tagInBranch (some [])) ∧
    (tagInBranch (some [])).markup ≠ (tagInBranch none).markup ∧
    compile (.standard none) 0 turnedTag =
      .ok ⟨.template 0 [.branch ⟨"a", .lookup "a", false, 1⟩ []
        (some [.element ⟨"p", .html, [], []⟩ [.text "x"]])] [] none, []⟩ := by
  refine ⟨rfl, step_turnedTag_else, by simp [tagInBranch], ?_⟩
  have hrest : [⟨⟨17, 1⟩, .tagEnd "p" false⟩, ⟨⟨18, 1⟩, .chars "x"⟩, ⟨⟨22, 1⟩, .close "p"⟩,
      ⟨⟨23, 1⟩, .marker "/a"⟩, ⟨⟨29, 1⟩, .done⟩].foldlM (Assembly.step (.standard none))
        (tagInBranch (some [])) =
      .ok { (Assembly.empty : Assembly .standard) with
        markup := ⟨⟨[.branch ⟨"a", .lookup "a", false, 1⟩ []
          (some [.element ⟨"p", .html, [], []⟩ [.text "x"]])], none, []⟩, []⟩ } := rfl
  refine compile_of_scan clean_turnedTag scan_turnedTag ?_
  simp only [compileEvents, List.cons_append, List.nil_append, List.foldlM_cons,
    step_turnedTag_open, step_turnedTag_start, step_turnedTag_else, bind, Except.bind] at hrest ⊢
  rw [hrest]
  rfl

end Stencil
