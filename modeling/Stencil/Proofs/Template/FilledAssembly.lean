import Stencil.Proofs.Template.Filled
import Stencil.Proofs.Template.Lockstep

/-!
Two assemblies of the same events, taken in on other lines and in other surroundings. The first
starts from nothing, the second on top of what is already there. No handler is called, so what the
first makes of the events the second makes of them too, and leaves what was there alone.
-/

set_option autoImplicit false

namespace Stencil

variable {δ : Dialect}

structure TagDraft.Like (F : Filling δ) (t t' : TagDraft δ) : Prop where
  head : t.head.Like F t'.head
  branch : Option.Rel (TextDraft.Like F) t.branch t'.branch

structure AttrDraft.Like (F : Filling δ) (a a' : AttrDraft δ) : Prop where
  name : a'.name = a.name
  value : a'.value = a.value
  draft : Option.Rel (TextDraft.Like F) a.draft a'.draft

def AttrDraft.addValue (value : Text) (attr : AttrDraft δ) : AttrDraft δ :=
  match attr.draft with
  | some draft => { attr with draft := some (draft.addText (Text.unescapeAttribute value)) }
  | none => { attr with value := attr.value ++ value }

theorem AttrDraft.Like.addValue {F : Filling δ} {t t' : AttrDraft δ} (h : t.Like F t')
    (value : Text) : (t.addValue value).Like F (t'.addValue value) := by
  obtain ⟨name, text, draft⟩ := t
  obtain ⟨name', text', draft'⟩ := t'
  obtain ⟨rfl, rfl, hdraft⟩ := h
  cases hdraft with
  | none => exact ⟨rfl, rfl, .none⟩
  | some hd => exact ⟨rfl, rfl, .some (hd.addText _)⟩

def Event.CallsNothing (l : Language δ) : Event → Prop
  | .marker body => (l.split body).1 = .call → (l.split body).2 = "else"
  | _ => True

theorem TextDraft.Changed.record {F : Filling δ} {d d' : TextDraft δ} {change change' : Change δ}
    (h : TextDraft.Changed F (d, change) (d', change')) :
    d.Like F d' ∧ (∀ a : Assembly δ, a.record change = a) ∧
      ∀ a : Assembly δ, a.record change' = a := by
  cases h with
  | none h => exact ⟨h, fun _ => rfl, fun _ => rfl⟩
  | opened h name name' => exact ⟨h, fun _ => rfl, fun _ => rfl⟩
  | closed h => exact ⟨h, fun _ => rfl, fun _ => rfl⟩

namespace Assembly

/-- The second assembly is written over a draft with openings of its own. Of its definitions only
that of the name counts, which is `found` as long as the first assembly has not defined it. -/
structure Over (F : Filling δ) (base : MarkupDraft δ) (around : List (Opening δ))
    (found : Option (Body δ)) (a a' : Assembly δ) : Prop where
  markup : MarkupDraft.Over F base around a.markup a.openings a'.markup a'.openings
  tag : Option.Rel (TagDraft.Like F) a.tag a'.tag
  attr : Option.Rel (AttrDraft.Like F) a.attr a'.attr
  rawText : Option.Rel (TextDraft.Like F) a.rawText a'.rawText
  holds : InsideText a.openings → a.rawText.isSome
  held : a.rawText.isSome → InsideText a.openings
  partials : Dict.find? a.partials F.name = none → Dict.find? a'.partials F.name = found
  nodup : a.partials.names.Nodup
  nodup' : a'.partials.names.Nodup

variable {F : Filling δ} {base : MarkupDraft δ} {around : List (Opening δ)}
  {found : Option (Body δ)} {o : Options δ} {a a' : Assembly δ} {line line' : Nat}

namespace Over

theorem not_insideText (h : a.Over F base around found a') (hraw : a.rawText = none) :
    ¬InsideText a.openings := fun ht => by
  have hsome := h.holds ht
  rw [hraw] at hsome
  cases hsome

theorem rawText_eq_none (h : a.Over F base around found a') (hraw : a.rawText = none) :
    a'.rawText = none := by
  have hrel := h.rawText
  rw [hraw] at hrel
  generalize a'.rawText = r at hrel
  cases hrel
  rfl

theorem withLine (h : a.Over F base around found a') (line line' : Nat) :
    Over F base around found { a with lastLine := line } { a' with lastLine := line' } :=
  { h with }

theorem withTag (h : a.Over F base around found a') {t t' : Option (TagDraft δ)}
    (ht : Option.Rel (TagDraft.Like F) t t') :
    Over F base around found { a with tag := t } { a' with tag := t' } :=
  { h with tag := ht }

theorem withAttr (h : a.Over F base around found a') {t t' : Option (AttrDraft δ)}
    (ht : Option.Rel (AttrDraft.Like F) t t') :
    Over F base around found { a with attr := t } { a' with attr := t' } :=
  { h with attr := ht }

theorem add (h : a.Over F base around found a') (hraw : a.rawText = none) {p q : Part δ}
    (hp : p.Filled F q) :
    Over F base around found { a with markup := a.markup.add p }
      { a' with markup := a'.markup.add q } :=
  { h with markup := h.markup.add (h.not_insideText hraw) hp }

theorem warn (h : a.Over F base around found a') (code : WarningCode) (line line' : Nat)
    (text text' : Text) :
    (a.warn o code line text).Over F base around found (a'.warn o code line' text') :=
  { h with }

theorem tagStart (h : a.Over F base around found a') (name : Text) (unary : Bool) :
    (a.tagStart name unary).Over F base around found (a'.tagStart name unary) :=
  { h with tag := .some ⟨⟨rfl, .nil, .nil⟩, .none⟩ }

section

variable (ho : o.handlers = .empty)

include ho

theorem addUnary (h : a.Over F base around found a') (hraw : a.rawText = none)
    {head head' : ElementHead δ} (hhead : head.Like F head') :
    (a.addUnary o head line).Over F base around found (a'.addUnary o head' line') := by
  have htag (tag : Text) : o.handlers.tag? tag = none := by rw [ho]; rfl
  simp only [Assembly.addUnary, htag]
  exact h.add hraw (.element hhead (fun _ => ⟨rfl, rfl⟩) .nil)

theorem openElement (h : a.Over F base around found a') (hraw : a.rawText = none)
    {head head' : ElementHead δ} (hhead : head.Like F head') :
    (a.openElement o head).Over F base around found (a'.openElement o head') := by
  have htag (tag : Text) : o.handlers.tag? tag = none := by rw [ho]; rfl
  have hraw' := h.rawText_eq_none hraw
  simp only [Assembly.openElement, htag, hhead.tag, hraw, hraw']
  have hmarkup := MarkupDraft.Over.element h.markup (h.not_insideText hraw) hhead
    (fun _ => ⟨rfl, rfl⟩) .nil
  by_cases hholds : Tag.holdsText head.tag = true
  · simp only [if_pos hholds]
    exact { h with
      markup := hmarkup, rawText := .some .empty, holds := fun _ => rfl, held := fun _ => hholds }
  · simp only [if_neg hholds]
    exact { h with
      markup := hmarkup, rawText := .none, holds := fun ht => absurd ht hholds
      held := fun ht => by cases ht }

theorem tagEnd (h : a.Over F base around found a') (hraw : a.rawText = none) (name : Text)
    (unary : Bool) :
    SucceedAlike (Over F base around found) (a.tagEnd o name unary line)
      (a'.tagEnd o name unary line') := by
  have htag := h.tag
  have hclosed : Over F base around found { a with tag := none } { a' with tag := none } :=
    h.withTag .none
  unfold Assembly.tagEnd
  generalize a.tag = t, a'.tag = t' at htag
  cases htag with
  | none => exact .ok h
  | @some t t' ht =>
    obtain ⟨head, branch⟩ := t
    obtain ⟨head', branch'⟩ := t'
    obtain ⟨hhead, hbranch⟩ := ht
    cases hbranch with
    | some hb => exact .error _ _
    | none =>
      refine .ok ?_
      cases unary with
      | true => exact hclosed.addUnary ho hraw hhead
      | false => exact hclosed.openElement ho hraw hhead

end

theorem closeElement (h : a.Over F base around found a') {d d' : MarkupDraft δ}
    {os os' : List (Opening δ)} (hd : MarkupDraft.Over F base around d os d' os')
    (hos : ¬InsideText os) {head head' : ElementHead δ} (hhead : head.Like F head') {ps qs : Body δ}
    (hholds : Tag.holdsText head.tag = true → ps = [] ∧ qs = []) (hps : Part.FilledAll F ps qs)
    (hraw : a.rawText.isSome → Tag.holdsText head.tag = true) :
    SucceedAlike (Over F base around found)
      ({ a with markup := d.withElement ⟨head, ps⟩, openings := os }.closeElement head.tag line)
      ({ a' with markup := d'.withElement ⟨head', qs⟩, openings := os' }.closeElement head.tag
        line') := by
  have hclosed {p q : Part δ} (hp : p.Filled F q) :
      Over F base around found { a with markup := d.add p, openings := os, rawText := none }
        { a' with markup := d'.add q, openings := os', rawText := none } :=
    { h with
      markup := hd.add hos hp, rawText := .none, holds := fun ht => absurd ht hos
      held := fun ht => by cases ht }
  have htext := h.rawText
  simp only [Assembly.closeElement, Assembly.endRawText]
  generalize ht : a.rawText = t, ht' : a'.rawText = t' at htext
  cases htext with
  | none =>
    simp only [bind, Except.bind, MarkupDraft.takeElement?_withElement]
    exact .ok (hclosed (.element hhead hholds hps))
  | @some t t' htext =>
    have hheld := hraw (by rw [ht]; rfl)
    obtain ⟨rfl, rfl⟩ := hholds hheld
    simp only [if_pos hheld]
    rw [bind_assoc, bind_assoc]
    refine (htext.finish.atLine _ _ _ _).bind fun parts parts' hparts => ?_
    simp only [pure_bind, MarkupDraft.add_withElement, MarkupDraft.takeElement?_withElement]
    exact .ok (hclosed (.textHolder hhead hparts))

theorem close (h : a.Over F base around found a') {place : Place} {name : Text} {ts : List Text}
    (hlock : Lockstep o a ⟨place, name :: ts⟩) :
    SucceedAlike (Over F base around found) (a.close o name line) (a'.close o name line') := by
  rw [close_eq, close_eq]
  generalize a.namespacesAfter name = namespaces
  generalize a'.namespacesAfter name = namespaces'
  have hopen := hlock.openTags
  have hheld := h.held
  obtain ⟨markup, tag, attr, openings, ns, rawText, partials, warnings, lastLine⟩ := a
  obtain ⟨markup', tag', attr', openings', ns', rawText', partials', warnings', lastLine'⟩ := a'
  have hmarkup : MarkupDraft.Over F base around markup openings markup' openings' := h.markup
  cases hmarkup with
  | root => cases hopen
  | marker => exact .error _ _
  | @element d d' os os' hd hos head head' hhead ps qs hholds hps =>
    obtain rfl : head.tag = name := (List.cons.inj hopen).1
    have hframe : Over F base around found
        ⟨d.withElement ⟨head, ps⟩, tag, attr, .element head.tag :: os, namespaces, rawText,
          partials, warnings, lastLine⟩
        ⟨d'.withElement ⟨head', qs⟩, tag', attr', .element head.tag :: os', namespaces', rawText',
          partials', warnings', lastLine'⟩ := { h with }
    exact hframe.closeElement hd hos hhead hholds hps hheld

theorem attrStart (h : a.Over F base around found a') (name : Text) :
    (a.attrStart name).Over F base around found (a'.attrStart name) := by
  have htag := h.tag
  unfold Assembly.attrStart
  generalize a.tag = t, a'.tag = t' at htag
  cases htag with
  | none => exact h
  | @some t t' htag =>
    obtain ⟨head, branch⟩ := t
    obtain ⟨head', branch'⟩ := t'
    obtain ⟨hhead, hbranch⟩ := htag
    cases hbranch with
    | none =>
      have hattr : AttrDraft.Like F ⟨name, [], none⟩ ⟨name, [], none⟩ := ⟨rfl, rfl, .none⟩
      exact (h.withTag (.some ⟨hhead, .none⟩)).withAttr (.some hattr)
    | @some d d' hd =>
      have hadded := hd.addText (name ++ ['=', '"'])
      exact h.withTag (.some ⟨hhead, .some ⟨hadded.root, hadded.sections, rfl⟩⟩)

theorem attrValue_eq (hbranch : ∀ t ∈ a.tag, t.branch = none) (value : Text) :
    a.attrValue value = { a with attr := a.attr.map (AttrDraft.addValue value) } := by
  obtain ⟨markup, tag, attr, openings, ns, rawText, partials, warnings, lastLine⟩ := a
  rcases tag with _ | ⟨head, branch⟩
  · rcases attr with _ | ⟨name, text, draft⟩
    · rfl
    · cases draft <;> rfl
  · obtain rfl : branch = none := hbranch ⟨head, branch⟩ rfl
    rcases attr with _ | ⟨name, text, draft⟩
    · rfl
    · cases draft <;> rfl

theorem attrValue (h : a.Over F base around found a') (value : Text) :
    (a.attrValue value).Over F base around found (a'.attrValue value) := by
  have hvalue (hbranch : ∀ t ∈ a.tag, t.branch = none) (hbranch' : ∀ t ∈ a'.tag, t.branch = none) :
      (a.attrValue value).Over F base around found (a'.attrValue value) := by
    rw [attrValue_eq hbranch, attrValue_eq hbranch']
    refine h.withAttr ?_
    have hattr := h.attr
    generalize a.attr = t, a'.attr = t' at hattr
    cases hattr with
    | none => exact .none
    | some ht => exact .some (ht.addValue value)
  have htag := h.tag
  generalize ht : a.tag = t, ht' : a'.tag = t' at htag
  cases htag with
  | none => exact hvalue (by simp [ht]) (by simp [ht'])
  | @some t t' htag =>
    obtain ⟨head, branch⟩ := t
    obtain ⟨head', branch'⟩ := t'
    obtain ⟨hhead, hbranch⟩ := htag
    cases hbranch with
    | none => exact hvalue (by simp [ht]) (by simp [ht'])
    | some hd =>
      simp only [Assembly.attrValue, ht, ht']
      exact h.withTag (.some ⟨hhead, .some (hd.addText _)⟩)

theorem attrResult {t t' : AttrDraft δ} (h : t.Like F t') (name : Text) :
    SucceedAlike (AttrValue.Like F) (Assembly.attrResult t name line)
      (Assembly.attrResult t' name line') := by
  obtain ⟨n, text, draft⟩ := t
  obtain ⟨n', text', draft'⟩ := t'
  obtain ⟨rfl, rfl, hdraft⟩ := h
  cases hdraft with
  | none => exact .ok (.static _)
  | some hd =>
    exact (hd.finish.atLine _ _ _ _).bind fun parts parts' hparts => .ok (.dynamic hparts)

theorem warnIf (h : a.Over F base around found a') (b : Bool) (code : WarningCode)
    (line line' : Nat) (text text' : Text) :
    (if b then a.warn o code line text else a).Over F base around found
      (if b then a'.warn o code line' text' else a') := by
  cases b with
  | true => exact { h with }
  | false => exact h

theorem attrEnd (ho : o.handlers = .empty) (h : a.Over F base around found a') (name : Text) :
    SucceedAlike (Over F base around found) (a.attrEnd o name line)
      (a'.attrEnd o name line') := by
  have hhandler : o.handlers.attr? name = none := by rw [ho]; rfl
  have htag := h.tag
  have hattr := h.attr
  simp only [Assembly.attrEnd, hhandler, Option.isNone_none, Bool.true_and]
  generalize ht : a.tag = t, ht' : a'.tag = t' at htag
  generalize hu : a.attr = u, hu' : a'.attr = u' at hattr
  cases htag with
  | none =>
    cases hattr with
    | none => exact .ok h
    | some hattr =>
      refine (attrResult hattr name).bind fun value value' hvalue => .ok ?_
      exact ((h.withTag .none).withAttr .none).warnIf _ _ _ _ _ _
  | @some t t' htag =>
    obtain ⟨head, branch⟩ := t
    obtain ⟨head', branch'⟩ := t'
    obtain ⟨hhead, hbranch⟩ := htag
    cases hbranch with
    | @some d d' hd =>
      have hplain : TextDraft.Like F { d with quoteValues := false }
          { d' with quoteValues := false } := ⟨hd.root, hd.sections, rfl⟩
      have htagged : TagDraft.Like F
          ⟨head, some ({ d with quoteValues := false }.addText ['"', ' '])⟩
          ⟨head', some ({ d' with quoteValues := false }.addText ['"', ' '])⟩ :=
        ⟨hhead, .some (hplain.addText _)⟩
      subst hu hu'
      exact .ok (h.withTag (.some htagged))
    | none =>
      cases hattr with
      | none => exact .ok h
      | some hattr =>
        refine (attrResult hattr name).bind fun value value' hvalue => .ok ?_
        have hended := ((h.withTag (.some ⟨hhead, .none⟩)).withAttr .none).warnIf (o := o)
          (looksBound name) .unknownAttributeBinding line line'
          ("unknown attribute binding " ++ name ++ ". Is a handler registered for it?")
          ("unknown attribute binding " ++ name ++ ". Is a handler registered for it?")
        refine hended.withTag (.some ⟨⟨hhead.tag, ?_, hhead.hooks⟩, .none⟩)
        exact List.rel_append hhead.attrs (.cons ⟨hattr.name, hvalue⟩ .nil)

theorem chars (h : a.Over F base around found a') (text : Text) :
    (a.chars text).Over F base around found (a'.chars text) := by
  have htext := h.rawText
  unfold Assembly.chars
  generalize ht : a.rawText = t, ht' : a'.rawText = t' at htext
  cases htext with
  | none =>
    have hadded := h.markup.addText (h.not_insideText ht) (Text.unescapeText text)
    exact { h with
      markup := hadded, rawText := .none, holds := fun hh => absurd hh (h.not_insideText ht)
      held := nofun }
  | some htext =>
    exact { h with
      rawText := .some (htext.addText text), holds := fun _ => rfl
      held := fun _ => h.held (by rw [ht]; rfl) }

end Over

theorem turn_attr {name value : Text} {draft : TextDraft δ}
    (h : a.attr = some ⟨name, value, some draft⟩) :
    a.turn line = do
      let draft ← Draft.atLine line none draft.turn
      return { a with attr := some ⟨name, value, some draft⟩ } := by
  simp only [turn, h]

theorem turn_branch (hattr : ∀ t ∈ a.attr, t.draft = none) {head : ElementHead δ}
    {draft : TextDraft δ} (h : a.tag = some ⟨head, some draft⟩) :
    a.turn line = do
      let draft ← Draft.atLine line none draft.turn
      return { a with tag := some ⟨head, some draft⟩ } := by
  unfold turn
  split
  next name value draft ht => exact nomatch hattr ⟨name, value, some draft⟩ ht
  next ht _ =>
    rw [h] at ht
    cases ht
    rfl
  next hno => exact absurd h (hno _ _)
  next hno => exact absurd h (hno _ _)

theorem turn_eq (hattr : ∀ t ∈ a.attr, t.draft = none) (htag : ∀ t ∈ a.tag, t.branch = none) :
    a.turn line =
      match a.rawText with
      | some draft => do
        let draft ← Draft.atLine line none draft.turn
        return { a with rawText := some draft }
      | none => do
        let markup ← Draft.atLine line none a.markup.turn
        return { a with markup } := by
  obtain ⟨markup, tag, attr, openings, ns, rawText, partials, warnings, lastLine⟩ := a
  have hbranch (head : ElementHead δ) (draft : TextDraft δ) : tag ≠ some ⟨head, some draft⟩ := by
    rintro rfl
    exact nomatch htag ⟨head, some draft⟩ rfl
  have hdraft (name value : Text) (draft : TextDraft δ) :
      attr ≠ some ⟨name, value, some draft⟩ := by
    rintro rfl
    exact nomatch hattr ⟨name, value, some draft⟩ rfl
  unfold turn
  split
  next name value draft h => exact absurd h (hdraft name value draft)
  next head draft h _ => exact absurd h (hbranch head draft)
  next draft h _ _ =>
    obtain rfl : rawText = some draft := h
    rfl
  next h _ _ =>
    obtain rfl : rawText = none := h
    rfl

namespace Over

theorem follow_closed (b b' : Assembly δ) {name : Text} {rest rest' : List (Opening δ)}
    (ho : b.openings = .marker name :: rest) (ho' : b'.openings = .marker name :: rest')
    (h : Over F base around found { b with openings := rest } { b' with openings := rest' })
    (expression : Text) (definition definition' : Option (Text × Body δ)) :
    Over F base around found (b.follow o expression line (.closed definition))
      (b'.follow o expression line' (.closed definition')) := by
  simp only [Assembly.follow, ho, ho']
  exact h.warnIf _ _ _ _ _ _

theorem follow (h : a.Over F base around found a') (hraw : a.rawText = none)
    {markup markup' : MarkupDraft δ} {change change' : Change δ}
    (hchanged : MarkupDraft.Changed F base around a.openings a'.openings (markup, change)
      (markup', change')) (o : Options δ) (expression : Text) (line line' : Nat) :
    Over F base around found
      (({ a with markup }.record change).follow o expression line change)
      (({ a' with markup := markup' }.record change').follow o expression line' change') := by
  have hframe {d d' : MarkupDraft δ} {os os' : List (Opening δ)}
      (hd : MarkupDraft.Over F base around d os d' os') (hos : ¬InsideText os) :
      Over F base around found { a with markup := d, openings := os }
        { a' with markup := d', openings := os' } :=
    { h with
      markup := hd, holds := fun ht => absurd ht hos
      held := fun ht => by rw [hraw] at ht; cases ht }
  cases hchanged with
  | none hd => exact { h with markup := hd }
  | opened name hd => exact hframe hd id
  | branch ho ho' hrest hd =>
    exact follow_closed { a with markup } { a' with markup := markup' } ho ho' (hframe hd hrest)
      _ _ _
  | inline ho ho' hrest hd defined ps qs =>
    have hdefined : Dict.find? (a.partials.insert defined ps) F.name = none →
        Dict.find? (a'.partials.insert defined qs) F.name = found := by
      intro hnone
      rw [Dict.find?_insert] at hnone ⊢
      by_cases hname : F.name = defined
      · rw [if_pos hname] at hnone
        cases hnone
      · rw [if_neg hname] at hnone ⊢
        exact h.partials hnone
    have hrecorded := hframe hd hrest
    refine follow_closed { a with markup, partials := a.partials.insert defined ps }
      { a' with markup := markup', partials := a'.partials.insert defined qs } ho ho' ?_ _ _ _
    exact { hrecorded with
      partials := hdefined, nodup := Dict.nodup_names_insert h.nodup defined ps
      nodup' := Dict.nodup_names_insert h.nodup' defined qs }

end Over

namespace Over

section

variable {strict : Prop} (hstrict : strict → base = .empty ∧ around = [])

include hstrict

theorem turn (h : a.Over F base around found a') :
    Follows strict (Over F base around found) (a.turn line) (a'.turn line') := by
  have hcontent (hattr : ∀ t ∈ a.attr, t.draft = none) (hattr' : ∀ t ∈ a'.attr, t.draft = none)
      (htag : ∀ t ∈ a.tag, t.branch = none) (htag' : ∀ t ∈ a'.tag, t.branch = none) :
      Follows strict (Over F base around found) (a.turn line) (a'.turn line') := by
    rw [turn_eq hattr htag, turn_eq hattr' htag']
    have htext := h.rawText
    generalize ht : a.rawText = t, ht' : a'.rawText = t' at htext
    cases htext with
    | none =>
      refine ((h.markup.turn hstrict).atLine _ _ _ _).bind fun d d' hd => .ok ?_
      exact { h with
        markup := hd, rawText := .none, holds := fun hh => absurd hh (h.not_insideText ht)
        held := nofun }
    | some htext =>
      refine ((htext.turn.atLine _ _ _ _).follows strict).bind fun d d' hd => .ok ?_
      exact { h with
        rawText := .some hd, holds := fun _ => rfl, held := fun _ => h.held (by rw [ht]; rfl) }
  have htagged (hattr : ∀ t ∈ a.attr, t.draft = none) (hattr' : ∀ t ∈ a'.attr, t.draft = none) :
      Follows strict (Over F base around found) (a.turn line) (a'.turn line') := by
    have htag := h.tag
    generalize ht : a.tag = t, ht' : a'.tag = t' at htag
    cases htag with
    | none => exact hcontent hattr hattr' (by simp [ht]) (by simp [ht'])
    | @some t t' htag =>
      obtain ⟨head, branch⟩ := t
      obtain ⟨head', branch'⟩ := t'
      obtain ⟨hhead, hbranch⟩ := htag
      cases hbranch with
      | none => exact hcontent hattr hattr' (by simp [ht]) (by simp [ht'])
      | some hd =>
        rw [turn_branch hattr ht, turn_branch hattr' ht']
        refine ((hd.turn.atLine _ _ _ _).follows strict).bind fun d d' hd => .ok ?_
        exact h.withTag (.some ⟨hhead, .some hd⟩)
  have hattr := h.attr
  generalize ht : a.attr = t, ht' : a'.attr = t' at hattr
  cases hattr with
  | none => exact htagged (by simp [ht]) (by simp [ht'])
  | @some t t' hattr =>
    obtain ⟨name, value, draft⟩ := t
    obtain ⟨name', value', draft'⟩ := t'
    obtain ⟨rfl, rfl, hdraft⟩ := hattr
    cases hdraft with
    | none => exact htagged (by simp [ht]) (by simp [ht'])
    | some hd =>
      rw [turn_attr ht, turn_attr ht']
      refine ((hd.turn.atLine _ _ _ _).follows strict).bind fun d d' hd => .ok ?_
      exact h.withAttr (.some ⟨rfl, rfl, .some hd⟩)

section

variable (hl : o.language.Uniform F.expr)

include hl

omit hstrict in
theorem markerInBranch (h : a.Over F base around found a') {head head' : ElementHead δ}
    (hhead : head.Like F head') {d d' : TextDraft δ} (hd : d.Like F d') {mode : Mode}
    (hmode : mode ≠ .call) (expression : Text) :
    SucceedAlike (Over F base around found) (a.markerInBranch o head d mode expression line)
      (a'.markerInBranch o head' d' mode expression line') := by
  unfold Assembly.markerInBranch
  split
  · exact .error _ _
  · refine (hd.apply hl _ _ hmode expression).bind fun x y hxy => ?_
    obtain ⟨d, change⟩ := x
    obtain ⟨d', change'⟩ := y
    obtain ⟨hd, hchange, hchange'⟩ := hxy.record
    simp only [hchange, hchange']
    have hempty : d'.sections.isEmpty = d.sections.isEmpty := by
      have hsections := hd.sections
      generalize d.sections = ss, d'.sections = ss' at hsections
      cases hsections <;> rfl
    rw [hempty]
    split
    · refine (hd.finish.atLine _ _ _ _).bind fun parts parts' hparts => .ok ?_
      exact h.withTag (.some ⟨⟨hhead.tag, hhead.attrs,
        List.rel_append hhead.hooks (.cons (.tagText hparts) .nil)⟩, .none⟩)
    · exact .ok (h.withTag (.some ⟨hhead, .some hd⟩))

omit hstrict in
theorem markerInAttr (h : a.Over F base around found a') {t t' : AttrDraft δ} (ht : t.Like F t')
    {mode : Mode} (hmode : mode ≠ .call) (expression : Text) :
    SucceedAlike (Over F base around found) (a.markerInAttr o t mode expression line)
      (a'.markerInAttr o t' mode expression line') := by
  have hseeded : TextDraft.Like F
      (t.draft.getD (TextDraft.empty.addText (Text.unescapeAttribute t.value)))
      (t'.draft.getD (TextDraft.empty.addText (Text.unescapeAttribute t'.value))) := by
    have hdraft := ht.draft
    rw [ht.value]
    generalize t.draft = u, t'.draft = u' at hdraft
    cases hdraft with
    | none => exact TextDraft.Like.empty.addText _
    | some hd => exact hd
  refine (hseeded.apply hl _ _ hmode expression).bind fun x y hxy => ?_
  obtain ⟨d, change⟩ := x
  obtain ⟨d', change'⟩ := y
  obtain ⟨hd, hchange, hchange'⟩ := hxy.record
  simp only [hchange, hchange']
  exact .ok (h.withAttr (.some ⟨ht.name, ht.value, .some hd⟩))

omit hstrict in
theorem markerInTag (h : a.Over F base around found a') {head head' : ElementHead δ}
    (hhead : head.Like F head') (mode : Mode) (expression : Text) :
    SucceedAlike (Over F base around found) (a.markerInTag o head mode expression line)
      (a'.markerInTag o head' mode expression line') := by
  cases mode with
  | escaped =>
    refine (hl.compile _ _ _ _).bind fun e f he => .ok ?_
    exact h.withTag (.some ⟨⟨hhead.tag, hhead.attrs,
      List.rel_append hhead.hooks (.cons (.tagText (.cons (.value he false) .nil)) .nil)⟩, .none⟩)
  | branch | inverse =>
    refine (TextDraft.Like.empty.apply hl _ _ (by simp) expression).bind fun x y hxy => ?_
    obtain ⟨d, change⟩ := x
    obtain ⟨d', change'⟩ := y
    obtain ⟨hd, hchange, hchange'⟩ := hxy.record
    simp only [hchange, hchange']
    exact .ok (h.withTag (.some ⟨hhead, .some hd⟩))
  | unescaped | inlineTemplate | call | close | comment => exact .error _ _

theorem markerInContent (h : a.Over F base around found a') {mode : Mode} (hmode : mode ≠ .call)
    (expression : Text) :
    Follows strict (Over F base around found) (a.markerInContent o mode expression line)
      (a'.markerInContent o mode expression line') := by
  have htext := h.rawText
  unfold Assembly.markerInContent
  generalize ht : a.rawText = t, ht' : a'.rawText = t' at htext
  cases htext with
  | some htext =>
    refine ((htext.apply hl _ _ hmode expression).follows strict).bind fun x y hxy => ?_
    obtain ⟨d, change⟩ := x
    obtain ⟨d', change'⟩ := y
    obtain ⟨hd, hchange, hchange'⟩ := hxy.record
    simp only [hchange, hchange']
    exact .ok { h with
      rawText := .some hd, holds := fun _ => rfl, held := fun _ => h.held (by rw [ht]; rfl) }
  | none =>
    refine (h.markup.apply hstrict hl (h.not_insideText ht) _ _ hmode expression).bind
      fun x y hxy => ?_
    obtain ⟨markup, change⟩ := x
    obtain ⟨markup', change'⟩ := y
    have hfollow := h.follow ht hxy o expression line line'
    rw [ht, ht'] at hfollow
    exact .ok hfollow

theorem marker (h : a.Over F base around found a') {body : Text}
    (hcalls : (Event.marker body).CallsNothing o.language) :
    Follows strict (Over F base around found) (a.marker o body line)
      (a'.marker o body line') := by
  change (o.language.split body).1 = .call → (o.language.split body).2 = "else" at hcalls
  unfold Assembly.marker
  generalize o.language.split body = parsed at hcalls ⊢
  obtain ⟨mode, expression⟩ := parsed
  by_cases helse : expression = "else"
  · simp only [if_pos helse]
    exact h.turn hstrict
  · have hmode : mode ≠ .call := fun hcall => helse (hcalls hcall)
    simp only [if_neg helse]
    split
    · exact .ok h
    · have htag := h.tag
      have hattr := h.attr
      generalize a.tag = t, a'.tag = t' at htag
      generalize a.attr = u, a'.attr = u' at hattr
      cases htag with
      | none =>
        cases hattr with
        | none => exact h.markerInContent hstrict hl hmode expression
        | some hattr => exact (h.markerInAttr hl hattr hmode expression).follows strict
      | @some t t' htag =>
        obtain ⟨head, branch⟩ := t
        obtain ⟨head', branch'⟩ := t'
        obtain ⟨hhead, hbranch⟩ := htag
        cases hbranch with
        | some hd => exact (h.markerInBranch hl hhead hd hmode expression).follows strict
        | none =>
          cases hattr with
          | none => exact (h.markerInTag hl hhead mode expression).follows strict
          | some hattr => exact (h.markerInAttr hl hattr hmode expression).follows strict

theorem step (ho : o.handlers = .empty) (h : a.Over F base around found a') {p q : Position}
    (hlock : Lockstep o a p) {k m : Located} (hm : p.Moves k.event q) (hsame : m.event = k.event)
    (hcalls : k.event.CallsNothing o.language) :
    Follows strict (Over F base around found) (Assembly.step o a k) (Assembly.step o a' m) := by
  obtain ⟨spot, event⟩ := k
  obtain ⟨spot', event'⟩ := m
  obtain rfl : event' = event := hsame
  have hline := h.withLine spot.line spot'.line
  have hraw (hp : p.place ≠ .rawText) : a.rawText = none := hlock.rawText_eq_none hp
  cases hm with
  | tagStart name unary ts => exact .ok (hline.tagStart name unary)
  | tagEndUnary name ts => exact (hline.tagEnd ho (hraw (by simp)) name true).follows strict
  | tagEnd name ts => exact (hline.tagEnd ho (hraw (by simp)) name false).follows strict
  | close place name ts =>
    have hlock : Lockstep o { a with lastLine := spot.line } ⟨place, name :: ts⟩ :=
      ⟨hlock.1, hlock.2, hlock.3, hlock.4⟩
    exact (hline.close hlock).follows strict
  | attrStart t name ts => exact .ok (hline.attrStart name)
  | attrValue t name value ts => exact .ok (hline.attrValue value)
  | attrEnd t name ts => exact (hline.attrEnd ho name).follows strict
  | chars place content ts hplace => exact .ok (hline.chars content)
  | marker place body ts hplace => exact hline.marker hstrict hl hcalls
  | comment content ts => exact .ok (hline.add (hraw (by simp)) (.comment content))
  | done place => exact .ok hline

/-- What the first makes of a run of events the second makes of it too. -/
theorem run (ho : o.handlers = .empty) {p q : Position} {ks ms : List Located}
    (hr : p.Reads ks q) (h : a.Over F base around found a') (hlock : Lockstep o a p)
    (hsame : ms.map Located.event = ks.map Located.event)
    (hcalls : ∀ k ∈ ks, k.event.CallsNothing o.language) :
    Follows strict (fun b b' => b.Over F base around found b' ∧ Lockstep o b q)
      (ks.foldlM (Assembly.step o) a) (ms.foldlM (Assembly.step o) a') := by
  induction hr generalizing a a' ms with
  | nil =>
    obtain rfl := List.map_eq_nil_iff.1 hsame
    exact .ok ⟨h, hlock⟩
  | @cons p q r k ks hm hr ih =>
    obtain ⟨m, ms, rfl, hevent, hsame⟩ := List.map_eq_cons_iff.1 hsame
    rw [List.forall_mem_cons] at hcalls
    have hstep := h.step hstrict hl ho hlock hm hevent hcalls.1
    have hnext {b : Assembly δ} (hb : Assembly.step o a k = .ok b) := hlock.step hm hb
    rw [List.foldlM_cons, List.foldlM_cons]
    generalize Assembly.step o a k = x, Assembly.step o a' m = y at hstep hnext
    cases hstep with
    | error e f => exact .error e f
    | loose hs e y => exact .loose hs e _
    | ok hb => exact ih hb (hnext rfl) hsame hcalls.2

end

end

end Over

end Assembly

end Stencil
