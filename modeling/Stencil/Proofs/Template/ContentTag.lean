import Stencil.Proofs.Template.Buffered
import Stencil.Proofs.Template.Lockstep
import Stencil.Proofs.Template.Outcome

/-!
Compiling with one more custom tag. A template is put together twice, with and without a handler for
a tag whose content the handler renders as it stands. The drafts and the openings of the two stay in
step: where the one opens an element, the other opens an element and a section for its content. So
both compile or neither does, and what they hold differs only in how the content of the tag is held.
-/

set_option autoImplicit false

namespace Stencil

variable {δ : Dialect}

/-- The language compiles an expression without regard to what the place of it is nested in. -/
def Language.IgnoresNesting (l : Language δ) : Prop :=
  ∀ mode source site directlyNested,
    l.compile mode source { site with directlyNested } = l.compile mode source site

theorem Draft.apply_nested {D : Type} [Draft δ D] {l : Language δ} (h : l.IgnoresNesting)
    (site : Site) (directlyNested : Bool) (d : D) (mode : Mode) (expression : Text) :
    apply l { site with directlyNested } d mode expression = apply l site d mode expression := by
  have hcompile (mode : Mode) (source : Text) := h mode source site directlyNested
  cases mode <;> simp only [apply, hcompile]

/-- The options with a handler for one more tag. -/
def Options.withTag (o : Options δ) (tag : Text) (handler : δ.TagHandler) : Options δ :=
  { o with handlers := { o.handlers with tags := o.handlers.tags.insert tag handler } }

theorem Options.tag?_withTag (o : Options δ) (tag : Text) (handler : δ.TagHandler) (name : Text) :
    (o.withTag tag handler).handlers.tag? name =
      if name = tag then some handler else o.handlers.tag? name :=
  Dict.find?_insert _ _ _ _

namespace MarkupDraft

variable {o : Options δ} {tag : Text} {handler : δ.TagHandler}

/-- The drafts of two assemblies with their openings, of which the second buffers the content of the
tag. Any other custom tag has its content buffered in both. -/
inductive Buffers (o : Options δ) (tag : Text) (handler : δ.TagHandler) :
    MarkupDraft δ → List (Opening δ) → MarkupDraft δ → List (Opening δ) → Prop
  | root {ps qs : Body δ} (h : Part.BuffersAll handler ps qs) :
      Buffers o tag handler ⟨⟨ps, none, []⟩, []⟩ [] ⟨⟨qs, none, []⟩, []⟩ []
  | marker {d d' : MarkupDraft δ} {os os' : List (Opening δ)}
      (hd : Buffers o tag handler d os d' os') (opener : Opener δ) (hopener : opener ≠ .custom)
      (name : Text) {ps qs : Body δ}
      {i j : Option (Body δ)} (h : Part.BuffersAll handler ps qs)
      (hi : Part.BuffersOption handler i j) :
      Buffers o tag handler (d.withSection opener ps i) (.marker name :: os)
        (d'.withSection opener qs j) (.marker name :: os')
  | element {d d' : MarkupDraft δ} {os os' : List (Opening δ)}
      (hd : Buffers o tag handler d os d' os') (head : ElementHead δ) (name : Text) {ps qs : Body δ}
      (h : Part.BuffersAll handler ps qs) :
      Buffers o tag handler (d.withElement ⟨head, ps⟩) (.element name :: os)
        (d'.withElement ⟨head, qs⟩) (.element name :: os')
  | custom {d d' : MarkupDraft δ} {os os' : List (Opening δ)}
      (hd : Buffers o tag handler d os d' os') (head : ElementHead δ) {name : Text}
      (hname : name ≠ definitionTag) {own : δ.TagHandler} (hown : o.handlers.tag? name = some own)
      (nested nested' : Bool) {ps qs : Body δ} (h : Part.BuffersAll handler ps qs) :
      Buffers o tag handler ((d.withElement ⟨head, []⟩).withSection .custom ps none)
        (.custom name own nested [] :: os) ((d'.withElement ⟨head, []⟩).withSection .custom qs none)
        (.custom name own nested' [] :: os')
  | content {d d' : MarkupDraft δ} {os os' : List (Opening δ)}
      (hd : Buffers o tag handler d os d' os') (head : ElementHead δ) (nested : Bool)
      {ps qs : Body δ} (h : Part.BuffersAll handler ps qs) :
      Buffers o tag handler (d.withElement ⟨head, ps⟩) (.element tag :: os)
        ((d'.withElement ⟨head, []⟩).withSection .custom qs none)
        (.custom tag handler nested [] :: os')

namespace Buffers

variable {d d' : MarkupDraft δ} {os os' : List (Opening δ)}

theorem add (h : Buffers o tag handler d os d' os') {p q : Part δ} (hp : p.Buffers handler q) :
    Buffers o tag handler (d.add p) os (d'.add q) os' := by
  cases h with
  | root h => exact .root (h.push hp)
  | marker hd opener hopener name h hi =>
    cases hi with
    | none => exact .marker hd opener hopener name (h.push hp) .none
    | some hi => exact .marker hd opener hopener name h (.some (hi.push hp))
  | element hd head name h =>
    rw [add_withElement, add_withElement]
    exact .element hd head name (h.push hp)
  | custom hd head hname hown nested nested' h =>
    exact .custom hd head hname hown nested nested' (h.push hp)
  | content hd head nested h =>
    rw [add_withElement]
    exact .content hd head nested (h.push hp)

theorem addText (h : Buffers o tag handler d os d' os') (t : Text) :
    Buffers o tag handler (d.addText t) os (d'.addText t) os' := by
  unfold MarkupDraft.addText
  split
  · exact h
  · exact h.add (.text t)

theorem finish (h : Buffers o tag handler d os d' os') :
    SucceedAlike (Part.BuffersAll handler) d.finish d'.finish := by
  cases h with
  | root h => exact .ok h
  | element hd head name h =>
    rw [finish_withElement, finish_withElement]
    exact .error _ _
  | content hd head nested h =>
    rw [finish_withElement]
    exact .error _ _
  | marker | custom => exact .error _ _

theorem turn (h : Buffers o tag handler d os d' os') :
    SucceedAlike (Buffers o tag handler · os · os') d.turn d'.turn := by
  cases h with
  | root h => exact .error _ _
  | marker hd opener hopener name h hi =>
    cases opener with
    | branch mode e =>
      refine .ok (.marker hd (.branch mode e) hopener name h (.some ?_))
      cases hi with
      | none => exact .nil
      | some hi => exact hi
    | inlineTemplate => exact .error _ _
    | custom => exact absurd rfl hopener
  | @element d d' os os' hd head name ps qs h =>
    obtain ⟨code, hcode⟩ := d.turn_withElement ⟨head, ps⟩
    obtain ⟨code', hcode'⟩ := d'.turn_withElement ⟨head, qs⟩
    rw [hcode, hcode']
    exact .error _ _
  | custom => exact .error _ _
  | @content d d' os os' hd head nested ps qs h =>
    obtain ⟨code, hcode⟩ := d.turn_withElement ⟨head, ps⟩
    rw [hcode]
    exact .error _ _

end Buffers

inductive Applied (o : Options δ) (tag : Text) (handler : δ.TagHandler)
    (os os' : List (Opening δ)) :
    MarkupDraft δ × Change δ → MarkupDraft δ × Change δ → Prop
  | none {d d' : MarkupDraft δ} (h : Buffers o tag handler d os d' os') :
      Applied o tag handler os os' (d, .none) (d', .none)
  | opened {d d' : MarkupDraft δ} (name : Text)
      (h : Buffers o tag handler d (.marker name :: os) d' (.marker name :: os')) :
      Applied o tag handler os os' (d, .opened name) (d', .opened name)
  | branch {d d' : MarkupDraft δ} {name : Text} {rest rest' : List (Opening δ)}
      (ho : os = .marker name :: rest) (ho' : os' = .marker name :: rest')
      (h : Buffers o tag handler d rest d' rest') :
      Applied o tag handler os os' (d, .closed .none) (d', .closed .none)
  | inline {d d' : MarkupDraft δ} {name : Text} {rest rest' : List (Opening δ)}
      (ho : os = .marker name :: rest) (ho' : os' = .marker name :: rest')
      (h : Buffers o tag handler d rest d' rest') (defined : Text) {ps qs : Body δ}
      (hb : Part.BuffersAll handler ps qs) :
      Applied o tag handler os os' (d, .closed (some (defined, ps)))
        (d', .closed (some (defined, qs)))

namespace Buffers

variable {d d' : MarkupDraft δ} {os os' : List (Opening δ)}

theorem close (h : Buffers o tag handler d os d' os') (expression : Text) (line : Nat) :
    SucceedAlike (Applied o tag handler os os') (Draft.close d expression line)
      (Draft.close d' expression line) := by
  cases h with
  | root h => exact .error _ _
  | @marker d d' os os' hd opener hopener name ps qs i j h hi =>
    cases opener with
    | branch mode e =>
      by_cases hmode : mode = .inlineTemplate
      · subst hmode
        exact .error _ _
      · rw [MarkupDraft.close_withSection hmode, MarkupDraft.close_withSection hmode]
        exact .ok (.branch rfl rfl (hd.add (.branch e h hi)))
    | inlineTemplate n => exact .ok (.inline rfl rfl hd _ h)
    | custom => exact absurd rfl hopener
  | @element d d' os os' hd head name ps qs h =>
    obtain ⟨e, he⟩ := d.close_withElement ⟨head, ps⟩ expression line
    obtain ⟨e', he'⟩ := d'.close_withElement ⟨head, qs⟩ expression line
    rw [he, he']
    exact .error _ _
  | custom => exact .error _ _
  | @content d d' os os' hd head nested ps qs h =>
    obtain ⟨e, he⟩ := d.close_withElement ⟨head, ps⟩ expression line
    rw [he]
    exact .error _ _

theorem apply (h : Buffers o tag handler d os d' os') (l : Language δ) (site : Site) (mode : Mode)
    (expression : Text) :
    SucceedAlike (Applied o tag handler os os') (Draft.apply l site d mode expression)
      (Draft.apply l site d' mode expression) := by
  cases mode with
  | close => exact h.close expression site.line
  | escaped => exact .same _ fun e => .ok (.none (h.add (.value e true)))
  | unescaped => exact .same _ fun e => .ok (.none (h.add (.value e false)))
  | branch =>
    exact .same _ fun e => .ok (.opened _ (.marker h (.branch .branch e) (by simp) _ .nil .none))
  | inverse =>
    exact .same _ fun e => .ok (.opened _ (.marker h (.branch .inverse e) (by simp) _ .nil .none))
  | inlineTemplate =>
    exact .ok (.opened _ (.marker h (.inlineTemplate expression) (by simp) _ .nil .none))
  | comment => exact .ok (.none h)
  | call =>
    simp only [Draft.apply]
    split
    · exact .error _ _
    · split
      · exact .ok (.none (h.add (.call _)))
      · exact .same _ fun e => .ok (.none (h.add (.call _)))

end Buffers

end MarkupDraft

namespace Assembly

variable {o : Options δ} {tag : Text} {handler : δ.TagHandler} {a a' : Assembly δ} {line : Nat}

/-- Two assemblies of the same events, of which the second buffers the content of the tag. -/
structure Buffers (o : Options δ) (tag : Text) (handler : δ.TagHandler) (a a' : Assembly δ) :
    Prop where
  markup : MarkupDraft.Buffers o tag handler a.markup a.openings a'.markup a'.openings
  tag : a'.tag = a.tag
  named : ∀ t ∈ a.tag, t.head.tag ≠ definitionTag
  attr : a'.attr = a.attr
  namespaces : a'.namespaces = a.namespaces
  rawText : a'.rawText = a.rawText
  partials : Dict.Rel (Part.BuffersAll handler) a.partials a'.partials
  warnings : a'.warnings = a.warnings
  lastLine : a'.lastLine = a.lastLine

theorem buffers_empty (o : Options δ) (tag : Text) (handler : δ.TagHandler) :
    (empty : Assembly δ).Buffers o tag handler .empty where
  markup := .root .nil
  tag := rfl
  named := nofun
  attr := rfl
  namespaces := rfl
  rawText := rfl
  partials := .nil
  warnings := rfl
  lastLine := rfl

namespace Buffers

theorem withLine (h : a.Buffers o tag handler a') (line : Nat) :
    Buffers o tag handler { a with lastLine := line } { a' with lastLine := line } :=
  { h with lastLine := rfl }

theorem withTag (h : a.Buffers o tag handler a') (t : Option (TagDraft δ))
    (ht : ∀ u ∈ t, u.head.tag ≠ definitionTag) :
    Buffers o tag handler { a with tag := t } { a' with tag := t } :=
  { h with tag := rfl, named := ht }

theorem withAttr (h : a.Buffers o tag handler a') (attr : Option (AttrDraft δ)) :
    Buffers o tag handler { a with attr } { a' with attr } :=
  { h with attr := rfl }

theorem withRawText (h : a.Buffers o tag handler a') (rawText : Option (TextDraft δ)) :
    Buffers o tag handler { a with rawText } { a' with rawText } :=
  { h with rawText := rfl }

theorem withMarkup (h : a.Buffers o tag handler a') {d d' : MarkupDraft δ}
    {os os' : List (Opening δ)} (hd : d.Buffers o tag handler os d' os') :
    Buffers o tag handler { a with markup := d, openings := os }
      { a' with markup := d', openings := os' } :=
  { h with markup := hd }

theorem add (h : a.Buffers o tag handler a') {p q : Part δ} (hp : p.Buffers handler q) :
    Buffers o tag handler { a with markup := a.markup.add p }
      { a' with markup := a'.markup.add q } :=
  { h with markup := h.markup.add hp }

theorem warn (h : a.Buffers o tag handler a') (code : WarningCode) (line : Nat) (text : Text) :
    (a.warn o code line text).Buffers o tag handler
      (a'.warn (o.withTag tag handler) code line text) :=
  { h with warnings := by simp only [Assembly.warn, h.warnings]; rfl }

theorem record (h : a.Buffers o tag handler a') (change : Change δ) :
    (a.record change).Buffers o tag handler (a'.record change) := by
  unfold Assembly.record
  split
  next name body => exact { h with partials := h.partials.insert name (.refl handler body) }
  next => exact h

theorem tagStart (h : a.Buffers o tag handler a') {name : Text} (hname : name ≠ definitionTag)
    (unary : Bool) : (a.tagStart name unary).Buffers o tag handler (a'.tagStart name unary) := by
  simp only [Assembly.tagStart, h.namespaces]
  exact { h with tag := rfl, namespaces := rfl, named := by rintro _ ⟨⟩; exact hname }

theorem addUnary (hfree : o.handlers.tag? tag = none) (h : a.Buffers o tag handler a')
    {head : ElementHead δ} (hname : head.tag ≠ definitionTag) (line : Nat) :
    (a.addUnary o head line).Buffers o tag handler
      (a'.addUnary (o.withTag tag handler) head line) := by
  simp only [Assembly.addUnary, Options.tag?_withTag, if_neg hname]
  by_cases htag : head.tag = tag
  · rw [if_pos htag, htag, hfree]
    exact h.add (.content head a'.directlyNested line none .nil)
  · rw [if_neg htag]
    cases o.handlers.tag? head.tag with
    | none => exact h.add (.element head .nil)
    | some own =>
      exact h.add (.custom head ⟨own, a.directlyNested, line⟩ a'.directlyNested none .none)

theorem openElement (hfree : o.handlers.tag? tag = none) (hholds : Tag.holdsText tag = false)
    (h : a.Buffers o tag handler a') {head : ElementHead δ} (hname : head.tag ≠ definitionTag) :
    (a.openElement o head).Buffers o tag handler (a'.openElement (o.withTag tag handler) head) := by
  simp only [Assembly.openElement, Options.tag?_withTag]
  by_cases htag : head.tag = tag
  · rw [if_pos htag, htag, hfree]
    simp only [hholds, Bool.false_eq_true, if_false]
    exact h.withMarkup (.content h.markup head a'.directlyNested .nil)
  · rw [if_neg htag]
    cases hown : o.handlers.tag? head.tag with
    | none =>
      simp only [h.rawText]
      exact (h.withMarkup (.element h.markup head head.tag .nil)).withRawText _
    | some own =>
      exact h.withMarkup
        (.custom h.markup head hname hown a.directlyNested a'.directlyNested .nil)

theorem tagEnd (hfree : o.handlers.tag? tag = none) (hholds : Tag.holdsText tag = false)
    (h : a.Buffers o tag handler a') (name : Text) (unary : Bool) (line : Nat) :
    SucceedAlike (Buffers o tag handler) (a.tagEnd o name unary line)
      (a'.tagEnd (o.withTag tag handler) name unary line) := by
  simp only [Assembly.tagEnd, h.tag]
  cases ht : a.tag with
  | none => exact .ok h
  | some t =>
    have hnamed := h.named t ht
    have hclosed := h.withTag none (by simp)
    simp only
    split
    · exact .error _ _
    · refine .ok ?_
      split
      · exact hclosed.addUnary hfree hnamed line
      · exact hclosed.openElement hfree hholds hnamed

end Buffers

theorem closeCustom_eq {d : MarkupDraft δ} {head : ElementHead δ} {ps : Body δ}
    (hmarkup : a.markup = (d.withElement ⟨head, []⟩).withSection .custom ps none)
    (hraw : a.rawText = none) {name : Text} (hname : name ≠ definitionTag) (own : δ.TagHandler)
    (nested : Bool) (templates : Dict (Body δ)) (line : Nat) :
    a.closeCustom o name own nested templates line = .ok { a with
      markup := d.add (.custom head ⟨own, nested, line⟩ (if ps.isEmpty then none else some ps)
        (some templates)) } := by
  have hcustom : a.markup.closeCustom = .ok (ps, d.withElement ⟨head, []⟩) := by
    rw [hmarkup]
    rfl
  simp only [closeCustom, hcustom, Assembly.endRawText, hraw, bind, Except.bind,
    MarkupDraft.takeElement?_withElement, if_neg hname]
  rfl

namespace Buffers

theorem closeElement (h : a.Buffers o tag handler a') {d d' : MarkupDraft δ}
    {os os' : List (Opening δ)} (hd : d.Buffers o tag handler os d' os') (head : ElementHead δ)
    {ps qs : Body δ} (hps : Part.BuffersAll handler ps qs) (name : Text) (line : Nat) :
    SucceedAlike (Buffers o tag handler)
      ({ a with markup := d.withElement ⟨head, ps⟩, openings := os }.closeElement name line)
      ({ a' with markup := d'.withElement ⟨head, qs⟩, openings := os' }.closeElement name
        line) := by
  have hclosed := h.withMarkup (hd.add (.element head hps))
  simp only [Assembly.closeElement, Assembly.endRawText, h.rawText]
  cases a.rawText with
  | none =>
    simp only [bind, Except.bind, MarkupDraft.takeElement?_withElement]
    exact .ok (hclosed.withRawText none)
  | some draft =>
    simp only
    split
    · rw [bind_assoc, bind_assoc]
      refine .same _ fun parts => ?_
      have hend := h.withMarkup (hd.add (.element head (hps.push (.textBlock parts))))
      simp only [pure_bind, MarkupDraft.add_withElement, MarkupDraft.takeElement?_withElement]
      exact .ok (hend.withRawText none)
    · simp only [bind, Except.bind, MarkupDraft.takeElement?_withElement]
      exact .ok (hclosed.withRawText (some draft))

theorem closeOpening (hfree : o.handlers.tag? tag = none) (htag : tag ≠ definitionTag)
    (h : a.Buffers o tag handler a') {name : Text}
    (hname : ∀ {n own nested templates rest},
      a'.openings = .custom n own nested templates :: rest → n = name)
    (hraw : a'.rawText.isSome → (o.withTag tag handler).keepsText name = true) (line : Nat) :
    SucceedAlike (Buffers o tag handler)
      (match a.openings with
        | .element _ :: rest => { a with openings := rest }.closeElement name line
        | .custom _ own nested templates :: rest =>
          { a with openings := rest }.closeCustom o name own nested templates line
        | _ => failure .unbalancedSection line (some (Node.tagEnd name)))
      (match a'.openings with
        | .element _ :: rest => { a' with openings := rest }.closeElement name line
        | .custom _ own nested templates :: rest =>
          { a' with openings := rest }.closeCustom (o.withTag tag handler) name own nested templates
            line
        | _ => failure .unbalancedSection line (some (Node.tagEnd name))) := by
  have hmarkup := h.markup
  have hnoRaw {own : δ.TagHandler}
      (hown : (o.withTag tag handler).handlers.tag? name = some own) : a'.rawText = none := by
    cases hsome : a'.rawText with
    | none => rfl
    | some draft =>
      have hkeeps := hraw (by rw [hsome]; rfl)
      simp [Options.keepsText, hown] at hkeeps
  obtain ⟨markup, start, attr, openings, namespaces, rawText, partials, warnings, last⟩ := a
  obtain ⟨markup', start', attr', openings', namespaces', rawText', partials', warnings', last'⟩ :=
    a'
  simp only at hmarkup hname hnoRaw ⊢
  cases hmarkup with
  | root => exact .error _ _
  | marker => exact .error _ _
  | element hd head n hps => exact h.closeElement hd head hps name line
  | @custom d d' os os' hd head n hn own hown nested nested' ps qs hps =>
    obtain rfl := hname rfl
    have hne : n ≠ tag := by
      rintro rfl
      rw [hfree] at hown
      cases hown
    have hnone := hnoRaw ((o.tag?_withTag tag handler n).trans ((if_neg hne).trans hown))
    have hsame : rawText' = rawText := h.rawText
    subst hsame hnone
    simp only
    rw [closeCustom_eq rfl rfl hn, closeCustom_eq rfl rfl hn]
    refine .ok (h.withMarkup (hd.add (.custom head ⟨own, nested, line⟩ nested' (some []) ?_)))
    rw [hps.isEmpty]
    split
    · exact .none
    · exact .some hps
  | @content d d' os os' hd head nested ps qs hps =>
    obtain rfl := hname rfl
    have hnone := hnoRaw ((o.tag?_withTag tag handler tag).trans (if_pos rfl))
    have hsame : rawText' = rawText := h.rawText
    subst hsame hnone
    simp only
    rw [closeCustom_eq rfl rfl htag]
    simp only [Assembly.closeElement, Assembly.endRawText, bind, Except.bind,
      MarkupDraft.takeElement?_withElement]
    refine .ok (h.withMarkup (hd.add (.content head nested line (some []) ?_)))
    cases hps with
    | nil => exact .nil
    | cons hp hps => exact .cons hp hps

theorem close (hfree : o.handlers.tag? tag = none) (htag : tag ≠ definitionTag)
    (h : a.Buffers o tag handler a') {place : Place} {name : Text} {ts : List Text}
    (hlock : Lockstep (o.withTag tag handler) a' ⟨place, name :: ts⟩) (line : Nat) :
    SucceedAlike (Buffers o tag handler) (a.close o name line)
      (a'.close (o.withTag tag handler) name line) := by
  have hname {n : Text} {own : δ.TagHandler} {nested : Bool} {templates : Dict (Body δ)}
      {rest : List (Opening δ)} (hos : a'.openings = .custom n own nested templates :: rest) :
      n = name := by
    have hopen := hlock.openTags
    rw [hos] at hopen
    exact (List.cons.inj hopen).1
  have hraw (hsome : a'.rawText.isSome) : (o.withTag tag handler).keepsText name = true := by
    obtain ⟨-, t, ht, hkeeps⟩ := hlock.rawText hsome
    cases ht
    exact hkeeps
  by_cases hns : (Namespace.ofTag? name).isSome = true
  · have htail : Buffers o tag handler { a with namespaces := a.namespaces.tail }
        { a' with namespaces := a'.namespaces.tail } :=
      { h with namespaces := by rw [h.namespaces] }
    simp only [Assembly.close, if_pos hns]
    exact htail.closeOpening hfree htag hname hraw line
  · simp only [Assembly.close, if_neg hns]
    exact h.closeOpening hfree htag hname hraw line

theorem exists_eq (h : a.Buffers o tag handler a') :
    ∃ markup openings partials, a' = { a with markup, openings, partials } := by
  obtain ⟨-, htag, -, hattr, hns, hraw, -, hwarnings, hline⟩ := h
  refine ⟨a'.markup, a'.openings, a'.partials, ?_⟩
  rw [← htag, ← hattr, ← hns, ← hraw, ← hwarnings, ← hline]

theorem withHead (h : a.Buffers o tag handler a') {head : ElementHead δ}
    (hname : head.tag ≠ definitionTag) (branch : Option (TextDraft δ)) :
    Buffers o tag handler { a with tag := some ⟨head, branch⟩ }
      { a' with tag := some ⟨head, branch⟩ } :=
  h.withTag _ (by rintro _ ⟨⟩; exact hname)

theorem attrStart (h : a.Buffers o tag handler a') (name : Text) :
    (a.attrStart name).Buffers o tag handler (a'.attrStart name) := by
  obtain ⟨d', os', ps', rfl⟩ := h.exists_eq
  simp only [Assembly.attrStart]
  split
  next => exact h
  next head draft ht => exact h.withHead (h.named ⟨head, some draft⟩ ht) _
  next => exact h.withAttr _

theorem attrValue (h : a.Buffers o tag handler a') (value : Text) :
    (a.attrValue value).Buffers o tag handler (a'.attrValue value) := by
  obtain ⟨d', os', ps', rfl⟩ := h.exists_eq
  simp only [Assembly.attrValue]
  split
  next head draft ht => exact h.withHead (h.named ⟨head, some draft⟩ ht) _
  next =>
    split
    · exact h.withAttr _
    · exact h.withAttr _
  next => exact h

theorem attrEnd (h : a.Buffers o tag handler a') (name : Text) (line : Nat) :
    SucceedAlike (Buffers o tag handler) (a.attrEnd o name line)
      (a'.attrEnd (o.withTag tag handler) name line) := by
  obtain ⟨d', os', ps', rfl⟩ := h.exists_eq
  simp only [Assembly.attrEnd]
  split
  next head draft ht => exact .ok (h.withHead (h.named ⟨head, some draft⟩ ht) _)
  next => exact .ok h
  next attr hnone hattr =>
    refine .same _ fun value => ?_
    have hattrs : (o.withTag tag handler).handlers.attr? name = o.handlers.attr? name := rfl
    have hended := h.withAttr none
    have hwarned := hended.warn .unknownAttributeBinding line
      ("unknown attribute binding " ++ name ++ ". Is a handler registered for it?")
    rw [hattrs]
    by_cases hwarn : ((o.handlers.attr? name).isNone && looksBound name) = true
    · simp only [if_pos hwarn]
      split
      next => exact .ok hwarned
      next t ht =>
        have hname := h.named t ht
        exact .ok (hwarned.withTag _ (by rintro _ ⟨⟩; exact hname))
    · simp only [if_neg hwarn]
      split
      next => exact .ok hended
      next t ht =>
        have hname := h.named t ht
        exact .ok (hended.withTag _ (by rintro _ ⟨⟩; exact hname))

theorem chars (h : a.Buffers o tag handler a') (text : Text) :
    (a.chars text).Buffers o tag handler (a'.chars text) := by
  obtain ⟨d', os', ps', rfl⟩ := h.exists_eq
  simp only [Assembly.chars]
  split
  · exact h.withRawText _
  · exact { h with markup := h.markup.addText _ }

theorem turn (h : a.Buffers o tag handler a') (line : Nat) :
    SucceedAlike (Buffers o tag handler) (a.turn line) (a'.turn line) := by
  obtain ⟨d', os', ps', rfl⟩ := h.exists_eq
  simp only [Assembly.turn]
  split
  next => exact .same _ fun draft => .ok (h.withAttr _)
  next head draft ht _ =>
    exact .same _ fun draft' => .ok (h.withHead (h.named ⟨head, some draft⟩ ht) _)
  next => exact .same _ fun draft => .ok (h.withRawText _)
  next =>
    refine (h.markup.turn.mapError _).bind fun d d' hd => ?_
    exact .ok { h with markup := hd }

theorem apply_text (hl : o.language.IgnoresNesting) (h : a.Buffers o tag handler a')
    (draft : TextDraft δ) (mode : Mode) (expression : Text) (line : Nat) :
    Draft.apply o.language (a'.site (o.withTag tag handler) line) draft mode expression =
      Draft.apply o.language (a.site o line) draft mode expression := by
  obtain ⟨d', os', ps', rfl⟩ := h.exists_eq
  exact Draft.apply_nested hl (a.site o line) _ draft mode expression

theorem markerInBranch (hl : o.language.IgnoresNesting) (h : a.Buffers o tag handler a')
    {head : ElementHead δ} (hname : head.tag ≠ definitionTag) (draft : TextDraft δ) (mode : Mode)
    (expression : Text) (line : Nat) :
    SucceedAlike (Buffers o tag handler) (a.markerInBranch o head draft mode expression line)
      (a'.markerInBranch (o.withTag tag handler) head draft mode expression line) := by
  have happly := h.apply_text hl draft mode expression line
  have hlanguage : (o.withTag tag handler).language = o.language := rfl
  simp only [Assembly.markerInBranch, hlanguage, happly]
  split
  · exact .error _ _
  · refine .same _ fun ⟨draft', change⟩ => ?_
    simp only
    split
    · exact .same _ fun parts => .ok ((h.record change).withTag _ (by rintro _ ⟨⟩; exact hname))
    · exact .ok ((h.record change).withHead hname _)

theorem markerInAttr (hl : o.language.IgnoresNesting) (h : a.Buffers o tag handler a')
    (attr : AttrDraft δ) (mode : Mode) (expression : Text) (line : Nat) :
    SucceedAlike (Buffers o tag handler) (a.markerInAttr o attr mode expression line)
      (a'.markerInAttr (o.withTag tag handler) attr mode expression line) := by
  have happly (draft : TextDraft δ) := h.apply_text hl draft mode expression line
  have hlanguage : (o.withTag tag handler).language = o.language := rfl
  simp only [Assembly.markerInAttr, hlanguage, happly]
  exact .same _ fun ⟨draft, change⟩ => .ok ((h.record change).withAttr _)

theorem markerInTag (hl : o.language.IgnoresNesting) (h : a.Buffers o tag handler a')
    {head : ElementHead δ} (hname : head.tag ≠ definitionTag) (mode : Mode) (expression : Text)
    (line : Nat) :
    SucceedAlike (Buffers o tag handler) (a.markerInTag o head mode expression line)
      (a'.markerInTag (o.withTag tag handler) head mode expression line) := by
  have happly := h.apply_text hl TextDraft.empty mode expression line
  have hcompile : o.language.compile mode expression (a'.site (o.withTag tag handler) line) =
      o.language.compile mode expression (a.site o line) := by
    obtain ⟨d', os', ps', rfl⟩ := h.exists_eq
    exact hl mode expression (a.site o line) _
  have hlanguage : (o.withTag tag handler).language = o.language := rfl
  cases mode with
  | escaped =>
    simp only [Assembly.markerInTag, hlanguage, hcompile]
    exact .same _ fun e => .ok (h.withTag _ (by rintro _ ⟨⟩; exact hname))
  | branch | inverse =>
    simp only [Assembly.markerInTag, hlanguage, happly]
    exact .same _ fun x => .ok ((h.record x.2).withHead hname _)
  | unescaped | inlineTemplate | call | close | comment => exact .error _ _

theorem follow (h : a.Buffers o tag handler a') {markup markup' : MarkupDraft δ}
    {change change' : Change δ}
    (happlied : MarkupDraft.Applied o tag handler a.openings a'.openings (markup, change)
      (markup', change')) (expression : Text) (line : Nat) :
    Buffers o tag handler (({ a with markup }.record change).follow o expression line change)
      (({ a' with markup := markup' }.record change').follow (o.withTag tag handler) expression line
        change') := by
  have hclosed (b b' : Assembly δ) {name : Text} {rest rest' : List (Opening δ)}
      (hb : Buffers o tag handler { b with openings := rest } { b' with openings := rest' })
      (ho : b.openings = .marker name :: rest) (ho' : b'.openings = .marker name :: rest')
      (definition definition' : Option (Text × Body δ)) :
      Buffers o tag handler (b.follow o expression line (.closed definition))
        (b'.follow (o.withTag tag handler) expression line (.closed definition')) := by
    simp only [Assembly.follow, ho, ho']
    split
    · exact hb.warn _ _ _
    · exact hb
  cases happlied with
  | none hd => exact { h with markup := hd }
  | opened name hd => exact h.withMarkup hd
  | branch ho ho' hd =>
    exact hclosed { a with markup } { a' with markup := markup' } (h.withMarkup hd) ho ho' _ _
  | @inline _ _ name rest rest' ho ho' hd defined ps qs hb =>
    have hrecorded := h.withMarkup hd
    refine hclosed { a with markup, partials := a.partials.insert defined ps }
      { a' with markup := markup', partials := a'.partials.insert defined qs } ?_ ho ho' _ _
    exact { hrecorded with partials := h.partials.insert defined hb }

theorem markerInContent (hl : o.language.IgnoresNesting) (h : a.Buffers o tag handler a')
    (mode : Mode) (expression : Text) (line : Nat) :
    SucceedAlike (Buffers o tag handler) (a.markerInContent o mode expression line)
      (a'.markerInContent (o.withTag tag handler) mode expression line) := by
  have happly (draft : TextDraft δ) := h.apply_text hl draft mode expression line
  have hlanguage : (o.withTag tag handler).language = o.language := rfl
  have hsite : Draft.apply o.language (a'.site (o.withTag tag handler) line) a'.markup mode
      expression = Draft.apply o.language (a.site o line) a'.markup mode expression := by
    obtain ⟨d', os', ps', rfl⟩ := h.exists_eq
    exact Draft.apply_nested hl (a.site o line) _ _ mode expression
  simp only [Assembly.markerInContent, hlanguage, happly, hsite, h.rawText]
  split
  next draft _ => exact .same _ fun x => .ok ((h.record x.2).withRawText _)
  next =>
    refine (h.markup.apply o.language (a.site o line) mode expression).bind fun x y hxy => ?_
    obtain ⟨markup, change⟩ := x
    obtain ⟨markup', change'⟩ := y
    have hfollow := h.follow hxy expression line
    simp only [h.rawText] at hfollow
    exact .ok hfollow

theorem marker (hl : o.language.IgnoresNesting) (h : a.Buffers o tag handler a') (body : Text)
    (line : Nat) :
    SucceedAlike (Buffers o tag handler) (a.marker o body line)
      (a'.marker (o.withTag tag handler) body line) := by
  have hlanguage : (o.withTag tag handler).language = o.language := rfl
  simp only [Assembly.marker, hlanguage, h.tag, h.attr]
  split
  · exact h.turn line
  · split
    · exact .ok h
    · split
      next head draft ht =>
        exact h.markerInBranch hl (h.named ⟨head, some draft⟩ ht) draft _ _ line
      next attr _ _ => exact h.markerInAttr hl attr _ _ line
      next head ht _ => exact h.markerInTag hl (h.named ⟨head, none⟩ ht) _ _ line
      next => exact h.markerInContent hl _ _ line

theorem step (hfree : o.handlers.tag? tag = none) (hholds : Tag.holdsText tag = false)
    (htag : tag ≠ definitionTag) (hl : o.language.IgnoresNesting) (h : a.Buffers o tag handler a')
    {p q : Position} (hlock : Lockstep (o.withTag tag handler) a' p) {l : Located}
    (hm : p.Moves l.event q) (hdefines : ∀ unary, l.event ≠ .tagStart definitionTag unary) :
    SucceedAlike (Buffers o tag handler) (Assembly.step o a l)
      (Assembly.step (o.withTag tag handler) a' l) := by
  obtain ⟨spot, event⟩ := l
  have h := h.withLine spot.line
  cases hm with
  | tagStart name unary ts =>
    exact .ok (h.tagStart (fun hname => hdefines unary (by rw [hname])) unary)
  | tagEndUnary name ts => exact h.tagEnd hfree hholds name true spot.line
  | tagEnd name ts => exact h.tagEnd hfree hholds name false spot.line
  | close place name ts =>
    have hlock : Lockstep (o.withTag tag handler) { a' with lastLine := spot.line }
        ⟨place, name :: ts⟩ := ⟨hlock.1, hlock.2, hlock.3, hlock.4⟩
    exact h.close hfree htag hlock spot.line
  | attrStart t name ts => exact .ok (h.attrStart name)
  | attrValue t name value ts => exact .ok (h.attrValue value)
  | attrEnd t name ts => exact h.attrEnd name spot.line
  | chars place content ts hplace => exact .ok (h.chars content)
  | marker place body ts hplace => exact h.marker hl body spot.line
  | comment content ts => exact .ok (h.add (.comment content))
  | done place => exact .ok h

theorem run (hfree : o.handlers.tag? tag = none) (hholds : Tag.holdsText tag = false)
    (htag : tag ≠ definitionTag) (hl : o.language.IgnoresNesting) {p q : Position}
    {ls : List Located} (hr : p.Reads ls q) (h : a.Buffers o tag handler a')
    (hlock : Lockstep (o.withTag tag handler) a' p)
    (hdefines : ∀ l ∈ ls, ∀ unary, l.event ≠ .tagStart definitionTag unary) :
    SucceedAlike (Buffers o tag handler) (ls.foldlM (Assembly.step o) a)
      (ls.foldlM (Assembly.step (o.withTag tag handler)) a') := by
  induction hr generalizing a a' with
  | nil => exact .ok h
  | @cons p q r l ls hm hr ih =>
    rw [List.forall_mem_cons] at hdefines
    have hstep := h.step hfree hholds htag hl hlock hm hdefines.1
    have hnext {b' : Assembly δ} := hlock.step (b := b') hm
    rw [List.foldlM_cons, List.foldlM_cons]
    generalize Assembly.step o a l = x, Assembly.step (o.withTag tag handler) a' l = y
      at hstep hnext
    cases hstep with
    | error e f => exact .error e f
    | ok hb => exact ih hb (hnext rfl) hdefines.2

end Buffers

end Assembly

/-- With a handler for one more tag a template without definitions compiles if and only if it does
without, and what it compiles to differs only in how the content of that tag is held. -/
theorem compile_withTag {o : Options δ} {tag : Text} {handler : δ.TagHandler}
    (hfree : o.handlers.tag? tag = none) (hholds : Tag.holdsText tag = false)
    (htag : tag ≠ definitionTag) (hl : o.language.IgnoresNesting) (serial : Nat) {template : Text}
    (hdefines : ∀ l ∈ scan (o.clean template), ∀ unary, l.event ≠ .tagStart definitionTag unary) :
    SucceedAlike (fun c c' => c.view.Buffers handler c'.view ∧ c'.warnings = c.warnings)
      (compile o serial template) (compile (o.withTag tag handler) serial template) := by
  have hclean : (o.withTag tag handler).clean template = o.clean template := rfl
  have hrun := (Assembly.buffers_empty o tag handler).run hfree hholds htag hl
    (reads_scan (o.clean template)) Assembly.lockstep_start hdefines
  unfold compile compileEvents
  rw [hclean]
  refine (hrun.bind fun a a' h => ?_).mapError _
  have hfinish : SucceedAlike (Part.BuffersAll handler) a.finish a'.finish := by
    unfold Assembly.finish
    rw [h.lastLine]
    exact h.markup.finish.mapError _
  exact hfinish.bind fun body body' hbody =>
    .ok ⟨.template serial o.filename hbody h.partials, h.warnings⟩

end Stencil
