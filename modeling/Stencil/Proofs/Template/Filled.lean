import Mathlib.Data.List.Forall2
import Mathlib.Data.Option.Basic
import Stencil.Proofs.Template.Outcome
import Stencil.Proofs.Template.Draft
import Stencil.Template.Assembly

/-!
Bodies with a hole filled and the same bodies with the hole left open. Where the one has a body, the
other has a call in its place; beside that, expressions may have been read on other lines and
elements may stand in another namespace. Static text merges across the edges of what is filled in,
so the relation is stated by how the two bodies were written, part by part.
-/

set_option autoImplicit false

namespace Stencil

/-- What two bodies may differ in: expressions, by the relation, and the hole, which is any of the
bodies in the one and a call of the name in the other. -/
structure Filling (δ : Dialect) where
  expr : δ.Expr → δ.Expr → Prop
  name : Text
  body : Body δ → Prop

variable {δ : Dialect}

mutual

inductive TextPart.Like (F : Filling δ) : TextPart δ → TextPart δ → Prop
  | static (text : Text) : Like F (.static text) (.static text)
  | value {e f : δ.Expr} (h : F.expr e f) (quoted : Bool) :
      Like F (.value e quoted) (.value f quoted)
  | branch {e f : δ.Expr} (h : F.expr e f) {ps qs : List (TextPart δ)}
      {i j : Option (List (TextPart δ))} (hps : TextPart.LikeAll F ps qs)
      (hi : TextPart.LikeOption F i j) : Like F (.branch e ps i) (.branch f qs j)

inductive TextPart.LikeAll (F : Filling δ) : List (TextPart δ) → List (TextPart δ) → Prop
  | nil : LikeAll F [] []
  | cons {p q : TextPart δ} {ps qs : List (TextPart δ)} (h : TextPart.Like F p q)
      (hs : TextPart.LikeAll F ps qs) : LikeAll F (p :: ps) (q :: qs)

inductive TextPart.LikeOption (F : Filling δ) :
    Option (List (TextPart δ)) → Option (List (TextPart δ)) → Prop
  | none : LikeOption F none none
  | some {ps qs : List (TextPart δ)} (h : TextPart.LikeAll F ps qs) :
      LikeOption F (some ps) (some qs)

end

inductive AttrValue.Like (F : Filling δ) : AttrValue δ → AttrValue δ → Prop
  | static (value : Text) : Like F (.static value) (.static value)
  | dynamic {ps qs : List (TextPart δ)} (h : TextPart.LikeAll F ps qs) :
      Like F (.dynamic ps) (.dynamic qs)

structure AttrTemplate.Like (F : Filling δ) (a b : AttrTemplate δ) : Prop where
  name : b.name = a.name
  value : a.value.Like F b.value

/-- No handler is called in either. -/
inductive Hook.Like (F : Filling δ) : Hook δ → Hook δ → Prop
  | tagText {ps qs : List (TextPart δ)} (h : TextPart.LikeAll F ps qs) :
      Like F (.tagText ps) (.tagText qs)

/-- The heads of one tag, in whatever namespace. -/
structure ElementHead.Like (F : Filling δ) (h h' : ElementHead δ) : Prop where
  tag : h'.tag = h.tag
  attrs : List.Forall₂ (AttrTemplate.Like F) h.attrs h'.attrs
  hooks : List.Forall₂ (Hook.Like F) h.hooks h'.hooks

mutual

/-- An element that holds only text has no hole in it. -/
inductive Part.Filled (F : Filling δ) : Part δ → Part δ → Prop
  | text (content : Text) : Filled F (.text content) (.text content)
  | comment (content : Text) : Filled F (.comment content) (.comment content)
  | value {e f : δ.Expr} (h : F.expr e f) (escaped : Bool) :
      Filled F (.value e escaped) (.value f escaped)
  | branch {e f : δ.Expr} (h : F.expr e f) {ps qs : Body δ} {i j : Option (Body δ)}
      (hps : Part.FilledAll F ps qs) (hi : Part.FilledOption F i j) :
      Filled F (.branch e ps i) (.branch f qs j)
  | element {h h' : ElementHead δ} (hh : h.Like F h') {ps qs : Body δ}
      (hholds : Tag.holdsText h.tag = true → ps = [] ∧ qs = []) (hps : Part.FilledAll F ps qs) :
      Filled F (.element h ps) (.element h' qs)
  | textHolder {h h' : ElementHead δ} (hh : h.Like F h') {ps qs : List (TextPart δ)}
      (hps : TextPart.LikeAll F ps qs) :
      Filled F (.element h [.textBlock ps]) (.element h' [.textBlock qs])

inductive Part.FilledAll (F : Filling δ) : Body δ → Body δ → Prop
  | nil : FilledAll F [] []
  | push {ps qs : Body δ} {p q : Part δ} (hs : Part.FilledAll F ps qs) (h : Part.Filled F p q) :
      FilledAll F (Part.push ps p) (Part.push qs q)
  | fill {ps qs b : Body δ} (hs : Part.FilledAll F ps qs) (hb : F.body b) :
      FilledAll F (Part.pushAll ps b) (Part.push qs (.call ⟨F.name, none⟩))

inductive Part.FilledOption (F : Filling δ) : Option (Body δ) → Option (Body δ) → Prop
  | none : FilledOption F none none
  | some {ps qs : Body δ} (h : Part.FilledAll F ps qs) : FilledOption F (some ps) (some qs)

end

variable {F : Filling δ}

theorem TextPart.LikeAll.push {ps qs : List (TextPart δ)} {p q : TextPart δ}
    (hs : TextPart.LikeAll F ps qs) (h : p.Like F q) :
    TextPart.LikeAll F (TextPart.push ps p) (TextPart.push qs q) := by
  induction ps generalizing qs with
  | nil =>
    cases hs
    exact .cons h .nil
  | cons x xs ih =>
    cases hs with
    | @cons _ y _ ys hx hs =>
      have htail := ih hs
      cases hx with
      | static s =>
        cases hs with
        | nil =>
          cases h with
          | static t => exact .cons (.static _) .nil
          | value | branch => exact .cons (.static s) htail
        | cons => exact .cons (.static s) htail
      | value he quoted => exact .cons (.value he quoted) htail
      | branch he hps hi => exact .cons (.branch he hps hi) htail

structure TextLayer.Like (F : Filling δ) (l l' : TextLayer δ) : Prop where
  primary : TextPart.LikeAll F l.primary l'.primary
  inverse : TextPart.LikeOption F l.inverse l'.inverse

structure TextSection.Like (F : Filling δ) (s s' : TextSection δ) : Prop where
  mode : s'.mode = s.mode
  expr : F.expr s.expr s'.expr
  layer : s.layer.Like F s'.layer

structure TextDraft.Like (F : Filling δ) (d d' : TextDraft δ) : Prop where
  root : d.root.Like F d'.root
  sections : List.Forall₂ (TextSection.Like F) d.sections d'.sections
  quoteValues : d'.quoteValues = d.quoteValues

theorem TextLayer.Like.add {l l' : TextLayer δ} (h : l.Like F l') {p q : TextPart δ}
    (hp : p.Like F q) : (l.add p).Like F (l'.add q) := by
  obtain ⟨primary, inverse⟩ := l
  obtain ⟨primary', inverse'⟩ := l'
  obtain ⟨hprimary, hinverse⟩ := h
  cases hinverse with
  | none => exact ⟨hprimary.push hp, .none⟩
  | some hi => exact ⟨hprimary, .some (hi.push hp)⟩

theorem TextLayer.like_empty : (empty : TextLayer δ).Like F empty := ⟨.nil, .none⟩

inductive TextDraft.Changed (F : Filling δ) :
    TextDraft δ × Change δ → TextDraft δ × Change δ → Prop
  | none {d d' : TextDraft δ} (h : d.Like F d') : Changed F (d, .none) (d', .none)
  | opened {d d' : TextDraft δ} (h : d.Like F d') (name name' : Text) :
      Changed F (d, .opened name) (d', .opened name')
  | closed {d d' : TextDraft δ} (h : d.Like F d') : Changed F (d, .closed .none) (d', .closed .none)

namespace TextDraft.Like

variable {d d' : TextDraft δ}

theorem empty : (TextDraft.empty : TextDraft δ).Like F .empty := ⟨TextLayer.like_empty, .nil, rfl⟩

theorem add (h : d.Like F d') {p q : TextPart δ} (hp : p.Like F q) :
    (d.add p).Like F (d'.add q) := by
  obtain ⟨root, sections, quoteValues⟩ := d
  obtain ⟨root', sections', quoteValues'⟩ := d'
  obtain ⟨hroot, hsections, hquote⟩ := h
  cases hsections with
  | nil => exact ⟨hroot.add hp, .nil, hquote⟩
  | cons hs hss => exact ⟨hroot, .cons ⟨hs.mode, hs.expr, hs.layer.add hp⟩ hss, hquote⟩

theorem addText (h : d.Like F d') (t : Text) : (d.addText t).Like F (d'.addText t) := by
  unfold TextDraft.addText
  split
  · exact h
  · exact h.add (.static t)

theorem addValue (h : d.Like F d') {e f : δ.Expr} (he : F.expr e f) (escaped : Bool) :
    (d.addValue e escaped).Like F (d'.addValue f escaped) := by
  unfold TextDraft.addValue
  rw [h.quoteValues]
  exact h.add (.value he _)

theorem openBranch (h : d.Like F d') (mode : Mode) {e f : δ.Expr} (he : F.expr e f) :
    (d.openBranch mode e).Like F (d'.openBranch mode f) :=
  ⟨h.root, .cons ⟨rfl, he, TextLayer.like_empty⟩ h.sections, h.quoteValues⟩

theorem closeBranch (h : d.Like F d') :
    SucceedAlike (TextDraft.Like F) d.closeBranch d'.closeBranch := by
  obtain ⟨root, sections, quoteValues⟩ := d
  obtain ⟨root', sections', quoteValues'⟩ := d'
  obtain ⟨hroot, hsections, hquote⟩ := h
  cases hsections with
  | nil => exact .error _ _
  | @cons s s' ss ss' hs hss =>
    have hrest : TextDraft.Like F ⟨root, ss, quoteValues⟩ ⟨root', ss', quoteValues'⟩ :=
      ⟨hroot, hss, hquote⟩
    exact .ok (hrest.add (.branch hs.expr hs.layer.primary hs.layer.inverse))

theorem turn (h : d.Like F d') : SucceedAlike (TextDraft.Like F) d.turn d'.turn := by
  obtain ⟨root, sections, quoteValues⟩ := d
  obtain ⟨root', sections', quoteValues'⟩ := d'
  obtain ⟨hroot, hsections, hquote⟩ := h
  cases hsections with
  | nil => exact .error _ _
  | @cons s s' ss ss' hs hss =>
    obtain ⟨mode, expr, primary, inverse⟩ := s
    obtain ⟨mode', expr', primary', inverse'⟩ := s'
    obtain ⟨hmode, hexpr, hprimary, hinverse⟩ := hs
    refine .ok ⟨hroot, .cons ⟨hmode, hexpr, hprimary, .some ?_⟩ hss, hquote⟩
    cases hinverse with
    | none => exact .nil
    | some hi => exact hi

theorem finish (h : d.Like F d') :
    SucceedAlike (TextPart.LikeAll F) d.finish d'.finish := by
  obtain ⟨root, sections, quoteValues⟩ := d
  obtain ⟨root', sections', quoteValues'⟩ := d'
  obtain ⟨hroot, hsections, hquote⟩ := h
  cases hsections with
  | nil => exact .ok hroot.primary
  | cons hs hss => exact .error _ _

theorem innermost? (h : d.Like F d') : Draft.innermost? d' = Draft.innermost? d := by
  have hsections := h.sections
  change d'.sections.head?.map TextSection.mode = d.sections.head?.map TextSection.mode
  generalize d.sections = ss, d'.sections = ss' at hsections
  cases hsections with
  | nil => rfl
  | cons hs hss => simp [hs.mode]

end TextDraft.Like

/-- The language compiles an expression alike wherever it stands. -/
structure Language.Uniform (l : Language δ) (r : δ.Expr → δ.Expr → Prop) : Prop where
  compile : ∀ mode source site site',
    SucceedAlike r (l.compile mode source site) (l.compile mode source site')
  closingName : ∀ e f, r e f → l.closingName f = l.closingName e

variable {l : Language δ}

theorem TextDraft.Like.close {d d' : TextDraft δ} (h : d.Like F d') (expression : Text)
    (line line' : Nat) : SucceedAlike (TextDraft.Changed F) (Draft.close d expression line)
      (Draft.close d' expression line') := by
  unfold Draft.close
  rw [h.innermost?]
  split
  · exact .error _ _
  · refine SucceedAlike.bind (r := TextDraft.Like F) ?_ fun d d' hd => .ok (.closed hd)
    exact h.closeBranch.atLine _ _ _ _

theorem TextDraft.Like.apply (hl : l.Uniform F.expr) {d d' : TextDraft δ} (h : d.Like F d')
    (site site' : Site) {mode : Mode} (hmode : mode ≠ .call) (expression : Text) :
    SucceedAlike (TextDraft.Changed F) (Draft.apply l site d mode expression)
      (Draft.apply l site' d' mode expression) := by
  have hcompile (mode : Mode) := hl.compile mode expression site site'
  cases mode with
  | call => exact absurd rfl hmode
  | close => exact h.close expression site.line site'.line
  | escaped => exact (hcompile _).bind fun e f he => .ok (.none (h.addValue he true))
  | unescaped => exact (hcompile _).bind fun e f he => .ok (.none (h.addValue he false))
  | branch => exact (hcompile _).bind fun e f he => .ok (.opened (h.openBranch .branch he) _ _)
  | inverse => exact (hcompile _).bind fun e f he => .ok (.opened (h.openBranch .inverse he) _ _)
  | inlineTemplate => exact .error _ _
  | comment => exact .ok (.none h)

def InsideText : List (Opening δ) → Prop
  | .element tag :: _ => Tag.holdsText tag = true
  | _ => False

inductive Opener.Like (F : Filling δ) : Opener δ → Opener δ → Prop
  | branch (mode : Mode) {e f : δ.Expr} (h : F.expr e f) : Like F (.branch mode e) (.branch mode f)
  | inlineTemplate (name : Text) : Like F (.inlineTemplate name) (.inlineTemplate name)

namespace MarkupDraft

/-- Two drafts with their openings. The second is written on top of another draft, in openings of
that draft's own. -/
inductive Over (F : Filling δ) (base : MarkupDraft δ) (around : List (Opening δ)) :
    MarkupDraft δ → List (Opening δ) → MarkupDraft δ → List (Opening δ) → Prop
  | root {ps qs : Body δ} (h : Part.FilledAll F ps qs) :
      Over F base around ⟨⟨ps, none, []⟩, []⟩ [] (base.addAll qs) around
  | marker {d d' : MarkupDraft δ} {os os' : List (Opening δ)} (hd : Over F base around d os d' os')
      (hos : ¬InsideText os) {opener opener' : Opener δ} (hopener : opener.Like F opener')
      (name : Text) {ps qs : Body δ} {i j : Option (Body δ)} (h : Part.FilledAll F ps qs)
      (hi : Part.FilledOption F i j) :
      Over F base around (d.withSection opener ps i) (.marker name :: os)
        (d'.withSection opener' qs j) (.marker name :: os')
  | element {d d' : MarkupDraft δ} {os os' : List (Opening δ)} (hd : Over F base around d os d' os')
      (hos : ¬InsideText os) {head head' : ElementHead δ} (hhead : head.Like F head')
      {ps qs : Body δ} (hholds : Tag.holdsText head.tag = true → ps = [] ∧ qs = [])
      (h : Part.FilledAll F ps qs) :
      Over F base around (d.withElement ⟨head, ps⟩) (.element head.tag :: os)
        (d'.withElement ⟨head', qs⟩) (.element head.tag :: os')

inductive Changed (F : Filling δ) (base : MarkupDraft δ) (around os os' : List (Opening δ)) :
    MarkupDraft δ × Change δ → MarkupDraft δ × Change δ → Prop
  | none {d d' : MarkupDraft δ} (h : Over F base around d os d' os') :
      Changed F base around os os' (d, .none) (d', .none)
  | opened {d d' : MarkupDraft δ} (name : Text)
      (h : Over F base around d (.marker name :: os) d' (.marker name :: os')) :
      Changed F base around os os' (d, .opened name) (d', .opened name)
  | branch {d d' : MarkupDraft δ} {name : Text} {rest rest' : List (Opening δ)}
      (ho : os = .marker name :: rest) (ho' : os' = .marker name :: rest')
      (hrest : ¬InsideText rest) (h : Over F base around d rest d' rest') :
      Changed F base around os os' (d, .closed .none) (d', .closed .none)
  | inline {d d' : MarkupDraft δ} {name : Text} {rest rest' : List (Opening δ)}
      (ho : os = .marker name :: rest) (ho' : os' = .marker name :: rest')
      (hrest : ¬InsideText rest) (h : Over F base around d rest d' rest') (defined : Text)
      (ps qs : Body δ) :
      Changed F base around os os' (d, .closed (some (defined, ps)))
        (d', .closed (some (defined, qs)))

namespace Over

variable {base d d' : MarkupDraft δ} {around os os' : List (Opening δ)}

theorem add (h : Over F base around d os d' os') (hos : ¬InsideText os) {p q : Part δ}
    (hp : p.Filled F q) : Over F base around (d.add p) os (d'.add q) os' := by
  cases h with
  | root h =>
    rw [← addAll_push]
    exact .root (h.push hp)
  | marker hd hrest hopener name h hi =>
    cases hi with
    | none => exact .marker hd hrest hopener name (h.push hp) .none
    | some hi => exact .marker hd hrest hopener name h (.some (hi.push hp))
  | element hd hrest hhead hholds h =>
    rw [add_withElement, add_withElement]
    exact .element hd hrest hhead (fun ht => absurd ht hos) (h.push hp)

theorem addText (h : Over F base around d os d' os') (hos : ¬InsideText os) (t : Text) :
    Over F base around (d.addText t) os (d'.addText t) os' := by
  unfold MarkupDraft.addText
  split
  · exact h
  · exact h.add hos (.text t)

theorem fill (h : Over F base around d os d' os') (hos : ¬InsideText os) {b : Body δ}
    (hb : F.body b) : Over F base around (d.addAll b) os (d'.add (.call ⟨F.name, none⟩)) os' := by
  cases h with
  | root h =>
    rw [addAll_root, ← addAll_push]
    exact .root (h.fill hb)
  | marker hd hrest hopener name h hi =>
    cases hi with
    | none =>
      rw [addAll_withSection]
      exact .marker hd hrest hopener name (h.fill hb) .none
    | some hi =>
      rw [addAll_withSection_inverse]
      exact .marker hd hrest hopener name h (.some (hi.fill hb))
  | element hd hrest hhead hholds h =>
    rw [addAll_withElement, add_withElement]
    exact .element hd hrest hhead (fun ht => absurd ht hos) (h.fill hb)

section

variable {strict : Prop} (hstrict : strict → base = .empty ∧ around = [])

include hstrict

theorem follows_root {α β : Type} {r : α → β → Prop} {ε : Type} {x : Except ε α} {y : Except ε β}
    (hx : ∃ e, x = .error e) (hy : base = .empty → ∃ e, y = .error e) : Follows strict r x y := by
  obtain ⟨e, rfl⟩ := hx
  by_cases h : strict
  · obtain ⟨f, rfl⟩ := hy (hstrict h).1
    exact .error e f
  · exact .loose h e y

theorem turn (h : Over F base around d os d' os') :
    Follows strict (Over F base around · os · os') d.turn d'.turn := by
  cases h with
  | root h =>
    refine follows_root hstrict ⟨_, rfl⟩ fun hbase => ⟨.strayElse, ?_⟩
    rw [hbase, empty, Layer.empty, addAll_root]
    rfl
  | marker hd hrest hopener name h hi =>
    cases hopener with
    | branch mode he =>
      refine .ok (.marker hd hrest (.branch mode he) name h (.some ?_))
      cases hi with
      | none => exact .nil
      | some hi => exact hi
    | inlineTemplate => exact .error _ _
  | @element d d' os os' hd hrest head head' hhead ps qs hholds h =>
    obtain ⟨code, hcode⟩ := d.turn_withElement ⟨head, ps⟩
    obtain ⟨code', hcode'⟩ := d'.turn_withElement ⟨head', qs⟩
    rw [hcode, hcode']
    exact .error _ _

theorem close (h : Over F base around d os d' os') (expression : Text) (line line' : Nat) :
    Follows strict (Changed F base around os os') (Draft.close d expression line)
      (Draft.close d' expression line') := by
  cases h with
  | root h =>
    refine follows_root hstrict ⟨_, rfl⟩ fun hbase => ?_
    rw [hbase, empty, Layer.empty, addAll_root]
    exact ⟨_, rfl⟩
  | @marker d d' os os' hd hrest opener opener' hopener name ps qs i j h hi =>
    cases hopener with
    | @branch mode e f he =>
      by_cases hmode : mode = .inlineTemplate
      · subst hmode
        exact .error _ _
      · rw [close_withSection hmode, close_withSection hmode]
        exact .ok (.branch rfl rfl hrest (hd.add hrest (.branch he h hi)))
    | inlineTemplate n => exact .ok (.inline rfl rfl hrest hd _ _ _)
  | @element d d' os os' hd hrest head head' hhead ps qs hholds h =>
    obtain ⟨e, he⟩ := d.close_withElement ⟨head, ps⟩ expression line
    obtain ⟨e', he'⟩ := d'.close_withElement ⟨head', qs⟩ expression line'
    rw [he, he']
    exact .error _ _

theorem apply (hl : l.Uniform F.expr) (h : Over F base around d os d' os') (hos : ¬InsideText os)
    (site site' : Site) {mode : Mode} (hmode : mode ≠ .call) (expression : Text) :
    Follows strict (Changed F base around os os') (Draft.apply l site d mode expression)
      (Draft.apply l site' d' mode expression) := by
  have hcompile (mode : Mode) := (hl.compile mode expression site site').follows strict
  cases mode with
  | call => exact absurd rfl hmode
  | close => exact h.close hstrict expression site.line site'.line
  | escaped => exact (hcompile _).bind fun e f he => .ok (.none (h.add hos (.value he true)))
  | unescaped => exact (hcompile _).bind fun e f he => .ok (.none (h.add hos (.value he false)))
  | branch =>
    refine (hcompile _).bind fun e f he => ?_
    simp only [hl.closingName e f he]
    exact .ok (.opened _ (.marker h hos (.branch .branch he) _ .nil .none))
  | inverse =>
    refine (hcompile _).bind fun e f he => ?_
    simp only [hl.closingName e f he]
    exact .ok (.opened _ (.marker h hos (.branch .inverse he) _ .nil .none))
  | inlineTemplate =>
    exact .ok (.opened _ (.marker h hos (.inlineTemplate expression) _ .nil .none))
  | comment => exact .ok (.none h)

end

end Over

end MarkupDraft

end Stencil
