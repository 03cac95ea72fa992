import Stencil.Proofs.Template.Nesting
import Stencil.Proofs.Template.Tree

/-!
The events of a tree, put together, are the parts of that tree. Between the events of a tree the
draft holds sections and elements on top of what was there before; after the last event they are
gone again, and what is left is the old assembly with the tree's parts added.
-/

set_option autoImplicit false

namespace Stencil

variable {δ : Dialect}

def TextPart.ofText (t : Text) : List (TextPart δ) := if t.isEmpty then [] else [.static t]

def Part.ofText (t : Text) : Body δ := if t.isEmpty then [] else [.text t]

theorem TextDraft.addText_eq (d : TextDraft δ) (t : Text) :
    d.addText t = d.addAll (TextPart.ofText t) := by
  by_cases h : t.isEmpty = true <;> simp [addText, TextPart.ofText, h]

theorem MarkupDraft.addText_eq (d : MarkupDraft δ) (t : Text) :
    d.addText t = d.addAll (Part.ofText t) := by
  by_cases h : t.isEmpty = true <;> simp [addText, Part.ofText, h]

mutual

def ValuePiece.parts : ValuePiece δ → List (TextPart δ)
  | .text _ content => TextPart.ofText (Text.unescapeAttribute content)
  | .value read => [.value read.expr false]
  | .branch head primary inverse _ =>
    [.branch head.expr (TextPart.pushAll [] (ValuePiece.partsAll primary))
      (match inverse with
        | none => none
        | some (_, pieces) => some (TextPart.pushAll [] (ValuePiece.partsAll pieces)))]

def ValuePiece.partsAll : List (ValuePiece δ) → List (TextPart δ)
  | [] => []
  | p :: ps => p.parts ++ ValuePiece.partsAll ps

end

def AttrTree.parts (a : AttrTree δ) : List (TextPart δ) :=
  TextPart.ofText (Text.unescapeAttribute a.leadText) ++ ValuePiece.partsAll a.pieces

def AttrTree.template (a : AttrTree δ) : AttrTemplate δ where
  name := a.name
  value :=
    if a.pieces.isEmpty then .static (Text.unescapeAttribute a.leadText)
    else .dynamic (TextPart.pushAll [] a.parts)

def Namespace.inside (ns : Namespace) (tag : Text) : Namespace := (ofTag? tag).getD ns

def Tree.head (ns : Namespace) (tag : Text) (attrs : List (AttrTree δ)) : ElementHead δ :=
  ⟨tag, ns.inside tag, attrs.map AttrTree.template, []⟩

mutual

def Tree.parts (ns : Namespace) : Tree δ → Body δ
  | .text _ content => Part.ofText (Text.unescapeText content)
  | .comment _ content => [.comment content]
  | .remark _ => []
  | .value read escaped => [.value read.expr escaped]
  | .branch head primary inverse _ =>
    [.branch head.expr (Part.pushAll [] (Tree.partsAll ns primary))
      (match inverse with
        | none => none
        | some (_, trees) => some (Part.pushAll [] (Tree.partsAll ns trees)))]
  | .element _ _ tag attrs children =>
    [.element (Tree.head ns tag attrs)
      (match children with
        | none => []
        | some (trees, _) => Part.pushAll [] (Tree.partsAll (ns.inside tag) trees))]
  | .rawText _ _ tag attrs texts _ =>
    [.element (Tree.head ns tag attrs)
      [.textBlock (TextPart.pushAll [] (texts.flatMap fun t => TextPart.ofText t.2))]]

def Tree.partsAll (ns : Namespace) : List (Tree δ) → Body δ
  | [] => []
  | t :: ts => t.parts ns ++ Tree.partsAll ns ts

end

namespace Assembly

/-- The assembly takes these events in and is then the other one. -/
def Takes (o : Options δ) (a : Assembly δ) (events : List Located) (b : Assembly δ) : Prop :=
  events.foldlM (step o) a = .ok b

theorem Takes.nil (o : Options δ) (a : Assembly δ) : Takes o a [] a := rfl

theorem Takes.single {o : Options δ} {a b : Assembly δ} {l : Located} (h : step o a l = .ok b) :
    Takes o a [l] b := by
  simp only [Takes, List.foldlM_cons, h, List.foldlM_nil]
  rfl

theorem Takes.append {o : Options δ} {a b c : Assembly δ} {ls ms : List Located}
    (h : Takes o a ls b) (g : Takes o b ms c) : Takes o a (ls ++ ms) c := by
  unfold Takes at h g ⊢
  rw [List.foldlM_append, h]
  exact g

def ns (a : Assembly δ) : Namespace := a.namespaces.head?.getD .html

/-- The assembly with parts added; the warnings and the last line may be others. -/
def Adds (a : Assembly δ) (ps : Body δ) (b : Assembly δ) : Prop :=
  ∃ warnings lastLine, b = { a with markup := a.markup.addAll ps, warnings, lastLine }

theorem Adds.nil (a : Assembly δ) : a.Adds [] a := ⟨a.warnings, a.lastLine, rfl⟩

theorem Adds.append {a b c : Assembly δ} {ps qs : Body δ} (h : a.Adds ps b) (g : b.Adds qs c) :
    a.Adds (ps ++ qs) c := by
  obtain ⟨_, _, rfl⟩ := h
  obtain ⟨warnings, lastLine, rfl⟩ := g
  exact ⟨warnings, lastLine, by simp only [MarkupDraft.addAll_append]⟩

theorem Adds.inContent {a b : Assembly δ} {ps : Body δ} (h : a.Adds ps b) (hc : a.InContent) :
    b.InContent := by
  obtain ⟨_, _, rfl⟩ := h
  exact ⟨hc.tag, hc.attr, hc.rawText⟩

def inTag (a : Assembly δ) (head : ElementHead δ) (line : Nat) : Assembly δ :=
  { a with tag := some ⟨head, none⟩, attr := none, lastLine := line }

def inAttr (a : Assembly δ) (head : ElementHead δ) (attr : AttrDraft δ) (line : Nat) :
    Assembly δ :=
  { a with tag := some ⟨head, none⟩, attr := some attr, lastLine := line }

end Assembly

def AttrDraft.seeded (attr : AttrDraft δ) : TextDraft δ :=
  attr.draft.getD (TextDraft.empty.addText (Text.unescapeAttribute attr.value))

namespace Assembly

theorem site_inAttr (a : Assembly δ) (o : Options δ) (head : ElementHead δ) (attr : AttrDraft δ)
    (line : Nat) (ha : a.rawText = none) :
    (a.inAttr head attr line).site o =
      o.site (some head.tag) (some attr.name) a.directlyNested := by
  funext
  simp [site, inAttr, Options.site, directlyNested, ha]

theorem step_marker_inAttr {o : Options δ} {a : Assembly δ} {head : ElementHead δ}
    {attr : AttrDraft δ} {line : Nat} {m : Mark} {mode : Mode} {d : TextDraft δ}
    {change : Change δ} (hm : m.HasMode o mode) (hc : mode ≠ .comment)
    (hd : Draft.apply o.language ((a.inAttr head attr m.spot.line).site o m.spot.line) attr.seeded
      mode (o.language.split m.body).2 = .ok (d, change))
    (hr : ∀ b : Assembly δ, b.record change = b) :
    step o (a.inAttr head attr line) m.located =
      .ok (a.inAttr head { attr with draft := some d } m.spot.line) := by
  obtain ⟨hmode, helse⟩ := hm
  simp only [step, Mark.located, marker, hmode, if_neg helse, if_neg hc]
  simp only [inAttr, markerInAttr, AttrDraft.seeded] at hd ⊢
  rw [hd]
  simp [bind, Except.bind, pure, Except.pure, hr]

end Assembly

theorem Reading.apply_value {o : Options δ} {site : Nat → Site} {r : Reading δ} {D : Type}
    [Draft δ D] {escaped : Bool}
    (h : r.Compiles o (if escaped then .escaped else .unescaped) site) (d : D) :
    Draft.apply o.language (site r.spot.line) d (if escaped then .escaped else .unescaped)
      (o.language.split r.body).2 = .ok (Draft.addValue d r.expr escaped, .none) := by
  cases escaped <;> simp only [Bool.false_eq_true, if_false, if_true] at h ⊢ <;>
    simp [Draft.apply, h.2, bind, Except.bind, pure, Except.pure]

theorem Reading.Opens.mode {o : Options δ} {site : Nat → Site} {r : Reading δ}
    (h : r.Opens o site) :
    ∃ mode : Mode, mode ≠ .comment ∧ mode ≠ .inlineTemplate ∧ r.HasMode o mode ∧
      ∀ {D : Type} [Draft δ D] (d : D),
        Draft.apply o.language (site r.spot.line) d mode (o.language.split r.body).2 =
          .ok (Draft.openBranch d mode r.expr, .opened (o.language.closingName r.expr)) := by
  rcases h with h | h
  · refine ⟨.branch, by decide, by decide, h.1, fun d => ?_⟩
    simp [Draft.apply, h.2, bind, Except.bind, pure, Except.pure]
  · refine ⟨.inverse, by decide, by decide, h.1, fun d => ?_⟩
    simp [Draft.apply, h.2, bind, Except.bind, pure, Except.pure]

theorem TextDraft.apply_close {o : Options δ} (site : Site) (d : TextDraft δ) {mode : Mode}
    (hm : mode ≠ .inlineTemplate) (e : δ.Expr) (primary : List (TextPart δ))
    (inverse : Option (List (TextPart δ))) (expression : Text) :
    Draft.apply o.language site (d.withSection mode e primary inverse) .close expression =
      .ok (d.add (.branch e primary inverse), .closed none) := by
  have h : Draft.innermost? (d.withSection mode e primary inverse) = some mode := rfl
  have hne : some mode ≠ some Mode.inlineTemplate := by simpa using hm
  simp only [Draft.apply, Draft.close, h, if_neg hne]
  rfl

def AttrDraft.with (attr : AttrDraft δ) (parts : List (TextPart δ)) : AttrDraft δ :=
  { attr with draft := some (attr.seeded.addAll parts) }

@[simp] theorem AttrDraft.name_with (attr : AttrDraft δ) (parts : List (TextPart δ)) :
    (attr.with parts).name = attr.name := rfl

theorem AttrDraft.with_with (attr : AttrDraft δ) (ps qs : List (TextPart δ)) :
    (attr.with ps).with qs = attr.with (ps ++ qs) := by
  simp [AttrDraft.with, AttrDraft.seeded, TextDraft.addAll_append]

theorem AttrDraft.with_branch (attr : AttrDraft δ) (mode : Mode) (e : δ.Expr)
    (ps : List (TextPart δ)) :
    { attr with draft := some (attr.seeded.withSection mode e [] none) : AttrDraft δ }.with ps =
      { attr with
        draft := some (attr.seeded.withSection mode e (TextPart.pushAll [] ps) none) } := by
  simp [AttrDraft.with, AttrDraft.seeded, TextDraft.addAll_withSection]

theorem AttrDraft.with_inverse (attr : AttrDraft δ) (mode : Mode) (e : δ.Expr)
    (ps qs : List (TextPart δ)) :
    { attr with
      draft := some (attr.seeded.withSection mode e ps (some [])) : AttrDraft δ }.with qs =
      { attr with
        draft := some (attr.seeded.withSection mode e ps (some (TextPart.pushAll [] qs))) } := by
  simp [AttrDraft.with, AttrDraft.seeded, TextDraft.addAll_withSection_inverse]

namespace Assembly

def TakesPieces (o : Options δ) (a : Assembly δ) (head : ElementHead δ) (attr : AttrDraft δ)
    (line : Nat) (events : List Located) (parts : List (TextPart δ)) : Prop :=
  ∃ line', Takes o (a.inAttr head attr line) events (a.inAttr head (attr.with parts) line')

section

variable {o : Options δ} {a : Assembly δ} {head : ElementHead δ} {attr : AttrDraft δ}

theorem TakesPieces.append {line : Nat} {ls ms : List Located} {ps qs : List (TextPart δ)}
    (h : a.TakesPieces o head attr line ls ps)
    (g : ∀ line, a.TakesPieces o head (attr.with ps) line ms qs) :
    a.TakesPieces o head attr line (ls ++ ms) (ps ++ qs) := by
  obtain ⟨line₁, h₁⟩ := h
  obtain ⟨line₂, h₂⟩ := g line₁
  exact ⟨line₂, h₁.append (AttrDraft.with_with attr ps qs ▸ h₂)⟩

theorem takesPieces_text (d : TextDraft δ) (hd : attr.draft = some d) (line : Nat) (spot : Spot)
    (content : Text) :
    a.TakesPieces o head attr line [⟨spot, .attrValue content⟩]
      (TextPart.ofText (Text.unescapeAttribute content)) := by
  refine ⟨spot.line, Takes.single ?_⟩
  obtain ⟨name, value, draft⟩ := attr
  subst hd
  simp [step, attrValue, inAttr, AttrDraft.with, AttrDraft.seeded, TextDraft.addText_eq]

theorem takesPieces_turn (line : Nat) {m : Mark} (hm : m.Turns o) (d : TextDraft δ) (mode : Mode)
    (e : δ.Expr) (primary : List (TextPart δ)) :
    Takes o (a.inAttr head { attr with draft := some (d.withSection mode e primary none) } line)
      [m.located]
      (a.inAttr head { attr with draft := some (d.withSection mode e primary (some [])) }
        m.spot.line) := by
  unfold Mark.Turns at hm
  refine Takes.single ?_
  simp only [step, Mark.located, marker, if_pos hm, turn, inAttr]
  rw [TextDraft.turn_withSection]
  rfl

variable (ha : a.rawText = none)

include ha

theorem takesPieces_value (hq : attr.seeded.quoteValues = false) (line : Nat) {r : Reading δ}
    (escaped : Bool) (h : r.Compiles o (if escaped then .escaped else .unescaped)
      (o.site (some head.tag) (some attr.name) a.directlyNested)) :
    a.TakesPieces o head attr line [r.located] [.value r.expr false] := by
  have hd := r.apply_value h attr.seeded
  rw [← site_inAttr a o head attr r.spot.line ha] at hd
  have hc : (if escaped then Mode.escaped else .unescaped) ≠ .comment := by
    cases escaped <;> decide
  refine ⟨r.spot.line, Takes.single ?_⟩
  rw [step_marker_inAttr h.1 hc hd fun _ => rfl]
  simp [AttrDraft.with, Draft.addValue, TextDraft.addValue, hq]

theorem takesPieces_open (line : Nat) {r : Reading δ}
    (h : r.Opens o (o.site (some head.tag) (some attr.name) a.directlyNested)) :
    ∃ mode, mode ≠ .inlineTemplate ∧ Takes o (a.inAttr head attr line) [r.located]
      (a.inAttr head { attr with draft := some (attr.seeded.withSection mode r.expr [] none) }
        r.spot.line) := by
  obtain ⟨mode, hcomment, hinline, hm, hd⟩ := h.mode
  have hd := hd attr.seeded
  rw [← site_inAttr a o head attr r.spot.line ha] at hd
  exact ⟨mode, hinline, Takes.single (step_marker_inAttr hm hcomment hd fun _ => rfl)⟩

omit ha in
theorem takesPieces_close (line : Nat) {m : Mark} (hm : m.HasMode o .close) {d : TextDraft δ}
    {mode : Mode} (hmode : mode ≠ .inlineTemplate) {e : δ.Expr} {primary : List (TextPart δ)}
    {inverse : Option (List (TextPart δ))}
    (hd : attr.draft = some (d.withSection mode e primary inverse)) :
    Takes o (a.inAttr head attr line) [m.located]
      (a.inAttr head { attr with draft := some (d.add (.branch e primary inverse)) }
        m.spot.line) := by
  have hs : attr.seeded = d.withSection mode e primary inverse := by simp [AttrDraft.seeded, hd]
  have hc := TextDraft.apply_close (o := o) ((a.inAttr head attr m.spot.line).site o m.spot.line) d
    hmode e primary inverse (o.language.split m.body).2
  rw [← hs] at hc
  exact Takes.single (step_marker_inAttr hm (by decide) hc fun _ => rfl)

end

end Assembly

mutual

theorem ValuePiece.takes {o : Options δ} {a : Assembly δ} {head : ElementHead δ}
    (ha : a.rawText = none) (p : ValuePiece δ) (attr : AttrDraft δ)
    (hq : attr.seeded.quoteValues = false) (hd : attr.draft.isSome ∨ p.isText = false)
    (h : p.Valid o (o.site (some head.tag) (some attr.name) a.directlyNested)) (line : Nat) :
    a.TakesPieces o head attr line p.events p.parts := by
  match p with
  | .text spot content =>
    have hs : attr.draft.isSome := hd.resolve_right (by simp [ValuePiece.isText])
    obtain ⟨d, hd⟩ := Option.isSome_iff_exists.1 hs
    exact Assembly.takesPieces_text d hd line spot content
  | .value r =>
    rcases h with h | h
    · exact Assembly.takesPieces_value ha hq line true h
    · exact Assembly.takesPieces_value ha hq line false h
  | .branch r primary none close =>
    obtain ⟨hr, hp, -, hc⟩ := h
    obtain ⟨mode, hmode, hopen⟩ := Assembly.takesPieces_open ha line hr
    obtain ⟨_, hprimary⟩ := ValuePiece.takesAll ha primary
      { attr with draft := some (attr.seeded.withSection mode r.expr [] none) } hq rfl hp
      r.spot.line
    rw [AttrDraft.with_branch] at hprimary
    simp only [ValuePiece.events, ValuePiece.parts, List.append_nil]
    exact ⟨_, (hopen.append hprimary).append (Assembly.takesPieces_close _ hc hmode rfl)⟩
  | .branch r primary (some (turn, pieces)) close =>
    obtain ⟨hr, hp, ⟨ht, hi⟩, hc⟩ := h
    obtain ⟨mode, hmode, hopen⟩ := Assembly.takesPieces_open ha line hr
    obtain ⟨_, hprimary⟩ := ValuePiece.takesAll ha primary
      { attr with draft := some (attr.seeded.withSection mode r.expr [] none) } hq rfl hp
      r.spot.line
    rw [AttrDraft.with_branch] at hprimary
    obtain ⟨_, hinverse⟩ := ValuePiece.takesAll ha pieces
      { attr with draft := some (attr.seeded.withSection mode r.expr
          (TextPart.pushAll [] (ValuePiece.partsAll primary)) (some [])) } hq rfl hi
      turn.spot.line
    rw [AttrDraft.with_inverse] at hinverse
    simp only [ValuePiece.events, ValuePiece.parts]
    exact ⟨_, ((hopen.append hprimary).append
      ((Assembly.takesPieces_turn _ ht _ _ _ _).append hinverse)).append
      (Assembly.takesPieces_close _ hc hmode rfl)⟩

theorem ValuePiece.takesAll {o : Options δ} {a : Assembly δ} {head : ElementHead δ}
    (ha : a.rawText = none) (ps : List (ValuePiece δ)) (attr : AttrDraft δ)
    (hq : attr.seeded.quoteValues = false) (hd : attr.draft.isSome)
    (h : ValuePiece.ValidAll o (o.site (some head.tag) (some attr.name) a.directlyNested) ps)
    (line : Nat) : a.TakesPieces o head attr line (ValuePiece.eventsAll ps)
      (ValuePiece.partsAll ps) := by
  match ps with
  | [] =>
    obtain ⟨d, hd⟩ := Option.isSome_iff_exists.1 hd
    obtain ⟨name, value, draft⟩ := attr
    subst hd
    exact ⟨line, Assembly.Takes.nil o _⟩
  | p :: ps =>
    refine (ValuePiece.takes ha p attr hq (.inl hd) h.1 line).append fun line => ?_
    refine ValuePiece.takesAll ha ps (attr.with p.parts) ?_ rfl h.2 line
    simpa [AttrDraft.with, AttrDraft.seeded] using hq

end

namespace Assembly

variable (o : Options δ) (a : Assembly δ) (head : ElementHead δ)

theorem takes_lead (texts : List (Spot × Text)) (name value : Text) (line : Nat) :
    ∃ line', Takes o (a.inAttr head ⟨name, value, none⟩ line) (textEvents .attrValue texts)
      (a.inAttr head ⟨name, value ++ (texts.map Prod.snd).flatten, none⟩ line') := by
  induction texts generalizing value line with
  | nil => exact ⟨line, by simpa [textEvents] using Takes.nil o _⟩
  | cons t texts ih =>
    obtain ⟨line', h⟩ := ih (value ++ t.2) t.1.line
    have hstep : Takes o (a.inAttr head ⟨name, value, none⟩ line) [⟨t.1, .attrValue t.2⟩]
        (a.inAttr head ⟨name, value ++ t.2, none⟩ t.1.line) := Takes.single rfl
    exact ⟨line', by simpa [textEvents] using hstep.append h⟩

variable {o}

theorem takes_attrEnd (attr : AttrDraft δ) {value : AttrValue δ} (line : Nat) (stop : Spot)
    (hv : attrResult attr attr.name stop.line = .ok value)
    (hh : o.handlers.attr? attr.name = none) :
    ∃ warnings, Takes o (a.inAttr head attr line) [⟨stop, .attrEnd attr.name⟩]
      ({ a with warnings }.inTag
        { head with attrs := head.attrs ++ [(⟨attr.name, value⟩ : AttrTemplate δ)] }
        stop.line) := by
  by_cases hb : looksBound attr.name = true
  · refine ⟨(({ a with lastLine := stop.line } : Assembly δ).warn o .unknownAttributeBinding
      stop.line ("unknown attribute binding " ++ attr.name ++
        ". Is a handler registered for it?")).warnings, Takes.single ?_⟩
    simp [step, inAttr, attrEnd, hv, hh, hb, warn, inTag, bind, Except.bind, pure, Except.pure]
  · refine ⟨a.warnings, Takes.single ?_⟩
    simp [step, inAttr, attrEnd, hv, hh, hb, inTag, bind, Except.bind, pure, Except.pure]

theorem attrResult_with (attr : AttrDraft δ) (hd : attr.draft = none) (parts : List (TextPart δ))
    (line : Nat) : attrResult (attr.with parts) attr.name line = .ok (.dynamic (TextPart.pushAll []
      (TextPart.ofText (Text.unescapeAttribute attr.value) ++ parts))) := by
  obtain ⟨name, value, draft⟩ := attr
  subst hd
  simp only [attrResult, AttrDraft.with, AttrDraft.seeded, Option.getD_none, TextDraft.addText_eq,
    ← TextDraft.addAll_append]
  have h : Draft.atLine line (some (name ++ ['='])) (TextDraft.finish (TextDraft.empty.addAll
      (TextPart.ofText (Text.unescapeAttribute value) ++ parts))) = .ok (TextPart.pushAll []
      (TextPart.ofText (Text.unescapeAttribute value) ++ parts)) := by
    rw [TextDraft.finish_addAll_empty]
    rfl
  rw [h]
  rfl

end Assembly

theorem AttrTree.takes {o : Options δ} {a : Assembly δ} {head : ElementHead δ}
    (ha : a.rawText = none) (t : AttrTree δ) (h : t.Valid o head.tag a.directlyNested)
    (line : Nat) :
    ∃ warnings line', Assembly.Takes o (a.inTag head line) t.events
      ({ a with warnings }.inTag { head with attrs := head.attrs ++ [t.template] } line') := by
  obtain ⟨spot, name, lead, pieces, stop⟩ := t
  obtain ⟨hh, hfirst, hp⟩ := h
  have hstart : Assembly.Takes o (a.inTag head line) [⟨spot, .attrStart name⟩]
      (a.inAttr head ⟨name, [], none⟩ spot.line) := Assembly.Takes.single rfl
  obtain ⟨line₁, hlead⟩ := Assembly.takes_lead o a head lead name [] spot.line
  cases pieces with
  | nil =>
    obtain ⟨warnings, hstop⟩ := Assembly.takes_attrEnd a head
      ⟨name, (lead.map Prod.snd).flatten, none⟩ line₁ stop rfl hh
    exact ⟨warnings, stop.line, by
      simpa [AttrTree.events, AttrTree.template, AttrTree.leadText, ValuePiece.eventsAll] using
        hstart.append (hlead.append hstop)⟩
  | cons p ps =>
    let attr : AttrDraft δ := ⟨name, (lead.map Prod.snd).flatten, none⟩
    have hq : attr.seeded.quoteValues = false := by
      simp [attr, AttrDraft.seeded, TextDraft.addText_eq, TextDraft.empty]
    have hmarker : p.isText = false := hfirst p rfl
    obtain ⟨line₂, hpieces⟩ : a.TakesPieces o head attr line₁ (ValuePiece.eventsAll (p :: ps))
        (ValuePiece.partsAll (p :: ps)) := by
      refine (p.takes ha attr hq (.inr hmarker) hp.1 line₁).append fun line => ?_
      refine ValuePiece.takesAll ha ps (attr.with p.parts) ?_ rfl hp.2 line
      simpa [AttrDraft.with, AttrDraft.seeded] using hq
    obtain ⟨warnings, hstop⟩ := Assembly.takes_attrEnd a head (attr.with _) line₂ stop
      (Assembly.attrResult_with attr rfl _ stop.line) hh
    refine ⟨warnings, stop.line, ?_⟩
    have h := hstart.append (hlead.append (hpieces.append hstop))
    simpa [AttrTree.events, AttrTree.template, AttrTree.parts, AttrTree.leadText, attr] using h

theorem AttrTree.takesAll {o : Options δ} {a : Assembly δ} (ha : a.rawText = none)
    (ts : List (AttrTree δ)) (head : ElementHead δ)
    (h : ∀ t ∈ ts, t.Valid o head.tag a.directlyNested) (line : Nat) :
    ∃ warnings line', Assembly.Takes o (a.inTag head line) (ts.flatMap AttrTree.events)
      ({ a with warnings }.inTag
        { head with attrs := head.attrs ++ ts.map AttrTree.template } line') := by
  induction ts generalizing a head line with
  | nil => exact ⟨a.warnings, line, by simpa using Assembly.Takes.nil o _⟩
  | cons t ts ih =>
    obtain ⟨warnings₁, line₁, h₁⟩ := t.takes ha (h t (by simp)) line
    obtain ⟨warnings₂, line₂, h₂⟩ := ih (a := { a with warnings := warnings₁ }) ha
      { head with attrs := head.attrs ++ [t.template] } (fun u hu => h u (by simp [hu])) line₁
    exact ⟨warnings₂, line₂, by simpa using h₁.append h₂⟩

namespace Assembly

variable {o : Options δ} {a : Assembly δ}

def pushed (namespaces : List Namespace) (tag : Text) (unary : Bool) : List Namespace :=
  if unary then namespaces else (Namespace.ofTag? tag).toList ++ namespaces

theorem takes_tagStart (hc : a.InContent) (spot : Spot) (tag : Text) (unary : Bool) :
    Takes o a [⟨spot, .tagStart tag unary⟩]
      ({ a with namespaces := pushed a.namespaces tag unary }.inTag
        ⟨tag, a.ns.inside tag, [], []⟩ spot.line) := by
  refine Takes.single ?_
  cases ht : Namespace.ofTag? tag <;> cases unary <;>
    simp [step, tagStart, inTag, pushed, ns, Namespace.inside, ht, hc.attr]

theorem takes_startTag (hc : a.InContent) (spot : Spot) (tag : Text) (unary : Bool)
    (attrs : List (AttrTree δ)) (h : ∀ t ∈ attrs, t.Valid o tag a.directlyNested) :
    ∃ warnings line, Takes o a ([⟨spot, .tagStart tag unary⟩] ++ attrs.flatMap AttrTree.events)
      ({ a with warnings, namespaces := pushed a.namespaces tag unary }.inTag
        (Tree.head a.ns tag attrs) line) := by
  have hstart := takes_tagStart (o := o) hc spot tag unary
  obtain ⟨warnings, line, hattrs⟩ := AttrTree.takesAll
    (a := { a with namespaces := pushed a.namespaces tag unary }) hc.rawText attrs
    ⟨tag, a.ns.inside tag, [], []⟩ h spot.line
  exact ⟨warnings, line, hstart.append hattrs⟩

theorem pop_pushed (namespaces : List Namespace) (tag : Text) :
    (if (Namespace.ofTag? tag).isSome then (pushed namespaces tag false).tail
      else pushed namespaces tag false) = namespaces := by
  cases ht : Namespace.ofTag? tag <;> simp [pushed, ht]

def inElement (a : Assembly δ) (e : OpenElement δ) (rawText : Option (TextDraft δ))
    (warnings : List CompileWarning) (line : Nat) : Assembly δ :=
  { a with
    markup := a.markup.withElement e
    openings := .element e.head.tag :: a.openings
    namespaces := pushed a.namespaces e.head.tag false
    rawText, warnings, lastLine := line }

theorem ns_inElement (e : OpenElement δ) (rawText : Option (TextDraft δ))
    (warnings : List CompileWarning) (line : Nat) :
    (a.inElement e rawText warnings line).ns = a.ns.inside e.head.tag := by
  cases ht : Namespace.ofTag? e.head.tag <;> simp [ns, inElement, pushed, Namespace.inside, ht]

theorem takes_tagEnd_unary (hc : a.InContent) (head : ElementHead δ) (namespaces : List Namespace)
    (warnings : List CompileWarning) (line : Nat) (stop : Spot)
    (hh : o.handlers.tag? head.tag = none) :
    Takes o ({ a with warnings, namespaces }.inTag head line) [⟨stop, .tagEnd head.tag true⟩]
      { a with
        warnings, namespaces, markup := a.markup.add (.element head [])
        lastLine := stop.line } := by
  refine Takes.single ?_
  simp [step, tagEnd, inTag, addUnary, hh, hc.tag, hc.attr]

theorem takes_tagEnd (hc : a.InContent) (head : ElementHead δ)
    (warnings : List CompileWarning) (line : Nat) (stop : Spot)
    (hh : o.handlers.tag? head.tag = none) :
    Takes o ({ a with warnings, namespaces := pushed a.namespaces head.tag false }.inTag head line)
      [⟨stop, .tagEnd head.tag false⟩]
      (a.inElement ⟨head, []⟩ (if Tag.holdsText head.tag then some .empty else none) warnings
        stop.line) := by
  refine Takes.single ?_
  simp [step, tagEnd, inTag, openElement, hh, inElement, MarkupDraft.openElement,
    MarkupDraft.withElement, hc.tag, hc.attr, hc.rawText]

theorem step_close_inElement (e : OpenElement δ) (rawText : Option (TextDraft δ))
    (warnings : List CompileWarning) (line : Nat) (close : Spot) :
    step o (a.inElement e rawText warnings line) ⟨close, .close e.head.tag⟩ =
      closeElement { a with
        markup := a.markup.withElement e, rawText, warnings, lastLine := close.line }
        e.head.tag close.line := by
  have hp := pop_pushed a.namespaces e.head.tag
  by_cases hn : (Namespace.ofTag? e.head.tag).isSome = true
  · rw [if_pos hn] at hp
    simp [step, Assembly.close, inElement, hn, hp]
  · rw [if_neg hn] at hp
    simp [step, Assembly.close, inElement, hn, hp]

theorem takes_close (hc : a.InContent) (e : OpenElement δ) (warnings : List CompileWarning)
    (line : Nat) (close : Spot) :
    Takes o (a.inElement e none warnings line) [⟨close, .close e.head.tag⟩]
      { a with
        warnings, markup := a.markup.add (.element e.head e.children)
        lastLine := close.line } := by
  refine Takes.single ?_
  rw [step_close_inElement]
  simp [closeElement, endRawText, MarkupDraft.takeElement?_withElement, hc.rawText, bind,
    Except.bind, pure, Except.pure]

theorem takes_close_rawText (hc : a.InContent) (e : OpenElement δ)
    (he : Tag.holdsText e.head.tag = true) (parts : List (TextPart δ))
    (warnings : List CompileWarning) (line : Nat) (close : Spot) :
    Takes o (a.inElement e (some (TextDraft.empty.addAll parts)) warnings line)
      [⟨close, .close e.head.tag⟩]
      { a with
        warnings
        markup := a.markup.add (.element e.head
          (Part.push e.children (.textBlock (TextPart.pushAll [] parts))))
        lastLine := close.line } := by
  have hf : Draft.atLine close.line none (TextDraft.empty.addAll parts).finish =
      .ok (TextPart.pushAll [] parts) := by
    rw [TextDraft.finish_addAll_empty]
    rfl
  have ha := MarkupDraft.addAll_withElement a.markup e [.textBlock (TextPart.pushAll [] parts)]
  simp only [MarkupDraft.addAll_cons, MarkupDraft.addAll_nil] at ha
  refine Takes.single ?_
  rw [step_close_inElement]
  simp [closeElement, endRawText, he, hf, ha, MarkupDraft.takeElement?_withElement, hc.rawText,
    bind, Except.bind, pure, Except.pure, Part.pushAll]

theorem takes_texts (e : OpenElement δ) (parts : List (TextPart δ)) (texts : List (Spot × Text))
    (warnings : List CompileWarning) (line : Nat) :
    ∃ line', Takes o (a.inElement e (some (TextDraft.empty.addAll parts)) warnings line)
      (textEvents .chars texts)
      (a.inElement e (some (TextDraft.empty.addAll
        (parts ++ texts.flatMap fun t => TextPart.ofText t.2))) warnings line') := by
  induction texts generalizing parts line with
  | nil => exact ⟨line, by simpa [textEvents] using Takes.nil o _⟩
  | cons t texts ih =>
    obtain ⟨line', h⟩ := ih (parts ++ TextPart.ofText t.2) t.1.line
    have hstep : Takes o (a.inElement e (some (TextDraft.empty.addAll parts)) warnings line)
        [⟨t.1, .chars t.2⟩] (a.inElement e
          (some (TextDraft.empty.addAll (parts ++ TextPart.ofText t.2))) warnings t.1.line) := by
      refine Takes.single ?_
      simp [step, chars, inElement, TextDraft.addText_eq, TextDraft.addAll_append]
    exact ⟨line', by simpa [textEvents] using hstep.append h⟩

theorem site_content (hc : a.InContent) : a.site o = o.site none none a.directlyNested := by
  funext
  simp [site, Options.site, hc.tag, hc.attr, hc.rawText]

theorem step_marker_content (hc : a.InContent) {m : Mark} {mode : Mode} {d : MarkupDraft δ}
    {change : Change δ} (hm : m.HasMode o mode) (hmode : mode ≠ .comment)
    (hd : Draft.apply o.language (a.site o m.spot.line) a.markup mode
      (o.language.split m.body).2 = .ok (d, change)) :
    step o a m.located =
      .ok (({ a with markup := d, lastLine := m.spot.line }.record change).follow o
        (o.language.split m.body).2 m.spot.line change) := by
  obtain ⟨hmode', helse⟩ := hm
  obtain ⟨markup, tag, attr, openings, namespaces, rawText, partials, warnings, lastLine⟩ := a
  obtain ⟨rfl, rfl, rfl⟩ := hc
  generalize hx : o.language.split m.body = split at hmode' helse hd ⊢
  obtain ⟨_, expression⟩ := split
  subst hmode'
  simp only [step, Mark.located, marker, hx, if_neg helse, if_neg hmode, markerInContent]
  simp only [site, directlyNested, bind, Except.bind, pure, Except.pure] at hd ⊢
  rw [hd]

theorem takes_value (hc : a.InContent) {r : Reading δ} {escaped : Bool}
    (h : r.Compiles o (if escaped then .escaped else .unescaped)
      (o.site none none a.directlyNested)) :
    Takes o a [r.located]
      { a with markup := a.markup.add (.value r.expr escaped), lastLine := r.spot.line } := by
  have hd := r.apply_value h a.markup
  rw [← site_content hc] at hd
  have hmode : (if escaped then Mode.escaped else .unescaped) ≠ .comment := by
    cases escaped <;> decide
  exact Takes.single (step_marker_content hc h.1 hmode hd)

def inBranch (a : Assembly δ) (opener : Mode × δ.Expr) (name : Text) (primary : Body δ)
    (inverse : Option (Body δ)) (warnings : List CompileWarning) (line : Nat) : Assembly δ :=
  { a with
    markup := a.markup.withSection (.branch opener.1 opener.2) primary inverse
    openings := .marker name :: a.openings
    warnings, lastLine := line }

theorem takes_open (hc : a.InContent) {r : Reading δ}
    (h : r.Opens o (o.site none none a.directlyNested)) :
    ∃ mode, mode ≠ .inlineTemplate ∧ Takes o a [r.located]
      (a.inBranch (mode, r.expr) (o.language.closingName r.expr) [] none a.warnings
        r.spot.line) := by
  obtain ⟨mode, hcomment, hinline, hm, hd⟩ := h.mode
  have hd := hd a.markup
  rw [← site_content hc] at hd
  exact ⟨mode, hinline, Takes.single (step_marker_content hc hm hcomment hd)⟩

theorem takes_turn (hc : a.InContent) {m : Mark} (hm : m.Turns o) (opener : Mode × δ.Expr)
    (name : Text) (primary : Body δ) (inverse : Option (Body δ)) (warnings : List CompileWarning)
    (line : Nat) :
    Takes o (a.inBranch opener name primary inverse warnings line) [m.located]
      (a.inBranch opener name primary (some (inverse.getD [])) warnings m.spot.line) := by
  unfold Mark.Turns at hm
  obtain ⟨markup, tag, attr, openings, namespaces, rawText, partials, _, _⟩ := a
  obtain ⟨rfl, rfl, rfl⟩ := hc
  refine Takes.single ?_
  simp only [step, Mark.located, marker, if_pos hm, turn, inBranch]
  rw [MarkupDraft.turn_withSection]
  rfl

theorem takes_closeMarker (hc : a.InContent) {m : Mark} (hm : m.HasMode o .close)
    (opener : Mode × δ.Expr) (hmode : opener.1 ≠ .inlineTemplate) (name : Text) (primary : Body δ)
    (inverse : Option (Body δ)) (warnings : List CompileWarning) (line : Nat) :
    ∃ warnings', Takes o (a.inBranch opener name primary inverse warnings line) [m.located]
      { a with
        markup := a.markup.add (.branch opener.2 primary inverse)
        warnings := warnings', lastLine := m.spot.line } := by
  have hi : Draft.innermost? (a.markup.withSection (.branch opener.1 opener.2) primary inverse) =
      some opener.1 := rfl
  have hne : some opener.1 ≠ some Mode.inlineTemplate := by simpa using hmode
  have hd : ∀ site, Draft.apply o.language site
      (a.markup.withSection (.branch opener.1 opener.2) primary inverse) .close
      (o.language.split m.body).2 =
        .ok (a.markup.add (.branch opener.2 primary inverse), .closed none) := by
    intro site
    simp only [Draft.apply, Draft.close, hi, if_neg hne]
    rfl
  have hstep := step_marker_content (o := o)
    (a := a.inBranch opener name primary inverse warnings line) ⟨hc.tag, hc.attr, hc.rawText⟩ hm
    (by decide) (hd _)
  simp only [record, follow, inBranch] at hstep
  split at hstep
  · exact ⟨_, Takes.single hstep⟩
  · exact ⟨_, Takes.single hstep⟩

theorem Adds.of_inBranch {b : Assembly δ} {opener : Mode × δ.Expr} {name : Text}
    {primary ps : Body δ} {warnings : List CompileWarning} {line : Nat}
    (h : (a.inBranch opener name primary none warnings line).Adds ps b) :
    ∃ warnings line,
      b = a.inBranch opener name (Part.pushAll primary ps) none warnings line := by
  obtain ⟨warnings, line, rfl⟩ := h
  exact ⟨warnings, line, by simp only [inBranch, MarkupDraft.addAll_withSection]⟩

theorem Adds.of_inBranch_inverse {b : Assembly δ} {opener : Mode × δ.Expr} {name : Text}
    {primary inverse ps : Body δ} {warnings : List CompileWarning} {line : Nat}
    (h : (a.inBranch opener name primary (some inverse) warnings line).Adds ps b) :
    ∃ warnings line,
      b = a.inBranch opener name primary (some (Part.pushAll inverse ps)) warnings line := by
  obtain ⟨warnings, line, rfl⟩ := h
  exact ⟨warnings, line, by simp only [inBranch, MarkupDraft.addAll_withSection_inverse]⟩

theorem Adds.of_inElement {b : Assembly δ} {e : OpenElement δ} {rawText : Option (TextDraft δ)}
    {ps : Body δ} {warnings : List CompileWarning} {line : Nat}
    (h : (a.inElement e rawText warnings line).Adds ps b) :
    ∃ warnings line, b = a.inElement { e with children := Part.pushAll e.children ps } rawText
      warnings line := by
  obtain ⟨warnings, line, rfl⟩ := h
  exact ⟨warnings, line, by simp only [inElement, MarkupDraft.addAll_withElement]⟩

end Assembly

mutual

theorem Tree.takes {o : Options δ} (t : Tree δ) (a : Assembly δ) (hc : a.InContent)
    (h : t.Valid o a.directlyNested) :
    ∃ b, Assembly.Takes o a t.events b ∧ a.Adds (t.parts a.ns) b := by
  match t with
  | .text spot content =>
    refine ⟨_, Assembly.Takes.single rfl, a.warnings, spot.line, ?_⟩
    simp [Assembly.chars, hc.rawText, MarkupDraft.addText_eq, Tree.parts]
  | .comment spot content =>
    exact ⟨_, Assembly.Takes.single rfl, a.warnings, spot.line, rfl⟩
  | .remark m =>
    obtain ⟨hmode, helse⟩ := h
    refine ⟨_, Assembly.Takes.single ?_, a.warnings, m.spot.line, rfl⟩
    simp only [Assembly.step, Mark.located, Assembly.marker, hmode, if_neg helse, if_pos]
    rfl
  | .value r escaped =>
    exact ⟨_, Assembly.takes_value hc h, a.warnings, r.spot.line, rfl⟩
  | .branch r primary none close =>
    obtain ⟨hr, hp, -, hclose⟩ := h
    obtain ⟨mode, hmode, hopen⟩ := Assembly.takes_open hc hr
    obtain ⟨_, hprimary, hadds⟩ := Tree.takesAll primary
      (a.inBranch (mode, r.expr) (o.language.closingName r.expr) [] none a.warnings r.spot.line)
      ⟨hc.tag, hc.attr, hc.rawText⟩ hp
    obtain ⟨_, _, rfl⟩ := hadds.of_inBranch
    obtain ⟨warnings, hclosed⟩ := Assembly.takes_closeMarker hc hclose (mode, r.expr)
      hmode _ _ _ _ _
    refine ⟨_, ?_, warnings, close.spot.line, rfl⟩
    simp only [Tree.events, List.append_nil]
    exact (hopen.append hprimary).append hclosed
  | .branch r primary (some (turn, trees)) close =>
    obtain ⟨hr, hp, ⟨hturn, hi⟩, hclose⟩ := h
    obtain ⟨mode, hmode, hopen⟩ := Assembly.takes_open hc hr
    obtain ⟨_, hprimary, hadds⟩ := Tree.takesAll primary
      (a.inBranch (mode, r.expr) (o.language.closingName r.expr) [] none a.warnings r.spot.line)
      ⟨hc.tag, hc.attr, hc.rawText⟩ hp
    obtain ⟨warnings₁, line₁, rfl⟩ := hadds.of_inBranch
    -- nothing above the branch is open when its `else` comes
    have hturned := Assembly.takes_turn hc hturn (mode, r.expr) (o.language.closingName r.expr)
      (Part.pushAll [] (Tree.partsAll a.ns primary)) none warnings₁ line₁
    obtain ⟨_, hinverse, hadds⟩ := Tree.takesAll trees
      (a.inBranch (mode, r.expr) (o.language.closingName r.expr)
        (Part.pushAll [] (Tree.partsAll a.ns primary)) (some []) warnings₁ turn.spot.line)
      ⟨hc.tag, hc.attr, hc.rawText⟩ hi
    obtain ⟨_, _, rfl⟩ := hadds.of_inBranch_inverse
    obtain ⟨warnings, hclosed⟩ := Assembly.takes_closeMarker hc hclose (mode, r.expr)
      hmode _ _ _ _ _
    refine ⟨_, ?_, warnings, close.spot.line, rfl⟩
    simp only [Tree.events]
    exact ((hopen.append hprimary).append (hturned.append hinverse)).append hclosed
  | .element spot stop tag attrs none =>
    obtain ⟨hh, -, ⟨-, hattrs⟩, -⟩ := h
    obtain ⟨warnings, line, hstart⟩ := Assembly.takes_startTag hc spot tag true attrs hattrs
    have hstop := Assembly.takes_tagEnd_unary hc (Tree.head a.ns tag attrs) a.namespaces warnings
      line stop hh
    exact ⟨_, (hstart.append hstop).append (Assembly.Takes.nil o _), warnings, stop.line, rfl⟩
  | .element spot stop tag attrs (some (trees, close)) =>
    obtain ⟨hh, hholds, ⟨-, hattrs⟩, -, htrees⟩ := h
    obtain ⟨warnings, line, hstart⟩ := Assembly.takes_startTag hc spot tag false attrs hattrs
    have hstop := Assembly.takes_tagEnd hc (Tree.head a.ns tag attrs) warnings line stop hh
    rw [if_neg (by simpa [Tree.head] using hholds)] at hstop
    obtain ⟨_, hinner, hadds⟩ := Tree.takesAll trees
      (a.inElement ⟨Tree.head a.ns tag attrs, []⟩ none warnings stop.line)
      ⟨hc.tag, hc.attr, rfl⟩ htrees
    rw [Assembly.ns_inElement] at hadds
    obtain ⟨warnings', line', rfl⟩ := hadds.of_inElement
    have hclosed := Assembly.takes_close (o := o) hc ⟨Tree.head a.ns tag attrs, Part.pushAll []
      (Tree.partsAll (a.ns.inside tag) trees)⟩ warnings' line' close
    exact ⟨_, (hstart.append hstop).append (hinner.append hclosed), warnings', close.line, rfl⟩
  | .rawText spot stop tag attrs texts close =>
    obtain ⟨hh, hholds, -, hattrs⟩ := h
    obtain ⟨warnings, line, hstart⟩ := Assembly.takes_startTag hc spot tag false attrs hattrs
    have hstop := Assembly.takes_tagEnd hc (Tree.head a.ns tag attrs) warnings line stop hh
    rw [if_pos (by simpa [Tree.head] using hholds)] at hstop
    obtain ⟨line', hinner⟩ := Assembly.takes_texts (o := o) (a := a)
      ⟨Tree.head a.ns tag attrs, []⟩ [] texts warnings stop.line
    have hclosed := Assembly.takes_close_rawText (o := o) hc ⟨Tree.head a.ns tag attrs, []⟩ hholds
      (texts.flatMap fun t => TextPart.ofText t.2) warnings line' close
    exact ⟨_, ((hstart.append hstop).append hinner).append hclosed, warnings, close.line, rfl⟩

theorem Tree.takesAll {o : Options δ} (ts : List (Tree δ)) (a : Assembly δ) (hc : a.InContent)
    (h : Tree.ValidAll o a.directlyNested ts) :
    ∃ b, Assembly.Takes o a (Tree.eventsAll ts) b ∧ a.Adds (Tree.partsAll a.ns ts) b := by
  match ts with
  | [] => exact ⟨a, Assembly.Takes.nil o a, Assembly.Adds.nil a⟩
  | t :: ts =>
    obtain ⟨b, ht, hb⟩ := Tree.takes t a hc h.1
    have hn : b.directlyNested = a.directlyNested ∧ b.ns = a.ns := by
      obtain ⟨_, _, rfl⟩ := hb
      exact ⟨rfl, rfl⟩
    obtain ⟨c, hts, hc⟩ := Tree.takesAll ts b (hb.inContent hc) (hn.1 ▸ h.2)
    exact ⟨c, ht.append hts, hb.append (hn.2 ▸ hc)⟩

end

theorem compileEvents_of_takes {o : Options δ} {events : List Located} {b : Assembly δ}
    {body : Body δ} (h : Assembly.Takes o .empty events b) (hf : b.markup.finish = .ok body)
    (serial : Nat) :
    compileEvents o serial events =
      .ok ⟨.template serial body b.partials o.filename, b.warnings⟩ := by
  unfold Assembly.Takes at h
  simp only [compileEvents, h, bind, Except.bind, Assembly.finish, hf]
  rfl

theorem compileEvents_of_adds {o : Options δ} {events : List Located} {ps : Body δ}
    {b : Assembly δ} (h : Assembly.Takes o .empty events b) (hadds : Assembly.empty.Adds ps b)
    (serial : Nat) :
    ∃ warnings, compileEvents o serial events =
      .ok ⟨.template serial (Part.pushAll [] ps) [] o.filename, warnings⟩ := by
  obtain ⟨warnings, line, rfl⟩ := hadds
  exact ⟨warnings, compileEvents_of_takes h (MarkupDraft.finish_addAll_empty ps) serial⟩

/-- The events of trees compile to the parts of those trees. -/
theorem compileEvents_trees {o : Options δ} {ts : List (Tree δ)} (h : Tree.ValidAll o true ts)
    (serial : Nat) (stop : Spot) :
    ∃ warnings, compileEvents o serial (Tree.eventsAll ts ++ [⟨stop, .done⟩]) =
        .ok ⟨.template serial (Part.pushAll [] (Tree.partsAll .html ts)) [] o.filename,
          warnings⟩ := by
  obtain ⟨_, htakes, warnings, line, rfl⟩ := Tree.takesAll ts Assembly.empty ⟨rfl, rfl, rfl⟩ h
  have hdone := htakes.append (Assembly.Takes.single (o := o) (l := ⟨stop, .done⟩) rfl)
  exact compileEvents_of_adds hdone ⟨warnings, stop.line, rfl⟩ serial

end Stencil
