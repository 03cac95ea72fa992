import Stencil.Proofs.Template.MarkerSteps

/-!
What is open in a draft of markup, as one list of levels, innermost first. Every operation on a
draft changes its levels as a stack, and what is innermost can be taken.
-/

set_option autoImplicit false

namespace Stencil

variable {δ : Dialect}

/-- One thing that is open in a draft. -/
inductive Level where
  | element (tag : Text)
  /-- the content of a custom tag -/
  | content
  | body
  deriving DecidableEq, Repr

def Opener.level : Opener δ → Level
  | .branch _ _ | .inlineTemplate _ => .body
  | .custom => .content

def Layer.levels (l : Layer δ) : List Level := l.elements.map fun e => .element e.head.tag

/-- All that is open in a draft, innermost first: in each section its elements, then what opened
the section. -/
def MarkupDraft.levels (d : MarkupDraft δ) : List Level :=
  (d.sections.flatMap fun s => s.layer.levels ++ [s.opener.level]) ++ d.root.levels

/-- The levels of an opening, innermost first. A custom tag has its content inside its element. -/
def Opening.levels : Opening δ → List Level
  | .marker _ => [.body]
  | .element tag => [.element tag]
  | .custom tag _ _ _ => [.content, .element tag]

def Opening.tag? : Opening δ → Option Text
  | .marker _ => none
  | .element tag | .custom tag _ _ _ => some tag

namespace MarkupDraft

variable {d d' : MarkupDraft δ}

theorem levels_setTop (l : Layer δ) (hl : l.levels = d.top.levels) :
    (d.setTop l).levels = d.levels := by
  obtain ⟨root, sections⟩ := d
  cases sections with
  | nil => exact hl
  | cons s ss =>
    simp only [top] at hl
    simp [levels, setTop, hl]

@[simp] theorem levels_add (d : MarkupDraft δ) (p : Part δ) : (d.add p).levels = d.levels := by
  refine levels_setTop _ ?_
  obtain ⟨primary, inverse, elements⟩ := d.top
  cases elements with
  | nil => cases inverse <;> rfl
  | cons e es => rfl

@[simp] theorem levels_addText (d : MarkupDraft δ) (t : Text) :
    (d.addText t).levels = d.levels := by
  unfold addText
  split
  · rfl
  · exact levels_add d _

@[simp] theorem levels_openElement (d : MarkupDraft δ) (head : ElementHead δ) :
    (d.openElement head).levels = .element head.tag :: d.levels := by
  obtain ⟨root, sections⟩ := d
  cases sections <;> rfl

@[simp] theorem levels_openSection (d : MarkupDraft δ) (opener : Opener δ) :
    (d.openSection opener).levels = opener.level :: d.levels := rfl

theorem levels_takeElement? {e : OpenElement δ} (h : d.takeElement? = some (e, d')) :
    d.levels = .element e.head.tag :: d'.levels := by
  obtain ⟨⟨primary, inverse, elements⟩, sections⟩ := d
  rcases sections with _ | ⟨⟨opener, primary', inverse', elements'⟩, ss⟩
  · cases elements with
    | nil => cases h
    | cons e es => cases h; rfl
  · cases elements' with
    | nil => cases h
    | cons e es => cases h; rfl

theorem takeElement?_of_levels {tag : Text} {ls : List Level} (h : d.levels = .element tag :: ls) :
    ∃ e d', d.takeElement? = some (e, d') ∧ e.head.tag = tag ∧ d'.levels = ls := by
  have htake : d.takeElement?.isSome := by
    obtain ⟨⟨primary, inverse, elements⟩, sections⟩ := d
    rcases sections with _ | ⟨⟨opener, primary', inverse', elements'⟩, ss⟩
    · cases elements with
      | nil => cases h
      | cons e es => rfl
    · cases elements' with
      | nil => cases opener <;> cases h
      | cons e es => rfl
  obtain ⟨⟨e, d'⟩, he⟩ := Option.isSome_iff_exists.1 htake
  have hlevels := levels_takeElement? he
  rw [h, List.cons.injEq, Level.element.injEq] at hlevels
  exact ⟨e, d', he, hlevels.1.symm, hlevels.2.symm⟩

theorem closeCustom_of_levels {ls : List Level} (h : d.levels = .content :: ls) :
    ∃ content d', d.closeCustom = .ok (content, d') ∧ d'.levels = ls := by
  obtain ⟨⟨primary, inverse, elements⟩, sections⟩ := d
  rcases sections with _ | ⟨⟨opener, primary', inverse', elements'⟩, ss⟩
  · cases elements <;> cases h
  · cases elements' with
    | nil =>
      cases opener with
      | custom =>
        cases h
        exact ⟨_, _, rfl, rfl⟩
      | branch | inlineTemplate => cases h
    | cons e es => cases h

theorem levels_takeLayer {s : Section δ} {ss : List (Section δ)} {l : Layer δ}
    (hd : d.sections = s :: ss) (h : d.takeLayer s ss = .ok (l, d')) :
    d.levels = s.opener.level :: d'.levels := by
  obtain ⟨opener, primary, inverse, elements⟩ := s
  unfold takeLayer at h
  split at h
  next hempty =>
    cases h
    obtain rfl : elements = [] := by simpa using hempty
    simp [levels, hd, Layer.levels]
  next => cases h

theorem levels_closeBranch (h : d.closeBranch = .ok d') : d.levels = .body :: d'.levels := by
  unfold closeBranch at h
  split at h
  · cases h
  next mode e layer ss hd =>
    cases ht : d.takeLayer ⟨.branch mode e, layer⟩ ss with
    | error code =>
      rw [ht] at h
      cases h
    | ok taken =>
      rw [ht] at h
      cases h
      rw [levels_add]
      exact levels_takeLayer hd ht
  · cases h

theorem levels_closeInline {name : Text} {body : Body δ} (h : d.closeInline = .ok (d', name, body)) :
    d.levels = .body :: d'.levels := by
  unfold closeInline at h
  split at h
  next template layer ss hd =>
    cases ht : d.takeLayer ⟨.inlineTemplate template, layer⟩ ss with
    | error code =>
      rw [ht] at h
      cases h
    | ok taken =>
      rw [ht] at h
      cases h
      exact levels_takeLayer hd ht
  · cases h

theorem levels_turn (h : d.turn = .ok d') : d'.levels = d.levels := by
  unfold turn at h
  split at h
  next mode e layer ss hd =>
    split at h
    · cases h
      simp [levels, hd, Layer.levels]
    · cases h
  · cases h

theorem levels_finish {body : Body δ} (h : d.finish = .ok body) : d.levels = [] := by
  unfold finish at h
  split at h
  next hempty =>
    simp only [Bool.and_eq_true, List.isEmpty_iff] at hempty
    simp [levels, Layer.levels, hempty]
  next => cases h

end MarkupDraft

def Change.Levels : Change δ → List Level → List Level → Prop
  | .none, ls, ls' => ls' = ls
  | .opened _, ls, ls' => ls' = .body :: ls
  | .closed _, ls, ls' => ls = .body :: ls'

namespace MarkupDraft

variable {d d' : MarkupDraft δ}

theorem levels_close {expression : Text} {line : Nat} {change : Change δ}
    (h : Draft.close d expression line = .ok (d', change)) :
    (∃ definition, change = .closed definition) ∧ d.levels = .body :: d'.levels := by
  unfold Draft.close at h
  split at h
  · obtain ⟨⟨d₁, name, body⟩, hclose, h⟩ := exists_of_bind_ok h
    cases h
    exact ⟨⟨_, rfl⟩, levels_closeInline (Draft.of_atLine_ok hclose)⟩
  · obtain ⟨d₁, hclose, h⟩ := exists_of_bind_ok h
    cases h
    exact ⟨⟨_, rfl⟩, levels_closeBranch (Draft.of_atLine_ok hclose)⟩

theorem levels_apply {l : Language δ} {site : Site} {mode : Mode} {expression : Text}
    {change : Change δ} (h : Draft.apply l site d mode expression = .ok (d', change)) :
    change.Levels d.levels d'.levels := by
  cases mode with
  | escaped | unescaped =>
    obtain ⟨e, -, h⟩ := exists_of_bind_ok h
    cases h
    exact levels_add d _
  | branch | inverse =>
    obtain ⟨e, -, h⟩ := exists_of_bind_ok h
    cases h
    exact levels_openSection d _
  | inlineTemplate =>
    cases h
    exact levels_openSection d _
  | close =>
    obtain ⟨⟨definition, rfl⟩, hlevels⟩ := levels_close h
    exact hlevels
  | call =>
    simp only [Draft.apply] at h
    split at h
    · cases h
    · split at h
      · cases h
        exact levels_add d _
      · obtain ⟨e, -, h⟩ := exists_of_bind_ok h
        cases h
        exact levels_add d _
  | comment =>
    cases h
    rfl

end MarkupDraft

end Stencil
