import Stencil.Proofs.Template.Levels
import Stencil.Proofs.Template.Nesting

/-!
The elements of a body, each with the tags around it. What is said of all elements of a body is kept
while the body is being written: an element that is open stands inside those opened before it, and
a body that is taken out of a draft keeps the tags that were open around it.
-/

set_option autoImplicit false

namespace Stencil

variable {δ : Dialect}

/-- An element with the tags around it, innermost first. -/
structure PlacedElement where
  tag : Text
  ns : Namespace
  around : List Text
  deriving DecidableEq, Repr

def ElementHead.placed (head : ElementHead δ) (around : List Text) : PlacedElement :=
  ⟨head.tag, head.ns, around⟩

mutual

/-- The elements of a part that has these tags around it. The templates that a custom tag is handed
stand in definitions inside it. -/
def Part.placed (p : Part δ) (around : List Text) : List PlacedElement :=
  match p with
  | .text _ | .comment _ | .value _ _ | .call _ | .textBlock _ => []
  | .branch _ primary inverse => Part.placedAll primary around ++ Part.placedOption inverse around
  | .element head children => head.placed around :: Part.placedAll children (head.tag :: around)
  | .custom head _ body templates =>
    head.placed around :: (Part.placedDefined templates (definitionTag :: head.tag :: around) ++
      Part.placedOption body (head.tag :: around))
termination_by structural p

def Part.placedAll (ps : Body δ) (around : List Text) : List PlacedElement :=
  match ps with
  | [] => []
  | p :: ps => p.placed around ++ Part.placedAll ps around
termination_by structural ps

def Part.placedOption (b : Option (List (Part δ))) (around : List Text) : List PlacedElement :=
  match b with
  | none => []
  | some ps => Part.placedAll ps around
termination_by structural b

def Part.placedTemplates (ts : List (Text × List (Part δ))) (around : List Text) :
    List PlacedElement :=
  match ts with
  | [] => []
  | (_, ps) :: ts => Part.placedAll ps around ++ Part.placedTemplates ts around
termination_by structural ts

def Part.placedDefined (templates : Option (List (Text × List (Part δ)))) (around : List Text) :
    List PlacedElement :=
  match templates with
  | none => []
  | some ts => Part.placedTemplates ts around
termination_by structural templates

end

variable {P : PlacedElement → Prop} {around : List Text}

namespace Part

theorem placedAll_push (ps : Body δ) (p : Part δ) (around : List Text) :
    placedAll (push ps p) around = placedAll ps around ++ p.placed around := by
  fun_induction push ps p with
  | case1 p => simp [placedAll]
  | case2 s t => rfl
  | case3 q qs p _ ih => simp [placedAll, ih]

theorem mem_placedTemplates {ts : Dict (Body δ)} {e : PlacedElement} :
    e ∈ placedTemplates ts around ↔ ∃ d ∈ ts, e ∈ placedAll d.2 around := by
  induction ts with
  | nil => simp [placedTemplates]
  | cons d ts ih => simp [placedTemplates, ih]

/-- Every element of a body with these tags around it has the property. -/
def Fit (P : PlacedElement → Prop) (ps : Body δ) (around : List Text) : Prop :=
  ∀ e ∈ placedAll ps around, P e

theorem Fit.nil : Fit P ([] : Body δ) around := nofun

theorem Fit.push {ps : Body δ} {p : Part δ} (h : Fit P ps around)
    (hp : ∀ e ∈ p.placed around, P e) : Fit P (Part.push ps p) around := by
  intro e he
  rw [placedAll_push] at he
  exact (List.mem_append.1 he).elim (h e) (hp e)

theorem fit_element {head : ElementHead δ} {ps : Body δ} (hhead : P (head.placed around))
    (hps : Fit P ps (head.tag :: around)) : ∀ e ∈ (Part.element head ps).placed around, P e := by
  intro e he
  rcases List.mem_cons.1 he with rfl | he
  · exact hhead
  · exact hps e he

theorem fit_branch {expr : δ.Expr} {ps : Body δ} {i : Option (Body δ)} (hps : Fit P ps around)
    (hi : ∀ qs ∈ i, Fit P qs around) : ∀ e ∈ (Part.branch expr ps i).placed around, P e := by
  intro e he
  rcases List.mem_append.1 he with he | he
  · exact hps e he
  · cases i with
    | none => cases he
    | some qs => exact hi qs rfl e he

theorem fit_custom {head : ElementHead δ} {own : CustomTag δ} {body : Option (Body δ)}
    {templates : Option (Dict (Body δ))} (hhead : P (head.placed around))
    (hbody : ∀ ps ∈ body, Fit P ps (head.tag :: around))
    (htemplates : ∀ ts ∈ templates, ∀ d ∈ ts, Fit P d.2 (definitionTag :: head.tag :: around)) :
    ∀ e ∈ (Part.custom head own body templates).placed around, P e := by
  intro e he
  rcases List.mem_cons.1 he with rfl | he
  · exact hhead
  rcases List.mem_append.1 he with he | he
  · cases templates with
    | none => cases he
    | some ts =>
      obtain ⟨d, hd, he⟩ := mem_placedTemplates.1 he
      exact htemplates ts rfl d hd e he
  · cases body with
    | none => cases he
    | some ps => exact hbody ps rfl e he

end Part

namespace MarkupDraft

/-- Every element of a draft has the property, where it stands by the tags of the openings. -/
inductive Fit (P : PlacedElement → Prop) : MarkupDraft δ → List (Opening δ) → Prop
  | root {ps : Body δ} (hps : Part.Fit P ps []) : Fit P ⟨⟨ps, none, []⟩, []⟩ []
  | branch {d : MarkupDraft δ} {os : List (Opening δ)} (h : Fit P d os) {mode : Mode}
      (hmode : mode ≠ .inlineTemplate) (e : δ.Expr) (name : Text) {ps : Body δ}
      {i : Option (Body δ)} (hps : Part.Fit P ps (os.filterMap Opening.tag?))
      (hi : ∀ qs ∈ i, Part.Fit P qs (os.filterMap Opening.tag?)) :
      Fit P (d.withSection (.branch mode e) ps i) (.marker name :: os)
  | inlineTemplate {d : MarkupDraft δ} {os : List (Opening δ)} (h : Fit P d os)
      (template name : Text) {ps : Body δ} (hps : Part.Fit P ps (os.filterMap Opening.tag?)) :
      Fit P (d.withSection (.inlineTemplate template) ps none) (.marker name :: os)
  | element {d : MarkupDraft δ} {os : List (Opening δ)} (h : Fit P d os) {head : ElementHead δ}
      (hhead : P (head.placed (os.filterMap Opening.tag?))) {ps : Body δ}
      (hps : Part.Fit P ps (head.tag :: os.filterMap Opening.tag?)) :
      Fit P (d.withElement ⟨head, ps⟩) (.element head.tag :: os)
  | custom {d : MarkupDraft δ} {os : List (Opening δ)} (h : Fit P d os) {head : ElementHead δ}
      (hhead : P (head.placed (os.filterMap Opening.tag?))) (handler : δ.TagHandler)
      (nested : Bool) {templates : Dict (Body δ)}
      (htemplates : ∀ t ∈ templates,
        Part.Fit P t.2 (definitionTag :: head.tag :: os.filterMap Opening.tag?)) {ps : Body δ}
      (hps : Part.Fit P ps (head.tag :: os.filterMap Opening.tag?)) :
      Fit P ((d.withElement ⟨head, []⟩).withSection .custom ps none)
        (.custom head.tag handler nested templates :: os)

namespace Fit

variable {d d' : MarkupDraft δ} {os : List (Opening δ)}

theorem add (h : Fit P d os) {p : Part δ}
    (hp : ∀ e ∈ p.placed (os.filterMap Opening.tag?), P e) : Fit P (d.add p) os := by
  cases h with
  | root hps => exact .root (hps.push hp)
  | @branch _ _ h _ hmode e name _ i hps hi =>
    cases i with
    | none => exact .branch h hmode e name (hps.push hp) hi
    | some qs =>
      refine .branch h hmode e name hps fun rs hrs => ?_
      cases hrs
      exact (hi qs rfl).push hp
  | inlineTemplate h template name hps => exact .inlineTemplate h template name (hps.push hp)
  | element h hhead hps =>
    rw [add_withElement]
    exact .element h hhead (hps.push hp)
  | custom h hhead handler nested htemplates hps =>
    exact .custom h hhead handler nested htemplates (hps.push hp)

theorem addText (h : Fit P d os) (t : Text) : Fit P (d.addText t) os := by
  unfold MarkupDraft.addText
  split
  · exact h
  · exact h.add fun _ he => by cases he

theorem turn (h : Fit P d os) (hd : d.turn = .ok d') : Fit P d' os := by
  cases h with
  | root | inlineTemplate | custom => cases hd
  | @branch _ _ h _ hmode e name _ i hps hi =>
    cases hd
    refine .branch h hmode e name hps fun qs hqs => ?_
    cases hqs
    cases i with
    | none => exact .nil
    | some rs => exact hi rs rfl
  | @element d _ _ head _ ps =>
    obtain ⟨code, herror⟩ := d.turn_withElement ⟨head, ps⟩
    rw [herror] at hd
    cases hd

theorem exists_element {tag : Text} (h : Fit P d (.element tag :: os)) :
    ∃ d' head ps, d = d'.withElement ⟨head, ps⟩ ∧ head.tag = tag ∧ Fit P d' os ∧
      P (head.placed (os.filterMap Opening.tag?)) ∧
      Part.Fit P ps (tag :: os.filterMap Opening.tag?) := by
  cases h with
  | element h hhead hps => exact ⟨_, _, _, rfl, rfl, h, hhead, hps⟩

section

variable {tag : Text} {handler : δ.TagHandler} {nested : Bool} {templates : Dict (Body δ)}

theorem exists_custom (h : Fit P d (.custom tag handler nested templates :: os)) :
    ∃ d' head ps, d = (d'.withElement ⟨head, []⟩).withSection .custom ps none ∧ head.tag = tag ∧
      Fit P d' os ∧ P (head.placed (os.filterMap Opening.tag?)) ∧
      (∀ t ∈ templates, Part.Fit P t.2 (definitionTag :: tag :: os.filterMap Opening.tag?)) ∧
      Part.Fit P ps (tag :: os.filterMap Opening.tag?) := by
  cases h with
  | custom h hhead _ _ htemplates hps => exact ⟨_, _, _, rfl, rfl, h, hhead, htemplates, hps⟩

theorem insert (h : Fit P d (.custom tag handler nested templates :: os)) (name : Text)
    {body : Body δ}
    (hbody : Part.Fit P body (definitionTag :: tag :: os.filterMap Opening.tag?)) :
    Fit P d (.custom tag handler nested (templates.insert name body) :: os) := by
  cases h with
  | custom h hhead _ _ htemplates hps =>
    refine .custom h hhead handler nested (fun t ht => ?_) hps
    rcases Dict.mem_insert ht with ht | rfl
    · exact htemplates t ht
    · exact hbody

end

theorem finish {body : Body δ} (h : Fit P d os) (hd : d.finish = .ok body) :
    Part.Fit P body [] := by
  cases h with
  | root hps =>
    cases hd
    exact hps
  | @element d _ _ head _ ps =>
    rw [d.finish_withElement] at hd
    cases hd
  | branch | inlineTemplate | custom => cases hd

end Fit

end MarkupDraft

def Change.Fit (P : PlacedElement → Prop) (os : List (Opening δ)) (d : MarkupDraft δ) :
    Change δ → Prop
  | .none => d.Fit P os
  | .opened _ => ∀ name, d.Fit P (.marker name :: os)
  | .closed definition => ∃ name rest, os = .marker name :: rest ∧ d.Fit P rest ∧
      ∀ t ∈ definition, Part.Fit P t.2 (rest.filterMap Opening.tag?)

namespace MarkupDraft.Fit

variable {d d' : MarkupDraft δ} {os : List (Opening δ)}

theorem close (h : d.Fit P os) {expression : Text} {line : Nat} {change : Change δ}
    (hd : Draft.close d expression line = .ok (d', change)) : change.Fit P os d' := by
  cases h with
  | root | custom => cases hd
  | branch h hmode e name hps hi =>
    rw [close_withSection hmode] at hd
    cases hd
    exact ⟨name, _, rfl, h.add (Part.fit_branch hps hi), by simp⟩
  | inlineTemplate h template name hps =>
    rw [close_withInline] at hd
    cases hd
    refine ⟨name, _, rfl, h, fun t ht => ?_⟩
    cases ht
    exact hps
  | @element d _ _ head _ ps =>
    obtain ⟨error, herror⟩ := d.close_withElement ⟨head, ps⟩ expression line
    rw [herror] at hd
    cases hd

theorem apply (h : d.Fit P os) {l : Language δ} {site : Site} {mode : Mode} {expression : Text}
    {change : Change δ} (hd : Draft.apply l site d mode expression = .ok (d', change)) :
    change.Fit P os d' := by
  cases mode with
  | escaped | unescaped =>
    obtain ⟨e, -, hd⟩ := exists_of_bind_ok hd
    cases hd
    exact h.add fun _ he => by cases he
  | branch | inverse =>
    obtain ⟨e, -, hd⟩ := exists_of_bind_ok hd
    cases hd
    exact fun name => .branch h (by decide) e name .nil (by simp)
  | inlineTemplate =>
    cases hd
    exact fun name => .inlineTemplate h expression name .nil
  | close => exact h.close hd
  | call =>
    simp only [Draft.apply] at hd
    split at hd
    · cases hd
    · split at hd
      · cases hd
        exact h.add fun _ he => by cases he
      · obtain ⟨e, -, hd⟩ := exists_of_bind_ok hd
        cases hd
        exact h.add fun _ he => by cases he
  | comment =>
    cases hd
    exact h

end MarkupDraft.Fit

end Stencil
