import Mathlib.Data.List.Forall2
import Stencil.Proofs.Template.Draft
import Stencil.Render.Run

/-!
Markup and text written alike. A script of what markup and text both offer is carried out on a
draft of either kind: it stops at the same step with the same error, or both drafts can be
finished, and then the nodes of the markup hold just the text. The drafts stay in step section by
section, and what they hold corresponds part by part.
-/

set_option autoImplicit false

namespace Stencil

variable {δ : Dialect}

/-- What can be asked of a draft of either kind. -/
inductive DraftStep (δ : Dialect) where
  | text (t : Text)
  | value (e : δ.Expr) (escaped : Bool)
  | openBranch (mode : Mode) (e : δ.Expr)
  | turn
  | closeBranch

def DraftStep.apply {D : Type} [Draft δ D] (d : D) : DraftStep δ → Except ErrorCode D
  | .text t => .ok (Draft.addText d t)
  | .value e escaped => .ok (Draft.addValue d e escaped)
  | .openBranch mode e => .ok (Draft.openBranch d mode e)
  | .turn => Draft.turn d
  | .closeBranch => Draft.closeBranch d

/-- Takes the steps in order. An error comes with the steps that are left, the one at fault
first. -/
def Draft.takeSteps {D : Type} [Draft δ D] (d : D) :
    List (DraftStep δ) → Except (ErrorCode × List (DraftStep δ)) D
  | [] => .ok d
  | step :: steps =>
    match step.apply d with
    | .ok d => takeSteps d steps
    | .error code => .error (code, step :: steps)

/-- Both succeed, with results that are related, or both fail with the same error. -/
inductive SameOutcome {ε α β : Type} (r : α → β → Prop) : Except ε α → Except ε β → Prop
  | ok {a : α} {b : β} (h : r a b) : SameOutcome r (.ok a) (.ok b)
  | error (e : ε) : SameOutcome r (.error e) (.error e)

theorem SameOutcome.mono {ε α β : Type} {r r' : α → β → Prop} {x : Except ε α} {y : Except ε β}
    (h : SameOutcome r x y) (hr : ∀ a b, r a b → r' a b) : SameOutcome r' x y := by
  cases h with
  | ok h => exact .ok (hr _ _ h)
  | error e => exact .error e

def Node.literal? : Node → Option Text
  | .text content | .raw content => some content
  | .element _ _ _ _ | .comment _ => none

/-- The text of nodes that are all text or raw markup. -/
def Fragment.literal? (nodes : Fragment) : Option Text := List.flatten <$> nodes.mapM Node.literal?

theorem Fragment.literal?_append (xs ys : Fragment) :
    literal? (xs ++ ys) = do return (← literal? xs) ++ (← literal? ys) := by
  simp only [literal?, List.mapM_append]
  cases xs.mapM Node.literal? <;> cases ys.mapM Node.literal? <;> simp

mutual

inductive Part.Mirrors : Part δ → TextPart δ → Prop
  | text (t : Text) : Mirrors (.text t) (.static t)
  | value (e : δ.Expr) (escaped : Bool) : Mirrors (.value e escaped) (.value e false)
  | branch (e : δ.Expr) {ps : Body δ} {ts : List (TextPart δ)} (h : Part.MirrorsAll ps ts) :
      Mirrors (.branch e ps none) (.branch e ts none)
  | branchElse (e : δ.Expr) {ps qs : Body δ} {ts us : List (TextPart δ)}
      (h : Part.MirrorsAll ps ts) (g : Part.MirrorsAll qs us) :
      Mirrors (.branch e ps (some qs)) (.branch e ts (some us))

inductive Part.MirrorsAll : Body δ → List (TextPart δ) → Prop
  | nil : MirrorsAll [] []
  | cons {p : Part δ} {t : TextPart δ} {ps : Body δ} {ts : List (TextPart δ)}
      (h : Part.Mirrors p t) (hs : MirrorsAll ps ts) : MirrorsAll (p :: ps) (t :: ts)

end

theorem Part.MirrorsAll.push {ps : Body δ} {ts : List (TextPart δ)} {p : Part δ} {t : TextPart δ}
    (hs : MirrorsAll ps ts) (h : Mirrors p t) :
    MirrorsAll (Part.push ps p) (TextPart.push ts t) := by
  induction ps generalizing ts with
  | nil =>
    cases hs
    exact .cons h .nil
  | cons q qs ih =>
    cases hs with
    | cons hq hs =>
      have htail := ih hs
      cases hq with
      | text s =>
        cases hs with
        | nil =>
          cases h with
          | text u => exact .cons (.text _) .nil
          | value | branch | branchElse => exact .cons (.text s) htail
        | cons => exact .cons (.text s) htail
      | value e escaped => exact .cons (.value e escaped) htail
      | branch e hb => exact .cons (.branch e hb) htail
      | branchElse e hb hi => exact .cons (.branchElse e hb hi) htail

theorem Part.Mirrors.branch_rel (e : δ.Expr) {ps : Body δ} {ts : List (TextPart δ)}
    {i : Option (Body δ)} {j : Option (List (TextPart δ))} (h : MirrorsAll ps ts)
    (hi : Option.Rel MirrorsAll i j) : Mirrors (.branch e ps i) (.branch e ts j) := by
  cases hi with
  | none => exact .branch e h
  | some hi => exact .branchElse e h hi

structure Layer.Mirrors (l : Layer δ) (t : TextLayer δ) : Prop where
  elements : l.elements = []
  primary : Part.MirrorsAll l.primary t.primary
  inverse : Option.Rel Part.MirrorsAll l.inverse t.inverse

inductive Section.Mirrors : Section δ → TextSection δ → Prop
  | branch (mode : Mode) (e : δ.Expr) {l : Layer δ} {t : TextLayer δ} (h : l.Mirrors t) :
      Mirrors ⟨.branch mode e, l⟩ ⟨mode, e, t⟩

structure MarkupDraft.Mirrors (d : MarkupDraft δ) (t : TextDraft δ) : Prop where
  root : d.root.Mirrors t.root
  sections : List.Forall₂ Section.Mirrors d.sections t.sections
  quoteValues : t.quoteValues = false

theorem Layer.mirrors_empty : (empty : Layer δ).Mirrors .empty := ⟨rfl, .nil, .none⟩

theorem Layer.Mirrors.add {l : Layer δ} {t : TextLayer δ} (h : l.Mirrors t) {p : Part δ}
    {u : TextPart δ} (hp : p.Mirrors u) : (l.add p).Mirrors (t.add u) := by
  obtain ⟨primary, inverse, elements⟩ := l
  obtain ⟨primary', inverse'⟩ := t
  obtain ⟨rfl, hprimary, hinverse⟩ := h
  cases hinverse with
  | none => exact ⟨rfl, hprimary.push hp, .none⟩
  | some hi => exact ⟨rfl, hprimary, .some (hi.push hp)⟩

namespace MarkupDraft.Mirrors

theorem empty : (empty : MarkupDraft δ).Mirrors .empty := ⟨Layer.mirrors_empty, .nil, rfl⟩

variable {d : MarkupDraft δ} {t : TextDraft δ}

theorem add (h : d.Mirrors t) {p : Part δ} {u : TextPart δ} (hp : p.Mirrors u) :
    (d.add p).Mirrors (t.add u) := by
  obtain ⟨root, sections⟩ := d
  obtain ⟨root', sections', quoteValues⟩ := t
  obtain ⟨hroot, hsections, hquote⟩ := h
  cases hsections with
  | nil => exact ⟨hroot.add hp, .nil, hquote⟩
  | cons hs hss =>
    cases hs with
    | branch mode e hl => exact ⟨hroot, .cons (.branch mode e (hl.add hp)) hss, hquote⟩

theorem turn (h : d.Mirrors t) : SameOutcome MarkupDraft.Mirrors d.turn t.turn := by
  obtain ⟨root, sections⟩ := d
  obtain ⟨root', sections', quoteValues⟩ := t
  obtain ⟨hroot, hsections, hquote⟩ := h
  cases hsections with
  | nil => exact .error ErrorCode.strayElse
  | cons hs hss =>
    cases hs with
    | @branch mode e l l' hl =>
      obtain ⟨primary, inverse, elements⟩ := l
      obtain ⟨primary', inverse'⟩ := l'
      obtain ⟨rfl, hprimary, hinverse⟩ := hl
      refine .ok ⟨hroot, .cons (.branch mode e ⟨rfl, hprimary, .some ?_⟩) hss, hquote⟩
      cases hinverse with
      | none => exact .nil
      | some hi => exact hi

theorem closeBranch (h : d.Mirrors t) :
    SameOutcome MarkupDraft.Mirrors d.closeBranch t.closeBranch := by
  obtain ⟨root, sections⟩ := d
  obtain ⟨root', sections', quoteValues⟩ := t
  obtain ⟨hroot, hsections, hquote⟩ := h
  cases hsections with
  | nil => exact .error ErrorCode.unexpectedClose
  | cons hs hss =>
    cases hs with
    | @branch mode e l l' hl =>
      obtain ⟨primary, inverse, elements⟩ := l
      obtain ⟨rfl, hprimary, hinverse⟩ := hl
      refine .ok (add ?_ (.branch_rel e hprimary hinverse))
      exact ⟨hroot, hss, hquote⟩

theorem finish (h : d.Mirrors t) : SameOutcome Part.MirrorsAll d.finish t.finish := by
  obtain ⟨root, sections⟩ := d
  obtain ⟨root', sections', quoteValues⟩ := t
  obtain ⟨hroot, hsections, hquote⟩ := h
  cases hsections with
  | nil =>
    obtain ⟨primary, inverse, elements⟩ := root
    obtain ⟨rfl, hprimary, -⟩ := hroot
    exact .ok hprimary
  | cons => exact .error ErrorCode.unclosedSection

theorem step (h : d.Mirrors t) (s : DraftStep δ) :
    SameOutcome MarkupDraft.Mirrors (s.apply d) (s.apply t) := by
  cases s with
  | text u =>
    refine .ok ?_
    by_cases hu : u.isEmpty = true
    · simpa [Draft.addText, MarkupDraft.addText, TextDraft.addText, hu] using h
    · simpa [Draft.addText, MarkupDraft.addText, TextDraft.addText, hu] using h.add (.text u)
  | value e escaped =>
    have hvalue := h.add (.value e escaped)
    refine .ok ?_
    simpa [Draft.addValue, TextDraft.addValue, h.quoteValues] using hvalue
  | openBranch mode e =>
    exact .ok ⟨h.root, .cons (.branch mode e Layer.mirrors_empty) h.sections, h.quoteValues⟩
  | turn => exact h.turn
  | closeBranch => exact h.closeBranch

theorem takeSteps (h : d.Mirrors t) (steps : List (DraftStep δ)) :
    SameOutcome MarkupDraft.Mirrors (Draft.takeSteps d steps) (Draft.takeSteps t steps) := by
  induction steps generalizing d t with
  | nil => exact .ok h
  | cons s steps ih =>
    have hs := h.step s
    generalize hd : s.apply d = markup, ht : s.apply t = text at hs
    simp only [Draft.takeSteps, hd, ht]
    cases hs with
    | ok h => exact ih h
    | error code => exact .error (code, s :: steps)

end MarkupDraft.Mirrors

def HoldsText (m : RenderM δ Fragment) (t : RenderM δ Text) : Prop :=
  Fragment.literal? <$> m = some <$> t

namespace HoldsText

theorem pure {nodes : Fragment} {text : Text} (h : nodes.literal? = some text) :
    HoldsText (pure nodes : RenderM δ Fragment) (Pure.pure text) := by
  simp [HoldsText, h]

theorem bind {α : Type} (x : RenderM δ α) {m : α → RenderM δ Fragment} {t : α → RenderM δ Text}
    (h : ∀ a, HoldsText (m a) (t a)) : HoldsText (x >>= m) (x >>= t) := by
  unfold HoldsText at h ⊢
  simp only [map_bind, h]

theorem append {m n : RenderM δ Fragment} {t u : RenderM δ Text} (h : HoldsText m t)
    (g : HoldsText n u) :
    HoldsText (do return (← m) ++ (← n)) (do return (← t) ++ (← u)) := by
  unfold HoldsText at h g ⊢
  have hmap : ∀ (m n : RenderM δ Fragment),
      (Fragment.literal? <$> (do return (← m) ++ (← n)) : RenderM δ (Option Text)) = do
        let a ← Fragment.literal? <$> m
        let b ← Fragment.literal? <$> n
        return (do return (← a) ++ (← b)) := by
    intro m n
    simp only [map_eq_pure_bind, bind_assoc, pure_bind, Fragment.literal?_append]
  rw [hmap, h, g]
  simp

theorem mapM {m : Scope → RenderM δ Fragment} {t : Scope → RenderM δ Text}
    (h : ∀ scope, HoldsText (m scope) (t scope)) (scopes : List Scope) :
    HoldsText (do return (← scopes.mapM m).flatten) (do return (← scopes.mapM t).flatten) := by
  induction scopes with
  | nil => simpa using HoldsText.pure (by rfl)
  | cons scope scopes ih => simpa using (h scope).append ih

end HoldsText

section

variable (sem : Semantics δ) (call : Caller δ)

mutual

theorem Part.Mirrors.render {p : Part δ} {t : TextPart δ} (h : p.Mirrors t) (scope : Scope) :
    HoldsText (p.render sem call scope) (t.render sem call scope) := by
  match h with
  | .text t => exact .pure (by simp [Fragment.literal?, Node.literal?])
  | .value e escaped =>
    refine .bind _ fun text => .pure ?_
    by_cases htext : text.isEmpty = true <;> cases escaped <;>
      simp_all [Fragment.literal?, Node.literal?]
  | .branch e hb =>
    refine .bind _ fun b => ?_
    cases b with
    | primary scopes => exact .mapM (fun inner => hb.renderAll inner) scopes
    | inverse => exact .pure rfl
  | .branchElse e hb hi =>
    refine .bind _ fun b => ?_
    cases b with
    | primary scopes => exact .mapM (fun inner => hb.renderAll inner) scopes
    | inverse => exact hi.renderAll scope

theorem Part.MirrorsAll.renderAll {ps : Body δ} {ts : List (TextPart δ)}
    (h : Part.MirrorsAll ps ts) (scope : Scope) :
    HoldsText (Part.renderAll sem call ps scope) (TextPart.renderAll sem call ts scope) := by
  match h with
  | .nil => exact .pure rfl
  | .cons hp hs => exact (hp.render scope).append (hs.renderAll scope)

end

end

/-- What is written alike in markup and in text is rejected alike at the same step, left unclosed
alike, and renders to the same text or fails with the same error. -/
theorem takeSteps_render (steps : List (DraftStep δ)) :
    SameOutcome
      (fun markup text => SameOutcome
        (fun body parts => ∀ (sem : Semantics δ) (call : Caller δ) (scope : Scope),
          Fragment.literal? <$> Part.renderAll sem call body scope =
            some <$> TextPart.renderAll sem call parts scope)
        markup.finish text.finish)
      (Draft.takeSteps (.empty : MarkupDraft δ) steps)
      (Draft.takeSteps (.empty : TextDraft δ) steps) := by
  refine (MarkupDraft.Mirrors.empty.takeSteps steps).mono fun markup text h => ?_
  exact h.finish.mono fun body parts hparts sem call scope => hparts.renderAll sem call scope

end Stencil
