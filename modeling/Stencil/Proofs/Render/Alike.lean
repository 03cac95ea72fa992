import Stencil.Proofs.Expression.Line
import Stencil.Proofs.Render.History
import Stencil.Proofs.Render.Strategies
import Stencil.Proofs.Template.Buffered

/-!
Renders that go alike. Two states are alike if they hold related views under the same names and
agree on all but the line of the handler that ran last. Two actions are alike if from states alike
they come to related results, or the same failure, in states alike. What takes no notice of which
of two related views it has, and of the line, keeps states alike: expressions that do not ask for
the line, and handlers that are blind to what they are handed, whatever relates the views.
-/

set_option autoImplicit false

namespace Stencil

variable {δ : Dialect} {α β γ η : Type}

def Body.Rel (r : View δ → View δ → Prop) (b b' : Body δ) : Prop :=
  ∀ serial name, r (.inline serial name b) (.inline serial name b')

/-- The same names, with related views, and the same surroundings but for the line. Views that are
loaded later are the same in both, so each must be related to itself. -/
structure RenderState.Alike (sem : Semantics δ) (r : View δ → View δ → Prop)
    (s s' : RenderState δ) : Prop where
  partials : Dict.Rel r s.context.partials s'.context.partials
  view : Option.Rel r s.context.view s'.context.view
  filename : s'.context.around.filename = s.context.around.filename
  vars : s'.context.around.vars = s.context.around.vars
  entries : Dict.Rel r s.library.entries s'.library.entries
  source : s'.library.source = s.library.source
  next : s'.library.next = s.library.next
  loads : ∀ source ∈ s.library.source, ∀ {id text : Text}, source id = some text →
    ∀ {serial filename v}, sem.load serial filename text = .ok v → r v v

/-- From states alike two actions come to related results, or the same failure, in states alike. -/
def RenderM.Alike (sem : Semantics δ) (r : View δ → View δ → Prop) (q : α → β → Prop)
    (x : RenderM δ α) (y : RenderM δ β) : Prop :=
  ∀ s s', RenderState.Alike sem r s s' →
    SameOutcome q (x s).1 (y s').1 ∧ RenderState.Alike sem r (x s).2 (y s').2

namespace RenderM.Alike

variable {sem : Semantics δ} {r : View δ → View δ → Prop} {p : α → β → Prop} {q : γ → η → Prop}

theorem pure {a : α} {b : β} (h : p a b) :
    Alike sem r p (Pure.pure a : RenderM δ α) (Pure.pure b) := fun _ _ hs => ⟨.ok h, hs⟩

theorem fail (e : RenderError) : Alike sem r p (RenderM.fail e) (RenderM.fail e) :=
  fun _ _ hs => ⟨.error _, hs⟩

theorem lift (x : Except RenderError α) : Alike sem r Eq (RenderM.lift x) (RenderM.lift x) := by
  cases x with
  | ok a => exact pure rfl
  | error e => exact fail e

theorem bind {x : RenderM δ α} {y : RenderM δ β} {f : α → RenderM δ γ} {g : β → RenderM δ η}
    (h : Alike sem r p x y) (hfg : ∀ a b, p a b → Alike sem r q (f a) (g b)) :
    Alike sem r q (x >>= f) (y >>= g) := by
  intro s s' hs
  have hxy := h s s' hs
  rw [RenderM.bind_apply, RenderM.bind_apply]
  generalize x s = out, y s' = out' at hxy
  obtain ⟨result, t⟩ := out
  obtain ⟨result', t'⟩ := out'
  obtain ⟨hresult, ht⟩ := hxy
  simp only at hresult ht
  cases hresult with
  | ok hab => exact hfg _ _ hab t t' ht
  | error e => exact ⟨.error e, ht⟩

theorem then_eq {x y : RenderM δ α} {f : α → RenderM δ γ} {g : α → RenderM δ η}
    (h : Alike sem r Eq x y) (hfg : ∀ a, Alike sem r q (f a) (g a)) :
    Alike sem r q (x >>= f) (y >>= g) :=
  h.bind fun a b hab => by
    subst hab
    exact hfg a

theorem mapM {f g : Scope → RenderM δ α} (h : ∀ scope, Alike sem r Eq (f scope) (g scope))
    (scopes : List Scope) : Alike sem r Eq (scopes.mapM f) (scopes.mapM g) := by
  induction scopes with
  | nil => exact pure rfl
  | cons scope scopes ih =>
    rw [List.mapM_cons, List.mapM_cons]
    exact (h scope).then_eq fun a => ih.then_eq fun as => pure rfl

theorem branch {x y : RenderM δ Branch} (h : Alike sem r Eq x y) {f g : Scope → RenderM δ (List α)}
    {i j : RenderM δ (List α)} (hprimary : ∀ inner, Alike sem r Eq (f inner) (g inner))
    (hinverse : Alike sem r Eq i j) :
    Alike sem r Eq
      (do
        match ← x with
        | .primary scopes => return (← scopes.mapM f).flatten
        | .inverse => i)
      (do
        match ← y with
        | .primary scopes => return (← scopes.mapM g).flatten
        | .inverse => j) := by
  refine h.then_eq fun branch => ?_
  cases branch with
  | primary scopes => exact (mapM hprimary scopes).then_eq fun xs => pure rfl
  | inverse => exact hinverse

theorem modifyContext {f g : Context δ → Context δ}
    (h : ∀ s s' : RenderState δ, s.Alike sem r s' →
      RenderState.Alike sem r { s with context := f s.context }
        { s' with context := g s'.context }) :
    Alike sem r Eq (RenderM.modifyContext f) (RenderM.modifyContext g) :=
  fun s s' hs => ⟨.ok rfl, h s s' hs⟩

end RenderM.Alike

/-- The expression does not ask for the line. -/
def Semantics.Quiet (sem : Semantics δ) (e : δ.Expr) : Prop :=
  ∀ scope around lineNumber,
    sem.value e scope { around with lineNumber } = sem.value e scope around ∧
      sem.branch e scope { around with lineNumber } = sem.branch e scope around

namespace RenderState.Alike

variable {sem : Semantics δ} {r : View δ → View δ → Prop} {s s' : RenderState δ}

theorem around_eq (h : s.Alike sem r s') :
    s'.context.around =
      { s.context.around with lineNumber := s'.context.around.lineNumber } := by
  have hfilename := h.filename
  have hvars := h.vars
  generalize s'.context.around = around' at hfilename hvars ⊢
  obtain ⟨filename, lineNumber, vars⟩ := around'
  cases hfilename
  cases hvars
  rfl

theorem setLine (h : s.Alike sem r s') (line line' : Nat) :
    RenderState.Alike sem r { s with context := s.context.setLine line }
      { s' with context := s'.context.setLine line' } :=
  ⟨h.partials, h.view, h.filename, h.vars, h.entries, h.source, h.next, h.loads⟩

theorem setLine_right (h : s.Alike sem r s') (line : Nat) :
    RenderState.Alike sem r s { s' with context := s'.context.setLine line } :=
  ⟨h.partials, h.view, h.filename, h.vars, h.entries, h.source, h.next, h.loads⟩

theorem define (h : s.Alike sem r s') {partials partials' : Dict (View δ)}
    (hpartials : Dict.Rel r partials partials') :
    RenderState.Alike sem r { s with context := s.context.define partials }
      { s' with context := s'.context.define partials' } := by
  refine ⟨?_, h.view, h.filename, h.vars, h.entries, h.source, h.next, h.loads⟩
  have hcontext := h.partials
  simp only [Context.define]
  generalize s.context.partials = d, s'.context.partials = d' at hcontext ⊢
  induction hpartials generalizing d d' with
  | nil => exact hcontext
  | @cons x y xs ys hxy hs ih =>
    obtain ⟨n, v⟩ := x
    obtain ⟨m, w⟩ := y
    obtain ⟨rfl, hvw⟩ := hxy
    exact ih _ _ (hcontext.insert n hvw)

theorem get (h : s.Alike sem r s') (name : Text) :
    SameOutcome (fun x y => Option.Rel r x.1 y.1 ∧
        RenderState.Alike sem r { s with library := x.2 } { s' with library := y.2 })
      (s.library.get sem.load name) (s'.library.get sem.load name) := by
  have hentry := h.entries.find? name
  unfold Library.get
  rw [h.source]
  generalize s.library.entries.find? name = found, s'.library.entries.find? name = found'
    at hentry
  cases hentry with
  | some hv => exact .ok ⟨.some hv, h⟩
  | none =>
    cases hsource : s.library.source with
    | none => exact .ok ⟨.none, h⟩
    | some source =>
      cases htext : source name with
      | none =>
        simp only [Option.bind_some, htext]
        exact .ok ⟨.none, h⟩
      | some text =>
        simp only [Option.bind_some, htext, Library.compile, h.next]
        cases hload : sem.load s.library.next (some (Library.sourceName name)) text with
        | error e => exact .error e
        | ok v =>
          have hv := h.loads source hsource htext hload
          refine .ok ⟨.some hv, ?_⟩
          exact ⟨h.partials, h.view, h.filename, h.vars, h.entries.insert name hv, h.source, rfl,
            h.loads⟩

end RenderState.Alike

section

variable {sem : Semantics δ} {r : View δ → View δ → Prop}

theorem RenderM.Alike.within {x y : RenderM δ α} (h : Alike sem r Eq x y)
    {view view' : Option (View δ)} (hview : Option.Rel r view view') (filename : Option Text) :
    Alike sem r Eq (RenderM.within view filename x) (RenderM.within view' filename y) := by
  intro s s' hs
  have hinner : RenderState.Alike sem r
      { s with context := { s.context with view }.setFilename filename }
      { s' with context := { s'.context with view := view' }.setFilename filename } :=
    ⟨hs.partials, hview, rfl, hs.vars, hs.entries, hs.source, hs.next, hs.loads⟩
  obtain ⟨hresult, ht⟩ := h _ _ hinner
  exact ⟨hresult, ht.partials, hs.view, hs.filename, ht.vars, ht.entries, ht.source, ht.next,
    ht.loads⟩

theorem RenderM.Alike.around {q : α → α → Prop} {f : Surroundings → RenderM δ α}
    (hline : ∀ around lineNumber, f { around with lineNumber } = f around)
    (h : ∀ around, Alike sem r q (f around) (f around)) :
    Alike sem r q (RenderM.around >>= f) (RenderM.around >>= f) := by
  intro s s' hs
  have hsame : f s'.context.around = f s.context.around := by rw [hs.around_eq, hline]
  change SameOutcome q (f s.context.around s).1 (f s'.context.around s').1 ∧
    RenderState.Alike sem r (f s.context.around s).2 (f s'.context.around s').2
  rw [hsame]
  exact h _ s s' hs

theorem alike_valueIn {e : δ.Expr} (he : sem.Quiet e) (scope : Scope) :
    RenderM.Alike sem r Eq (sem.valueIn e scope) (sem.valueIn e scope) :=
  .around (fun around line => by rw [(he scope around line).1]) fun _ => .lift _

theorem alike_branchIn {e : δ.Expr} (he : sem.Quiet e) (scope : Scope) :
    RenderM.Alike sem r Eq (sem.branchIn e scope) (sem.branchIn e scope) :=
  .around (fun around line => by rw [(he scope around line).2]) fun _ => .lift _

theorem alike_textIn {e : δ.Expr} (he : sem.Quiet e) (scope : Scope) :
    RenderM.Alike sem r Eq (sem.textIn e scope) (sem.textIn e scope) := by
  simp only [Semantics.textIn, map_eq_pure_bind]
  exact (alike_valueIn he scope).then_eq fun v => .pure rfl

def Caller.Alike (sem : Semantics δ) (r : View δ → View δ → Prop) (call : Caller δ) : Prop :=
  ∀ v v', r v v' → ∀ scope, RenderM.Alike sem r Eq (call v scope) (call v' scope)

namespace PartialCall

theorem alike_find? (name : Text) :
    RenderM.Alike sem r (Option.Rel r) (find? sem name) (find? sem name) := by
  intro s s' hs
  rw [find?_apply, find?_apply]
  have hfound := hs.partials.find? name
  generalize s.context.partials.find? name = found, s'.context.partials.find? name = found'
    at hfound
  cases hfound with
  | some hv => exact ⟨.ok (.some hv), hs⟩
  | none =>
    have hget := hs.get name
    generalize s.library.get sem.load name = x, s'.library.get sem.load name = y at hget
    cases hget with
    | error e => exact ⟨.error _, hs⟩
    | ok h => exact ⟨.ok h.1, h.2⟩

theorem get_line (scope : Scope) (around : Surroundings) (lineNumber : Nat) (name : Text) :
    scope.get { around with lineNumber } name = scope.get around name ∨
      ∃ m n, scope.get { around with lineNumber } name = some (.ofNat m) ∧
        scope.get around name = some (.ofNat n) := by
  by_cases hname : Text.trim name = "scope.lineNumber"
  · refine .inr ⟨lineNumber, around.lineNumber, ?_⟩
    simp only [Scope.get, hname]
    exact ⟨rfl, rfl⟩
  · exact .inl (Scope.get_line hname scope around lineNumber)

theorem alike_resolve (c : PartialCall δ) (scope : Scope) :
    RenderM.Alike sem r r (c.resolve sem scope) (c.resolve sem scope) := by
  unfold resolve
  split
  · have hcontext : RenderM.Alike sem r (fun c c' : Context δ => Option.Rel r c.view c'.view)
        RenderM.context RenderM.context := fun s s' hs => ⟨.ok hs.view, hs⟩
    refine hcontext.bind fun x y hview => ?_
    generalize x.view = view, y.view = view' at hview
    cases hview with
    | some hv => exact .pure hv
    | none => exact .fail _
  · refine (alike_find? c.name).bind fun x y hxy => ?_
    cases hxy with
    | some hv => exact .pure hv
    | none =>
      refine .around (fun around line => ?_) fun around => ?_
      · rcases get_line scope around line c.name with h | ⟨m, n, h, h'⟩
        · rw [h]
        · rw [h, h']
          rfl
      · split
        · refine (alike_find? _).bind fun x y hxy => ?_
          cases hxy with
          | none => exact .fail _
          | some hv => exact .pure hv
        · exact .fail _

theorem alike_render {call : Caller δ} (hcall : call.Alike sem r) {c : PartialCall δ}
    (hc : ∀ e ∈ c.context, sem.Quiet e) (scope : Scope) :
    RenderM.Alike sem r Eq (c.render sem call scope) (c.render sem call scope) := by
  have hscope : RenderM.Alike sem r Eq (c.scopeIn sem scope) (c.scopeIn sem scope) := by
    unfold scopeIn
    split
    next => exact .pure rfl
    next e he =>
      rw [map_eq_pure_bind]
      exact (alike_valueIn (hc e he) scope).then_eq fun v => .pure rfl
  exact (alike_resolve c scope).bind fun v v' hv => hscope.then_eq fun inner => hcall v v' hv inner

end PartialCall

mutual

def TextPart.exprs (p : TextPart δ) : List δ.Expr :=
  match p with
  | .static _ => []
  | .value e _ => [e]
  | .branch e primary none => e :: TextPart.exprsAll primary
  | .branch e primary (some inverse) =>
    e :: TextPart.exprsAll primary ++ TextPart.exprsAll inverse
  | .call c => c.context.toList
termination_by structural p

def TextPart.exprsAll (ps : List (TextPart δ)) : List δ.Expr :=
  match ps with
  | [] => []
  | p :: ps => p.exprs ++ TextPart.exprsAll ps
termination_by structural ps

end

section

variable {call : Caller δ}

mutual

theorem TextPart.alike_render (hcall : call.Alike sem r) (p : TextPart δ)
    (hp : ∀ e ∈ p.exprs, sem.Quiet e) (scope : Scope) :
    RenderM.Alike sem r Eq (p.render sem call scope) (p.render sem call scope) := by
  match p with
  | .static text => exact .pure rfl
  | .value e quoted =>
    exact (alike_textIn (hp e (by simp [TextPart.exprs])) scope).then_eq fun text => .pure rfl
  | .branch e primary none =>
    simp only [TextPart.exprs, List.forall_mem_cons] at hp
    exact (alike_branchIn hp.1 scope).branch (TextPart.alike_renderAll hcall primary hp.2)
      (.pure rfl)
  | .branch e primary (some inverse) =>
    simp only [TextPart.exprs, List.cons_append, List.forall_mem_cons, List.forall_mem_append]
      at hp
    exact (alike_branchIn hp.1 scope).branch (TextPart.alike_renderAll hcall primary hp.2.1)
      (TextPart.alike_renderAll hcall inverse hp.2.2 scope)
  | .call c =>
    have hc : ∀ e ∈ c.context, sem.Quiet e := fun e he => hp e (Option.mem_toList.2 he)
    exact (c.alike_render hcall hc scope).then_eq fun nodes => .pure rfl
termination_by structural p

theorem TextPart.alike_renderAll (hcall : call.Alike sem r) (ps : List (TextPart δ))
    (hps : ∀ e ∈ TextPart.exprsAll ps, sem.Quiet e) (scope : Scope) :
    RenderM.Alike sem r Eq (TextPart.renderAll sem call ps scope)
      (TextPart.renderAll sem call ps scope) := by
  match ps with
  | [] => exact .pure rfl
  | p :: ps =>
    simp only [TextPart.exprsAll, List.forall_mem_append] at hps
    exact (TextPart.alike_render hcall p hps.1 scope).then_eq fun text =>
      (TextPart.alike_renderAll hcall ps hps.2 scope).then_eq fun texts => .pure rfl
termination_by structural ps

end

end

end

inductive Use (δ : Dialect) where
  | expr (e : δ.Expr)
  | tag (handler : δ.TagHandler)
  | attr (handler : δ.AttrHandler)

def AttrTemplate.uses (a : AttrTemplate δ) : List (Use δ) :=
  match a.value with
  | .static _ => []
  | .dynamic parts => (TextPart.exprsAll parts).map .expr

def Hook.uses : Hook δ → List (Use δ)
  | .attribute handler _ _ => [.attr handler]
  | .tagText parts => (TextPart.exprsAll parts).map .expr

def ElementHead.uses (h : ElementHead δ) : List (Use δ) :=
  h.attrs.flatMap AttrTemplate.uses ++ h.hooks.flatMap Hook.uses

mutual

/-- The expressions and the handlers of a part, those of the templates in it included. -/
def Part.uses (p : Part δ) : List (Use δ) :=
  match p with
  | .text _ | .comment _ => []
  | .value e _ => [.expr e]
  | .branch e primary inverse => .expr e :: Part.usesAll primary ++ Part.usesOption inverse
  | .call c => c.context.toList.map .expr
  | .textBlock parts => (TextPart.exprsAll parts).map .expr
  | .element head children => head.uses ++ Part.usesAll children
  | .custom head own body templates =>
    .tag own.handler :: head.uses ++ Part.usesOption body ++ Part.usesDefined templates
termination_by structural p

def Part.usesAll (ps : Body δ) : List (Use δ) :=
  match ps with
  | [] => []
  | p :: ps => p.uses ++ Part.usesAll ps
termination_by structural ps

def Part.usesOption (b : Option (List (Part δ))) : List (Use δ) :=
  match b with
  | none => []
  | some ps => Part.usesAll ps
termination_by structural b

def Part.usesTemplates (ts : List (Text × List (Part δ))) : List (Use δ) :=
  match ts with
  | [] => []
  | (_, ps) :: ts => Part.usesAll ps ++ Part.usesTemplates ts
termination_by structural ts

def Part.usesDefined (templates : Option (List (Text × List (Part δ)))) : List (Use δ) :=
  match templates with
  | none => []
  | some ts => Part.usesTemplates ts
termination_by structural templates

end

def View.uses : View δ → List (Use δ)
  | .template _ body partials _ => Part.usesAll body ++ Part.usesTemplates partials
  | .inline _ _ body => Part.usesAll body

/-- Two calls of a handler on the same element: what they hand over is related, and so is what
comes of rendering related bodies. Only one thing may differ openly. -/
structure TagCall.Alike (sem : Semantics δ) (r : View δ → View δ → Prop) (c c' : TagCall δ) :
    Prop where
  tag : c'.tag = c.tag
  scope : c'.scope = c.scope
  templateType : c'.templateType = c.templateType
  body : Option.Rel (Body.Rel r) c.body c'.body
  templates : Option.Rel (Dict.Rel (Body.Rel r)) c.templates c'.templates
  render : ∀ b b', Body.Rel r b b' → ∀ scope,
    RenderM.Alike sem r Eq (c.render b scope) (c'.render b' scope)

/-- A use that shows neither which of two related views it has, nor the place that an element is
nested in, nor the line that content rendered on its behalf has left. -/
def Semantics.Blind (sem : Semantics δ) : Use δ → Prop
  | .expr e => sem.Quiet e
  | .tag handler => ∀ (r : View δ → View δ → Prop) (c c' : TagCall δ), c.Alike sem r c' →
      ∀ element (s s' : RenderState δ), s.Alike sem r s' →
        s'.context.around.lineNumber = s.context.around.lineNumber →
        SameOutcome Eq (sem.tag handler c element s).1 (sem.tag handler c' element s').1 ∧
          RenderState.Alike sem r (sem.tag handler c element s).2 (sem.tag handler c' element s').2
  | .attr handler => ∀ (r : View δ → View δ → Prop) call element (s s' : RenderState δ),
      s.Alike sem r s' → s'.context.around.lineNumber = s.context.around.lineNumber →
        SameOutcome Eq (sem.attr handler call element s).1 (sem.attr handler call element s').1 ∧
          RenderState.Alike sem r (sem.attr handler call element s).2
            (sem.attr handler call element s').2

section

variable {sem : Semantics δ} {r : View δ → View δ → Prop} {call : Caller δ}

theorem AttrTemplate.alike_applyAll (hcall : call.Alike sem r) (attrs : List (AttrTemplate δ))
    (hattrs : ∀ u ∈ attrs.flatMap AttrTemplate.uses, sem.Blind u) (scope : Scope)
    (element : Element) :
    RenderM.Alike sem r Eq (applyAll sem call attrs scope element)
      (applyAll sem call attrs scope element) := by
  induction attrs generalizing element with
  | nil => exact .pure rfl
  | cons a attrs ih =>
    rw [List.flatMap_cons, List.forall_mem_append] at hattrs
    simp only [applyAll]
    cases hvalue : a.value with
    | static value => exact RenderM.Alike.then_eq (.pure rfl) fun value => ih hattrs.2 _
    | dynamic parts =>
      have hparts := hattrs.1
      simp only [AttrTemplate.uses, hvalue, List.forall_mem_map] at hparts
      exact (TextPart.alike_renderAll hcall parts hparts scope).then_eq fun value => ih hattrs.2 _

theorem RenderM.Alike.atLine {x y : RenderM δ α} (line : Nat)
    (h : ∀ s s' : RenderState δ, s.Alike sem r s' →
      s'.context.around.lineNumber = s.context.around.lineNumber →
        SameOutcome Eq (x s).1 (y s').1 ∧ RenderState.Alike sem r (x s).2 (y s').2) :
    Alike sem r Eq (do RenderM.modifyContext (·.setLine line); x)
      (do RenderM.modifyContext (·.setLine line); y) :=
  fun _ _ hs => h _ _ (hs.setLine line line) rfl

theorem Hook.alike_apply (hcall : call.Alike sem r) (h : Hook δ) (hh : ∀ u ∈ h.uses, sem.Blind u)
    (scope : Scope) (element : Element) :
    RenderM.Alike sem r Eq (h.apply sem call scope element) (h.apply sem call scope element) := by
  match h with
  | .attribute handler name line =>
    have hblind := hh (.attr handler) (by simp [Hook.uses])
    exact .atLine line fun s s' => hblind r ⟨name, scope⟩ element s s'
  | .tagText parts =>
    simp only [Hook.uses, List.forall_mem_map] at hh
    exact (TextPart.alike_renderAll hcall parts hh scope).then_eq fun text => .pure rfl

theorem Hook.alike_applyAll (hcall : call.Alike sem r) (hooks : List (Hook δ))
    (hhooks : ∀ u ∈ hooks.flatMap Hook.uses, sem.Blind u) (scope : Scope) (element : Element) :
    RenderM.Alike sem r Eq (applyAll sem call hooks scope element)
      (applyAll sem call hooks scope element) := by
  induction hooks generalizing element with
  | nil => exact .pure rfl
  | cons h hooks ih =>
    rw [List.flatMap_cons, List.forall_mem_append] at hhooks
    exact (h.alike_apply hcall hhooks.1 scope element).then_eq fun e => ih hhooks.2 e

end

end Stencil
