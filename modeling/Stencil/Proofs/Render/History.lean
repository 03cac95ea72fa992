import Stencil.Proofs.Render.Reading

/-!
What is seen while a view renders. The moments of a render are the contexts it stands in, the calls
that have found their view, and the whole templates it enters, each with the moments inside it. A
watched action is an action of the renderer together with its moments, which lead from the context
it starts in to the one it ends in, however it ends. The renderer is written again on watched
actions; without the moments it is the renderer.

What a handler does between its renders is its own affair, but it is known to leave some part of
the context as it is, so a handler is given as a script of its steps. A script is the handler only
if it is so for every way of rendering what the handler is handed: no render can hide in a step.
-/

set_option autoImplicit false

namespace Stencil

variable {δ : Dialect} {κ α β : Type}

/-- What is seen of a render at one time, or of a template while it renders. -/
inductive Moment (δ : Dialect) where
  | stand (c : Context δ)
  /-- a call has found its view, which is rendered next -/
  | call (c : PartialCall δ) (v : View δ)
  /-- a whole template is entered and left -/
  | template (v : View δ) (inside : List (Moment δ))

namespace Moment

mutual

/-- A moment and all that is seen inside it, in order. -/
def spread : Moment δ → List (Moment δ)
  | stand c => [stand c]
  | call c v => [call c v]
  | template v inside => template v inside :: spreadAll inside

def spreadAll : List (Moment δ) → List (Moment δ)
  | [] => []
  | m :: ms => m.spread ++ spreadAll ms

end

theorem spreadAll_singleton (m : Moment δ) : spreadAll [m] = m.spread :=
  List.append_nil m.spread

theorem spreadAll_append (ms ns : List (Moment δ)) :
    spreadAll (ms ++ ns) = spreadAll ms ++ spreadAll ns := by
  induction ms with
  | nil => rfl
  | cons m ms ih => simp only [List.cons_append, spreadAll, ih, List.append_assoc]

/-- What holds of every template that is entered, however deep, and of what is seen inside it. -/
def EachTemplate (P : View δ → List (Moment δ) → Prop) (ms : List (Moment δ)) : Prop :=
  ∀ v inside, template v inside ∈ spreadAll ms → P v inside

namespace EachTemplate

variable {P : View δ → List (Moment δ) → Prop}

theorem nil : EachTemplate P [] := fun v inside hv => by
  cases hv

theorem stand (c : Context δ) : EachTemplate P [.stand c] := fun v inside hv => by
  cases List.mem_singleton.1 hv

theorem call (c : PartialCall δ) (v : View δ) : EachTemplate P [.call c v] := fun u inside hu => by
  cases List.mem_singleton.1 hu

theorem template {v : View δ} {inside : List (Moment δ)} (h : P v inside)
    (h' : EachTemplate P inside) : EachTemplate P [.template v inside] := fun u within hu => by
  rw [spreadAll_singleton] at hu
  rcases List.mem_cons.1 hu with hu | hu
  · cases hu
    exact h
  · exact h' u within hu

theorem append {ms ns : List (Moment δ)} (h : EachTemplate P ms) (h' : EachTemplate P ns) :
    EachTemplate P (ms ++ ns) := fun v inside hv => by
  rw [spreadAll_append] at hv
  exact (List.mem_append.1 hv).elim (h v inside) (h' v inside)

end EachTemplate

end Moment

namespace Context

def enter (c : Context δ) (v : View δ) : Context δ :=
  { c.define v.partials with view := some v }.setFilename v.filename

def leave (c before : Context δ) : Context δ :=
  { c with view := before.view }.setFilename before.around.filename

def Finds (c : Context δ) (call : PartialCall δ) (v : View δ) : Prop :=
  if call.name = "scope.view" then c.view = some v
  else ∀ w, Dict.find? c.partials call.name = some w → v = w

/-- The moments lead from the one context to the other. What handlers do unseen leaves the part of
the context that is to be kept. -/
inductive Passes (keep : Context δ → κ) : Context δ → List (Moment δ) → Context δ → Prop
  | refl (c : Context δ) : Passes keep c [] c
  | stand (c : Context δ) : Passes keep c [.stand c] c
  | line (c : Context δ) (n : Nat) : Passes keep c [] (c.setLine n)
  | own {c d : Context δ} (h : keep d = keep c) : Passes keep c [] d
  | call {c : Context δ} {call : PartialCall δ} {v : View δ} (h : c.Finds call v) :
      Passes keep c [.call call v] c
  | template {c d : Context δ} {v : View δ} {inside : List (Moment δ)}
      (h : Passes keep (c.enter v) inside d) : Passes keep c [.template v inside] (d.leave c)
  | append {c d e : Context δ} {ms ns : List (Moment δ)} (h : Passes keep c ms d)
      (h' : Passes keep d ns e) : Passes keep c (ms ++ ns) e

theorem Passes.seen {keep : Context δ → κ} {c d : Context δ} (h : Passes keep c [] d) :
    Passes keep c [.stand c, .stand d] d :=
  .append (.stand c) (.append h (.stand d))

end Context

/-- An action with a view around it: a whole template is entered and left, an inline partial
belongs to the template that renders it. -/
def View.surround (v : View δ) (act : RenderM δ α) : RenderM δ α :=
  match v with
  | .inline _ _ _ => act
  | .template _ _ _ filename => do
    RenderM.modifyContext (·.define v.partials)
    RenderM.within (some v) filename act

theorem View.renderWithin_succ (sem : Semantics δ) (depth : Nat) (v : View δ) (scope : Scope) :
    v.renderWithin sem (depth + 1) scope =
      v.surround (Part.renderAll sem (renderWithin sem depth) v.body scope) := by
  cases v <;> rfl

theorem View.surround_template {serial : Nat} {body : Body δ} {partials : Dict (Body δ)}
    {filename : Option Text} {v : View δ} (h : v = .template serial body partials filename)
    (act : RenderM δ α) (s : RenderState δ) :
    v.surround act s =
      let out := act { s with context := s.context.enter v }
      (out.1, { out.2 with context := out.2.context.leave s.context }) := by
  subst h
  rfl

theorem View.render_eq_surround (sem : Semantics δ) (v : View δ) (scope : Scope) :
    v.render sem scope =
      v.surround (Part.renderAll sem (renderWithin sem (deepest - 1)) v.body scope) :=
  renderWithin_succ sem (deepest - 1) v scope

theorem View.render_template_apply (sem : Semantics δ) (serial : Nat) (body : Body δ)
    (partials : Dict (Body δ)) (filename : Option Text) (scope : Scope) (s : RenderState δ) :
    ((View.template serial body partials filename).render sem scope s).1 =
      (Part.renderAll sem (renderWithin sem (deepest - 1)) body scope
        { s with context := s.context.enter (.template serial body partials filename) }).1 := by
  rw [View.render_eq_surround, View.surround_template rfl]
  rfl

theorem RenderM.bind_apply (m : RenderM δ α) (f : α → RenderM δ β) (s : RenderState δ) :
    (m >>= f) s =
      match m s with
      | (.ok a, t) => f a t
      | (.error e, t) => (.error e, t) := by
  change ExceptT.bindCont f (m s).1 (m s).2 = _
  rcases m s with ⟨_ | _, _⟩ <;> rfl

namespace PartialCall

variable (sem : Semantics δ)

theorem find?_apply (name : Text) (s : RenderState δ) :
    find? sem name s =
      match Dict.find? s.context.partials name with
      | some v => (.ok (some v), s)
      | none =>
        match s.library.get sem.load name with
        | .ok (v, library) => (.ok v, { s with library })
        | .error cause => (.error (.error (.partialCompile name cause)), s) := by
  rw [find?, RenderM.bind_apply]
  change (match Dict.find? s.context.partials name with
    | some v => _
    | none => _ : RenderM δ (Option (View δ))) s = _
  cases Dict.find? s.context.partials name with
  | some v => rfl
  | none =>
    dsimp only
    rcases s.library.get sem.load name with _ | ⟨_, _⟩ <;> rfl

theorem find?_context (name : Text) (s : RenderState δ) :
    (find? sem name s).2.context = s.context := by
  rw [find?_apply]
  split
  · rfl
  · split <;> rfl

theorem resolveInScope_context (name : Text) (scope : Scope) (e : RenderError)
    (s : RenderState δ) :
    ((do
      match scope.get (← RenderM.around) name with
      | some (.str other) =>
        match ← find? sem other with
        | some v => return v
        | none => RenderM.fail e
      | _ => RenderM.fail e : RenderM δ (View δ)) s).2.context = s.context := by
  rw [RenderM.bind_apply]
  change ((match scope.get s.context.around name with
    | some (.str other) => _
    | _ => _ : RenderM δ (View δ)) s).2.context = _
  rcases scope.get s.context.around name with _ | v
  · rfl
  · cases v with
    | str other =>
      have hf := find?_context sem other s
      dsimp only
      rw [RenderM.bind_apply]
      generalize find? sem other s = found at hf ⊢
      rcases found with ⟨_ | _ | _, t⟩ <;> exact hf
    | _ => rfl

theorem resolve_finds (c : PartialCall δ) (scope : Scope) (s : RenderState δ) :
    (c.resolve sem scope s).2.context = s.context ∧
      ∀ v, (c.resolve sem scope s).1 = .ok v → s.context.Finds c v := by
  by_cases h : c.name = "scope.view"
  · have hr : c.resolve sem scope s =
        ((match s.context.view with
          | some v => .ok v
          | none => .error (.error (.missingPartial c.name))), s) := by
      rw [resolve, if_pos h, RenderM.bind_apply]
      change (match s.context.view with
        | some v => _
        | none => _ : RenderM δ (View δ)) s = _
      cases s.context.view <;> rfl
    simp only [hr, Context.Finds, if_pos h]
    refine ⟨trivial, fun v hv => ?_⟩
    cases hview : s.context.view with
    | none => rw [hview] at hv; cases hv
    | some w => rw [hview] at hv; cases hv; rfl
  · simp only [resolve, if_neg h, Context.Finds, RenderM.bind_apply]
    have hf := find?_apply sem c.name s
    have hc := find?_context sem c.name s
    cases htable : Dict.find? s.context.partials c.name with
    | some w =>
      rw [htable] at hf
      rw [hf]
      exact ⟨rfl, fun v hv u hu => by cases hv; cases hu; rfl⟩
    | none =>
      refine ⟨?_, fun v _ u hu => by cases hu⟩
      rcases hr : find? sem c.name s with ⟨_ | _ | v, t⟩
      · rw [hr] at hc; exact hc
      · rw [hr] at hc
        exact (resolveInScope_context sem c.name scope _ t).trans hc
      · rw [hr] at hc; exact hc

end PartialCall

/-- An action with what is seen of it. -/
structure Watched (keep : Context δ → κ) (α : Type) where
  act : RenderM δ α
  seen : RenderState δ → List (Moment δ)
  passes : ∀ s, Context.Passes keep s.context (seen s) (act s).2.context

namespace Watched

variable {keep : Context δ → κ}

instance : Monad (Watched keep) where
  pure a := ⟨pure a, fun _ => [], fun s => .refl s.context⟩
  bind m f :=
    { act := m.act >>= fun a => (f a).act
      seen := fun s => m.seen s ++
        match m.act s with
        | (.ok a, t) => (f a).seen t
        | (.error _, _) => []
      passes := fun s => by
        refine .append (m.passes s) ?_
        rw [RenderM.bind_apply]
        rcases m.act s with ⟨_ | a, t⟩
        · exact .refl t.context
        · exact (f a).passes t }

@[simp] theorem act_pure (a : α) : (pure a : Watched keep α).act = pure a := rfl

@[simp] theorem act_bind (m : Watched keep α) (f : α → Watched keep β) :
    (m >>= f).act = m.act >>= fun a => (f a).act := rfl

theorem act_map (g : α → β) (m : Watched keep α) : (g <$> m).act = g <$> m.act :=
  bind_pure_comp g m.act

theorem act_mapM (f : α → Watched keep β) (xs : List α) :
    (xs.mapM f).act = xs.mapM fun x => (f x).act := by
  -- the loop of `mapM` carries the results so far
  have hloop (done : List β) :
      (List.mapM.loop f xs done).act = List.mapM.loop (fun x => (f x).act) xs done := by
    induction xs generalizing done with
    | nil => rfl
    | cons x xs ih =>
      simp only [List.mapM.loop, act_bind, ih]
  exact hloop []

def fail (e : Failure) : Watched keep α := ⟨throw e, fun _ => [], fun s => .refl s.context⟩

def step (act : RenderM δ α)
    (h : ∀ s, Context.Passes keep s.context [] (act s).2.context) : Watched keep α where
  act
  seen s := [.stand s.context, .stand (act s).2.context]
  passes s := (h s).seen

def ask (f : Surroundings → Except RenderError α) : Watched keep α :=
  step (RenderM.asking f) fun s => by rw [RenderM.asking_apply]; exact .refl s.context

def setLine (n : Nat) : Watched keep Unit :=
  step (RenderM.modifyContext (·.setLine n)) fun s => .line s.context n

def resolve (sem : Semantics δ) (c : PartialCall δ) (scope : Scope) : Watched keep (View δ) where
  act := c.resolve sem scope
  seen s := .stand s.context ::
    match (c.resolve sem scope s).1 with
    | .ok v => [.call c v]
    | .error _ => []
  passes s := by
    obtain ⟨hc, hv⟩ := c.resolve_finds sem scope s
    rw [hc]
    refine .append (.stand s.context) ?_
    generalize (c.resolve sem scope s).1 = found at hv ⊢
    rcases found with _ | v
    · exact .refl s.context
    · exact .call (hv v rfl)

def surround (v : View δ) (w : Watched keep α) : Watched keep α :=
  match h : v with
  | .inline _ _ _ => w
  | .template _ _ _ _ =>
    { act := v.surround w.act
      seen := fun s =>
        let s := { s with context := s.context.enter v }
        [.template v (.stand s.context :: w.seen s ++ [.stand (w.act s).2.context])]
      passes := fun s => by
        rw [View.surround_template h]
        have hw := w.passes { s with context := s.context.enter v }
        exact .template (.append (.append (.stand _) hw) (.stand _)) }

theorem act_surround (v : View δ) (w : Watched keep α) : (w.surround v).act = v.surround w.act := by
  cases v <;> rfl

end Watched

/-- What a handler does: steps of its own, which leave what is to be kept, and renders, which it
sees the outcome of. It renders what it is handed and, on its own, whatever can be watched. -/
inductive Script (keep : Context δ → κ) (ρ α : Type) where
  | done (result : Except Failure α)
  | own (f : RenderState δ → RenderState δ) (h : ∀ s, keep (f s).context = keep s.context)
      (next : RenderState δ → Script keep ρ α)
  | render (what : ρ ⊕ Watched keep Fragment) (next : Except Failure Fragment → Script keep ρ α)

namespace Script

variable {keep : Context δ → κ} {ρ : Type}

def run (render : ρ → RenderM δ Fragment) : Script keep ρ α → RenderM δ α
  | done result => fun s => (result, s)
  | own f _ next => fun s => (next (f s)).run render (f s)
  | .render what next => fun s =>
    let (result, t) := what.elim render Watched.act s
    (next result).run render t

def watch (render : ρ → Watched keep Fragment) : Script keep ρ α → Watched keep α
  | done result => ⟨fun s => (result, s), fun _ => [], fun s => .refl s.context⟩
  | own f h next =>
    { act := fun s => ((next (f s)).watch render).act (f s)
      seen := fun s => [.stand s.context, .stand (f s).context] ++
        ((next (f s)).watch render).seen (f s)
      passes := fun s => .append (Context.Passes.own (h s)).seen
        (((next (f s)).watch render).passes (f s)) }
  | .render what next =>
    let first := what.elim render id
    { act := fun s =>
        let (result, t) := first.act s
        ((next result).watch render).act t
      seen := fun s => first.seen s ++
        let (result, t) := first.act s
        ((next result).watch render).seen t
      passes := fun s => .append (first.passes s)
        (((next (first.act s).1).watch render).passes (first.act s).2) }

theorem act_watch (render : ρ → Watched keep Fragment) (script : Script keep ρ α) :
    (script.watch render).act = script.run fun what => (render what).act := by
  induction script with
  | done result => rfl
  | own f h next ih =>
    funext s
    exact congrFun (ih (f s)) (f s)
  | render what next ih =>
    funext s
    cases what with
    | inl what => exact congrFun (ih ((render what).act s).1) ((render what).act s).2
    | inr w => exact congrFun (ih (w.act s).1) (w.act s).2

end Script

def TagCall.withoutRender (c : TagCall δ) : TagCall δ := { c with render := fun _ _ => pure [] }

/-- The handlers of a dialect as scripts. The handler of a tag is handed a way to render bodies, and
so any view, whole or not; that of an attribute is handed none. -/
structure Scripts (sem : Semantics δ) (keep : Context δ → κ) where
  tag : δ.TagHandler → TagCall δ → Element → Script keep (View δ × Scope) (Element × Option Scope)
  attr : δ.AttrHandler → AttrCall → Element → Script keep Empty Element
  tag_eq : ∀ h c element, sem.tag h c element =
    (tag h c.withoutRender element).run fun (v, scope) => v.surround (c.render v.body scope)
  attr_eq : ∀ h c element, sem.attr h c element = (attr h c element).run Empty.elim

end Stencil
