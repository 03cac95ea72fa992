import Stencil.Proofs.Render.History
import Stencil.Proofs.Template.Outcome

/-!
What a render keeps of its state. Views come to hand as partials of the templates that are rendered
and out of the library. Where all of them have a property that goes over to the partials of a view,
only views with the property are called, and what is said of the results of such calls can be said
of the text and the nodes that calls come to.
-/

set_option autoImplicit false

namespace Stencil

variable {δ : Dialect} {α β : Type}

/-- From a state in order the action comes to one in order, and to such results only. -/
def RenderM.Yields (P : RenderState δ → Prop) (q : α → Prop) (m : RenderM δ α) : Prop :=
  ∀ s, P s → P (m s).2 ∧ ∀ a, (m s).1 = .ok a → q a

namespace RenderM.Yields

variable {P : RenderState δ → Prop} {q : α → Prop} {r : β → Prop}

theorem pure {a : α} (h : q a) : Yields P q (Pure.pure a : RenderM δ α) :=
  fun _ hs => ⟨hs, fun b hb => by cases hb; exact h⟩

theorem throw (e : Failure) : Yields P q (MonadExcept.throw e : RenderM δ α) :=
  fun _ hs => ⟨hs, fun b hb => by cases hb⟩

theorem fail (e : RenderError) : Yields P q (RenderM.fail e : RenderM δ α) := throw _

theorem bind {m : RenderM δ α} {f : α → RenderM δ β} (h : Yields P q m)
    (hf : ∀ a, q a → Yields P r (f a)) : Yields P r (m >>= f) := by
  intro s hs
  have hm := h s hs
  rw [RenderM.bind_apply]
  rcases hout : m s with ⟨e | a, t⟩
  · rw [hout] at hm
    exact ⟨hm.1, fun b hb => by cases hb⟩
  · rw [hout] at hm
    exact hf a (hm.2 a rfl) t hm.1

theorem map {m : RenderM δ α} {f : α → β} (h : Yields P q m) (hf : ∀ a, q a → r (f a)) :
    Yields P r (f <$> m) := by
  rw [map_eq_pure_bind]
  exact h.bind fun a ha => .pure (hf a ha)

theorem mapM {γ : Type} {f : γ → RenderM δ α} (h : ∀ x, Yields P q (f x)) (xs : List γ) :
    Yields P (fun as => ∀ a ∈ as, q a) (xs.mapM f) := by
  induction xs with
  | nil => exact pure (by simp)
  | cons x xs ih =>
    rw [List.mapM_cons]
    exact (h x).bind fun a ha => ih.bind fun as has => pure (List.forall_mem_cons.2 ⟨ha, has⟩)

theorem branch {x : RenderM δ Branch} (h : Yields P (fun _ => True) x) {q : List α → Prop}
    {f : Scope → RenderM δ (List α)} {i : RenderM δ (List α)}
    (hprimary : ∀ inner, Yields P q (f inner))
    (hflatten : ∀ xs : List (List α), (∀ x ∈ xs, q x) → q xs.flatten) (hinverse : Yields P q i) :
    Yields P q (do
      match ← x with
      | .primary scopes => return (← scopes.mapM f).flatten
      | .inverse => i) := by
  refine h.bind fun branch _ => ?_
  cases branch with
  | primary scopes => exact (mapM hprimary scopes).bind fun xs hs => pure (hflatten xs hs)
  | inverse => exact hinverse

theorem modifyContext {f : Context δ → Context δ}
    (h : ∀ s, P s → P { s with context := f s.context }) :
    Yields P (fun _ => True) (RenderM.modifyContext f) :=
  fun s hs => ⟨h s hs, fun _ _ => trivial⟩

theorem around : Yields P (fun _ => True) (RenderM.around : RenderM δ Surroundings) :=
  fun _ hs => ⟨hs, fun _ _ => trivial⟩

theorem lift (x : Except RenderError α) :
    Yields P (fun _ => True) (RenderM.lift x : RenderM δ α) := by
  cases x with
  | ok a => exact pure trivial
  | error e => exact fail e

end RenderM.Yields

section

variable {P : RenderState δ → Prop}

theorem Semantics.yields_valueIn (sem : Semantics δ) (e : δ.Expr) (scope : Scope) :
    RenderM.Yields P (fun _ => True) (sem.valueIn e scope) :=
  .bind .around fun _ _ => .lift _

theorem Semantics.yields_branchIn (sem : Semantics δ) (e : δ.Expr) (scope : Scope) :
    RenderM.Yields P (fun _ => True) (sem.branchIn e scope) :=
  .bind .around fun _ _ => .lift _

theorem Semantics.yields_textIn (sem : Semantics δ) (e : δ.Expr) (scope : Scope) :
    RenderM.Yields P (fun _ => True) (sem.textIn e scope) :=
  (sem.yields_valueIn e scope).map fun _ _ => trivial

end

/-- Every view at hand has the property, and so has every one that may be loaded. -/
structure RenderState.Each (sem : Semantics δ) (V : View δ → Prop) (s : RenderState δ) : Prop where
  partials : ∀ x ∈ s.context.partials, V x.2
  view : ∀ v ∈ s.context.view, V v
  entries : ∀ x ∈ s.library.entries, V x.2
  loads : ∀ source ∈ s.library.source, ∀ {id text : Text}, source id = some text →
    ∀ {serial filename v}, sem.load serial filename text = .ok v → V v

def Caller.Makes (sem : Semantics δ) (V : View δ → Prop) (F : Fragment → Prop) (call : Caller δ) :
    Prop :=
  ∀ v scope, V v → RenderM.Yields (RenderState.Each sem V) F (call v scope)

section

variable {sem : Semantics δ} {V : View δ → Prop} {F : Fragment → Prop} {call : Caller δ}

namespace RenderState.Each

variable {s : RenderState δ}

theorem define (h : RenderState.Each sem V s) {partials : Dict (View δ)}
    (hpartials : ∀ x ∈ partials, V x.2) :
    RenderState.Each sem V { s with context := s.context.define partials } := by
  refine ⟨?_, h.view, h.entries, h.loads⟩
  have hdefine : ∀ (entries d : Dict (View δ)), (∀ x ∈ entries, V x.2) →
      (∀ x ∈ d, V x.2) →
      ∀ x ∈ entries.foldl (fun d e => d.insert e.1 e.2) d, V x.2 := by
    intro entries
    induction entries with
    | nil => exact fun d _ hd => hd
    | cons e entries ih =>
      obtain ⟨n, v⟩ := e
      intro d he hd
      rw [List.forall_mem_cons] at he
      refine ih _ he.2 fun x hx => ?_
      rcases Dict.mem_insert hx with hx | rfl
      · exact hd x hx
      · exact he.1
  exact hdefine partials s.context.partials hpartials h.partials

theorem get (h : RenderState.Each sem V s) {id : Text} {v : Option (View δ)}
    {library : Library δ} (hget : s.library.get sem.load id = .ok (v, library)) :
    RenderState.Each sem V { s with library } ∧ ∀ w ∈ v, V w := by
  unfold Library.get at hget
  split at hget
  next w hfind =>
    cases hget
    refine ⟨h, fun w hw => ?_⟩
    cases hw
    exact h.entries _ (Dict.mem_of_find? hfind)
  next =>
    split at hget
    next => cases hget; exact ⟨h, by simp⟩
    next text htext =>
      obtain ⟨source, hsource, htext⟩ := Option.bind_eq_some_iff.1 htext
      obtain ⟨⟨w, l⟩, hw, hget⟩ := exists_of_bind_ok hget
      cases hget
      cases hload : sem.load s.library.next (some (Library.sourceName id)) text with
      | error e => simp [Library.compile, hload, Except.map] at hw
      | ok v =>
        simp only [Library.compile, hload, Except.map, Except.ok.injEq, Prod.mk.injEq] at hw
        obtain ⟨rfl, rfl⟩ := hw
        have hv := h.loads source hsource htext hload
        refine ⟨⟨h.partials, h.view, fun x hx => ?_, h.loads⟩, fun w hw => by cases hw; exact hv⟩
        rcases Dict.mem_insert hx with hx | rfl
        · exact h.entries x hx
        · exact hv

end RenderState.Each

theorem RenderM.Yields.within {q : α → Prop} {m : RenderM δ α} {view : Option (View δ)}
    (hview : ∀ v ∈ view, V v) (filename : Option Text)
    (h : Yields (RenderState.Each sem V) q m) :
    Yields (RenderState.Each sem V) q (RenderM.within view filename m) := by
  intro s hs
  have hinner : RenderState.Each sem V
      { s with context := { s.context with view }.setFilename filename } :=
    ⟨hs.partials, hview, hs.entries, hs.loads⟩
  obtain ⟨ht, hresult⟩ := h _ hinner
  exact ⟨⟨ht.partials, hs.view, ht.entries, ht.loads⟩, hresult⟩

theorem RenderM.yields_setLine (line : Nat) :
    Yields (RenderState.Each sem V) (fun _ => True)
      (RenderM.modifyContext (·.setLine line) : RenderM δ Unit) :=
  .modifyContext fun _ hs => ⟨hs.partials, hs.view, hs.entries, hs.loads⟩

namespace PartialCall

theorem yields_find? (name : Text) :
    RenderM.Yields (RenderState.Each sem V) (fun v => ∀ w ∈ v, V w)
      (find? sem name) := by
  intro s hs
  rw [find?_apply]
  split
  next v hfind =>
    refine ⟨hs, fun w hw => ?_⟩
    cases hw
    rintro _ ⟨⟩
    exact hs.partials _ (Dict.mem_of_find? hfind)
  next =>
    split
    next v library hget =>
      refine ⟨(hs.get hget).1, fun w hw => ?_⟩
      cases hw
      exact (hs.get hget).2
    next => exact ⟨hs, fun w hw => by cases hw⟩

theorem yields_resolve (c : PartialCall δ) (scope : Scope) :
    RenderM.Yields (RenderState.Each sem V) V (c.resolve sem scope) := by
  unfold resolve
  split
  · have hcontext : RenderM.Yields (RenderState.Each sem V)
        (fun c : Context δ => ∀ v ∈ c.view, V v) RenderM.context :=
      fun s hs => ⟨hs, fun c hc => by cases hc; exact hs.view⟩
    refine hcontext.bind fun c hc => ?_
    cases hview : c.view with
    | none => exact .fail _
    | some v => exact .pure (hc v hview)
  · refine (yields_find? c.name).bind fun v hv => ?_
    cases v with
    | some v => exact .pure (hv v rfl)
    | none =>
      refine RenderM.Yields.around.bind fun around _ => ?_
      split
      · refine (yields_find? _).bind fun v hv => ?_
        cases v with
        | none => exact .fail _
        | some v => exact .pure (hv v rfl)
      · exact .fail _

theorem yields_render (hcall : call.Makes sem V F) (c : PartialCall δ) (scope : Scope) :
    RenderM.Yields (RenderState.Each sem V) F
      (c.render sem call scope) := by
  have hscope : RenderM.Yields (RenderState.Each sem V) (fun _ => True)
      (c.scopeIn sem scope) := by
    unfold scopeIn
    split
    · exact .pure trivial
    · exact (sem.yields_valueIn _ scope).map fun _ _ => trivial
  exact (yields_resolve c scope).bind fun v hv => hscope.bind fun inner _ => hcall v inner hv

end PartialCall

mutual

theorem TextPart.yields_render (hcall : call.Makes sem V F) (p : TextPart δ) (scope : Scope) :
    RenderM.Yields (RenderState.Each sem V) (fun _ => True) (p.render sem call scope) := by
  match p with
  | .static text => exact .pure trivial
  | .value e quoted => exact (sem.yields_textIn e scope).bind fun _ _ => .pure trivial
  | .branch e primary none =>
    exact (sem.yields_branchIn e scope).branch (TextPart.yields_renderAll hcall primary)
      (fun _ _ => trivial) (.pure trivial)
  | .branch e primary (some inverse) =>
    exact (sem.yields_branchIn e scope).branch (TextPart.yields_renderAll hcall primary)
      (fun _ _ => trivial) (TextPart.yields_renderAll hcall inverse scope)
  | .call c => exact (c.yields_render hcall scope).bind fun _ _ => .pure trivial
termination_by structural p

theorem TextPart.yields_renderAll (hcall : call.Makes sem V F) (ps : List (TextPart δ))
    (scope : Scope) :
    RenderM.Yields (RenderState.Each sem V) (fun _ => True)
      (TextPart.renderAll sem call ps scope) := by
  match ps with
  | [] => exact .pure trivial
  | p :: ps =>
    exact (TextPart.yields_render hcall p scope).bind fun _ _ =>
      (TextPart.yields_renderAll hcall ps scope).bind fun _ _ => .pure trivial
termination_by structural ps

end

theorem View.makes_renderWithin (hpartials : ∀ v, V v → ∀ x ∈ v.partials, V x.2)
    (hbody : ∀ call : Caller δ, call.Makes sem V F → ∀ v, V v → ∀ scope,
      RenderM.Yields (RenderState.Each sem V) F (Part.renderAll sem call v.body scope))
    (depth : Nat) : Caller.Makes sem V F (renderWithin sem depth) := by
  induction depth with
  | zero => exact fun v scope _ => .throw .tooDeep
  | succ depth ih =>
    intro v scope hv
    have hinner := hbody _ ih v hv scope
    cases v with
    | inline serial name body => exact hinner
    | template serial body partials filename =>
      have hdefine : RenderM.Yields (RenderState.Each sem V) (fun _ => True)
          (RenderM.modifyContext
            (·.define (View.template serial body partials filename).partials)) :=
        .modifyContext fun s hs => hs.define (hpartials _ hv)
      exact hdefine.bind fun _ _ => hinner.within (by rintro _ ⟨⟩; exact hv) filename

end

end Stencil
