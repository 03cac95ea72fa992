import Mathlib.Data.List.Forall2
import Stencil.Proofs.Expression.ErrorLine
import Stencil.Proofs.Render.History
import Stencil.Proofs.Render.Reading

/-!
Renders that only read, and read alike. From states that agree two actions come to related results,
or fail with the same error up to its line, and leave both states as they are. Nodes are related by
what is seen of them: their text, which no namespace shows in, and whether there are any, which a
void tag shows.
-/

set_option autoImplicit false

namespace Stencil

variable {δ : Dialect} {α β γ η : Type}

/-- The same failure, up to the line of its error. -/
inductive Failure.Like : Failure → Failure → Prop
  | error {e f : RenderError} (h : e.Like f) : Like (.error e) (.error f)
  | tooDeep : Like .tooDeep .tooDeep

theorem Failure.Like.of_left {d e f : Failure} (h : d.Like e) (h' : d.Like f) : e.Like f := by
  cases h with
  | error h =>
    cases h' with
    | error h' => exact .error (h'.trans h.symm)
  | tooDeep => exact h'

/-- From states that agree two actions come to related results, or fail alike, and leave their
states as they are. -/
def RenderM.ReadsAlike (agree : RenderState δ → RenderState δ → Prop) (r : α → β → Prop)
    (x : RenderM δ α) (y : RenderM δ β) : Prop :=
  ∀ s s', agree s s' →
    EndAlike Failure.Like r (x s).1 (y s').1 ∧ (x s).2 = s ∧ (y s').2 = s'

def RenderState.AgreesAround (agree : RenderState δ → RenderState δ → Prop) : Prop :=
  ∀ s s', agree s s' → s'.context.around = s.context.around

namespace RenderM

namespace ReadsAlike

variable {agree : RenderState δ → RenderState δ → Prop} {r : α → β → Prop} {q : γ → η → Prop}
  {x : RenderM δ α} {y : RenderM δ β}

theorem pure {a : α} {b : β} (h : r a b) :
    ReadsAlike agree r (Pure.pure a : RenderM δ α) (Pure.pure b) :=
  fun _ _ _ => ⟨.ok h, rfl, rfl⟩

theorem bind (h : ReadsAlike agree r x y) {f : α → RenderM δ γ} {g : β → RenderM δ η}
    (hfg : ∀ a b, r a b → ReadsAlike agree q (f a) (g b)) :
    ReadsAlike agree q (x >>= f) (y >>= g) := by
  intro s s' hs
  have hxy := h s s' hs
  rw [bind_apply, bind_apply]
  generalize x s = out, y s' = out' at hxy
  obtain ⟨result, t⟩ := out
  obtain ⟨result', t'⟩ := out'
  obtain ⟨hresult, rfl, rfl⟩ := hxy
  simp only at hresult
  cases hresult with
  | ok hab => exact hfg _ _ hab t t' hs
  | error h => exact ⟨.error h, rfl, rfl⟩

theorem then_eq {x y : RenderM δ α} (h : ReadsAlike agree Eq x y) {f : α → RenderM δ γ}
    {g : α → RenderM δ η} (hfg : ∀ a, ReadsAlike agree q (f a) (g a)) :
    ReadsAlike agree q (x >>= f) (y >>= g) :=
  h.bind fun a b hab => by
    subst hab
    exact hfg a

theorem map (h : ReadsAlike agree r x y) {f : α → γ} {g : β → η}
    (hfg : ∀ a b, r a b → q (f a) (g b)) : ReadsAlike agree q (f <$> x) (g <$> y) := by
  rw [map_eq_pure_bind, map_eq_pure_bind]
  exact h.bind fun a b hab => pure (hfg a b hab)

theorem of_map {f : α → γ} {g : β → η} (h : ReadsAlike agree q (f <$> x) (g <$> y))
    (hr : ∀ a b, q (f a) (g b) → r a b) : ReadsAlike agree r x y := by
  intro s s' hs
  have hfg := h s s' hs
  rw [map_apply, map_apply] at hfg
  generalize x s = out, y s' = out' at hfg
  obtain ⟨result, t⟩ := out
  obtain ⟨result', t'⟩ := out'
  exact ⟨hfg.1.of_map hr, hfg.2⟩

theorem mapM {f : γ → RenderM δ α} {g : γ → RenderM δ β}
    (h : ∀ c, ReadsAlike agree r (f c) (g c)) (cs : List γ) :
    ReadsAlike agree (List.Forall₂ r) (cs.mapM f) (cs.mapM g) := by
  induction cs with
  | nil => exact pure .nil
  | cons c cs ih =>
    rw [List.mapM_cons, List.mapM_cons]
    exact (h c).bind fun a b hab => ih.bind fun as bs hs => pure (.cons hab hs)

theorem branch {x y : RenderM δ Branch} (h : ReadsAlike agree Eq x y) {q : List α → List β → Prop}
    {f : Scope → RenderM δ (List α)} {g : Scope → RenderM δ (List β)} {i : RenderM δ (List α)}
    {j : RenderM δ (List β)} (hprimary : ∀ inner, ReadsAlike agree q (f inner) (g inner))
    (hflatten : ∀ xs ys, List.Forall₂ q xs ys → q xs.flatten ys.flatten)
    (hinverse : ReadsAlike agree q i j) :
    ReadsAlike agree q
      (do
        match ← x with
        | .primary scopes => return (← scopes.mapM f).flatten
        | .inverse => i)
      (do
        match ← y with
        | .primary scopes => return (← scopes.mapM g).flatten
        | .inverse => j) := by
  refine h.then_eq fun branch => ?_
  cases branch with
  | primary scopes =>
    exact (mapM hprimary scopes).bind fun xs ys hs => pure (hflatten xs ys hs)
  | inverse => exact hinverse

theorem asking (hagree : RenderState.AgreesAround agree)
    {f : Surroundings → Except RenderError α} {g : Surroundings → Except RenderError β}
    (h : ∀ around, EndAlike RenderError.Like r (f around) (g around)) :
    ReadsAlike agree r (RenderM.asking f : RenderM δ α) (RenderM.asking g) := by
  intro s s' hs
  rw [asking_apply, asking_apply, hagree s s' hs]
  refine ⟨?_, rfl, rfl⟩
  have h := h s.context.around
  generalize f s.context.around = x, g s.context.around = y at h
  cases h with
  | ok h => exact .ok h
  | error h => exact .error (.error h)

end ReadsAlike

end RenderM

def Fragment.Looks (holder : Option Text) (xs ys : Fragment) : Prop :=
  look holder ys = look holder xs

namespace Fragment

variable {holder : Option Text}

theorem Looks.append {xs xs' ys ys' : Fragment} (h : Looks holder xs ys)
    (h' : Looks holder xs' ys') : Looks holder (xs ++ xs') (ys ++ ys') := by
  unfold Looks
  rw [look_append, look_append, h, h']

theorem Looks.flatten {xss yss : List Fragment} (h : List.Forall₂ (Looks holder) xss yss) :
    Looks holder xss.flatten yss.flatten := by
  induction h with
  | nil => rfl
  | cons hx hs ih => exact hx.append ih

end Fragment

theorem RenderM.ReadsAlike.of_look {agree : RenderState δ → RenderState δ → Prop}
    {x x' y y' : RenderM δ Fragment}
    (h : RenderM.ReadsAlike agree (Fragment.Looks none) x y)
    (hx : Fragment.look none <$> x' = Fragment.look none <$> x)
    (hy : Fragment.look none <$> y' = Fragment.look none <$> y) :
    RenderM.ReadsAlike agree (Fragment.Looks none) x' y' := by
  have hseen : RenderM.ReadsAlike agree (fun a b : Text × Bool => b = a)
      (Fragment.look none <$> x) (Fragment.look none <$> y) := h.map fun _ _ h => h
  rw [← hx, ← hy] at hseen
  exact hseen.of_map fun _ _ h => h

def Tag.holder? (tag : Text) : Option Text := if Tag.holdsText tag then some tag else none

structure Element.Looks (tag : Text) (e e' : Element) : Prop where
  left : e.tag = tag
  right : e'.tag = tag
  attributes : e'.attributes = e.attributes
  children : Fragment.Looks (Tag.holder? tag) e.children e'.children

namespace Element.Looks

variable {tag : Text} {e e' : Element}

theorem setAttribute (h : Looks tag e e') (name value : Text) :
    Looks tag (e.setAttribute name value) (e'.setAttribute name value) :=
  ⟨h.left, h.right, congrArg (Dict.insert · name value) h.attributes, h.children⟩

theorem setAttributes (h : Looks tag e e') (attributes : List (Text × Text)) :
    Looks tag (attributes.foldl (fun e (n, v) => e.setAttribute n v) e)
      (attributes.foldl (fun e (n, v) => e.setAttribute n v) e') := by
  induction attributes generalizing e e' with
  | nil => exact h
  | cons a attributes ih => exact ih (h.setAttribute a.1 a.2)

theorem append (h : Looks tag e e') {xs ys : Fragment}
    (hxs : Fragment.Looks (Tag.holder? tag) xs ys) : Looks tag (e.append xs) (e'.append ys) :=
  ⟨h.left, h.right, h.attributes, h.children.append hxs⟩

theorem toNode (h : Looks tag e e') : Fragment.Looks none [e.toNode] [e'.toNode] := by
  obtain ⟨_, ns, attributes, children⟩ := e
  obtain ⟨_, ns', _, children'⟩ := e'
  obtain ⟨rfl, rfl, rfl, hchildren⟩ := h
  obtain ⟨hhtml, hempty⟩ := Prod.mk.inj hchildren
  simp only [Tag.holder?] at hhtml
  simp only at hempty
  simp [Fragment.Looks, Fragment.look, Fragment.htmlIn, Node.htmlIn, Element.toNode, hhtml, hempty]

end Element.Looks

end Stencil
