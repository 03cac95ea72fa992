import Stencil.Template.Draft

/-!
Outcomes of two actions: both succeed, with results that are related, or both fail, with errors that
may be related too. Where only the success of the first matters, the second may do anything once the
first has failed.
-/

set_option autoImplicit false

namespace Stencil

theorem exists_of_bind_ok {ε α β : Type} {x : Except ε α} {f : α → Except ε β} {b : β}
    (h : (x >>= f) = .ok b) : ∃ a, x = .ok a ∧ f a = .ok b := by
  cases x with
  | error e => cases h
  | ok a => exact ⟨a, rfl, h⟩

/-- Both succeed, with results that are related, or both fail. -/
inductive SucceedAlike {ε α β : Type} (r : α → β → Prop) : Except ε α → Except ε β → Prop
  | ok {a : α} {b : β} (h : r a b) : SucceedAlike r (.ok a) (.ok b)
  | error (e f : ε) : SucceedAlike r (.error e) (.error f)

namespace SucceedAlike

variable {ε ζ α β γ η : Type} {r : α → β → Prop} {q : γ → η → Prop} {x : Except ε α}
  {y : Except ε β}

theorem bind (h : SucceedAlike r x y) {f : α → Except ε γ} {g : β → Except ε η}
    (hfg : ∀ a b, r a b → SucceedAlike q (f a) (g b)) : SucceedAlike q (x >>= f) (y >>= g) := by
  cases h with
  | ok h => exact hfg _ _ h
  | error e f => exact .error e f

theorem mapError (h : SucceedAlike r x y) (f : ε → ζ) :
    SucceedAlike r (x.mapError f) (y.mapError f) := by
  cases h with
  | ok h => exact .ok h
  | error e e' => exact .error _ _

theorem mono (h : SucceedAlike r x y) {r' : α → β → Prop} (hr : ∀ a b, r a b → r' a b) :
    SucceedAlike r' x y := by
  cases h with
  | ok h => exact .ok (hr _ _ h)
  | error e f => exact .error e f

theorem atLine {x : Except ErrorCode α} {y : Except ErrorCode β} (h : SucceedAlike r x y)
    (line line' : Nat) (detail detail' : Option Text) :
    SucceedAlike r (Draft.atLine line detail x) (Draft.atLine line' detail' y) := by
  cases h with
  | ok h => exact .ok h
  | error e f => exact .error _ _

theorem same (x : Except ε α) {f : α → Except ε γ} {g : α → Except ε η}
    (hfg : ∀ a, SucceedAlike q (f a) (g a)) : SucceedAlike q (x >>= f) (x >>= g) := by
  cases x with
  | ok a => exact hfg a
  | error e => exact .error e e

end SucceedAlike

/-- Both succeed, with results that are related, or both fail, with errors that are related. -/
inductive EndAlike {ε ζ α β : Type} (t : ε → ζ → Prop) (r : α → β → Prop) :
    Except ε α → Except ζ β → Prop
  | ok {a : α} {b : β} (h : r a b) : EndAlike t r (.ok a) (.ok b)
  | error {e : ε} {f : ζ} (h : t e f) : EndAlike t r (.error e) (.error f)

namespace EndAlike

variable {ε ζ α β γ η : Type} {t : ε → ζ → Prop} {r : α → β → Prop} {q : γ → η → Prop}
  {x : Except ε α} {y : Except ζ β}

theorem bind (h : EndAlike t r x y) {f : α → Except ε γ} {g : β → Except ζ η}
    (hfg : ∀ a b, r a b → EndAlike t q (f a) (g b)) : EndAlike t q (x >>= f) (y >>= g) := by
  cases h with
  | ok h => exact hfg _ _ h
  | error h => exact .error h

theorem map (h : EndAlike t r x y) {f : α → γ} {g : β → η} (hfg : ∀ a b, r a b → q (f a) (g b)) :
    EndAlike t q (x.map f) (y.map g) := by
  cases h with
  | ok h => exact .ok (hfg _ _ h)
  | error h => exact .error h

theorem mono (h : EndAlike t r x y) {r' : α → β → Prop} (hr : ∀ a b, r a b → r' a b) :
    EndAlike t r' x y := by
  cases h with
  | ok h => exact .ok (hr _ _ h)
  | error h => exact .error h

theorem refl {t : ε → ε → Prop} {r : α → α → Prop} (ht : ∀ e, t e e) (hr : ∀ a, r a a)
    (x : Except ε α) : EndAlike t r x x := by
  cases x with
  | ok a => exact .ok (hr a)
  | error e => exact .error (ht e)

theorem trans {t : ε → ε → Prop} {r : α → α → Prop} {x y z : Except ε α} (h : EndAlike t r x y)
    (h' : EndAlike t r y z) (ht : ∀ d e f, t d e → t e f → t d f)
    (hr : ∀ a b c, r a b → r b c → r a c) : EndAlike t r x z := by
  cases h with
  | ok h =>
    cases h' with
    | ok h' => exact .ok (hr _ _ _ h h')
  | error h =>
    cases h' with
    | error h' => exact .error (ht _ _ _ h h')

theorem of_left {t : ε → ε → Prop} {r : α → α → Prop} {x y z : Except ε α}
    (h : EndAlike t r x y) (h' : EndAlike t r x z) (ht : ∀ d e f, t d e → t d f → t e f)
    (hr : ∀ a b c, r a b → r a c → r b c) : EndAlike t r y z := by
  cases h with
  | ok h =>
    cases h' with
    | ok h' => exact .ok (hr _ _ _ h h')
  | error h =>
    cases h' with
    | error h' => exact .error (ht _ _ _ h h')

theorem of_map {f : α → γ} {g : β → η} (h : EndAlike t q (x.map f) (y.map g))
    (hfg : ∀ a b, q (f a) (g b) → r a b) : EndAlike t r x y := by
  cases x with
  | ok a =>
    cases y with
    | ok b =>
      cases h with
      | ok h => exact .ok (hfg a b h)
    | error f => cases h
  | error e =>
    cases y with
    | ok b => cases h
    | error f =>
      cases h with
      | error h => exact .error h

end EndAlike

/-- Both succeed, with results that are related, or both fail; unless it is strict, the second may
succeed though the first has failed. -/
inductive Follows (strict : Prop) {ε α β : Type} (r : α → β → Prop) :
    Except ε α → Except ε β → Prop
  | ok {a : α} {b : β} (h : r a b) : Follows strict r (.ok a) (.ok b)
  | error (e f : ε) : Follows strict r (.error e) (.error f)
  | loose (h : ¬strict) (e : ε) (y : Except ε β) : Follows strict r (.error e) y

theorem SucceedAlike.follows {ε α β : Type} {r : α → β → Prop} {x : Except ε α} {y : Except ε β}
    (h : SucceedAlike r x y) (strict : Prop) : Follows strict r x y := by
  cases h with
  | ok h => exact .ok h
  | error e f => exact .error e f

namespace Follows

variable {strict : Prop} {ε ζ α β γ η : Type} {r : α → β → Prop} {q : γ → η → Prop}
  {x : Except ε α} {y : Except ε β}

theorem bind (h : Follows strict r x y) {f : α → Except ε γ} {g : β → Except ε η}
    (hfg : ∀ a b, r a b → Follows strict q (f a) (g b)) :
    Follows strict q (x >>= f) (y >>= g) := by
  cases h with
  | ok h => exact hfg _ _ h
  | error e f => exact .error e f
  | loose h e y => exact .loose h e _

theorem atLine {x : Except ErrorCode α} {y : Except ErrorCode β} (h : Follows strict r x y)
    (line line' : Nat) (detail detail' : Option Text) :
    Follows strict r (Draft.atLine line detail x) (Draft.atLine line' detail' y) := by
  cases h with
  | ok h => exact .ok h
  | error e f => exact .error _ _
  | loose h e y => exact .loose h _ _

theorem exists_ok (h : Follows strict r x y) {a : α} (hx : x = .ok a) : ∃ b, y = .ok b ∧ r a b := by
  cases h with
  | ok h =>
    cases hx
    exact ⟨_, rfl, h⟩
  | error e f => cases hx
  | loose h e y => cases hx

theorem succeedAlike (h : Follows True r x y) : SucceedAlike r x y := by
  cases h with
  | ok h => exact .ok h
  | error e f => exact .error e f
  | loose h e y => exact absurd trivial h

end Follows

end Stencil
