import Stencil.Text.Blank

/-!
Markers: what stands between double braces. A marker is read up to the first closing braces, and
its body opens with a sigil that says what the marker does. A body in triple braces keeps the
inner pair, and its brace is a sigil like the others.
-/

set_option autoImplicit false

namespace Stencil

inductive Mode where
  | escaped
  | unescaped
  | branch
  | inverse
  | inlineTemplate
  | close
  | call
  | comment
  deriving DecidableEq, Repr

namespace Mode

def ofSigil? (c : Char) : Option Mode :=
  if c = '{' ∨ c = '&' then some .unescaped
  else if c = '#' then some .branch
  else if c = '^' then some .inverse
  else if c = '<' then some .inlineTemplate
  else if c = '/' then some .close
  else if c = '>' then some .call
  else if c = '!' then some .comment
  else none

def sigil : Mode → Text
  | .escaped => []
  | .unescaped => ['{']
  | .branch => ['#']
  | .inverse => ['^']
  | .inlineTemplate => ['<']
  | .close => ['/']
  | .call => ['>']
  | .comment => ['!']

theorem ofSigil?_of_mem_sigil {m : Mode} {c : Char} (h : c ∈ m.sigil) : ofSigil? c = some m := by
  cases m <;> simp [sigil] at h <;> subst h <;> decide

def opensBody : Mode → Bool
  | .branch | .inverse | .inlineTemplate => true
  | _ => false

end Mode

namespace Marker

def opensAt : Text → Bool
  | '{' :: '{' :: _ => true
  | _ => false

/-- The marker at the front of a text: its body and what follows. Triple braces look for triple
braces only, and a marker that is never closed is none. -/
def read? : Text → Option (Text × Text)
  | '{' :: '{' :: '{' :: r =>
    (Text.cut ['}', '}', '}'] r).map fun (body, rest) => ('{' :: body ++ ['}'], rest)
  | '{' :: '{' :: r => Text.cut ['}', '}'] r
  | _ => none

def written (body : Text) : Text := ['{', '{'] ++ body ++ ['}', '}']

theorem eq_of_read? {t body rest : Text} (h : read? t = some (body, rest)) :
    t = written body ++ rest := by
  unfold read? at h
  split at h
  next r =>
    obtain ⟨⟨b, s⟩, hc, he⟩ := Option.map_eq_some_iff.1 h
    simp only [Prod.mk.injEq] at he
    obtain ⟨rfl, rfl⟩ := he
    simp [written, Text.eq_of_cut hc]
  next r _ => simp [written, Text.eq_of_cut h]
  next => simp at h

theorem length_lt_of_read? {t body rest : Text} (h : read? t = some (body, rest)) :
    rest.length < t.length := by
  simp [eq_of_read? h, written]
  omega

def split (body : Text) : Mode × Text :=
  let t := body.trim
  match t with
  | [] => (.escaped, t)
  | c :: r =>
    match Mode.ofSigil? c with
    | none => (.escaped, t)
    | some mode =>
      let inner := if c = '{' then (Text.before? ['}'] r).getD r else r
      (mode, inner.trim)

end Marker

end Stencil
