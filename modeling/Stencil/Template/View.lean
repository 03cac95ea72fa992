import Stencil.Template.Part

/-!
Views, the compiled templates that are rendered, and the library that partials are found in. A
view carries the number of the compilation it came from: two views are the same one if they came
from the same place, whatever they hold. A library holds the views registered under an id and
compiles others from a source of template texts when they are first asked for.
-/

set_option autoImplicit false

namespace Stencil

inductive View (δ : Dialect) where
  /-- a whole template, with the partials it defines -/
  | template (serial : Nat) (body : Body δ) (partials : Dict (Body δ)) (filename : Option Text)
  | inline (serial : Nat) (name : Text) (body : Body δ)

namespace View

variable {δ : Dialect}

def body : View δ → Body δ
  | .template _ body _ _ => body
  | .inline _ _ body => body

def filename : View δ → Option Text
  | .template _ _ _ filename => filename
  | .inline _ _ _ => none

def partials : View δ → Dict (View δ)
  | .template serial _ partials _ => partials.map fun (n, body) => (n, .inline serial n body)
  | .inline _ _ _ => []

def inlinePartial? (v : View δ) (name : Text) : Option (View δ) := Dict.find? v.partials name

theorem inlinePartial?_template (serial : Nat) (body : Body δ) (defined : Dict (Body δ))
    (filename : Option Text) (name : Text) :
    (template serial body defined filename).inlinePartial? name =
      (Dict.find? defined name).map (.inline serial name) := by
  simp only [inlinePartial?, partials]
  induction defined with
  | nil => rfl
  | cons e defined ih =>
    obtain ⟨n, b⟩ := e
    rw [List.map_cons, Dict.find?_cons, Dict.find?_cons, ih]
    by_cases hname : name = n
    · rw [if_pos hname, if_pos hname, hname]
      rfl
    · rw [if_neg hname, if_neg hname]

def same : View δ → View δ → Bool
  | .template m _ _ _, .template n _ _ _ => m = n
  | .inline m s _, .inline n t _ => m = n && s = t
  | _, _ => false

end View

abbrev Load (δ : Dialect) := Nat → Option Text → Text → Except CompileError (View δ)

structure Library (δ : Dialect) where
  entries : Dict (View δ)
  source : Option (Text → Option Text)
  /-- the serial number of the next compilation -/
  next : Nat

namespace Library

variable {δ : Dialect}

def empty : Library δ := ⟨[], none, 0⟩

def compile {α : Type} (l : Library δ) (load : Nat → Except CompileError α) :
    Except CompileError (α × Library δ) :=
  (load l.next).map fun a => (a, { l with next := l.next + 1 })

def insert (l : Library δ) (id : Text) (v : View δ) : Library δ :=
  { l with entries := Dict.insert l.entries id v }

/-- Registers the view of a text. A text that does not compile leaves the library as it is. -/
def register (load : Load δ) (l : Library δ) (id text : Text) :
    Except CompileError (View δ × Library δ) := do
  let (v, l) ← l.compile fun serial => load serial none text
  return (v, l.insert id v)

def sourceName (id : Text) : Text := '#' :: id

/-- The view of an id. One that is not registered is compiled from the source and then kept. -/
def get (load : Load δ) (l : Library δ) (id : Text) :
    Except CompileError (Option (View δ) × Library δ) :=
  match Dict.find? l.entries id with
  | some v => .ok (some v, l)
  | none =>
    match l.source.bind fun source => source id with
    | none => .ok (none, l)
    | some text => do
      let (v, l) ← l.compile fun serial => load serial (some (sourceName id)) text
      return (some v, l.insert id v)

def contains (l : Library δ) (id : Text) : Bool := Dict.contains l.entries id

def remove (l : Library δ) (id : Text) : Option (View δ) × Library δ :=
  (Dict.find? l.entries id, { l with entries := Dict.erase l.entries id })

def clear (l : Library δ) : Library δ := { l with entries := [] }

def size (l : Library δ) : Nat := l.entries.length

end Library

end Stencil
