import Stencil.Data.Value
import Stencil.Dict
import Stencil.Text.Blank

/-!
Where names are looked up. A scope is a chain of frames, the innermost first: rendering a body
against a value adds a frame for it. Beside the frames a lookup can ask for what surrounds the
render: the name of the file, the line of the handler that runs, and variables.
-/

set_option autoImplicit false

namespace Stencil

/-- One value of a scope; `index` and `key` say where it stood if it was an item. -/
structure Frame where
  data : Value
  index : Option Nat
  key : Option Text
  deriving Inhabited

/-- What a lookup can ask for beside the frames. -/
structure Surroundings where
  filename : Option Text
  lineNumber : Nat
  vars : Dict Value
  deriving Inhabited

def Surroundings.none : Surroundings := ⟨.none, 0, []⟩

structure Scope where
  frame : Frame
  outer : List Frame
  deriving Inhabited

namespace Scope

def root (data : Value) : Scope := ⟨⟨data, none, none⟩, []⟩

def data (s : Scope) : Value := s.frame.data

def frames (s : Scope) : List Frame := s.frame :: s.outer

def depth (s : Scope) : Nat := s.frames.length

def add (s : Scope) (data : Value) : Scope := ⟨⟨data, none, none⟩, s.frames⟩

def addItem (s : Scope) (data : Value) (index : Nat) (key : Option Text) : Scope :=
  ⟨⟨data, some index, key⟩, s.frames⟩

def parent? (s : Scope) : Option Scope :=
  match s.outer with
  | [] => none
  | f :: fs => some ⟨f, fs⟩

@[simp] theorem parent?_add (s : Scope) (data : Value) : (s.add data).parent? = some s := rfl

def index? (s : Scope) : Option Nat := s.frames.findSome? Frame.index

def key? (s : Scope) : Option Text := s.frames.findSome? Frame.key

end Scope

namespace Value

def child? (v : Value) (segment : Text) : Option Value :=
  match v with
  | .obj fields => fields.lookup segment
  | .arr items => segment.natural?.bind fun i => items[i]?
  | _ => none

def descend? (v : Value) (path : Text) : Option Value :=
  (path.pieces '.').foldlM child? v

end Value

namespace Scope

/-- Looks a path up that has no outward steps left: in the current frame alone if it says so, and
else its first segment from the innermost frame outwards. -/
def getHere (s : Scope) (path : Text) : Option Value :=
  if path = ".." then s.parent?.map data
  else
    match (Text.after? "this." path).or (Text.after? "./" path) with
    | some local_ => s.data.descend? local_
    | none =>
      match Text.cut ['.'] path with
      | none => s.frames.findSome? fun f => f.data.child? path
      | some (head, tail) =>
        (s.frames.findSome? fun f => f.data.child? head).bind fun v => v.descend? tail

/-- Takes the outward steps of a path, each to the frame around. -/
def getOutward : Scope → Text → Option Value
  | s, '.' :: '.' :: '/' :: rest => s.parent?.bind fun p => getOutward p rest
  | s, path => s.getHere path

/-- The paths that name the scope itself or what surrounds it, with what they lead to. -/
def special? (s : Scope) (around : Surroundings) (path : Text) : Option (Option Value) :=
  if path = "this" ∨ path = "." then some (some s.data)
  else if path = "@index" ∨ path = "scope.index" then some (s.index?.map Value.ofNat)
  else if path = "@key" ∨ path = "scope.key" then some (s.key?.map Value.str)
  else if path = "scope.filename" then some (around.filename.map Value.str)
  else if path = "scope.lineNumber" then some (some (.ofNat around.lineNumber))
  else match Text.after? "scope.vars." path with
    | some name => some (Dict.find? around.vars name)
    | none => if (Text.after? "scope." path).isSome then some none else none

def get (s : Scope) (around : Surroundings) (path : Text) : Option Value :=
  let path := path.trim
  match s.special? around path with
  | some found => found
  | none => s.getOutward path

end Scope

end Stencil
