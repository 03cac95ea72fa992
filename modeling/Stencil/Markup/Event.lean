import Stencil.Text.Basic

/-!
What a markup source consists of, in order. An event stands at a spot of the source; a start tag
is a `tagStart`, its attributes and markers, and a `tagEnd`. The line of an offset is looked up in
a table of the line breaks.
-/

set_option autoImplicit false

namespace Stencil

/-- A place in a source: how many bytes stand before it, and its line. -/
structure Spot where
  offset : Nat
  line : Nat
  deriving DecidableEq, Repr

namespace Spot

def start : Spot := ⟨0, 1⟩

def past (s : Spot) (t : Text) : Spot := ⟨s.offset + t.bytes, s.line + t.breaks⟩

theorem past_append (s : Spot) (t u : Text) : s.past (t ++ u) = (s.past t).past u := by
  simp [past, Nat.add_assoc]

end Spot

def newlinesFrom : Nat → List UInt8 → List Nat
  | _, [] => []
  | offset, b :: bs =>
    if b = asciiByte '\n' then offset :: newlinesFrom (offset + 1) bs
    else newlinesFrom (offset + 1) bs

def newlines (source : Text) : Array Nat := (newlinesFrom 0 source.utf8).toArray

/-- Looks a number up in the window of a sorted table from `lo` up to `hi`. The answer is where it
stands, or else where it would have to stand. -/
def searchIn (table : Array Nat) (x lo hi : Nat) (h : hi ≤ table.size) : Except Nat Nat :=
  if hlt : lo < hi then
    let mid := lo + (hi - lo) / 2
    have hmid : mid < hi := by omega
    if table[mid] = x then .ok mid
    else if table[mid] < x then searchIn table x (mid + 1) hi h
    else searchIn table x lo mid (by omega)
  else .error lo
termination_by hi - lo

def search (table : Array Nat) (x : Nat) : Except Nat Nat :=
  searchIn table x 0 table.size (Nat.le_refl _)

def lineAt (source : Text) (offset : Nat) : Nat :=
  match search (newlines source) offset with
  | .ok i => i + 1
  | .error i => i + 1

/-- The line as a word of 32 bits, which drops what does not fit. -/
def lineWord (source : Text) (offset : Nat) : UInt32 := .ofNat (lineAt source offset)

inductive Event where
  | tagStart (tag : Text) (unary : Bool)
  | tagEnd (tag : Text) (unary : Bool)
  | close (tag : Text)
  | attrStart (name : Text)
  | attrValue (value : Text)
  | attrEnd (name : Text)
  | chars (text : Text)
  | marker (body : Text)
  | comment (text : Text)
  | done
  deriving DecidableEq, Repr

structure Located where
  spot : Spot
  event : Event
  deriving DecidableEq, Repr

end Stencil
