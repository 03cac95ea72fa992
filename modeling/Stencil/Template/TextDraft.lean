import Stencil.Template.Draft

/-!
Text being written: the value of an attribute, text inside a tag, or the content of an element
that holds only text. It has branches and no inline templates.
-/

set_option autoImplicit false

namespace Stencil

structure TextLayer (δ : Dialect) where
  primary : List (TextPart δ)
  inverse : Option (List (TextPart δ))

structure TextSection (δ : Dialect) where
  mode : Mode
  expr : δ.Expr
  layer : TextLayer δ

/-- The open sections, innermost first, over a root. While `quoteValues` holds, escaped values are
written with references. -/
structure TextDraft (δ : Dialect) where
  root : TextLayer δ
  sections : List (TextSection δ)
  quoteValues : Bool

variable {δ : Dialect}

def TextLayer.empty : TextLayer δ := ⟨[], none⟩

def TextLayer.add (l : TextLayer δ) (p : TextPart δ) : TextLayer δ :=
  match l.inverse with
  | some ps => { l with inverse := some (TextPart.push ps p) }
  | none => { l with primary := TextPart.push l.primary p }

namespace TextDraft

def empty : TextDraft δ := ⟨.empty, [], false⟩

def add (d : TextDraft δ) (p : TextPart δ) : TextDraft δ :=
  match d.sections with
  | [] => { d with root := d.root.add p }
  | s :: ss => { d with sections := { s with layer := s.layer.add p } :: ss }

def addText (d : TextDraft δ) (t : Text) : TextDraft δ :=
  if t.isEmpty then d else d.add (.static t)

def addValue (d : TextDraft δ) (e : δ.Expr) (escaped : Bool) : TextDraft δ :=
  d.add (.value e (escaped && d.quoteValues))

def openBranch (d : TextDraft δ) (mode : Mode) (e : δ.Expr) : TextDraft δ :=
  { d with sections := ⟨mode, e, .empty⟩ :: d.sections }

def closeBranch (d : TextDraft δ) : Except ErrorCode (TextDraft δ) :=
  match d.sections with
  | [] => .error .unexpectedClose
  | s :: ss => .ok ({ d with sections := ss }.add (.branch s.expr s.layer.primary s.layer.inverse))

def turn (d : TextDraft δ) : Except ErrorCode (TextDraft δ) :=
  match d.sections with
  | [] => .error .strayElse
  | s :: ss =>
    let inverse := some (s.layer.inverse.getD [])
    .ok { d with sections := { s with layer := { s.layer with inverse } } :: ss }

def finish (d : TextDraft δ) : Except ErrorCode (List (TextPart δ)) :=
  match d.sections with
  | [] => .ok d.root.primary
  | _ :: _ => .error .unclosedSection

instance : Draft δ (TextDraft δ) where
  addText := addText
  addValue := addValue
  addCall d c := d.add (.call c)
  openBranch := openBranch
  openInline _ _ := .error .inlinePartialInText
  closeBranch := closeBranch
  closeInline _ := .error .inlinePartialInText
  turn := turn
  innermost? d := d.sections.head?.map TextSection.mode

end TextDraft

end Stencil
