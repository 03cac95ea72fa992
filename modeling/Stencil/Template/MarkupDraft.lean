import Stencil.Template.Draft

/-!
Markup being written. Every open section has its own stack of open elements: content goes into
the innermost element of the innermost section, or into the section itself where no element is
open in it. So an element closes in the section it was opened in.
-/

set_option autoImplicit false

namespace Stencil

structure OpenElement (δ : Dialect) where
  head : ElementHead δ
  children : Body δ

/-- The two bodies of a section and the elements open in it, innermost first. -/
structure Layer (δ : Dialect) where
  primary : Body δ
  inverse : Option (Body δ)
  elements : List (OpenElement δ)

inductive Opener (δ : Dialect) where
  | branch (mode : Mode) (expr : δ.Expr)
  | inlineTemplate (name : Text)
  /-- the content of a custom tag -/
  | custom

structure Section (δ : Dialect) where
  opener : Opener δ
  layer : Layer δ

structure MarkupDraft (δ : Dialect) where
  root : Layer δ
  sections : List (Section δ)

variable {δ : Dialect}

def Opener.mode? : Opener δ → Option Mode
  | .branch mode _ => some mode
  | .inlineTemplate _ => some .inlineTemplate
  | .custom => none

namespace Layer

def empty : Layer δ := ⟨[], none, []⟩

def add (l : Layer δ) (p : Part δ) : Layer δ :=
  match l.elements with
  | e :: es => { l with elements := { e with children := Part.push e.children p } :: es }
  | [] =>
    match l.inverse with
    | some ps => { l with inverse := some (Part.push ps p) }
    | none => { l with primary := Part.push l.primary p }

end Layer

namespace MarkupDraft

def empty : MarkupDraft δ := ⟨.empty, []⟩

def top (d : MarkupDraft δ) : Layer δ :=
  match d.sections with
  | [] => d.root
  | s :: _ => s.layer

def setTop (d : MarkupDraft δ) (l : Layer δ) : MarkupDraft δ :=
  match d.sections with
  | [] => { d with root := l }
  | s :: ss => { d with sections := { s with layer := l } :: ss }

def add (d : MarkupDraft δ) (p : Part δ) : MarkupDraft δ := d.setTop (d.top.add p)

def addText (d : MarkupDraft δ) (t : Text) : MarkupDraft δ :=
  if t.isEmpty then d else d.add (.text t)

def openElement (d : MarkupDraft δ) (head : ElementHead δ) : MarkupDraft δ :=
  d.setTop { d.top with elements := ⟨head, []⟩ :: d.top.elements }

def takeElement? (d : MarkupDraft δ) : Option (OpenElement δ × MarkupDraft δ) :=
  match d.top.elements with
  | [] => none
  | e :: es => some (e, d.setTop { d.top with elements := es })

def openSection (d : MarkupDraft δ) (opener : Opener δ) : MarkupDraft δ :=
  { d with sections := ⟨opener, .empty⟩ :: d.sections }

/-- Takes a section off the draft; every element in it must have been closed. -/
def takeLayer (d : MarkupDraft δ) (s : Section δ) (ss : List (Section δ)) :
    Except ErrorCode (Layer δ × MarkupDraft δ) :=
  if s.layer.elements.isEmpty then .ok (s.layer, { d with sections := ss })
  else .error .unbalancedSection

def closeCustom (d : MarkupDraft δ) : Except ErrorCode (Body δ × MarkupDraft δ) :=
  match d.sections with
  | ⟨.custom, layer⟩ :: ss => do
    let (l, d) ← d.takeLayer ⟨.custom, layer⟩ ss
    return (l.primary, d)
  | _ => .error .unbalancedSection

def closeBranch (d : MarkupDraft δ) : Except ErrorCode (MarkupDraft δ) :=
  match d.sections with
  | [] => .error .unexpectedClose
  | ⟨.branch mode e, layer⟩ :: ss => do
    let (l, d) ← d.takeLayer ⟨.branch mode e, layer⟩ ss
    return d.add (.branch e l.primary l.inverse)
  | _ :: _ => .error .unbalancedSection

def closeInline (d : MarkupDraft δ) : Except ErrorCode (MarkupDraft δ × Text × Body δ) :=
  match d.sections with
  | ⟨.inlineTemplate name, layer⟩ :: ss => do
    let (l, d) ← d.takeLayer ⟨.inlineTemplate name, layer⟩ ss
    return (d, name, l.primary)
  | _ => .error .unbalancedSection

def turn (d : MarkupDraft δ) : Except ErrorCode (MarkupDraft δ) :=
  match d.sections with
  | ⟨.branch mode e, layer⟩ :: ss =>
    if layer.elements.isEmpty then
      let inverse := some (layer.inverse.getD [])
      .ok { d with sections := ⟨.branch mode e, { layer with inverse }⟩ :: ss }
    else .error .unbalancedSection
  | _ => .error .strayElse

def finish (d : MarkupDraft δ) : Except ErrorCode (Body δ) :=
  if d.sections.isEmpty && d.root.elements.isEmpty then .ok d.root.primary
  else .error .unclosedSection

instance : Draft δ (MarkupDraft δ) where
  addText := addText
  addValue d e escaped := d.add (.value e escaped)
  addCall d c := d.add (.call c)
  openBranch d mode e := d.openSection (.branch mode e)
  openInline d name := .ok (d.openSection (.inlineTemplate name))
  closeBranch := closeBranch
  closeInline := closeInline
  turn := turn
  innermost? d := d.sections.head?.bind fun s => s.opener.mode?

end MarkupDraft

end Stencil
