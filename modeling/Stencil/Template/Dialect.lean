import Stencil.Dict
import Stencil.Error
import Stencil.Marker

/-!
What a template is built from beside markup. A dialect names the types of its expressions and of
the handlers that custom tags and attributes call. How marker bodies become expressions is the
dialect's language; which tags and attributes have handlers is settled by the handlers that a
template is compiled with.
-/

set_option autoImplicit false

namespace Stencil

structure Dialect where
  Expr : Type
  TagHandler : Type
  AttrHandler : Type

structure Site where
  tag : Option Text
  attr : Option Text
  /-- whether the innermost thing around is no plain element -/
  directlyNested : Bool
  /-- whether the element around holds nothing but text -/
  inRawText : Bool
  line : Nat
  filename : Option Text

structure Language (δ : Dialect) where
  split : Text → Mode × Text
  compile : Mode → Text → Site → Except CompileError δ.Expr
  /-- the name that a closing marker is expected to repeat, empty if there is none -/
  closingName : δ.Expr → Text

/-- Handlers by tag, by attribute name and by a test on attribute names. -/
structure Handlers (δ : Dialect) where
  tags : Dict δ.TagHandler
  attrs : Dict δ.AttrHandler
  patterns : List ((Text → Bool) × δ.AttrHandler)

namespace Handlers

variable {δ : Dialect}

def empty : Handlers δ := ⟨[], [], []⟩

def tag? (h : Handlers δ) (tag : Text) : Option δ.TagHandler := Dict.find? h.tags tag

/-- A handler of the name itself comes before one whose test it passes. -/
def attr? (h : Handlers δ) (name : Text) : Option δ.AttrHandler :=
  (Dict.find? h.attrs name).or ((h.patterns.find? fun p => p.1 name).map Prod.snd)

end Handlers

structure Options (δ : Dialect) where
  filename : Option Text
  language : Language δ
  handlers : Handlers δ
  /-- whether dashes in markers trim the blanks around them -/
  control : Bool
  /-- whether lines with nothing but a marker are reduced to it -/
  standaloneLines : Bool

def Options.asWritten {δ : Dialect} (o : Options δ) : Options δ :=
  { o with control := false, standaloneLines := false }

end Stencil
