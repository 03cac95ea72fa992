import Stencil.Data.Writer
import Stencil.Expression.Eval
import Stencil.Markup.Node
import Stencil.Template.View

/-!
What a render works with. Its state is the context that the frames of one render share and the
library of partials; both survive a failure. The semantics of a dialect says what its expressions
and its handlers do. A handler is given the element it is called on and may render the bodies it
is handed.
-/

set_option autoImplicit false

namespace Stencil

structure Context (δ : Dialect) where
  partials : Dict (View δ)
  /-- the template that is being rendered -/
  view : Option (View δ)
  around : Surroundings

structure RenderState (δ : Dialect) where
  context : Context δ
  library : Library δ

/-- Why a render stopped: an error of the template, or views nested too deep in one another. -/
inductive Failure where
  | error (e : RenderError)
  | tooDeep

abbrev RenderM (δ : Dialect) := ExceptT Failure (StateM (RenderState δ))

variable {δ : Dialect}

def Context.empty : Context δ := ⟨[], none, .none⟩

def Context.setVar (c : Context δ) (name : Text) (v : Value) : Context δ :=
  { c with around := { c.around with vars := c.around.vars.insert name v } }

def Context.setLine (c : Context δ) (line : Nat) : Context δ :=
  { c with around := { c.around with lineNumber := line } }

def Context.setFilename (c : Context δ) (filename : Option Text) : Context δ :=
  { c with around := { c.around with filename } }

namespace RenderM

def context : RenderM δ (Context δ) := do return (← get).context

def around : RenderM δ Surroundings := do return (← context).around

def modifyContext (f : Context δ → Context δ) : RenderM δ Unit :=
  modify fun s => { s with context := f s.context }

def fail {α : Type} (e : RenderError) : RenderM δ α := throw (.error e)

def lift {α : Type} : Except RenderError α → RenderM δ α
  | .ok a => pure a
  | .error e => fail e

/-- Runs an action with another view and file name in the context, and puts back those that were
there however the action ends. -/
def within {α : Type} (view : Option (View δ)) (filename : Option Text) (act : RenderM δ α) :
    RenderM δ α := fun s =>
  let inner := { s.context with view }.setFilename filename
  let (r, t) := act { s with context := inner }
  let outer := { t.context with view := s.context.view }.setFilename s.context.around.filename
  (r, { t with context := outer })

end RenderM

/-- What the handler of a custom tag is given beside the element. -/
structure TagCall (δ : Dialect) where
  tag : Text
  scope : Scope
  body : Option (Body δ)
  templateType : Text
  directlyNested : Bool
  templates : Option (Dict (Body δ))
  render : Body δ → Scope → RenderM δ Fragment

/-- What the handler of an attribute is given beside the element. -/
structure AttrCall where
  name : Text
  scope : Scope

structure Semantics (δ : Dialect) where
  value : δ.Expr → Scope → Surroundings → Except RenderError Value
  branch : δ.Expr → Scope → Surroundings → Except RenderError Branch
  /-- changes an element; a scope that is returned has the tag's content rendered in it -/
  tag : δ.TagHandler → TagCall δ → Element → RenderM δ (Element × Option Scope)
  attr : δ.AttrHandler → AttrCall → Element → RenderM δ Element
  /-- compiles the templates of the library -/
  load : Load δ

namespace Semantics

def valueIn (sem : Semantics δ) (e : δ.Expr) (scope : Scope) : RenderM δ Value := do
  RenderM.lift (sem.value e scope (← RenderM.around))

def branchIn (sem : Semantics δ) (e : δ.Expr) (scope : Scope) : RenderM δ Branch := do
  RenderM.lift (sem.branch e scope (← RenderM.around))

def textIn (sem : Semantics δ) (e : δ.Expr) (scope : Scope) : RenderM δ Text :=
  Value.toText <$> sem.valueIn e scope

end Semantics

end Stencil
