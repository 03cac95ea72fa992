import Stencil.Markup.Scan
import Stencil.Template.Whitespace
import Stencil.Template.Assembly
import Stencil.Template.View

/-!
From the text of a template to a view: white space is cleaned as the options say, the markup is
scanned, and its events are put together until one of them is at fault.
-/

set_option autoImplicit false

namespace Stencil

structure Compiled (δ : Dialect) where
  view : View δ
  warnings : List CompileWarning

variable {δ : Dialect}

def Options.clean (o : Options δ) (template : Text) : Text :=
  let text := if o.control then Whitespace.control template else template
  if o.standaloneLines then Whitespace.standaloneLines text else text

def compileEvents (o : Options δ) (serial : Nat) (events : List Located) :
    Except CompileError (Compiled δ) := do
  let a ← events.foldlM (Assembly.step o) Assembly.empty
  let body ← a.finish
  return ⟨.template serial body a.partials o.filename, a.warnings⟩

def compile (o : Options δ) (serial : Nat) (template : Text) : Except CompileError (Compiled δ) :=
  (compileEvents o serial (scan (o.clean template))).mapError fun e => e.inFile o.filename

end Stencil
