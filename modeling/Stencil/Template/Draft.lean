import Stencil.Template.Part

/-!
Bodies being written. A draft is a stack of open sections over a root; what is added goes to the
innermost one. The markers that open, turn and close sections mean the same in markup and in text,
so both kinds of draft offer the operations below, and `Draft.apply` applies a marker to either.
-/

set_option autoImplicit false

namespace Stencil

class Draft (δ : outParam Dialect) (D : Type) where
  addText : D → Text → D
  addValue : D → δ.Expr → Bool → D
  addCall : D → PartialCall δ → D
  openBranch : D → Mode → δ.Expr → D
  openInline : D → Text → Except ErrorCode D
  /-- closes the innermost branch and adds it to what is around -/
  closeBranch : D → Except ErrorCode D
  /-- closes the innermost inline template and hands over its name and body -/
  closeInline : D → Except ErrorCode (D × Text × Body δ)
  turn : D → Except ErrorCode D
  /-- the mode of the marker that opened the innermost section -/
  innermost? : D → Option Mode

inductive Change (δ : Dialect) where
  | none
  /-- a section that its closing marker is expected to name -/
  | opened (name : Text)
  /-- the end of a section, which may have defined an inline template -/
  | closed (definition : Option (Text × Body δ))

namespace Draft

variable {δ : Dialect} {D : Type} [Draft δ D]

def splitCall (expression : Text) : Text × Text :=
  match expression.cutAtBlank with
  | some (name, context) => (name, context.trim)
  | none => (expression, [])

def atLine {α : Type} (line : Nat) (detail : Option Text) (r : Except ErrorCode α) :
    Except CompileError α :=
  r.mapError fun code => { CompileError.new code line with detail }

def close (d : D) (expression : Text) (line : Nat) : Except CompileError (D × Change δ) := do
  let detail := some (Marker.written ('/' :: expression))
  if innermost? d = some .inlineTemplate then
    let (d, name, body) ← atLine line detail (closeInline d)
    return (d, .closed (some (if expression.isEmpty then name else expression, body)))
  else
    let d ← atLine line detail (closeBranch d)
    return (d, .closed none)

def apply (language : Language δ) (site : Site) (d : D) (mode : Mode) (expression : Text) :
    Except CompileError (D × Change δ) :=
  match mode with
  | .call => do
    let (name, context) := splitCall expression
    if name.isEmpty then
      throw ((CompileError.new .invalidExpression site.line).about "`>`")
    else if context.isEmpty then return (addCall d ⟨name, none⟩, .none)
    else
      let e ← language.compile .escaped context site
      return (addCall d ⟨name, some e⟩, .none)
  | .close => close d expression site.line
  | .escaped => do
    let e ← language.compile mode expression site
    return (addValue d e true, .none)
  | .unescaped => do
    let e ← language.compile mode expression site
    return (addValue d e false, .none)
  | .branch | .inverse => do
    let e ← language.compile mode expression site
    return (openBranch d mode e, .opened (language.closingName e))
  | .inlineTemplate => do
    let d ← atLine site.line none (openInline d expression)
    return (d, .opened expression)
  | .comment => return (d, .none)

end Draft

end Stencil
