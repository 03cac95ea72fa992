import Stencil.Render.Run
import Stencil.Template.Compile

/-!
The standard dialect: expressions by the grammar of this library, and two custom tags. A `content`
tag renders its content in the scope it stands in; a `view-template` tag is taken out when the
template is compiled and renders nothing.
-/

set_option autoImplicit false

namespace Stencil

inductive BuiltinTag where
  | content
  | definition
  deriving DecidableEq, Repr

def Dialect.standard : Dialect := ⟨Expression, BuiltinTag, Empty⟩

def contentTag : Text := "content"

def builtinTags {α : Type} (handler : BuiltinTag → α) : Dict α :=
  [(contentTag, handler .content), (definitionTag, handler .definition)]

def BuiltinTag.scope? : BuiltinTag → Scope → Option Scope
  | .content, scope => some scope
  | .definition, _ => none

def Expression.compileAt (mode : Mode) (source : Text) (site : Site) :
    Except CompileError Expression :=
  (compile mode source site.line).mapError fun e => e.inFile site.filename

def Language.standard : Language .standard where
  split := Marker.split
  compile := Expression.compileAt
  closingName := Expression.closingName

def Handlers.standard : Handlers .standard := ⟨builtinTags id, [], []⟩

def Options.standard (filename : Option Text) : Options .standard where
  filename := filename
  language := .standard
  handlers := .standard
  control := true
  standaloneLines := true

def loadStandard : Load .standard := fun serial filename text =>
  (compile (.standard filename) serial text).map Compiled.view

def Semantics.standard (helpers : HelperTable) : Semantics .standard where
  value := Expression.value helpers
  branch := Expression.branch helpers
  tag handler call element := pure (element, BuiltinTag.scope? handler call.scope)
  attr handler _ _ := nomatch handler
  load := loadStandard

end Stencil
