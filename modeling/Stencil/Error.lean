import Stencil.Text.Basic

/-!
What can go wrong. A template that does not compile has a cause and a line; a warning changes
nothing about what is compiled; a compiled template can still fail on the data it is given.
-/

set_option autoImplicit false

namespace Stencil

inductive ErrorCode where
  | unsupportedInTag
  | unexpectedClose
  | strayElse
  /-- elements and marker bodies that overlap -/
  | unbalancedSection
  | unclosedSection
  | inlinePartialInText
  | invalidExpression
  deriving DecidableEq, Repr

def ErrorCode.message : ErrorCode → Text
  | .unsupportedInTag => "is currently not supported within a tag."
  | .unexpectedClose => "Closing tag without a matching open section."
  | .strayElse => "\x7b\x7belse\x7d\x7d outside of a section."
  | .unbalancedSection => "Section and element nesting do not match."
  | .unclosedSection => "Template ended with an unclosed section."
  | .inlinePartialInText => "Inline templates can only be defined in markup."
  | .invalidExpression => "Invalid expression."

structure CompileError where
  code : ErrorCode
  line : Nat
  filename : Option Text
  /-- what the message is about, such as the expression at fault -/
  detail : Option Text
  deriving DecidableEq, Repr

def placed (filename : Option Text) (line : Nat) (message : Text) : Text :=
  (match filename with
    | some name => name ++ [':']
    | none => []) ++ Text.ofNat line ++ [':', ' '] ++ message

namespace CompileError

def new (code : ErrorCode) (line : Nat) : CompileError := ⟨code, line, none, none⟩

def about (e : CompileError) (detail : Text) : CompileError := { e with detail := some detail }

def inFile (e : CompileError) (filename : Option Text) : CompileError :=
  { e with filename := e.filename.or filename }

theorem inFile_inFile (e : CompileError) (f g : Option Text) :
    (e.inFile f).inFile g = e.inFile (f.or g) := by
  simp [inFile, Option.or_assoc]

def message (e : CompileError) : Text :=
  placed e.filename e.line (match e.detail with
    | some detail => detail ++ [' '] ++ e.code.message
    | none => e.code.message)

end CompileError

inductive WarningCode where
  /-- a closing marker that names another body than the one it closes -/
  | unexpectedClosingTag
  /-- an attribute that looks like a binding and has no handler -/
  | unknownAttributeBinding
  | missingTemplateName
  deriving DecidableEq, Repr

def WarningCode.name : WarningCode → Text
  | .unexpectedClosingTag => "UnexpectedClosingTag"
  | .unknownAttributeBinding => "UnknownAttributeBinding"
  | .missingTemplateName => "MissingTemplateName"

structure CompileWarning where
  code : WarningCode
  line : Nat
  filename : Option Text
  text : Text
  deriving DecidableEq, Repr

def CompileWarning.message (w : CompileWarning) : Text := placed w.filename w.line w.text

inductive RenderError where
  | missingPartial (name : Text)
  | partialCompile (name : Text) (cause : CompileError)
  | unknownHelper (name : Text) (line : Nat)
  | helperFailed (name : Text) (line : Nat) (reason : Text)
  | handler (tag : Text) (reason : Text)
  deriving DecidableEq, Repr

def RenderError.message : RenderError → Text
  | .missingPartial name => "partial `" ++ name ++ "` was not found"
  | .partialCompile name cause =>
    "partial `" ++ name ++ "` failed to compile: " ++ cause.message
  | .unknownHelper name line => placed none line ("unknown helper `" ++ name ++ "`")
  | .helperFailed name line reason =>
    placed none line ("helper `" ++ name ++ "` failed: " ++ reason)
  | .handler tag reason => "<" ++ tag ++ "> handler failed: " ++ reason

end Stencil
