import Stencil.Data.Value
import Stencil.Error

/-!
What a check of template files found, as lines for a reader or as data.
-/

set_option autoImplicit false

namespace Stencil

structure FileReport where
  file : Text
  warnings : List CompileWarning
  error : Option Text
  deriving DecidableEq, Repr

abbrev Report := List FileReport

def red (word : Text) : Text := "\x1b[31m" ++ word ++ "\x1b[0m"

def yellow (word : Text) : Text := "\x1b[33m" ++ word ++ "\x1b[0m"

namespace FileReport

def lines (r : FileReport) : List Text :=
  (r.error.toList.map fun e => red "error" ++ [' '] ++ e) ++
    r.warnings.map fun w => yellow "warning" ++ [' '] ++ w.message

def warningData (w : CompileWarning) : Value :=
  .obj [("code".toList, .str w.code.name), ("line".toList, .ofNat w.line),
    ("filename".toList, match w.filename with
      | some name => .str name
      | none => .null),
    ("message".toList, .str w.text)]

def toData (r : FileReport) : Value :=
  .obj ([("file".toList, .str r.file), ("warnings".toList, .arr (r.warnings.map warningData))] ++
    r.error.toList.map fun e => ("error".toList, .str e))

end FileReport

namespace Report

def errorCount (r : Report) : Nat := r.countP fun f => f.error.isSome

def warningCount (r : Report) : Nat := r.foldr (fun f n => f.warnings.length + n) 0

def fails (r : Report) (denyWarnings : Bool) : Bool :=
  r.errorCount ≠ 0 || denyWarnings && r.warningCount ≠ 0

def lines (r : Report) : List Text :=
  r.flatMap FileReport.lines ++
    [[], Text.ofNat r.errorCount ++ " error(s), ".toList ++ Text.ofNat r.warningCount ++
      " warning(s) in ".toList ++ Text.ofNat r.length ++ " file(s)".toList]

def toData (r : Report) : Value :=
  .obj [("files".toList, .arr (r.map FileReport.toData)),
    ("errorCount".toList, .ofNat r.errorCount), ("warningCount".toList, .ofNat r.warningCount),
    ("fileCount".toList, .ofNat r.length)]

end Report

end Stencil
