import Stencil.Command.Path
import Stencil.Data.Reader
import Stencil.Data.Writer
import Stencil.Text.Caseless
import Stencil.Text.Quoted

/-!
The configuration file: partials to register before anything is rendered, the level of the log,
and how strict a check is. Every field may be left out and unknown ones are passed over. An object
may also be written as a list of its fields in order.
-/

set_option autoImplicit false

namespace Stencil

def configFile : Text := "tessera.config.json"

inductive LogLevel where
  | error
  | warn
  | info
  | debug
  | trace
  deriving DecidableEq, Repr

namespace LogLevel

def all : List LogLevel := [.error, .warn, .info, .debug, .trace]

def name : LogLevel → Text
  | .error => "ERROR"
  | .warn => "WARN"
  | .info => "INFO"
  | .debug => "DEBUG"
  | .trace => "TRACE"

/-- The level of a name in any case, or of its place in the list of levels. -/
def ofText? (t : Text) : Option LogLevel :=
  match t.natural? with
  | some 0 => none
  | some (n + 1) => all[n]?
  | none => all.find? fun l => Text.sameLetters l.name t

end LogLevel

structure Config where
  schema : Option Text
  /-- paths of partials by name, in the order of the names -/
  partials : List (Text × Text)
  logLevel : Option Text
  warningsAsErrors : Bool
  deriving DecidableEq, Repr

namespace Config

def default : Config := ⟨none, [], none, false⟩

def level (c : Config) : LogLevel := (c.logLevel.bind LogLevel.ofText?).getD .warn

def partialPaths (c : Config) (base : Text) : List (Text × Text) :=
  c.partials.map fun (name, path) => (name, Path.join base path)

def toData (c : Config) : Value :=
  let schema := match c.schema with
    | some s => [("$schema".toList, Value.str s)]
    | none => []
  let logLevel := match c.logLevel with
    | some l => [("logLevel".toList, Value.str l)]
    | none => []
  let partials := Value.obj (c.partials.map fun (name, path) => (name, .str path))
  let check := Value.obj [("warningsAsErrors".toList, .bool c.warningsAsErrors)]
  .obj (schema ++ [("partials".toList, partials)] ++ logLevel ++ [("check".toList, check)])

open Json Json.Read

def mismatch {α : Type} (expected : Text) : Read α := do
  let found ← do
    match ← peekToken with
    | none => failNext .endInValue
    | some 'n' => do skip; word "ull"; pure ("null" : Text)
    | some 't' => do skip; word "rue"; pure "boolean `true`"
    | some 'f' => do skip; word "alse"; pure "boolean `false`"
    | some '"' => do pure ("string " ++ Text.quoted (← string true))
    | some '-' => do skip; pure (numberFound (← number true))
    | some '[' => pure "sequence"
    | some '{' => pure "map"
    | some c => if c.isDigit then pure (numberFound (← number false)) else failNext .valueExpected
  fail (.mismatch found expected)
where
  numberFound : Number → Text
    | .int n => "integer `" ++ Text.ofInt n ++ "`"
    | .float x => "floating point `" ++ (Number.float x).toText ++ "`"

def text (expected : Text) : Read Text := do
  if (← peekToken) = some '"' then string true else mismatch expected

def optionalText : Read (Option Text) := do
  if (← peekToken) = some 'n' then
    skip
    word "ull"
    return none
  else return some (← text "a string")

def bool : Read Bool := do
  match ← peekToken with
  | some 't' => do skip; word "rue"; return true
  | some 'f' => do skip; word "alse"; return false
  | _ => mismatch "a boolean"

def fields {σ : Type} (field : Text → σ → Read σ) : Nat → Bool → σ → Read σ
  | 0, _, _ => fail .tooDeep
  | fuel + 1, first, s => do
    if ← hasName first then
      let name ← string true
      fields field fuel false (← field name s)
    else return s

/-- Reads the value of a field that must not have been read before. One that has been is reported
after the closing brace, if that is what comes next. -/
def once {α : Type} (name : Text) (seen : Option α) (read : Read α) : Read (Option α) := do
  if seen.isSome then
    if (← peekToken) = some '}' then skip
    fail (.duplicateField name)
  else
    colon
    return some (← read)

def record {σ : Type} (expected : Text) (start : σ) (field : Text → σ → Read σ)
    (inOrder : List (σ → Read σ)) : Read σ := do
  match ← peekToken with
  | some '{' =>
    skip
    let s ← fields field ((← get).rest.length + 1) true start
    objectEnd
    return s
  | some '[' =>
    skip
    let s ← items inOrder true start
    listEnd
    return s
  | _ => mismatch expected
where
  items : List (σ → Read σ) → Bool → σ → Read σ
    | [], _, s => pure s
    | read :: reads, first, s => do
      if ← hasItem first then items reads false (← read s) else return s

structure Fields where
  schema : Option (Option Text)
  partials : Option (List (Text × Text))
  logLevel : Option (Option Text)
  check : Option Bool

def insertPath (name path : Text) : List (Text × Text) → List (Text × Text)
  | [] => [(name, path)]
  | (n, p) :: ps =>
    if name = n then (n, path) :: ps
    else if name < n then (name, path) :: (n, p) :: ps
    else (n, p) :: insertPath name path ps

def paths : Read (List (Text × Text)) := do
  if (← peekToken) = some '{' then
    skip
    let ps ← fields
      (fun name ps => do
        colon
        return insertPath name (← text "path string") ps) ((← get).rest.length + 1) true []
    objectEnd
    return ps
  else mismatch "a map"

def check : Read Bool := do
  let strict := "warningsAsErrors".toList
  let s ← record "struct CheckConfig" none
    (fun name s =>
      if name = strict then once name s bool
      else do
        colon
        skipValue
        return s)
    [fun _ => some <$> bool]
  return s.getD false

def whole : Read Config := do
  let s ← record "struct TesseraConfig" (⟨none, none, none, none⟩ : Fields)
    (fun name s => do
      if name = "$schema" then return { s with schema := ← once name s.schema optionalText }
      else if name = "partials" then return { s with partials := ← once name s.partials paths }
      else if name = "logLevel" then
        return { s with logLevel := ← once name s.logLevel optionalText }
      else if name = "check" then return { s with check := ← once name s.check check }
      else
        colon
        skipValue
        return s)
    [fun s => do return { s with schema := some (← optionalText) },
     fun s => do return { s with partials := some (← paths) },
     fun s => do return { s with logLevel := some (← optionalText) },
     fun s => do return { s with check := some (← check) }]
  return ⟨s.schema.join, s.partials.getD [], s.logLevel.join, s.check.getD false⟩

def parse (t : Text) : Except Stop Config := Read.whole Config.whole t

end Config

end Stencil
