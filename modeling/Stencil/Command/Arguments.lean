import Stencil.Text.Basic

/-!
The command line. Options may stand anywhere, before or after the name of the command, and one that
may be given once may be given once on either side of it. A value follows its option, or is joined
to it. After `--` everything is an operand.
-/

set_option autoImplicit false

namespace Stencil

inductive Command where
  | render (template : Text) (data : Option Text) (partials : List (Text × Text)) (json : Bool)
  | check (patterns : List Text) (format : Text) (denyWarnings : Bool)
  deriving DecidableEq, Repr

inductive UsageError where
  | noCommand
  | unknownCommand (name : Text)
  | unexpected (argument : Text)
  | repeated (option : Text)
  | missingValue (option : Text)
  | unexpectedValue (option value : Text)
  | missingTemplate
  | conflict (option other : Text)
  | badPartial (argument reason : Text)
  deriving DecidableEq, Repr

def UsageError.message : UsageError → Text
  | .noCommand => "error: a subcommand is required"
  | .unknownCommand name => "error: unrecognized subcommand '" ++ name ++ "'"
  | .unexpected argument => "error: unexpected argument '" ++ argument ++ "' found"
  | .repeated option => "error: the argument '" ++ option ++ "' cannot be used multiple times"
  | .missingValue option =>
    "error: a value is required for '" ++ option ++ "' but none was supplied"
  | .unexpectedValue option value =>
    "error: unexpected value '" ++ value ++ "' for '" ++ option ++ "' found; no more were expected"
  | .missingTemplate =>
    "error: the following required arguments were not provided:\n  <TEMPLATE>"
  | .conflict option other =>
    "error: the argument '" ++ option ++ "' cannot be used with '" ++ other ++ "'"
  | .badPartial argument reason =>
    "error: invalid value '" ++ argument ++ "' for '--partial <NAME=PATH>': " ++ reason

def parsePartial (argument : Text) : Except Text (Text × Text) :=
  match Text.cut ['='] argument with
  | some (name, path) =>
    if name.isEmpty || path.isEmpty then .error (refusal argument) else .ok (name, path)
  | none => .error (refusal argument)
where
  refusal (argument : Text) : Text := "expected NAME=PATH, got `" ++ argument ++ "`"

inductive ValueKind where
  | nothing
  | word
  | path
  | pair
  deriving DecidableEq, Repr

/-- An option: its letter, its name, what it takes, how its value is called in messages, and
whether it may be given more than once. -/
structure OptionSpec where
  letter : Option Char
  name : Text
  kind : ValueKind
  value : Text
  many : Bool

namespace OptionSpec

def shown (o : OptionSpec) : Text :=
  "--".toList ++ o.name ++ if o.kind = .nothing then [] else " <".toList ++ o.value ++ ['>']

def check (o : OptionSpec) (value : Text) : Except UsageError Unit :=
  match o.kind with
  | .path => if value.isEmpty then .error (.missingValue o.shown) else .ok ()
  | .pair =>
    match parsePartial value with
    | .ok _ => .ok ()
    | .error reason => .error (.badPartial value reason)
  | _ => .ok ()

end OptionSpec

def globalOptions : List OptionSpec :=
  [⟨some 'v', "verbose", .nothing, [], false⟩, ⟨some 'q', "quiet", .nothing, [], false⟩]

def renderOptions : List OptionSpec :=
  [⟨some 'd', "data", .path, "DATA", false⟩, ⟨some 'p', "partial", .pair, "NAME=PATH", true⟩,
   ⟨none, "json", .nothing, [], false⟩]

def checkOptions : List OptionSpec :=
  [⟨some 'f', "format", .word, "FORMAT", false⟩, ⟨none, "deny-warnings", .nothing, [], false⟩]

/-- The options given so far on this side of the name of the command, each with its value, and the
operands. -/
structure Given where
  command : Option Text
  options : List (Text × Text)
  operands : List Text

namespace Given

def count (g : Given) (name : Text) : Nat := (g.options.filter fun o => o.1 = name).length

def value? (g : Given) (name : Text) : Option Text := g.options.lookup name

def has (g : Given) (name : Text) : Bool := g.count name ≠ 0

def specs (g : Given) : List OptionSpec :=
  globalOptions ++
    if g.command = some "render" then renderOptions
    else if g.command = some "check" then checkOptions
    else []

def addOption (g : Given) (o : OptionSpec) (value : Text) : Except UsageError Given :=
  if !o.many && g.has o.name then .error (.repeated o.shown)
  else do
    o.check value
    return { g with options := g.options ++ [(o.name, value)] }

def checkTogether (g : Given) : Except UsageError Unit :=
  if g.has "verbose" && g.has "quiet" then .error (.conflict "--verbose" "--quiet") else .ok ()

def addOperand (g : Given) (argument : Text) : Except UsageError Given :=
  match g.command with
  | none =>
    if argument = "render" ∨ argument = "check" then do
      g.checkTogether
      return { g with command := some argument, options := [] }
    else .error (.unknownCommand argument)
  | some command =>
    if command = "render" ∧ !g.operands.isEmpty then .error (.unexpected argument)
    else if command = "render" ∧ argument.isEmpty then .error (.missingValue "<TEMPLATE>")
    else .ok { g with operands := g.operands ++ [argument] }

/-- Options by letter, several of them in one argument; one that takes a value takes the rest of
the argument, or else the next one. The flag says whether the next one was taken. -/
def addLetters (g : Given) (argument : Text) (next : Option Text) :
    Text → Except UsageError (Given × Bool)
  | [] => .ok (g, false)
  | c :: r =>
    match g.specs.find? fun o => o.letter = some c with
    | none => .error (.unexpected argument)
    | some o =>
      if o.kind = .nothing then do
        let g ← g.addOption o []
        addLetters g argument next r
      else
        match r, next with
        | [], none => .error (.missingValue o.shown)
        | [], some value =>
          if isOption value then .error (.missingValue o.shown)
          else do return (← g.addOption o value, true)
        | '=' :: value, _ => do return (← g.addOption o value, false)
        | value, _ => do return (← g.addOption o value, false)
where
  isOption (t : Text) : Bool := t.head? = some '-' && t.length > 1

def addName (g : Given) (argument : Text) (next : Option Text) (body : Text) :
    Except UsageError (Given × Bool) :=
  let (name, joined) := match Text.cut ['='] body with
    | some (name, value) => (name, some value)
    | none => (body, none)
  match g.specs.find? fun o => o.name = name with
  | none => .error (.unexpected argument)
  | some o =>
    match o.kind, joined, next with
    | .nothing, none, _ => do return (← g.addOption o [], false)
    | .nothing, some value, _ => .error (.unexpectedValue o.shown value)
    | _, some value, _ => do return (← g.addOption o value, false)
    | _, none, none => .error (.missingValue o.shown)
    | _, none, some value =>
      if addLetters.isOption value then .error (.missingValue o.shown)
      else do return (← g.addOption o value, true)

/-- Takes arguments in; `operandsOnly` holds after `--`, and `skip` says that the next argument is
a value that has been taken. -/
def addAll (g : Given) (operandsOnly skip : Bool) : List Text → Except UsageError Given
  | [] => .ok g
  | argument :: rest =>
    if skip then addAll g operandsOnly false rest
    else if operandsOnly then do
      if g.command.isNone then throw (.unexpected argument)
      let g ← g.addOperand argument
      addAll g operandsOnly false rest
    else
      match argument with
      | ['-', '-'] => addAll g true false rest
      | '-' :: '-' :: body => do
        let (g, taken) ← g.addName argument rest.head? body
        addAll g operandsOnly taken rest
      | '-' :: c :: letters => do
        let (g, taken) ← g.addLetters argument rest.head? (c :: letters)
        addAll g operandsOnly taken rest
      | _ => do
        let g ← g.addOperand argument
        addAll g operandsOnly false rest

def partials (g : Given) : List (Text × Text) :=
  g.options.filterMap fun o =>
    if o.1 = "partial".toList then (parsePartial o.2).toOption else none

end Given

def Command.parse (arguments : List Text) : Except UsageError Command := do
  let g ← Given.addAll ⟨none, [], []⟩ false false arguments
  g.checkTogether
  match g.command with
  | none => throw .noCommand
  | some command =>
    if command = "render" then
      match g.operands with
      | [] => throw .missingTemplate
      | template :: _ => return .render template (g.value? "data") g.partials (g.has "json")
    else
      let patterns := if g.operands.isEmpty then [['.']] else g.operands
      return .check patterns ((g.value? "format").getD "text") (g.has "deny-warnings")

end Stencil
