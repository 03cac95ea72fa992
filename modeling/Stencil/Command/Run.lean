import Stencil.Command.Arguments
import Stencil.Command.Config
import Stencil.Command.Report
import Stencil.Markup.NodeData
import Stencil.Standard

/-!
Running a command. The files, the directory and the clock come from a host, in whatever monad the
host lives; a run gives back what goes to the two outputs and the exit code.
-/

set_option autoImplicit false

namespace Stencil

/-- Where a command runs. -/
structure Host (m : Type → Type) where
  /-- the directory that holds the configuration -/
  directory : m Text
  isPresent : Text → m Bool
  /-- the text of a file, or the reason why it cannot be read -/
  read : Text → m (Except Text Text)
  /-- what there is at a path and below it, by the names that lead there from the path -/
  walk : Text → m (List (List Text))
  clock : m Nat

structure Outcome where
  output : Text
  errors : Text
  code : Nat
  deriving DecidableEq, Repr

def Text.line (t : Text) : Text := t ++ ['\n']

def Text.ofDuration (nanoseconds : Nat) : Text :=
  if nanoseconds ≥ 1000000000 then amount 1000000000 "s"
  else if nanoseconds ≥ 1000000 then amount 1000000 "ms"
  else if nanoseconds ≥ 1000 then amount 1000 "µs"
  else amount 1 "ns"
where
  amount (size : Nat) (name : Text) : Text :=
    let scaled := (2 * nanoseconds * 10000 + size) / (2 * size)
    let places := Text.ofNat (10000 + scaled % 10000)
    Text.ofNat (scaled / 10000) ++ ['.'] ++ places.drop 1 ++ name

namespace Command

variable {m : Type → Type} [Monad m]

abbrev Step (m : Type → Type) := ExceptT Text m

abbrev Library.standard := Library.empty (δ := .standard)

def readFile (host : Host m) (path : Text) : Step m Text :=
  (ExceptT.mk (host.read path)).adapt fun reason => "Failed to read " ++ path ++ ": " ++ reason

def compileFile (host : Host m) (library : Library .standard) (path : Text) :
    Step m (Compiled .standard × Library .standard) := do
  let text ← readFile host path
  match library.compile fun serial => compile (.standard (some path)) serial text with
  | .ok compiled => return compiled
  | .error e => throw e.message

def addPartials (host : Host m) (library : Library .standard) (partials : List (Text × Text)) :
    Step m (Library .standard) :=
  partials.foldlM
    (fun library (name, path) => do
      let (c, library) ← compileFile host library path
      return library.insert name c.view)
    library

def readData (host : Host m) : Option Text → Step m Value
  | none => return .obj []
  | some path => do
    let text ← readFile host path
    match Json.parse text with
    | .ok v => return v
    | .error stop => throw ("Failed to parse " ++ path ++ ": " ++ stop.message text)

def failureMessage : Failure → Text
  | .error e => e.message
  | .tooDeep => "views are nested too deep"

/-- Renders a template. The partials are registered in order, so that a later one of a name
wins. -/
def renderFile (host : Host m) (template : Text) (data : Option Text)
    (partials : List (Text × Text)) (json : Bool) : Step m Text := do
  let library ← addPartials host .empty partials
  let v ← readData host data
  let (c, library) ← compileFile host library template
  match (c.view.render (.standard .standard) (.root v)).run.run ⟨.empty, library⟩ with
  | (.ok nodes, _) => return if json then Json.pretty nodes.toData else nodes.html
  | (.error e, _) => throw (failureMessage e)

def templatesAt (host : Host m) (path : Text) : m (List Text) := do
  let found ← host.walk path
  let found := found.filter fun names => !names.any Path.isHidden
  return (found.map fun names => names.foldl Path.join path).filter Path.isTemplate

def checkFile (host : Host m) (path : Text) : m FileReport := do
  match ← (compileFile host .empty path).run with
  | .ok (c, _) => return ⟨path, c.warnings, none⟩
  | .error reason => return ⟨path, [], some reason⟩

def failed (reason : Text) : Outcome := ⟨[], (red "Error:" ++ [' '] ++ reason).line, 1⟩

def checkFiles (host : Host m) (config : Config) (base : Text) (patterns : List Text)
    (format : Text) (denyWarnings : Bool) : m Outcome := do
  let start ← host.clock
  match ← (addPartials host .empty (config.partialPaths base)).run with
  | .error reason => return failed reason
  | .ok _ =>
    let files := (← patterns.mapM (templatesAt host)).flatten
    if files.isEmpty then
      let shown := Text.join ", " (patterns.map Text.quoted)
      return ⟨[], Text.line ("No .stache files found matching patterns: [" ++ shown ++ "]"), 0⟩
    else
      let report : Report ← files.mapM (checkFile host)
      let code := if report.fails (denyWarnings || config.warningsAsErrors) then 1 else 0
      if format = "json" then return ⟨(Json.pretty report.toData).line, [], code⟩
      else
        let elapsed := (← host.clock) - start
        let summary := "Checked " ++ Text.ofNat report.length ++ " files in " ++
          Text.ofDuration elapsed
        return ⟨(report.lines ++ [summary]).flatMap Text.line, [], code⟩

def loadConfig (host : Host m) (base : Text) : m (Config × Text) := do
  let path := Path.join base configFile
  let unusable (reason : Text) : Config × Text :=
    (.default, (yellow "Warning:" ++ [' '] ++ reason).line)
  if ← host.isPresent path then
    match ← (readFile host path).run with
    | .error reason => return unusable reason
    | .ok text =>
      match Config.parse text with
      | .ok config => return (config, [])
      | .error stop => return unusable ("Failed to parse " ++ path ++ ": " ++ stop.message text)
  else return (.default, [])

def run (host : Host m) (arguments : List Text) : m Outcome := do
  match Command.parse arguments with
  | .error e => return ⟨[], e.message ++ "\n\nFor more information, try '--help'.\n", 2⟩
  | .ok command =>
    let base ← host.directory
    let (config, warning) ← loadConfig host base
    let outcome ← match command with
      | .render template data partials json => do
        let partials := config.partialPaths base ++ partials
        match ← (renderFile host template data partials json).run with
        | .ok text => pure ⟨Text.line text, [], 0⟩
        | .error reason => pure (failed reason)
      | .check patterns format denyWarnings =>
        checkFiles host config base patterns format denyWarnings
    return { outcome with errors := warning ++ outcome.errors }

end Command

end Stencil
