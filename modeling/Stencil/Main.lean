import Stencil.Command.Run

/-!
The command line on the files of the machine it runs on.
-/

set_option autoImplicit false

namespace Stencil

def fileReason : IO.Error → Text
  | .noFileOrDirectory _ code details => describe details code
  | .inappropriateType _ code details => describe details code
  | .permissionDenied _ code details => describe details code
  | .invalidArgument _ code details => describe details code
  | .resourceExhausted _ code details => describe details code
  | .otherError code details => describe details code
  | .userError _ => "stream did not contain valid UTF-8"
  | e => e.toString
where
  describe (details : String) (code : UInt32) : Text :=
    details.capitalize ++ " (os error " ++ toString code.toInt32.toInt.natAbs ++ ")"

def readFileOf (path : Text) : IO (Except Text Text) := do
  try return .ok (← IO.FS.readFile (String.ofList path)).toList
  catch e => return .error (fileReason e)

/-- The names below a directory, with `names` leading to it. Links are not followed. -/
partial def walkBelow (names : List Text) (entries : Array IO.FS.DirEntry) :
    IO (List (List Text)) := do
  let found ← entries.toList.mapM fun entry => do
    let names := names ++ [entry.fileName.toList]
    try
      if (← entry.path.symlinkMetadata).type == .dir then
        return names :: (← walkBelow names (← entry.path.readDir))
      else return [names]
    catch _ => return [names]
  return found.flatten

def walkFrom (path : Text) : IO (List (List Text)) := do
  if path.isEmpty then return []
  let root := (← IO.currentDir) / String.ofList path
  if ← root.isDir then return [] :: (← walkBelow [] (← root.readDir))
  else if ← root.pathExists then return [[]]
  else return []

def Host.machine : Host IO where
  directory := do return (← IO.currentDir).toString.toList
  isPresent path := do return (← ((← IO.currentDir) / String.ofList path).pathExists)
  read := readFileOf
  walk := walkFrom
  clock := IO.monoNanosNow

end Stencil

def main (arguments : List String) : IO UInt32 := do
  let outcome ← Stencil.Command.run Stencil.Host.machine (arguments.map String.toList)
  IO.print (String.ofList outcome.output)
  IO.eprint (String.ofList outcome.errors)
  return outcome.code.toUInt32
