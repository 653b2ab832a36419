import CFrontend.CommandLine.Basic

/-!
Reads what a request needs, carries the request out and prints its outcome.
-/
namespace CFrontend.CommandLine

/-- The names of all settings. -/
def settingNames : List String := Settings.defaultLayer.map (·.1)

/-- The environment variables that hold settings. -/
def readEnvironment : IO (List (String × String)) :=
  settingNames.filterMapM fun name => do
    let value ← IO.getEnv (Settings.variableName name)
    return value.map (Settings.variableName name,·)

/-- The number of the error that a directory cannot be read. -/
def isDirectoryCode : UInt32 := 21

/-- The number of the error that a name is too long. -/
def tooLongCode : UInt32 := 36

/-- Why a file could not be read. -/
def pathFault : IO.Error → PathFault
  | .permissionDenied .. => .denied
  | .inappropriateType _ code _ => if code = isDirectoryCode then .isDirectory else .notDirectory
  | .invalidArgument _ code _ => if code = tooLongCode then .tooLong else .invalid
  | _ => .missing

/-- What is at some paths. -/
def readFiles (paths : List String) : IO (List (String × Except PathFault String)) :=
  paths.mapM fun (path : String) => do
    try
      let bytes ← IO.FS.readBinFile path
      return (path,.ok (Text.display bytes.toList))
    catch error => return (path,.error (pathFault error))

/-- The text of the standard input, for a request that reads it. -/
def readStandard (paths : List String) : IO String := do
  if paths.contains standardInput then
    let bytes ← (← IO.getStdin).readBinToEnd
    return Text.display bytes.toList
  else return ""

/-- What is there for a request to read. -/
def readInputs (request : Request) : IO Inputs := do
  let files ← readFiles request.paths
  return {
    standard := ← readStandard request.paths
    environment := ← readEnvironment
    file := fun path => (files.lookup path).getD (.error .missing) }

/-- The outcome of some arguments. -/
def outcomeOf (texts : List String) : IO Outcome :=
  match readRequest texts with
  | .error fault => return .failed fault
  | .ok request => return request.run (← readInputs request)

end CFrontend.CommandLine

open CFrontend.CommandLine in
/-- Runs the program; a fault makes it fail. -/
def main (texts : List String) : IO UInt32 := do
  let outcome ← outcomeOf texts
  IO.print outcome.output
  IO.eprint outcome.errors
  return if outcome.fault.isSome then 1 else 0
