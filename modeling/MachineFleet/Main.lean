import MachineFleet.Program

/-!
The command. It shows `Program.run` the command line, the environment and the files that it asks
for, and carries out what comes back. It has no listener: where the program would serve, the command
ends as the program does when it cannot bind its address.
-/
namespace MachineFleet.Program

/-- The failure that an error of the system stands for. -/
def failureOf : IO.Error → Files.Failure
  | .noFileOrDirectory .. => .notFound
  | .permissionDenied .. => .permissionDenied
  | .inappropriateType .. => .isADirectory
  | e => .other (toString e)

def readBytes (path : Path) : IO (Except Files.Failure (List UInt8)) := do
  try return .ok (← IO.FS.readBinFile path).toList
  catch e => return .error (failureOf e)

/-- The variables of the environment that the program knows. -/
def knownVariables : List String := ["TERM", "RUST_LOG", "MONOFLEET_HOME"]

def surroundings (words : List String) : IO Surroundings := do
  let environment ← knownVariables.filterMapM fun name => do
    return (← IO.getEnv name).map (name, ·)
  let environmentFile ← readBytes ".env"
  let config ← match Program.configPath? words with
    | some path => readBytes path
    | none => pure (.error .notFound)
  return {
    environment
    environmentFile := environmentFile.toOption.bind Utf8.toString?
    userHome := (← IO.getEnv "HOME").getD ""
    onTerminal := ← (← IO.getStderr).isTty
    read := fun _ => config }

def noListener : Error := .io (.other "Operation not supported (os error 95)")

end MachineFleet.Program

open MachineFleet Program in
def main (args : List String) : IO UInt32 := do
  let words := "monofleet" :: args
  let s ← surroundings words
  match Program.run s words with
  | .ends code complaint =>
    (← IO.getStderr).putStr (complaint.getD "")
    return code.toUInt32
  | .serves _ =>
    (← IO.getStderr).putStr (Program.complaint s noListener)
    return 1
