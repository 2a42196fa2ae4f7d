import Twisty.Command.Run

/-!
# The program

Reads the arguments, the environment and the settings file, and prints what the command has to say.
-/

namespace Twisty

/-- The start of the names of the environment variables that are settings. -/
def variableStart : String := "CUBEVIZ"

/-- The file that lists the environment variables of the process. -/
def environmentFile : String := "/proc/self/environ"

/-- The environment variables, none if they cannot be read. -/
def readEnvironment : IO (List (String × String)) := do
  try
    let bytes ← IO.FS.readBinFile environmentFile
    return (String.fromUTF8? bytes).elim [] Settings.readVariables
  catch _ => return []

/-- The text of a file, if it can be read. -/
def fileText? (path : String) : IO (Option String) := do
  try
    return some (← IO.FS.readFile path)
  catch _ => return none

end Twisty

open Twisty

def main (args : List String) : IO UInt32 := do
  let config := (Command.ofArguments? args).bind Command.config
  let text ← match config with
    | some path => fileText? path
    | none => pure none
  match runCommandLine args variableStart (← readEnvironment) (fun _ => text) with
  | .ok output =>
    IO.print output
    return 0
  | .error e =>
    IO.eprintln e.message
    return e.exitCode.toUInt32
