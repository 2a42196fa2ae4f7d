import Twisty.Command.Arguments
import Twisty.Command.Report
import Twisty.Format.Json
import Twisty.Format.Yaml

/-!
# Running commands

`Command.run` gives the text that a command prints, or why it fails. The settings come first, then
the color scheme, and last the moves. `runCommandLine` starts from the arguments.
-/

namespace Twisty

/-- Why a command fails. -/
inductive Failure
  /-- The command line is refused. -/
  | arguments
  /-- The settings cannot be read. -/
  | settings
  /-- No scheme of the settings has a name. -/
  | scheme (settings : Settings) (name : String)
  /-- A move or a cube is wrong. -/
  | cube (e : Error)
  deriving DecidableEq

namespace Failure

/-- The exit code of a failure. -/
def exitCode : Failure → Nat
  | arguments => 2
  | _ => 1

/-- The message of a failure. -/
def message : Failure → String
  | arguments => "invalid arguments"
  | settings => "error loading settings"
  | scheme s name => s.unknownScheme name
  | cube e => e.message

end Failure

/-- A document in a format. -/
def PrintFormat.write : PrintFormat → Document → String
  | json, d => d.json
  | yaml, d => d.yaml

namespace Command

/-- The colors of the scheme of a name, or of the default scheme without one. -/
def colors (s : Settings) (name : Option String) : Except Failure (List String) :=
  let name := name.getD s.defaultScheme
  match s.scheme? name with
  | some t => .ok t.colors
  | none => .error (.scheme s name)

/-- What an action has to say. -/
def report (s : Settings) : Action → Except Failure Document
  | .parse n moves cycles => do
    let reports ← (MoveReport.ofText n cycles (Text.joinWords moves)).mapError .cube
    return .list (reports.map MoveReport.document)
  | .state n moves scheme => do
    let colors ← colors s scheme
    let r ← (CubeReport.ofText n colors (Text.joinWords moves)).mapError .cube
    return r.document
  | .schemes => return s.document

/-- The settings for a command. Environment variables that start with `vars` are settings, and
`readFile` gives the text of a file, if it can be read. -/
def settings (c : Command) (vars : String) (env : List (String × String))
    (readFile : String → Option String) : Except Failure Settings :=
  let loaded :=
    match c.config with
    | none => Settings.load? vars none env
    | some path => (readFile path).bind fun text => Settings.load? vars (some text) env
  match loaded with
  | some s => .ok s
  | none => .error .settings

/-- What a command prints. -/
def run (c : Command) (vars : String) (env : List (String × String))
    (readFile : String → Option String) : Except Failure String := do
  let s ← c.settings vars env readFile
  let d ← report s c.action
  return c.format.write d

end Command

/-- What a command line prints. -/
def runCommandLine (args : List String) (vars : String) (env : List (String × String))
    (readFile : String → Option String) : Except Failure String :=
  match Command.ofArguments? args with
  | some c => c.run vars env readFile
  | none => .error .arguments

end Twisty
