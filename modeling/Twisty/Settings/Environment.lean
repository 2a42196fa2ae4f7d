import Twisty.Settings.Value

/-!
# Settings in the environment

An environment variable is a setting if its name begins with that of the program and an underscore.
The rest of its name, in lower case, is the name of the setting, and its value is a text.
`ofVariables` gives these settings, and `readVariables` reads the variables from a text that lists
them.
-/

namespace Twisty.Settings

/-- A letter in lower case. The sign for kelvin is a letter too. -/
def lower (c : Char) : Char :=
  if c = '\u212a' then 'k' else c.toLower

/-- The setting that a variable is, if it begins with `vars` and an underscore. -/
def variableSetting? (vars name : String) : Option String :=
  let start := (vars ++ "_").toList.map lower
  let name := name.toList.map lower
  if start.isPrefixOf name then some (String.ofList (name.drop start.length)) else none

/-- The settings of variables. Of two that are the same setting the later one counts. -/
def ofVariables (vars : String) (env : List (String × String)) : List (String × Value) :=
  ofEntries (env.filterMap fun e => (variableSetting? vars e.1).map fun name => (name, .text e.2))

/-- The parts of a text that end where `ends` holds. -/
def splitAfter (ends : Char → Bool) : List Char → List (List Char)
  | [] => []
  | c :: cs =>
    if ends c then [] :: splitAfter ends cs
    else
      match splitAfter ends cs with
      | [] => [[c]]
      | p :: ps => (c :: p) :: ps

/-- The variable that an assignment makes. -/
def assignment? (cs : List Char) : Option (String × String) :=
  match cs.dropWhile (· != '=') with
  | '=' :: value => some (String.ofList (cs.takeWhile (· != '=')), String.ofList value)
  | _ => none

/-- The variables that a text lists, each assignment with a zero character after it. -/
def readVariables (text : String) : List (String × String) :=
  (splitAfter (· == '\x00') text.toList).filterMap assignment?

end Twisty.Settings
