import Twisty.Space.Layer
import Twisty.Number.Digits

/-!
# Command lines

A command line names one of three actions, with its words and switches :

* `parse SIZE MOVES… [-c|--cycles]` lists what moves mean,
* `state SIZE [MOVES…] [-s|--scheme NAME]` shows a cube after moves,
* `schemes` lists the color schemes.

The switches `--format json|yaml` and `--config FILE` may stand before or after the name of the
action, and the last counts. `Command.ofArguments?` reads a command line, and refuses it if a switch
is unknown, lacks its value or is given twice in one place, or if words are missing or left over.
-/

namespace Twisty

/-- A format for what is printed. -/
inductive PrintFormat
  | json
  | yaml
  deriving DecidableEq

/-- What a command does. -/
inductive Action
  | parse (size : Nat) (moves : List String) (cycles : Bool)
  | state (size : Nat) (moves : List String) (scheme : Option String)
  | schemes
  deriving DecidableEq

/-- A command with its format and its settings file. -/
structure Command where
  action : Action
  format : PrintFormat
  config : Option String
  deriving DecidableEq

namespace Command

/-! ## Switches -/

/-- A switch of the command line. -/
inductive Switch
  | config
  | format
  | cycles
  | scheme
  deriving DecidableEq

namespace Switch

/-- The word for a switch, after two dashes. -/
def word : Switch → String
  | config => "config"
  | format => "format"
  | cycles => "cycles"
  | scheme => "scheme"

/-- The letter for a switch, after one dash. -/
def letter? : Switch → Option Char
  | cycles => some 'c'
  | scheme => some 's'
  | _ => none

/-- The switch has a value. -/
def takesValue : Switch → Bool
  | cycles => false
  | _ => true

end Switch

/-- What an argument is by itself. -/
inductive Argument
  /-- A word that is no switch. -/
  | word (w : String)
  /-- A switch, with its value if it has one. -/
  | switch (s : Switch) (value : String)
  /-- A switch whose value is the next argument. -/
  | awaiting (s : Switch)
  /-- The mark after which all is words. -/
  | onlyWords
  /-- Nothing that is allowed. -/
  | unknown
  deriving DecidableEq

/-- What an argument is that begins with two dashes. A value may follow the word for the switch and
an equals sign. -/
def longArgument (allowed : List Switch) (cs : List Char) : Argument :=
  let name := String.ofList (cs.takeWhile (· ≠ '='))
  match allowed.find? (·.word = name), cs.dropWhile (· ≠ '=') with
  | none, _ => .unknown
  | some s, [] => if s.takesValue then .awaiting s else .switch s ""
  | some s, _ :: value => if s.takesValue then .switch s (String.ofList value) else .unknown

/-- What an argument is that begins with one dash and a letter. A value may follow at once or after
an equals sign. -/
def shortArgument (allowed : List Switch) (c : Char) (cs : List Char) : Argument :=
  match allowed.find? (·.letter? = some c), cs with
  | none, _ => .unknown
  | some s, [] => if s.takesValue then .awaiting s else .switch s ""
  | some s, '=' :: value => if s.takesValue then .switch s (String.ofList value) else .unknown
  | some s, value => if s.takesValue then .switch s (String.ofList value) else .unknown

/-- What an argument is, where some switches are allowed. -/
def argument (allowed : List Switch) (a : String) : Argument :=
  match a.toList with
  | ['-', '-'] => .onlyWords
  | '-' :: '-' :: cs => longArgument allowed cs
  | '-' :: c :: cs => shortArgument allowed c cs
  | _ => .word a

/-- An argument can be the value of the switch before it : it does not look like a switch. -/
def isValue (a : String) : Bool :=
  match a.toList with
  | '-' :: _ :: _ => false
  | _ => true

/-- The switches and words of arguments. -/
structure Arguments where
  switches : List (Switch × String) := []
  words : List String := []
  deriving DecidableEq

/-- The switches and words of arguments, if each is allowed. -/
def readArguments? (allowed : List Switch) : List String → Option Arguments
  | [] => some {}
  | a :: rest =>
    match argument allowed a with
    | .word w => (readArguments? allowed rest).map fun r => { r with words := w :: r.words }
    | .switch s v =>
      (readArguments? allowed rest).map fun r => { r with switches := (s, v) :: r.switches }
    | .awaiting s =>
      match rest with
      | v :: rest =>
        if isValue v then
          (readArguments? allowed rest).map fun r => { r with switches := (s, v) :: r.switches }
        else none
      | [] => none
    | .onlyWords => some { words := rest }
    | .unknown => none

/-- The switches before the first word, and the arguments from it on. -/
def readLeading? (allowed : List Switch) :
    List String → Option (List (Switch × String) × List String)
  | [] => some ([], [])
  | a :: rest =>
    match argument allowed a with
    | .word _ => some ([], a :: rest)
    | .switch s v => (readLeading? allowed rest).map fun r => ((s, v) :: r.1, r.2)
    | .awaiting s =>
      match rest with
      | v :: rest =>
        if isValue v then (readLeading? allowed rest).map fun r => ((s, v) :: r.1, r.2) else none
      | [] => none
    | .onlyWords => none
    | .unknown => none

/-- No switch is given twice. -/
def switchesDistinct (switches : List (Switch × String)) : Bool :=
  decide (switches.map Prod.fst).Nodup

/-! ## Reading a command line -/

/-- A number of layers : a whole number in the range of layers. Zero may have a minus. -/
def size? (s : String) : Option Nat := do
  let n ← Number.longValue? 10 s.toList
  if 0 ≤ n ∧ n ≤ maxLayer then some n.toNat else none

/-- The format of a name. -/
def format? : String → Option PrintFormat
  | "json" => some .json
  | "yaml" => some .yaml
  | _ => none

/-- The switches that an action has for itself. -/
def ownSwitches : String → Option (List Switch)
  | "parse" => some [.cycles]
  | "state" => some [.scheme]
  | "schemes" => some []
  | _ => none

/-- The action of a name, with the switches and words after it. -/
def action? (name : String) (args : Arguments) : Option Action :=
  match name, args.words with
  | "parse", size :: m :: moves => do
    some (.parse (← size? size) (m :: moves) (args.switches.lookup .cycles).isSome)
  | "state", size :: moves => do
    some (.state (← size? size) moves (args.switches.lookup .scheme))
  | "schemes", [] => some .schemes
  | _, _ => none

/-- The switches that every action has. -/
def commonSwitches : List Switch := [.config, .format]

/-- The command of a command line. -/
def ofArguments? (args : List String) : Option Command := do
  let (outer, rest) ← readLeading? commonSwitches args
  match rest with
  | [] => none
  | name :: rest => do
    let inner ← readArguments? (commonSwitches ++ (← ownSwitches name)) rest
    if switchesDistinct outer && switchesDistinct inner.switches then
      let action ← action? name inner
      let format ← ((outer ++ inner.switches).filter (·.1 = .format)).mapM (format? ·.2)
      let config := (outer ++ inner.switches).filter (·.1 = .config)
      if config.any (·.2 = "") then none
      else
        some ⟨action, format.getLastD .json, config.getLast?.map Prod.snd⟩
    else none

end Command

end Twisty
