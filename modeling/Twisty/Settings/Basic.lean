import Twisty.Settings.Environment
import Twisty.Settings.File
import Twisty.Settings.Path
import Twisty.Text.Quoted

/-!
# Settings

The settings are the color schemes, by name, and the name of the one to use when none is asked for.
They come in layers : those that are built in, which are the text of a settings file too, those of a
file, and those of the environment, and each is laid over the ones before (`assignAll`). What comes
out is a tree, and only then has to have the shape of settings (`ofValue?`), so a later layer may
mend an earlier one. A scheme of a file replaces the one of exactly its name and keeps its place, or
comes after all others. A scheme is found by its name in any case (`scheme?`).
-/

namespace Twisty

/-- A color scheme : the colors of the faces, in their order. -/
structure Scheme where
  name : String
  colors : List String
  deriving DecidableEq

/-- The color schemes, and which to use when none is asked for. -/
structure Settings where
  defaultScheme : String
  schemes : List Scheme
  deriving DecidableEq

namespace Settings

/-- The text of the settings that are built in. -/
def builtinText : String :=
  "\n".intercalate
    ["# Color scheme used when `--scheme` is not given.",
      "default_scheme: western",
      "",
      "# Face colors in the order U, F, R, D, B, L.",
      "schemes:",
      "  western: [white, green, red, yellow, blue, orange]",
      "  japanese: [white, green, red, blue, yellow, orange]",
      "  grayscale: [\"#ffffff\", \"#bbbbbb\", \"#888888\", \"#000000\", \"#444444\", \"#dddddd\"]",
      ""]

/-- The settings that are built in. -/
def builtin : Settings where
  defaultScheme := "western"
  schemes :=
    [⟨"western", ["white", "green", "red", "yellow", "blue", "orange"]⟩,
      ⟨"japanese", ["white", "green", "red", "blue", "yellow", "orange"]⟩,
      ⟨"grayscale", ["#ffffff", "#bbbbbb", "#888888", "#000000", "#444444", "#dddddd"]⟩]

/-! ## Settings as trees -/

/-- A scheme as an entry of a table. -/
def schemeEntry (s : Scheme) : String × Value :=
  (s.name, .list (s.colors.map .text))

/-- Settings as a tree. -/
def value (s : Settings) : Value :=
  .table
    [("default_scheme", .text s.defaultScheme), ("schemes", .table (s.schemes.map schemeEntry))]

/-- The text that a value is. -/
def text? : Value → Option String
  | .text s => some s
  | _ => none

/-- The scheme of an entry, whose value must be a list of texts. -/
def schemeOfEntry? : String × Value → Option Scheme
  | (name, .list items) => (items.mapM text?).map (Scheme.mk name)
  | _ => none

/-- The schemes of a table. -/
def schemesOfValue? : Value → Option (List Scheme)
  | .table entries => entries.mapM schemeOfEntry?
  | _ => none

/-- The settings that a tree is. Entries of other names are left out. -/
def ofValue? (v : Value) : Option Settings := do
  let defaultScheme ← text? (v.entry "default_scheme")
  let schemes ← schemesOfValue? (v.entry "schemes")
  return ⟨defaultScheme, schemes⟩

theorem mapM_text? (ss : List String) : (ss.map Value.text).mapM text? = some ss := by
  induction ss with
  | nil => rfl
  | cons s ss ih => simp [text?, ih]

@[simp] theorem schemeOfEntry?_schemeEntry (s : Scheme) :
    schemeOfEntry? (schemeEntry s) = some s := by
  rw [schemeEntry, schemeOfEntry?, mapM_text?]
  rfl

theorem mapM_schemeOfEntry? (ss : List Scheme) :
    (ss.map schemeEntry).mapM schemeOfEntry? = some ss := by
  induction ss with
  | nil => rfl
  | cons s ss ih => simp [ih]

/-! ## Layers -/

/-- A tree with values laid over it, each at the path that its name is. -/
def assignAll (v : Value) (entries : List (String × Value)) : Value :=
  entries.foldl (fun v e => e.2.assign (Path.ofName e.1) v) v

/-- The settings that are built in, with those of the text of a settings file over them, if there is
one, and then those of the environment. -/
def load? (vars : String) (file : Option String) (env : List (String × String)) :
    Option Settings := do
  let fromBuiltin ← readFile? builtinText
  let fromFile ← match file with
    | some text => readFile? text
    | none => some []
  ofValue? ([fromBuiltin, fromFile, ofVariables vars env].foldl assignAll (.table []))

/-! ## Looking up a scheme -/

/-- Two names are the same but for the case of their letters. -/
def sameName (s t : String) : Bool :=
  s.toLower == t.toLower

/-- The first scheme of a name. -/
def scheme? (s : Settings) (name : String) : Option Scheme :=
  s.schemes.find? fun t => sameName t.name name

/-- The message for a name that no scheme has. -/
def unknownScheme (s : Settings) (name : String) : String :=
  let names := String.intercalate ", " (s.schemes.map Scheme.name)
  s!"unknown color scheme {Text.quote name} (available: {names})"

end Settings

end Twisty
