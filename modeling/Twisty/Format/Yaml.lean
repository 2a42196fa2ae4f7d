import Twisty.Format.Document
import Twisty.Format.Scalar

/-!
# Documents as YAML

`Document.yaml` writes a document in block form. An item of a list follows a dash, and a field
follows its name and a colon. A list under a name is not indented, a record under a name is, and a
list or record without entries is a pair of brackets. A name that is long or has several lines
stands after a question mark, and its value after a colon on a line of its own.
-/

namespace Twisty

namespace Yaml

/-- The most bytes of a name with its colon on the same line. -/
def maxSimpleName : Nat := 128

/-- A name that can have its colon on the same line. -/
def isSimpleName (name : String) : Bool :=
  name.utf8ByteSize ≤ maxSimpleName && !name.toList.any isBreak

/-- The end of a line, unless the text ends one already. -/
def lineEnd (s : String) : String :=
  if s.toList.getLast?.any isBreak then "" else "\n"

/-- A new line in a column after a text. -/
def newLine (column : Nat) (s : String) : String :=
  lineEnd s ++ String.ofList (indent column)

/-- Texts with new lines in a column between them. -/
def withNewLines (column : Nat) : List String → List String
  | s :: t :: ss => s :: newLine column s :: withNewLines column (t :: ss)
  | ss => ss

/-- Texts on lines of their own in a column, the first where it stands. -/
def joinLines (column : Nat) (ss : List String) : String :=
  String.join (withNewLines column ss)

/-- A value begins on the line after its name, and the column where it does. -/
def valueColumn? (column : Nat) : Document → Option Nat
  | .list (_ :: _) => some column
  | .record (_ :: _) => some (column + 2)
  | _ => none

mutual

/-- A document whose lines begin in a column, the first where it stands. -/
def write (column : Nat) : Document → String
  | .text s => scalar column s
  | .number n => toString n
  | .flag b => Document.flagText b
  | .list [] => "[]"
  | .list (d :: ds) => joinLines column (writeItems column (d :: ds))
  | .record [] => "\x7b\x7d"
  | .record (f :: fs) => joinLines column (writeFields column (f :: fs))

/-- The items of a list. -/
def writeItems (column : Nat) : List Document → List String
  | [] => []
  | d :: ds => ("- " ++ write (column + 2) d) :: writeItems column ds

/-- The fields of a record. -/
def writeFields (column : Nat) : List (String × Document) → List String
  | [] => []
  | (name, d) :: fields =>
    let key := scalar (column + 2) name
    let field :=
      if isSimpleName name then
        match valueColumn? column d with
        | some c => key ++ ":" ++ newLine c key ++ write c d
        | none => key ++ ": " ++ write (column + 2) d
      else "? " ++ key ++ newLine column key ++ ": " ++ write (column + 2) d
    field :: writeFields column fields

end

end Yaml

/-- A document as YAML, with a line end after it. -/
def Document.yaml (d : Document) : String :=
  let s := Yaml.write 0 d
  s ++ Yaml.lineEnd s

end Twisty
