import Twisty.Format.Document
import Twisty.Text.Hex

/-!
# Documents as JSON

`Document.json` writes a document as indented JSON : each item of a list and each field of a record
has a line of its own, two spaces further in than the brackets around it, and a list or record
without entries is a pair of brackets.
-/

namespace Twisty

namespace Json

/-- A character as it stands in a JSON string. -/
def escape (c : Char) : List Char :=
  if c = '\x22' then ['\\', '\x22']
  else if c = '\\' then ['\\', '\\']
  else if c = '\x08' then ['\\', 'b']
  else if c = '\x0c' then ['\\', 'f']
  else if c = '\n' then ['\\', 'n']
  else if c = '\r' then ['\\', 'r']
  else if c = '\t' then ['\\', 't']
  else if c.toNat < 0x20 then '\\' :: 'u' :: Text.hexDigits 4 c.toNat
  else [c]

/-- A JSON string. -/
def string (s : String) : String :=
  String.ofList ('\x22' :: (s.toList.flatMap escape ++ ['\x22']))

/-- The beginning of a line at a depth of nesting. -/
def indent (depth : Nat) : String :=
  String.ofList (List.replicate (2 * depth) ' ')

/-- Entries between brackets, one to a line. -/
def enclose (opening closing : String) (depth : Nat) : List String → String
  | [] => opening ++ closing
  | entries =>
    opening ++ "\n" ++
      String.intercalate ",\n" (entries.map (indent (depth + 1) ++ ·)) ++
      "\n" ++ indent depth ++ closing

mutual

/-- A document as JSON, inside `depth` brackets. -/
def write (depth : Nat) : Document → String
  | .text s => string s
  | .number n => toString n
  | .flag b => Document.flagText b
  | .list items => enclose "[" "]" depth (writeItems (depth + 1) items)
  | .record fields => enclose "\x7b" "\x7d" depth (writeFields (depth + 1) fields)

/-- The items of a list as JSON. -/
def writeItems (depth : Nat) : List Document → List String
  | [] => []
  | d :: ds => write depth d :: writeItems depth ds

/-- The fields of a record as JSON. -/
def writeFields (depth : Nat) : List (String × Document) → List String
  | [] => []
  | (name, d) :: fields => (string name ++ ": " ++ write depth d) :: writeFields depth fields

end

end Json

/-- A document as JSON, with a line end after it. -/
def Document.json (d : Document) : String :=
  Json.write 0 d ++ "\n"

end Twisty
