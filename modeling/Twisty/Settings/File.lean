import Twisty.Settings.Scalar
import Twisty.Settings.Value

/-!
# Settings files

A settings file is a list of entries, one to a line. An entry is a name, a colon and a value, and
the value is a word, a list of words in brackets, or nothing. Entries that are indented belong to
the entry before them, which then has no value on its own line. Lines that start with a number sign
are comments, and so is the end of a line after a space and a number sign.

A word between apostrophes is a text and may hold any characters, an apostrophe being written twice.
So is a word between double quotes, which must hold no backslash. A word without them ends at a
comma or bracket inside a list and at the end of the line elsewhere, and means what `Scalar.ofBare`
says.

`readFile?` reads a file as a list of entries, and fails if a line is none of these or a name occurs
twice in a table. Three dashes or points that stand alone at the start of a line are the mark of a
document, and no entry begins with them. There is no zero character in a file. A number and a text
are different names even if they are spelled the same, and of two entries with such names the later
one takes the place of the earlier.
-/

namespace Twisty.Settings

namespace File

/-! ## Words -/

/-- Space between the parts of a line. -/
def isSpace (c : Char) : Bool :=
  c == ' ' || c == '\t'

/-- Characters without the spaces before them. -/
def dropSpace (cs : List Char) : List Char :=
  cs.dropWhile isSpace

/-- Characters without the spaces after them. -/
def dropSpaceAtEnd (cs : List Char) : List Char :=
  (cs.reverse.dropWhile isSpace).reverse

/-- The line is empty or a comment. -/
def isBlankLine (cs : List Char) : Bool :=
  (dropSpace cs).head?.elim true (· == '#')

/-- Nothing is left of a line but space, and perhaps a comment after it. -/
def endsLine (cs : List Char) : Bool :=
  cs.head?.elim true fun c => isSpace c && isBlankLine cs

/-- A character that parts the items of a list or stands around them. -/
def isBracket (c : Char) : Bool :=
  ",[]\x7b\x7d".toList.contains c

/-- The text between apostrophes, after the first of them, and what follows the last. -/
def quoted? : List Char → Option (List Char × List Char)
  | '\x27' :: '\x27' :: cs => (quoted? cs).map fun r => ('\x27' :: r.1, r.2)
  | '\x27' :: cs => some ([], cs)
  | c :: cs => (quoted? cs).map fun r => (c :: r.1, r.2)
  | [] => none

/-- The text between double quotes, after the first of them, and what follows the last. A backslash
would change what comes after it. -/
def doubleQuoted? : List Char → Option (List Char × List Char)
  | '\x22' :: cs => some ([], cs)
  | '\x5c' :: _ => none
  | c :: cs => (doubleQuoted? cs).map fun r => (c :: r.1, r.2)
  | [] => none

/-- A bare word ends here : at a colon with space after it, and inside a list at a bracket or a
colon before one. -/
def endsBare (inList : Bool) : List Char → Bool
  | [] => true
  | ':' :: cs => cs.head?.elim true fun c => isSpace c || (inList && isBracket c)
  | c :: _ => inList && isBracket c

/-- A bare word can begin here. -/
def startsBare (inList : Bool) : List Char → Bool
  | [] => false
  | c :: cs =>
    !isBracket c && !isSpace c && !("#&*!\x27\"%@\x60".toList.contains c) &&
      (inList || (c != '|' && c != '>')) &&
      !("-?:".toList.contains c && cs.head?.elim true isSpace) && !endsBare inList (c :: cs)

/-- A bare word up to where it ends or a comment starts, and what follows. -/
def bare (inList : Bool) : List Char → List Char × List Char
  | [] => ([], [])
  | c :: cs =>
    if endsBare inList (c :: cs) || (isSpace c && cs.head? == some '#') then ([], c :: cs)
    else
      let r := bare inList cs
      (c :: r.1, r.2)

/-- The last part of a word is a dash alone. -/
def endsInDash (cs : List Char) : Bool :=
  match cs.reverse with
  | '-' :: rest => rest.head?.elim true isSpace
  | _ => false

/-- A word and what follows it. No bracket may follow a dash that stands alone. -/
def word? (inList : Bool) : List Char → Option (Scalar × List Char)
  | '\x27' :: cs => (quoted? cs).map fun r => (.text (String.ofList r.1), r.2)
  | '\x22' :: cs => (doubleQuoted? cs).map fun r => (.text (String.ofList r.1), r.2)
  | cs =>
    if startsBare inList cs then
      let (word, rest) := bare inList cs
      if inList && endsInDash word && rest.head?.elim false isBracket then none
      else some (.ofBare (String.ofList (dropSpaceAtEnd word)), rest)
    else none

/-! ## Values -/

/-- What a word is as a value. -/
def wordValue? (s : Scalar) : Option Value :=
  s.value?.map fun s => s.elim .nothing .text

/-- The items of a list, after its opening bracket, and what follows the closing one. At most `fuel`
items are read. -/
def items? : Nat → List Char → Option (List Value × List Char)
  | 0, _ => none
  | fuel + 1, cs =>
    match dropSpace cs with
    | ']' :: rest => some ([], rest)
    | cs => do
      let (word, rest) ← word? true cs
      let v ← wordValue? word
      match dropSpace rest with
      | ',' :: rest => (items? fuel rest).map fun r => (v :: r.1, r.2)
      | ']' :: rest => some ([v], rest)
      | _ => none

/-- Tabs alone do not part a colon and a bare word. -/
def partsWord (cs : List Char) : Bool :=
  let gap := cs.takeWhile isSpace
  gap.head? != some '\t' || gap.contains ' ' ||
    (dropSpace cs).head?.elim true fun c => !(c.isAlphanum || c == '-' || c == '_')

/-- The value on a line, after the colon, if there is any. -/
def value? (cs : List Char) : Option (Option Value) :=
  if endsLine cs then some none
  else if !partsWord cs then none
  else
    match dropSpace cs with
    | '[' :: cs => do
      let (items, rest) ← items? (cs.length + 1) cs
      if endsLine rest then some (some (.list items)) else none
    | cs => do
      let (word, rest) ← word? false cs
      if endsLine rest then (wordValue? word).map some else none

/-! ## Lines -/

/-- A line with an entry. -/
structure Line where
  indent : Nat
  name : Scalar
  value : Option Value

/-- The longest that a name may be, with the space after it. -/
def maxNameLength : Nat := 1024

/-- The name at the start of a line and what follows its colon. -/
def name? (cs : List Char) : Option (Scalar × List Char) := do
  let (name, rest) ← word? false cs
  match dropSpace rest with
  | ':' :: rest =>
    if rest.head?.elim true isSpace && cs.length ≤ maxNameLength + 1 + rest.length then
      some (name, rest)
    else none
  | _ => none

/-- The line begins with the mark of a document. -/
def isDocumentMark : List Char → Bool
  | '-' :: '-' :: '-' :: cs => cs.head?.elim true isSpace
  | '.' :: '.' :: '.' :: cs => cs.head?.elim true isSpace
  | _ => false

/-- The entry on a line. -/
def line? (cs : List Char) : Option Line :=
  if isDocumentMark cs then none
  else do
    let indent := (cs.takeWhile (· == ' ')).length
    let (name, rest) ← name? (cs.drop indent)
    return ⟨indent, name, ← value? rest⟩

/-- The lines of a text. Each line feed and each carriage return ends one. -/
def splitLines : List Char → List (List Char)
  | [] => [[]]
  | c :: cs =>
    match splitLines cs with
    | [] => [[c]]
    | l :: ls => if c = '\n' ∨ c = '\r' then [] :: l :: ls else (c :: l) :: ls

/-! ## Tables -/

/-- The table of entries, if they have different names. -/
def table? (entries : List (Scalar × Value)) : Option (List (String × Value)) :=
  if (entries.map Prod.fst).Nodup then
    (entries.mapM fun (e : Scalar × Value) => e.1.name?.map fun name => (name, e.2)).map ofEntries
  else none

/-- Entries with the same indentation. -/
structure Block where
  indent : Nat
  entries : List (Scalar × Value)

/-- The value of a line and the blocks after it. A block that is indented further is the value of
the line. -/
def takeBlock? (l : Line) : List Block → Option (Value × List Block)
  | [] => some (l.value.getD .nothing, [])
  | b :: bs =>
    if l.indent < b.indent then
      match l.value with
      | none => (table? b.entries).map fun es => (.table es, bs)
      | some _ => none
    else some (l.value.getD .nothing, b :: bs)

/-- The blocks of a line and the blocks after it, none of which may be indented further. -/
def addLine? (l : Line) (bs : List Block) : Option (List Block) := do
  let (v, bs) ← takeBlock? l bs
  match bs with
  | [] => return [⟨l.indent, [(l.name, v)]⟩]
  | b :: bs =>
    if b.indent < l.indent then return ⟨l.indent, [(l.name, v)]⟩ :: b :: bs
    else if b.indent = l.indent then return ⟨l.indent, (l.name, v) :: b.entries⟩ :: bs
    else none

/-- The blocks of lines. -/
def blocks? : List Line → Option (List Block)
  | [] => some []
  | l :: ls => (blocks? ls).bind (addLine? l)

end File

/-- The entries of a settings file. A mark of the order of bytes may stand before them. -/
def readFile? (text : String) : Option (List (String × Value)) :=
  if text.toList.contains '\x00' then none
  else do
    let cs := match text.toList with
      | '\ufeff' :: cs => cs
      | cs => cs
    let lines := (File.splitLines cs).filter fun l => !File.isBlankLine l
    match ← File.blocks? (← lines.mapM File.line?) with
    | [] => some []
    | [b] => File.table? b.entries
    | _ => none

end Twisty.Settings
