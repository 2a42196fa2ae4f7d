import Twisty.Number.Binary
import Twisty.Text.Hex

/-!
# Texts in YAML

A text stands in YAML as it is, unless it would be read as something else or is no plain text. It is
then put between apostrophes. A text with characters that do not print, or with a space beside the
end of a line, is put between quotation marks with escapes. A text with line feeds is written as a
block of lines if it can be. `scalarStyle` makes the choice and `scalar` writes the text.

A text would be read as something else if it looks like nothing (`looksNull`), like a flag
(`looksFlag`) or like a number : an integer in some base (`looksBased`), a decimal number that a
double precision number can hold (`looksDecimal`), a special number (`looksSpecial`), or digits with
a zero before them (`looksPadded`).
-/

namespace Twisty.Yaml

/-! ## Texts that would be read as something else -/

/-- The text would be read as nothing. -/
def looksNull (s : String) : Bool :=
  ["", "~", "null", "Null", "NULL"].contains s

/-- The text would be read as a flag. -/
def looksFlag (s : String) : Bool :=
  ["true", "True", "TRUE", "false", "False", "FALSE"].contains s

/-- The text would be read as an infinity or as no number. -/
def looksSpecial (s : String) : Bool :=
  [".inf", ".Inf", ".INF", "+.inf", "+.Inf", "+.INF", "-.inf", "-.Inf", "-.INF",
    ".nan", ".NaN", ".NAN"].contains s

/-- Digits with a zero before them. -/
def looksPadded (cs : List Char) : Bool :=
  match (Number.splitSign cs).2 with
  | '0' :: d :: ds => (d :: ds).all Char.isDigit
  | _ => false

/-- The base that the letter after a zero stands for. -/
def baseOf? : Char → Option Nat
  | 'x' => some 16
  | 'o' => some 8
  | 'b' => some 2
  | _ => none

/-- An integer of 128 bits in base sixteen, eight or two. -/
def looksBased (cs : List Char) : Bool :=
  let (negative, body) := Number.splitSign cs
  match body with
  | '0' :: b :: digits =>
    match (baseOf? b).bind (Number.digitsValue? · digits) with
    | some v => if negative then v ≤ Nat.pow 2 127 else v < Nat.pow 2 128
    | none => false
  | _ => false

/-- A decimal number that a double precision number can hold. -/
def looksDecimal (cs : List Char) : Bool :=
  (Number.Decimal.read? cs).any fun d => d.binary?.isSome

/-- The text would be read as something that is no text, or might be. -/
def isAmbiguous (s : String) : Bool :=
  looksNull s || looksFlag s || looksSpecial s || looksPadded s.toList || looksBased s.toList ||
    looksDecimal s.toList

/-! ## Characters -/

/-- A character that YAML prints as it is. -/
def isPrintable (c : Char) : Bool :=
  let n := c.toNat
  n == 0x0a || (0x20 ≤ n && n ≤ 0x7e) ||
    (0xa0 ≤ n && n != 0xfeff && n != 0xfffe && n != 0xffff)

/-- A character that ends a line. -/
def isBreak (c : Char) : Bool :=
  ['\n', '\r', '\u0085', '\u2028', '\u2029'].contains c

/-- A character that marks something other than a text where it stands first. -/
def isIndicator (c : Char) : Bool :=
  "#,[]\x7b\x7d&*!|>\x27\"%@\x60".toList.contains c

/-- Two neighbors in a list are so. -/
def hasPair (p : α → α → Bool) : List α → Bool
  | a :: b :: l => p a b || hasPair p (b :: l)
  | _ => false

/-- A space stands at the end of a line. -/
def spaceBeforeBreak (cs : List Char) : Bool :=
  hasPair (fun c d => c == ' ' && isBreak d) cs

/-- A space stands at the start of a line that is not the first. -/
def spaceAfterBreak (cs : List Char) : Bool :=
  hasPair (fun c d => isBreak c && d == ' ') cs

/-! ## Texts that cannot stand as they are -/

/-- A blank or the end. -/
def isGap : List Char → Bool
  | [] => true
  | c :: _ => c == ' '

/-- The first characters do not mark something other than a text. -/
def startsPlain : List Char → Bool
  | [] => false
  | c :: cs => !isIndicator c && c != ' ' && !((c == '-' || c == '?' || c == ':') && isGap cs)

/-- Nothing marks the end of the text or a comment before the end. A text ends at a colon with a
gap after it, and a comment starts at a number sign with a blank before it. -/
def staysPlain : List Char → Bool
  | [] => true
  | [c] => c != ':' && c != ' '
  | c :: d :: cs => !(c == ':' && d == ' ') && !(c == ' ' && d == '#') && staysPlain (d :: cs)

/-- The text is not the mark of the start or the end of a document, and does not begin with it. -/
def isNoMark (cs : List Char) : Bool :=
  !("---".toList.isPrefixOf cs) && !("...".toList.isPrefixOf cs)

/-- A text that can stand as it is. -/
def isPlain (cs : List Char) : Bool :=
  cs.all (fun c => isPrintable c && !isBreak c) && startsPlain cs && staysPlain cs && isNoMark cs

/-- A text that can stand between apostrophes. -/
def isQuotable (cs : List Char) : Bool :=
  cs.all isPrintable && !spaceBeforeBreak cs && !spaceAfterBreak cs

/-- A text that can stand as a block of lines. -/
def isBlock (cs : List Char) : Bool :=
  cs.all isPrintable && !spaceBeforeBreak cs && cs.getLast? != some ' '

/-! ## Writing a text -/

/-- How a text is written. -/
inductive ScalarStyle
  | plain
  | apostrophes
  | quotationMarks
  | block
  deriving DecidableEq

/-- How a text has to be written. -/
def scalarStyle (s : String) : ScalarStyle :=
  let cs := s.toList
  if cs.contains '\n' then if isBlock cs then .block else .quotationMarks
  else if !isAmbiguous s && isPlain cs then .plain
  else if isQuotable cs then .apostrophes
  else .quotationMarks

/-- The letter of an escape, for the characters that have one. -/
def escapeLetter? (c : Char) : Option Char :=
  [('\x00', '0'), ('\x07', 'a'), ('\x08', 'b'), ('\t', 't'), ('\n', 'n'), ('\x0b', 'v'),
    ('\x0c', 'f'), ('\r', 'r'), ('\x1b', 'e'), ('\x22', '\x22'), ('\\', '\\'), ('\u0085', 'N'),
    ('\u2028', 'L'), ('\u2029', 'P')].lookup c

/-- A character as it stands between quotation marks. -/
def escape (c : Char) : List Char :=
  match escapeLetter? c with
  | some l => ['\\', l]
  | none =>
    if isPrintable c then [c]
    else
      let n := c.toNat
      let (letter, width) :=
        if n ≤ 0xff then ('x', 2) else if n ≤ 0xffff then ('u', 4) else ('U', 8)
      '\\' :: letter :: (Text.hexDigits width n).map Char.toUpper

/-- The beginning of a line in a column. -/
def indent (column : Nat) : List Char :=
  List.replicate column ' '

/-- A character between apostrophes. -/
def double (c : Char) : List Char :=
  if c = '\x27' then [c, c] else [c]

/-- The lines of a text between apostrophes, all but the first in a column. `fresh` says that the
text begins a line. -/
def quotedLines (column : Nat) (fresh : Bool) : List Char → List Char
  | [] => if fresh then indent column else []
  | c :: cs =>
    if isBreak c then c :: quotedLines column true cs
    else (if fresh then indent column else []) ++ double c ++ quotedLines column false cs

/-- The lines of a block in a column. Lines without characters stay empty. -/
def blockLines (column : Nat) (fresh : Bool) : List Char → List Char
  | [] => []
  | c :: cs =>
    if isBreak c then c :: blockLines column true cs
    else (if fresh then indent column else []) ++ c :: blockLines column false cs

/-- What stands before a block : a bar, the width of an indentation if the block does not begin with
a visible character, and whether the ends of lines at its end are to be dropped or kept, unless
there is just one. -/
def blockHead (cs : List Char) : List Char :=
  let width := if cs.head?.any fun c => c == ' ' || isBreak c then ['2'] else []
  let ending :=
    match cs.reverse with
    | [] => ['-']
    | c :: rest => if !isBreak c then ['-'] else if rest.head?.elim true isBreak then ['+'] else []
  '|' :: width ++ ending

/-- A text in YAML, in which new lines begin in a column. -/
def scalar (column : Nat) (s : String) : String :=
  match scalarStyle s with
  | .plain => s
  | .apostrophes => String.ofList ('\x27' :: (quotedLines column false s.toList ++ ['\x27']))
  | .quotationMarks => String.ofList ('\x22' :: (s.toList.flatMap escape ++ ['\x22']))
  | .block => String.ofList (blockHead s.toList ++ '\n' :: blockLines column true s.toList)

end Twisty.Yaml
