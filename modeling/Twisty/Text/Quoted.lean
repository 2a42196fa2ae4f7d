import Twisty.Text.Invisible
import Twisty.Text.Combining

/-!
# Quoted text

A text is quoted for a message so that it stays on one line and every character of it can be told :
quotation marks and backslashes get a backslash, and characters that do not show or that join the
one before are given by their code point.
-/

namespace Twisty.Text

/-- The code point of a character, in braces. -/
def codePointEscape (c : Char) : List Char :=
  '\\' :: 'u' :: '\x7b' :: (Nat.toDigits 16 c.toNat ++ ['\x7d'])

/-- A character as it stands in a quoted text. -/
def escape (c : Char) : List Char :=
  if c = '\x22' then ['\\', '\x22']
  else if c = '\\' then ['\\', '\\']
  else if c = '\n' then ['\\', 'n']
  else if c = '\r' then ['\\', 'r']
  else if c = '\t' then ['\\', 't']
  else if c = '\x00' then ['\\', '0']
  else if isCombining c || isInvisible c then codePointEscape c
  else [c]

/-- A text between quotation marks. -/
def quote (s : String) : String :=
  String.ofList ('\x22' :: (s.toList.flatMap escape ++ ['\x22']))

end Twisty.Text
