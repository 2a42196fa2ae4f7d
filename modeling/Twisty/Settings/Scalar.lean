import Twisty.Number.Shortest

/-!
# Words of a settings file

A word without quotes means nothing, a flag, a number or itself. `Scalar.ofBare` says which, and
`Scalar.text?` what is kept of it : numbers are kept in one spelling each.
-/

namespace Twisty.Settings

/-- What a word means. -/
inductive Scalar
  | nothing
  | flag (b : Bool)
  | whole (n : Int)
  /-- A number that is not whole, as it is written. -/
  | decimal (s : String)
  | text (s : String)
  deriving DecidableEq

namespace Scalar

/-- The whole number that a word writes, in base sixteen or eight if it begins with a zero and a
letter. A plus may stand before any other, with or without a sign of its own. -/
def whole? : List Char → Option Int
  | '0' :: 'x' :: cs => Number.longValue? 16 cs
  | '0' :: 'o' :: cs => Number.longValue? 8 cs
  | '+' :: cs => Number.longValue? 10 cs
  | cs => Number.longValue? 10 cs

/-- The words for infinities and for what is no number. -/
def specials : List String :=
  [".inf", ".Inf", ".INF", "+.inf", "+.Inf", "+.INF", "-.inf", "-.Inf", "-.INF",
    ".nan", ".NaN", ".NAN"]

/-- What a word without quotes means. -/
def ofBare (s : String) : Scalar :=
  if ["", "~", "null"].contains s then nothing
  else if ["true", "True", "TRUE"].contains s then flag true
  else if ["false", "False", "FALSE"].contains s then flag false
  else
    match whole? s.toList with
    | some n => whole n
    | none =>
      if specials.contains s || (Number.Decimal.read? s.toList).isSome then decimal s else text s

/-- A word as the name of an entry. Numbers that are not whole keep their spelling. -/
def name? : Scalar → Option String
  | nothing => none
  | flag b => some (if b then "true" else "false")
  | whole n => some (toString n)
  | decimal s => some s
  | text s => some s

/-- A word as a value, which is a text or, inside, nothing. The words for infinities are no
values. -/
def value? : Scalar → Option (Option String)
  | nothing => some none
  | flag b => some (some (if b then "true" else "false"))
  | whole n => some (some (toString n))
  | decimal s => (Number.Decimal.read? s.toList).map fun d => some d.text
  | text s => some (some s)

end Scalar

end Twisty.Settings
