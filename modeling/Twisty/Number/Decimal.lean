import Twisty.Number.Digits

/-!
# Decimal numbers

A decimal number is written with digits before or after a point, or both, perhaps with a sign
before them and an exponent of ten after them. `Decimal.read?` reads one, and `positional` writes a
number without an exponent.
-/

namespace Twisty.Number

/-- The number `digits * 10 ^ exponent`, or that number below zero. -/
structure Decimal where
  negative : Bool
  digits : Nat
  exponent : Int
  deriving DecidableEq

namespace Decimal

/-- The exponent after the digits of a number, zero if nothing is left. -/
def exponent? : List Char → Option Int
  | [] => some 0
  | e :: cs => if e = 'e' ∨ e = 'E' then wholeValue? 10 cs else none

/-- The digits after a point, if there is one, and what follows them. -/
def fraction : List Char → List Char × List Char
  | '.' :: cs => (cs.takeWhile Char.isDigit, cs.dropWhile Char.isDigit)
  | cs => ([], cs)

/-- The number that a text writes. -/
def read? (cs : List Char) : Option Decimal := do
  let (negative, cs) := splitSign cs
  let before := cs.takeWhile Char.isDigit
  let (after, rest) := fraction (cs.dropWhile Char.isDigit)
  let digits ← digitsValue? 10 (before ++ after)
  let exponent ← exponent? rest
  return ⟨negative, digits, exponent - after.length⟩

end Decimal

/-- The digits of a number, with zeros before them to make up at least `width` digits. -/
def paddedDigits (width n : Nat) : List Char :=
  let digits := Nat.toDigits 10 n
  List.replicate (width - digits.length) '0' ++ digits

/-- The number `n * 10 ^ e` with all its digits, and a point if `e` is below zero. -/
def positional (n : Nat) (e : Int) : List Char :=
  if 0 ≤ e then Nat.toDigits 10 n ++ List.replicate e.toNat '0'
  else
    let places := (-e).toNat
    let digits := paddedDigits (places + 1) n
    let whole := digits.length - places
    digits.take whole ++ '.' :: digits.drop whole

end Twisty.Number
