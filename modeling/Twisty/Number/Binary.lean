import Twisty.Number.Decimal

/-!
# Double precision numbers

A `Binary` is a double precision number that is not below zero : it has at most 53 binary digits and
no place below `2 ^ -1074`. `Binary.nearest?` is the one that is nearest to a quotient, the even one
of two, and `Decimal.binary?` the one that is nearest to a decimal number, if the number is not too
large for any.
-/

namespace Twisty.Number

/-- The number `significand * 2 ^ exponent`. -/
structure Binary where
  significand : Nat
  exponent : Int
  deriving DecidableEq

/-- A quotient rounded to a whole number, halves to the even one. -/
def roundEven (a b : Nat) : Nat :=
  let q := a / b
  let r := 2 * (a % b)
  if r < b ∨ (r = b ∧ q % 2 = 0) then q else q + 1

namespace Binary

/-- The count of binary digits. -/
def precision : Nat := 53

/-- The lowest exponent. -/
def minExponent : Int := -1074

/-- The highest exponent. -/
def maxExponent : Int := 971

/-- Zero. -/
def zero : Binary := ⟨0, minExponent⟩

/-- A quotient divided by `2 ^ q`, as a quotient. -/
def scaleDown (a b : Nat) (q : Int) : Nat × Nat :=
  (a * Nat.pow 2 (-q).toNat, b * Nat.pow 2 q.toNat)

/-- The exponent with which a quotient of numbers above zero has the full count of digits before the
point, or the lowest. -/
def exponentOf (a b : Nat) : Int :=
  let q : Int := (Nat.log2 a : Int) - Nat.log2 b - precision
  let (a', b') := scaleDown a b q
  max (if a' / b' < Nat.pow 2 precision then q else q + 1) minExponent

/-- The number of a significand that may have one digit too many after it was rounded up, if it is
not too large. -/
def ofRounded? (m : Nat) (q : Int) : Option Binary :=
  let x : Binary := if m = Nat.pow 2 precision then ⟨m / 2, q + 1⟩ else ⟨m, q⟩
  if x.exponent ≤ maxExponent then some x else none

/-- The number nearest to a quotient of numbers above zero, if the quotient is not too large. -/
def nearest? (a b : Nat) : Option Binary :=
  let q := exponentOf a b
  let (a', b') := scaleDown a b q
  ofRounded? (roundEven a' b') q

end Binary

namespace Decimal

/-- The count of digits before the point, or minus the count of zeros after it. -/
def size (d : Decimal) : Int :=
  (Nat.toDigits 10 d.digits).length + d.exponent

/-- The double precision number nearest to a decimal number without its sign, if the number is not
too large. Numbers below `10 ^ -330` are nearest to zero, and those from `10 ^ 330` on too large. -/
def binary? (d : Decimal) : Option Binary :=
  if d.digits = 0 ∨ d.size < -330 then some .zero
  else if 330 < d.size then none
  else
    Binary.nearest? (d.digits * Nat.pow 10 d.exponent.toNat) (Nat.pow 10 (-d.exponent).toNat)

end Decimal

end Twisty.Number
