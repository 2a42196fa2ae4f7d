import Twisty.Number.Binary

/-!
# The fewest digits of a double precision number

A double precision number is written with the fewest decimal digits that are still nearest to it.
`Binary.readsBack` says which decimal numbers those are : the ones between the middles to the two
numbers beside it, the middles included if the significand is even. `Binary.shortest` takes the
coarsest power of ten with such a multiple, and of two multiples the nearer, or the larger if both
are as near.
-/

namespace Twisty.Number

namespace Binary

/-- Four times the significand, less the distance to the middle below. The gap below a power of two
is half as wide. -/
def low (x : Binary) : Nat :=
  if x.significand = Nat.pow 2 (precision - 1) ∧ minExponent < x.exponent then
    4 * x.significand - 1
  else 4 * x.significand - 2

/-- Four times the significand, and the distance to the middle above. -/
def high (x : Binary) : Nat :=
  4 * x.significand + 2

/-- A quarter of a unit of the significand against the multiples of `10 ^ e`, as a quotient. -/
def quarter (x : Binary) (e : Int) : Nat × Nat :=
  let q := x.exponent - 2
  (Nat.pow 2 q.toNat * Nat.pow 10 (-e).toNat, Nat.pow 2 (-q).toNat * Nat.pow 10 e.toNat)

/-- The number is the nearest to `n * 10 ^ e`. -/
def readsBack (x : Binary) (n : Nat) (e : Int) : Bool :=
  let (a, b) := x.quarter e
  if x.significand % 2 = 0 then x.low * a ≤ n * b && n * b ≤ x.high * a
  else x.low * a < n * b && n * b < x.high * a

/-- The multiple of `10 ^ e` that the number is written as, if one reads back. -/
def multiple? (x : Binary) (e : Int) : Option Nat :=
  let (a, b) := x.quarter e
  let value := 4 * x.significand * a
  let n := value / b
  match x.readsBack n e, x.readsBack (n + 1) e with
  | true, true => some (if 2 * (value % b) < b then n else n + 1)
  | true, false => some n
  | false, true => some (n + 1)
  | false, false => none

/-- The exponents of ten, the highest first. -/
def exponents : List Int :=
  (List.range 634).map fun (i : Nat) => 309 - (i : Int)

/-- The fewest digits of a number above zero, with their exponent. -/
def shortest (x : Binary) : Nat × Int :=
  (exponents.findSome? fun e => (x.multiple? e).map fun n => (n, e)).getD (0, 0)

/-- A number as it is written. -/
def text (x : Binary) : List Char :=
  if x.significand = 0 then ['0']
  else
    let (n, e) := x.shortest
    positional n e

end Binary

/-- A decimal number as it is written after rounding to double precision. -/
def Decimal.text (d : Decimal) : String :=
  let size := match d.binary? with
    | some x => x.text
    | none => "inf".toList
  String.ofList (if d.negative then '-' :: size else size)

end Twisty.Number
