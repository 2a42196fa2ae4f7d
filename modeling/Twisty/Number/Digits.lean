/-!
# Digits

A whole number is written with digits in some base up to sixteen, the letters among them in either
case, and perhaps with a sign before them.
-/

namespace Twisty.Number

/-- The sign before a number, which is minus or not, and what follows it. -/
def splitSign : List Char → Bool × List Char
  | '-' :: cs => (true, cs)
  | '+' :: cs => (false, cs)
  | cs => (false, cs)

/-- The value of a digit. -/
def digitValue? (base : Nat) (c : Char) : Option Nat :=
  (List.range base).find? fun d => Nat.digitChar d = c.toLower

/-- The number that digits write, if there are any and there is nothing else. -/
def digitsValue? (base : Nat) : List Char → Option Nat
  | [] => none
  | cs => (cs.mapM (digitValue? base)).map fun ds => ds.foldl (fun v d => base * v + d) 0

/-- The number that digits write, with a sign before them or without. -/
def wholeValue? (base : Nat) (cs : List Char) : Option Int :=
  let (negative, digits) := splitSign cs
  (digitsValue? base digits).map fun (v : Nat) => if negative then -(v : Int) else v

/-- The number that digits write, with a sign before them or without, if it has 64 bits with a
sign. -/
def longValue? (base : Nat) (cs : List Char) : Option Int :=
  (wholeValue? base cs).filter fun n => -9223372036854775808 ≤ n ∧ n ≤ 9223372036854775807

end Twisty.Number
