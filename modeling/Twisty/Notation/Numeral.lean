/-!
# Written numbers

A number is written as one or more decimal digits, and leading zeros are allowed. A `Numeral` keeps
the digits as they stand, so that `Numeral.text` gives back the written form, and `Numeral.value` is
the number meant.
-/

namespace Twisty.Notation

/-- The character that writes a digit. -/
def digitChar (d : Fin 10) : Char :=
  Char.ofNat (48 + d)

/-- The digit that a character writes. -/
def digit? (c : Char) : Option (Fin 10) :=
  (List.finRange 10).find? (digitChar · == c)

theorem digit?_eq_some_iff {c : Char} {d : Fin 10} : digit? c = some d ↔ c = digitChar d := by
  constructor
  · intro h
    have hc := List.find?_some h
    exact (beq_iff_eq.1 hc).symm
  · rintro rfl
    revert d
    decide

@[simp] theorem digit?_digitChar (d : Fin 10) : digit? (digitChar d) = some d :=
  digit?_eq_some_iff.2 rfl

/-- A number as it is written. -/
structure Numeral where
  digits : List (Fin 10)
  nonempty : digits ≠ [] := by simp
  deriving DecidableEq

namespace Numeral

/-- The numeral of one digit. -/
def single (d : Fin 10) : Numeral :=
  ⟨[d], by simp⟩

/-- The numeral with one more digit at its end. -/
def push (k : Numeral) (d : Fin 10) : Numeral :=
  ⟨k.digits ++ [d], by simp⟩

/-- The number that a numeral means. -/
def value (k : Numeral) : Nat :=
  k.digits.foldl (fun v d => 10 * v + d.val) 0

/-- The characters of a numeral. -/
def text (k : Numeral) : List Char :=
  k.digits.map digitChar

@[simp] theorem text_single (d : Fin 10) : (single d).text = [digitChar d] := rfl

@[simp] theorem text_push (k : Numeral) (d : Fin 10) :
    (k.push d).text = k.text ++ [digitChar d] := by
  simp [push, text]

theorem value_push (k : Numeral) (d : Fin 10) : (k.push d).value = 10 * k.value + d := by
  simp [push, value]

end Numeral

end Twisty.Notation
