import Twisty.Move
import Twisty.Notation.Error
import Twisty.Text.Words

/-!
# Reading moves

`readToken` reads one token as a move of a cube of `n` layers, and `readText` reads a text of
tokens up to the first that fails. What a token means is settled in a fixed order : the cube must
have layers, the token must have the written form of a move, its turn amount must not be too large,
and its layers must fit the cube (`Lexeme.span`).

The layers of a form are checked by `centeredSpan` for moves around the middle, `doubleSpan` for
small letters, and `outerSpan`, `wideSpan`, `innerSpan` and `rangeSpan` for capital ones.
-/

namespace Twisty.Notation

/-- The largest turn amount that can be written. -/
def maxTurns : Nat := 4294967295

/-- The layer number that a numeral writes. -/
def Numeral.layer (k : Numeral) : Except Fault Nat :=
  if k.value ≤ maxLayer then .ok k.value else .error (.range (.layerTooLarge k))

/-- The first and last of `count` layers around the middle of a cube. -/
def centeredSpan (count n : Nat) : Except Fault (Nat × Nat) :=
  if count = 0 ∨ n ≤ count then .error (.range (.middleDoesNotFit count n))
  else if count % 2 ≠ n % 2 then .error (.range (.middleNotCentered count n))
  else .ok ((n - count) / 2 + 1, (n - count) / 2 + count)

/-- The layers of a small letter : two, or on a cube of three layers one. -/
def doubleSpan (n : Nat) : Except Fault (Nat × Nat) :=
  if n ≤ 2 then .error (.range (.tooSmallForDouble n))
  else if n = 3 then .ok (1, 1)
  else .ok (1, 2)

/-- The layer of a face. -/
def outerSpan (n : Nat) : Except Fault (Nat × Nat) :=
  if n < 2 then .error (.range (.noOuterLayer n)) else .ok (1, 1)

/-- The `count` layers nearest to a face. -/
def wideSpan (count n : Nat) : Except Fault (Nat × Nat) :=
  if count < 2 ∨ n ≤ count then .error (.range (.wideOutOfRange n)) else .ok (1, count)

/-- A layer that must lie between the two outer ones. -/
def innerLayer (l n : Nat) : Except Fault Nat :=
  if 2 ≤ l ∧ l < n then .ok l else .error (.range (.notInner l n))

/-- One inner layer. -/
def innerSpan (l n : Nat) : Except Fault (Nat × Nat) := do
  let l ← innerLayer l n
  return (l, l)

/-- The layers between two inner ones, given in either order. -/
def rangeSpan (a b n : Nat) : Except Fault (Nat × Nat) := do
  let a ← innerLayer a n
  let b ← innerLayer b n
  return (min a b, max a b)

namespace Lexeme

/-- The signed number of quarter turns. Without a turn amount it is one. -/
def turns (l : Lexeme) : Except Fault Int :=
  let amount := l.amount.elim 1 Numeral.value
  if amount ≤ maxTurns then .ok (if l.primed then -(amount : Int) else amount)
  else .error (.range .turnsTooLarge)

/-- The first and last layer that a lexeme turns on a cube of `n` layers, counted from the face of
its family. -/
def span (l : Lexeme) (n : Nat) : Except Fault (Nat × Nat) :=
  match l.family, l.layers, l.wide with
  | .rotation _, .absent, false => .ok (1, n)
  | .rotation _, _, _ => .error (.grammar .decoratedRotation)
  | .middle _, .absent, false => centeredSpan 1 n
  | .middle _, .single k, false => do centeredSpan (← k.layer) n
  | .middle _, _, _ => .error (.grammar .decoratedMiddle)
  | .double _, .absent, false => doubleSpan n
  | .double _, _, _ => .error (.grammar .decoratedDouble)
  | .outer _, .absent, false => outerSpan n
  | .outer _, .absent, true => wideSpan 2 n
  | .outer _, .single k, true => do wideSpan (← k.layer) n
  | .outer _, .single k, false => do innerSpan (← k.layer) n
  | .outer _, .range a b, true => do rangeSpan (← a.layer) (← b.layer) n
  | .outer _, .range _ _, false => .error (.grammar .rangeNotWide)

/-- The move that a lexeme means on a cube of `n` layers. -/
def move (l : Lexeme) (n : Nat) : Except Fault Move := do
  let turns ← l.turns
  let (a, b) ← l.span n
  return (Move.between l.family.face a b turns).canonical n

end Lexeme

/-- The move that the characters of a token mean on a cube of `n` layers. -/
def readChars (n : Nat) (cs : List Char) : Except Fault Move :=
  if n = 0 then .error (.range .noLayers)
  else
    match Lexeme.read cs with
    | .ok l => l.move n
    | .error u => .error (.grammar (.unexpected u))

/-- The move that a token means on a cube of `n` layers. -/
def readToken (n : Nat) (token : String) : Except Error Move :=
  (readChars n token.toList).mapError (Error.mk token)

/-- The moves that the words of a text mean on a cube of `n` layers. -/
def readText (n : Nat) (text : String) : Except Error (List Move) :=
  (Text.words text).mapM (readToken n)

end Twisty.Notation
