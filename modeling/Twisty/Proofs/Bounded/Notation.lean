import Twisty.Proofs.Bounded.Steps
import Twisty.Proofs.Notation.Accepted

/-!
# Tokens read in range

To read a token takes few steps that could leave their range. The layers around the middle are found
by sums and differences (`centeredSpan`), which stay in range since the slices are fewer than the
layers of the cube. To say a move from the nearer face two layers are added (`canonical`), which
takes one bit more than a layer has. Numbers that are written too large are refused before any step
is done with them.

So whatever the token and the size, reading gives what `readToken` gives (`readToken_eq_some`), and
the layers of a move that was read can be counted (`thickness?_eq_some_of_readToken`).
-/

namespace Twisty.Bounded

open Notation

variable {n : ℕ}

/-- The first and last of `count` layers around the middle of a cube. -/
def centeredSpan (count n : ℕ) : Option (Except Fault (ℕ × ℕ)) :=
  if count = 0 ∨ n ≤ count then some (.error (.range (.middleDoesNotFit count n)))
  else if count % 2 ≠ n % 2 then some (.error (.range (.middleNotCentered count n)))
  else do
    let spare ← minus? n count
    let first ← short? (spare / 2 + 1)
    let beyond ← short? (first + count)
    let last ← minus? beyond 1
    return .ok (first, last)

/-- The first and last layer that a lexeme turns. Only around the middle is there anything to
reckon, the other forms compare. -/
def span (l : Lexeme) (n : ℕ) : Option (Except Fault (ℕ × ℕ)) :=
  match l.family, l.layers, l.wide with
  | .middle _, .absent, false => centeredSpan 1 n
  | .middle _, .single k, false => attempt (some k.layer) fun count => centeredSpan count n
  | _, _, _ => some (l.span n)

/-- The signed number of quarter turns. -/
def turns (l : Lexeme) : Option (Except Fault ℤ) :=
  if l.turnAmount ≤ maxTurns then (signed? l.signedTurns).map .ok
  else some (.error (.range .turnsTooLarge))

/-- The same move, said from the face nearer to its layers. The layers are reflected without leaving
the range, since `Move.reflectLayer` stops at its ends. -/
def canonical (m : Move) (n : ℕ) : Option Move := do
  let sum ← long? (m.first + m.last)
  let ends ← long? (n + 1)
  return if ends < sum then m.flipped n else m

/-- The move that a lexeme means. -/
def move (l : Lexeme) (n : ℕ) : Option (Except Fault Move) :=
  attempt (turns l) fun turns => attempt (span l n) fun s =>
    (canonical (.between l.family.face s.1 s.2 turns) n).map .ok

/-- The move that the characters of a token mean. -/
def readChars (n : ℕ) (cs : List Char) : Option (Except Fault Move) :=
  if n = 0 then some (.error (.range .noLayers))
  else
    match Lexeme.read cs with
    | .ok l => move l n
    | .error u => some (.error (.grammar (.unexpected u)))

/-- The move that a token means. -/
def readToken (n : ℕ) (token : String) : Option (Except Notation.Error Move) :=
  (readChars n token.toList).map (·.mapError (Error.mk token))

/-! ## No step leaves its range -/

/-- Layers around the middle are counted in range. -/
theorem centeredSpan_eq_some (hn : n ≤ maxLayer) (count : ℕ) :
    centeredSpan count n = some (Notation.centeredSpan count n) := by
  unfold maxLayer at hn
  unfold centeredSpan Notation.centeredSpan
  split_ifs with hfit hparity
  · rfl
  · rfl
  · rw [minus?_eq_some (by omega)]
    simp only [Option.bind_eq_bind, Option.bind_some]
    rw [short?_eq_some (by omega), Option.bind_some, short?_eq_some (by omega), Option.bind_some,
      minus?_eq_some (by omega), Option.bind_some, Nat.add_right_comm, Nat.add_sub_cancel]
    rfl

/-- The layers of a draft are counted in range, or the draft is refused first. -/
theorem span_eq_some (hn : n ≤ maxLayer) (l : Lexeme) : span l n = some (l.span n) := by
  unfold span
  split
  · next hfamily hlayers hwide =>
    rw [centeredSpan_eq_some hn, Lexeme.span, hfamily, hlayers, hwide]
  · next hfamily hlayers hwide =>
    rw [attempt_eq_some fun count _ => centeredSpan_eq_some hn count, Lexeme.span, hfamily, hlayers,
      hwide]
  · rfl

/-- The quarter turns of a draft are counted in range, or the draft is refused first. -/
theorem turns_eq_some (l : Lexeme) : turns l = some l.turns := by
  rw [turns, Lexeme.turns_eq]
  split_ifs with h
  · have hsigned : |l.signedTurns| ≤ 4294967295 := by
      unfold maxTurns at h
      unfold Lexeme.signedTurns
      split_ifs <;> simp <;> omega
    rw [signed?_eq_some hsigned]
    rfl
  · rfl

/-- A move is turned about the nearer face in range. -/
theorem canonical_eq_some (hn : n ≤ maxLayer) {m : Move} (hm : m.first + m.last ≤ 2 * maxLayer) :
    canonical m n = some (m.canonical n) := by
  unfold maxLayer at hn hm
  rw [canonical, long?_eq_some (by omega), long?_eq_some (by omega)]
  rfl

/-- The move of a draft is found in range on a cube that has layers. -/
theorem move_eq_some (hn : n ≤ maxLayer) (h0 : n ≠ 0) (l : Lexeme) :
    move l n = some (l.move n) := by
  rw [move, turns_eq_some]
  refine attempt_eq_some fun turns _ => ?_
  rw [span_eq_some hn]
  refine attempt_eq_some fun ⟨first, last⟩ hspan => ?_
  obtain ⟨hfirst, hle, hlast⟩ := (Lexeme.span_eq_ok_iff.1 hspan).2.bounds h0
  rw [canonical_eq_some hn]
  · rfl
  · simp only [Move.between]
    omega

/-- Any token can be read on a cube of any size there is. -/
theorem readToken_eq_some (hn : n ≤ maxLayer) (t : String) :
    readToken n t = some (Notation.readToken n t) := by
  have hchars : readChars n t.toList = some (Notation.readChars n t.toList) := by
    unfold readChars Notation.readChars
    split_ifs with h0
    · rfl
    · cases Lexeme.read t.toList with
      | error u => rfl
      | ok l => exact move_eq_some hn h0 l
  rw [readToken, hchars]
  rfl

/-- The layers of a move that was read can be counted. -/
theorem thickness?_eq_some_of_readToken (hn : n ≤ maxLayer) {t : String} {m : Move}
    (h : Notation.readToken n t = .ok m) : m.thickness? = some m.thickness := by
  obtain ⟨hfirst, hle, hlast⟩ := inRange_of_readToken hn h
  exact if_pos ⟨hle, by omega⟩

end Twisty.Bounded
