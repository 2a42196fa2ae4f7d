import Twisty.Face
import Twisty.Space.Layer

/-!
# Moves

A move turns a range of adjacent layers. Layers are counted from the move's face, from 1 for the
layer of the face itself, and the turn is in clockwise quarter turns as seen from that face.

`Move.flipped` says the same move from the opposite face : the layers are counted from the other
end and the turn goes the other way. `Move.canonical` picks of the two the one whose layers start
nearer to its face, the same for a move and its inverse (`inverse_canonical`).
-/

namespace Twisty

/-- A turn of the layers `first` to `last`, counted from `face`, by `turns` clockwise quarter
turns. -/
structure Move where
  face : Face
  first : Nat
  last : Nat
  turns : Nat
  deriving DecidableEq, Inhabited

namespace Move

/-- The quarter turns from 0 to 3 that have the effect of a signed number of them. -/
def quarters (t : Int) : Nat :=
  (t % 4).toNat

/-- The move of the layers between two layers, in whichever order they are given, by a signed
number of quarter turns. -/
def between (f : Face) (a b : Nat) (t : Int) : Move :=
  ⟨f, min a b, max a b, quarters t⟩

/-- The move that undoes a move. -/
def inverse (m : Move) : Move :=
  { m with turns := quarters (-m.turns) }

/-- A move by no quarter turns does nothing. -/
def isTrivial (m : Move) : Bool :=
  m.turns == 0

/-- How many layers a move turns. -/
def thickness (m : Move) : Nat :=
  m.last + 1 - m.first

/-- How many layers a move turns, where the range is in order and the number is one that a cube
can have. -/
def thickness? (m : Move) : Option Nat :=
  if m.first ≤ m.last ∧ m.last - m.first + 1 ≤ maxLayer then some m.thickness else none

/-- The number of a layer of an `n`-layer cube when counted from the other side. It is no larger
than a layer number can be. -/
def reflectLayer (n l : Nat) : Nat :=
  min (n - l + 1) maxLayer

/-- The same move of an `n`-layer cube, said from the opposite face. -/
def flipped (m : Move) (n : Nat) : Move :=
  ⟨m.face.opposite, reflectLayer n m.last, reflectLayer n m.first, quarters (-m.turns)⟩

/-- The same move of an `n`-layer cube, said from the face nearer to its layers. A range that is
exactly centered stays as it is. -/
def canonical (m : Move) (n : Nat) : Move :=
  if n + 1 < m.first + m.last then m.flipped n else m

theorem quarters_lt (t : Int) : quarters t < 4 := by
  unfold quarters
  omega

theorem quarters_natCast (t : Nat) : quarters t = t % 4 := by
  unfold quarters
  omega

theorem quarters_neg_natCast (t : Nat) : quarters (-t) = (4 - t % 4) % 4 := by
  unfold quarters
  omega

theorem quarters_neg_quarters (t : Int) : quarters (-(quarters t : Nat)) = quarters (-t) := by
  unfold quarters
  omega

@[simp] theorem inverse_face (m : Move) : m.inverse.face = m.face := rfl

@[simp] theorem inverse_first (m : Move) : m.inverse.first = m.first := rfl

@[simp] theorem inverse_last (m : Move) : m.inverse.last = m.last := rfl

theorem inverse_between (f : Face) (a b : Nat) (t : Int) :
    (between f a b t).inverse = between f a b (-t) := by
  simp only [between, inverse, quarters_neg_quarters]

theorem reflectLayer_eq {n l : Nat} (hn : n ≤ maxLayer) (h₁ : 1 ≤ l) (h₂ : l ≤ n) :
    reflectLayer n l = n + 1 - l := by
  rw [reflectLayer, Nat.min_eq_left (by omega), Nat.sub_add_comm h₂]

/-- The inverse is said from the face that the move is said from. -/
theorem inverse_canonical (m : Move) (n : Nat) : (m.canonical n).inverse = m.inverse.canonical n :=
  apply_ite inverse (n + 1 < m.first + m.last) (m.flipped n) m

end Move

end Twisty
