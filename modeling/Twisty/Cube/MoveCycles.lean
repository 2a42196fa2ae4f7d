import Twisty.Move
import Twisty.Slot.Inventory
import Twisty.Pattern
import Twisty.Cube.Orbit

/-!
# The cycles of a move

A move of an `n`-layer cube is taken apart into cycles of slots. Layer by layer, and within a layer
kind by kind, each pattern that occurs gives its cycles. A layer beyond the middle is turned as a
layer of the opposite face, the other way round.
-/

namespace Twisty

/-- The face that a layer is turned about, and by how many quarter turns : the nearer face of the
two, so that the depth of the layer is its rank. -/
def Move.turnOf (m : Move) (b : Zone) : Face × Nat :=
  if b.isNear then (m.face, m.turns) else (m.face.opposite, (4 - m.turns % 4) % 4)

/-- The cycles of a kind when a layer in a zone is turned. -/
def Move.kindCycles (m : Move) (n : Nat) (b : Zone) (k : SlotKind) : List Cycle :=
  match Pattern.of? b k (middleRank? n) with
  | some p => (p.lookup (m.turnOf b).1 (m.turnOf b).2).map (Cycle.mk k)
  | none => []

/-- The cycles of the kinds of an inventory when one layer is turned. -/
def Move.layerCycles (m : Move) (n : Nat) (inv : Inventory) (l : Nat) : List Cycle :=
  inv.kinds.flatMap (m.kindCycles n (zone n l))

/-- The layers that a move turns, from the one nearest to its face. -/
def Move.layers (m : Move) : List Nat :=
  List.range' m.first (m.last + 1 - m.first)

/-- A move turns layers that an `n`-layer cube has. -/
def Move.InRange (m : Move) (n : Nat) : Prop :=
  1 ≤ m.first ∧ m.first ≤ m.last ∧ m.last ≤ n

instance (m : Move) (n : Nat) : Decidable (m.InRange n) :=
  inferInstanceAs (Decidable (1 ≤ m.first ∧ m.first ≤ m.last ∧ m.last ≤ n))

/-- The cycles of the kinds of an inventory in a move of an `n`-layer cube. -/
def Move.cycles (m : Move) (n : Nat) (inv : Inventory) : Except CubeError (List Cycle) :=
  if ¬ m.InRange n then .error (.layersOutOfRange m.first m.last n)
  else if m.isTrivial then .ok []
  else .ok (m.layers.flatMap (m.layerCycles n inv))

end Twisty
