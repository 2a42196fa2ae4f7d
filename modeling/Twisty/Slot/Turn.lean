import Twisty.Slot.Place

/-!
# Turning one layer

A quarter turn of one layer of an `n`-layer cube permutes the slots of each kind : a sticker in the
layer goes to the slot whose sticker has its center at the turned point, and the others stay.
`SlotKind.turn` is this permutation, as the list of the slots where the stickers go.
-/

namespace Twisty.SlotKind

/-- The slot with the sticker centered at a point. If the ranks of a kind make slots coincide, the
last of them is taken. -/
def slotAt? (k : SlotKind) (n : Nat) (p : Point) : Option Nat :=
  (List.range k.size).reverse.find? fun s => k.point s n = p

/-- The slot where a clockwise quarter turn of the layer at a depth below a face takes the sticker
in a slot. -/
def turnSlot? (k : SlotKind) (n : Nat) (f : Face) (depth slot : Nat) : Option Nat :=
  let p := k.point slot n
  if f.depth p n = depth then k.slotAt? n (f.turnPoint p) else some slot

/-- Where a clockwise quarter turn of the layer at a depth below a face takes the sticker in each
slot of a kind. -/
def turn (k : SlotKind) (n : Nat) (f : Face) (depth : Nat) : List Nat :=
  (List.range k.size).map fun s => (k.turnSlot? n f depth s).getD s

/-- Where a quarter turn takes the stickers, if the kind fits on the cube : every slot has a cell,
and every turned sticker comes to a slot. -/
def turn? (k : SlotKind) (n : Nat) (f : Face) (depth : Nat) : Option (List Nat) :=
  if ∀ s ∈ List.range k.size, (k.cell? s n).isSome ∧ (k.turnSlot? n f depth s).isSome then
    some (k.turn n f depth)
  else none

@[simp] theorem length_turn (k : SlotKind) (n : Nat) (f : Face) (depth : Nat) :
    (k.turn n f depth).length = k.size := by
  simp [turn]

end Twisty.SlotKind
