import Twisty.Space.Point
import Twisty.Slot.Kind

/-!
# Slots

The slots of a kind are numbered face by face, and on each face clockwise from the top left. The
first slots of a face are the given ones, and each quarter turn of the face takes a slot to the one
that comes next. `SlotKind.cell` says where a slot lies, and `SlotKind.point` where its sticker
has its center.
-/

namespace Twisty.SlotKind

/-- The face of a slot. -/
def slotFace (k : SlotKind) (slot : Nat) : Face :=
  Face.ofIndex (slot / k.faceSize)

/-- The first row and column of a slot, before its face is turned. A wing has two, one on either
side of the middle of the edge. -/
def startCell (k : SlotKind) (slot n : Nat) : Cell :=
  let last := n - 1
  let face := k.slotFace slot
  match k with
  | corner => ⟨face, 0, 0⟩
  | midge => ⟨face, 0, last / 2⟩
  | exactCenter => ⟨face, last / 2, last / 2⟩
  | wing r => ⟨face, 0, if slot % 2 = 0 then r else last - r⟩
  | center r₁ r₂ => ⟨face, r₁, r₂⟩

/-- How many quarter turns of its face take the start of a slot to its place. -/
def slotTurns (k : SlotKind) (slot : Nat) : Nat :=
  match k with
  | exactCenter => 0
  | wing _ => slot % 8 / 2
  | _ => slot % 4

/-- The cell of a slot on an `n`-layer cube. -/
def cell (k : SlotKind) (slot n : Nat) : Cell :=
  (k.startCell slot n).turns (n - 1) (k.slotTurns slot)

/-- The cell of a slot on an `n`-layer cube, if its ranks fit on the cube. -/
def cell? (k : SlotKind) (slot n : Nat) : Option Cell :=
  (k.startCell slot n).turns? (n - 1) (k.slotTurns slot)

/-- The center of the sticker in a slot on an `n`-layer cube. -/
def point (k : SlotKind) (slot n : Nat) : Point :=
  (k.cell slot n).point n

theorem cell?_eq_some {k : SlotKind} {slot n : Nat} (hr : (k.startCell slot n).row ≤ n - 1)
    (hc : (k.startCell slot n).col ≤ n - 1) : k.cell? slot n = some (k.cell slot n) :=
  Cell.turns?_eq_some hr hc _

@[simp] theorem cell_face (k : SlotKind) (slot n : Nat) :
    (k.cell slot n).face = k.slotFace slot := by
  cases k <;> simp [cell, startCell]

end Twisty.SlotKind
