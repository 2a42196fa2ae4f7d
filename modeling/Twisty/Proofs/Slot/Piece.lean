import Twisty.Proofs.Slot.Carrying

/-!
# Slots of one piece

A sticker lies half a layer outside the center of the piece that it is on, so the stickers of one
piece come together when their coordinates are brought between `-(n - 1)` and `n - 1`, where the
centers of the pieces of an `n`-layer cube lie (`Point.clamped`). Slots that come together so are
mates (`Mates`).

Clamping goes with the turns of the cube (`turnPoint_clamped`), so whole turns take mates to mates
and no other slots (`mates_iterate_carried`). A clamped center has the layer of its slot about every
face (`dot_clamped_point`), so mates lie in the same layers (`Mates.layer_eq`).
-/

namespace Twisty

open Function

/-! ## Clamping -/

/-- The number between `-b` and `b` that is nearest to a number. -/
def clampTo (b : ℕ) (x : Int) : Int :=
  max (-b) (min b x)

@[simp] theorem clampTo_neg (b : ℕ) (x : Int) : clampTo b (-x) = -clampTo b x := by
  unfold clampTo
  omega

/-- A point with its coordinates brought between `-b` and `b`. -/
def Point.clamped (b : ℕ) (p : Point) : Point :=
  ⟨clampTo b p.x, clampTo b p.y, clampTo b p.z⟩

namespace Face

/-- Measured along a normal, a clamped point is the clamped measure of the point. -/
theorem dot_clamped (f : Face) (b : ℕ) (p : Point) :
    f.normal.dot (p.clamped b) = clampTo b (f.normal.dot p) := by
  cases f <;> simp [normal, Point.dot, Point.clamped]

/-- Clamping a point and turning it can be done in either order. -/
theorem turnPoint_clamped (f : Face) (b : ℕ) (p : Point) :
    f.turnPoint (p.clamped b) = (f.turnPoint p).clamped b := by
  cases f <;> ext <;> simp [turnPoint, normal, Point.dot, Point.cross, Point.clamped]

theorem iterate_turnPoint_clamped (f : Face) (b m : ℕ) (p : Point) :
    f.turnPoint^[m] (p.clamped b) = (f.turnPoint^[m] p).clamped b := by
  induction m generalizing p with
  | zero => rfl
  | succ m ih => rw [iterate_succ_apply, turnPoint_clamped, ih, ← iterate_succ_apply]

theorem injective_turnPoint (f : Face) : Injective f.turnPoint :=
  LeftInverse.injective (turnPoint_turnPoint_opposite f)

end Face

/-- How far the clamped center of a cell lies in the direction of a face says its layer. -/
theorem Cell.dot_clamped_point {n : ℕ} {c : Cell} (f : Face) (h : c.Within n) :
    f.normal.dot ((c.point n).clamped (n - 1)) = n - 1 - 2 * c.layer f (n - 1) := by
  obtain ⟨hr, hc⟩ := h
  rw [Face.dot_clamped, dot_point, layer, clampTo]
  cases f.side c.face <;>
    simp only [Side.outward, Side.rightward, Side.downward, distance] <;> omega

/-! ## Mates -/

namespace SlotKind

variable {k j : SlotKind} {s t n : ℕ}

/-- A slot of an `n`-layer cube, given with its kind. -/
def IsSlot (n : ℕ) (x : SlotKind × ℕ) : Prop :=
  x.1 ∈ (Inventory.full n).kinds ∧ x.2 < x.1.size

instance (n : ℕ) (x : SlotKind × ℕ) : Decidable (IsSlot n x) :=
  inferInstanceAs (Decidable (x.1 ∈ (Inventory.full n).kinds ∧ x.2 < x.1.size))

/-- Two slots are on one piece of an `n`-layer cube. -/
def Mates (n : ℕ) (x y : SlotKind × ℕ) : Prop :=
  (x.1.point x.2 n).clamped (n - 1) = (y.1.point y.2 n).clamped (n - 1)

instance (n : ℕ) (x y : SlotKind × ℕ) : Decidable (Mates n x y) :=
  inferInstanceAs (Decidable (_ = _))

/-- Stickers of one piece are in the same layers. -/
theorem Mates.layer_eq (h : Mates n (k, s) (j, t)) (hk : k.OnCube n) (hj : j.OnCube n) (f : Face) :
    k.layer n f s = j.layer n f t := by
  have hdot := congrArg f.normal.dot h
  simp only [point, Cell.dot_clamped_point f (within_cell hk s),
    Cell.dot_clamped_point f (within_cell hj t)] at hdot
  rw [layer, layer]
  omega

/-- Whole turns of the cube take mates to mates, and no other slots. -/
theorem mates_iterate_carried (hk : k.OnCube n) (hj : j.OnCube n) (f : Face) (m s t : ℕ) :
    Mates n (k, (k.carried f)^[m] s) (j, (j.carried f)^[m] t) ↔ Mates n (k, s) (j, t) := by
  rw [Mates, point_iterate_carried hk, point_iterate_carried hj, ← Face.iterate_turnPoint_clamped,
    ← Face.iterate_turnPoint_clamped, (f.injective_turnPoint.iterate m).eq_iff, Mates]

end SlotKind

end Twisty
