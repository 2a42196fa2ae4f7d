import Twisty.Proofs.Bounded.Steps
import Twisty.Proofs.Slot.Carrying

/-!
# Turning in range

To find where a turn takes a sticker, the center of its cell is reckoned in whole numbers of 32
bits, and turned. The coordinates of a center are no larger than the size of the cube
(`atMost_point`), and no step on the way to them or on to the turned point is larger than a few
times that, so all fit (`point_eq_some`, `turnPoint?_eq_some`, `depth?_eq_some`).

So each slot of a kind that is on the cube has its place (`position_eq_some`), and a turn of a layer
takes it to a slot (`kindTurn_eq_some`).
-/

namespace Twisty

/-! ## Points -/

/-- The coordinates of a point are no larger than a number, with either sign. -/
structure Point.AtMost (b : ℤ) (p : Point) : Prop where
  x : |p.x| ≤ b
  y : |p.y| ≤ b
  z : |p.z| ≤ b

namespace Bounded

variable {a b c d m : ℤ} {p q : Point}

theorem abs_mul_le (ha : |a| ≤ 1) (hb : |b| ≤ m) : |a * b| ≤ m := by
  rw [abs_mul]
  exact (mul_le_of_le_one_left (abs_nonneg b) ha).trans hb

theorem atMost_normal (f : Face) : f.normal.AtMost 1 := by
  cases f <;> exact ⟨by decide, by decide, by decide⟩

theorem atMost_rightward (f : Face) : f.rightward.AtMost 1 := by
  cases f <;> exact ⟨by decide, by decide, by decide⟩

theorem atMost_downward (f : Face) : f.downward.AtMost 1 := by
  cases f <;> exact ⟨by decide, by decide, by decide⟩

/-- A dot product with a direction is at most three times as large. -/
theorem abs_dot_le (hp : p.AtMost 1) (hq : q.AtMost m) : |p.dot q| ≤ 3 * m := by
  have hx := abs_mul_le hp.x hq.x
  have hy := abs_mul_le hp.y hq.y
  have hz := abs_mul_le hp.z hq.z
  rw [Point.dot]
  rw [abs_le] at hx hy hz ⊢
  omega

/-- The dot product with a direction is found in range, sum by sum. -/
theorem dot?_eq_some (hp : p.AtMost 1) (hq : q.AtMost m) (hm : 3 * m ≤ 2147483647) :
    p.dot? q = some (p.dot q) := by
  have hx := abs_mul_le hp.x hq.x
  have hy := abs_mul_le hp.y hq.y
  have hz := abs_mul_le hp.z hq.z
  have hxy : |p.x * q.x + p.y * q.y| ≤ 2 * m := (abs_add_le _ _).trans (by omega)
  have hall := abs_dot_le hp hq
  have h0 := (abs_nonneg _).trans hx
  rw [Point.dot?, fit?_eq_some (by omega), fit?_eq_some (by omega)]
  simp only [Option.bind_eq_bind, Option.bind_some]
  rw [fit?_eq_some (by omega), fit?_eq_some (by omega)]
  exact fit?_eq_some (hall.trans hm)

/-- A difference of two products is found in range. -/
theorem minor?_eq_some (hab : |a * b| ≤ m) (hcd : |c * d| ≤ m) (hm : 2 * m ≤ 2147483647) :
    Point.minor? a b c d = some (a * b - c * d) := by
  have h0 := (abs_nonneg _).trans hab
  have hall : |a * b - c * d| ≤ 2147483647 := (abs_sub _ _).trans (by omega)
  rw [Point.minor?, fit?_eq_some (by omega), fit?_eq_some (by omega)]
  exact fit?_eq_some hall

/-- The cross product with a direction is found in range. -/
theorem cross?_eq_some (hp : p.AtMost 1) (hq : q.AtMost m) (hm : 2 * m ≤ 2147483647) :
    p.cross? q = some (p.cross q) := by
  rw [Point.cross?, minor?_eq_some (abs_mul_le hp.y hq.z) (abs_mul_le hp.z hq.y) hm,
    minor?_eq_some (abs_mul_le hp.z hq.x) (abs_mul_le hp.x hq.z) hm,
    minor?_eq_some (abs_mul_le hp.x hq.y) (abs_mul_le hp.y hq.x) hm]
  rfl

/-- A cross product with a direction is at most twice as large. -/
theorem atMost_cross (hp : p.AtMost 1) (hq : q.AtMost m) : (p.cross q).AtMost (2 * m) := by
  have hminor : ∀ {a b c d : ℤ}, |a| ≤ 1 → |b| ≤ m → |c| ≤ 1 → |d| ≤ m →
      |a * b - c * d| ≤ 2 * m := by
    intro a b c d ha hb hc hd
    have hab := abs_mul_le ha hb
    have hcd := abs_mul_le hc hd
    exact (abs_sub _ _).trans (by omega)
  exact ⟨hminor hp.y hq.z hp.z hq.y, hminor hp.z hq.x hp.x hq.z, hminor hp.x hq.y hp.y hq.x⟩

/-- A point can be turned if it is not further out than the largest cube. -/
theorem turnPoint?_eq_some (f : Face) (hp : p.AtMost maxLayer) :
    f.turnPoint? p = some (f.turnPoint p) := by
  have hm : ((maxLayer : ℕ) : ℤ) = 65535 := rfl
  rw [hm] at hp
  have hn := atMost_normal f
  have halong := abs_dot_le hn hp
  have hacross := atMost_cross hn hp
  have hone : |(1 : ℤ)| ≤ 1 := by decide
  have hstep : ∀ {a b c : ℤ}, |a| ≤ 1 → |b| ≤ 3 * 65535 → |c| ≤ 2 * 65535 →
      Point.minor? a b 1 c = some (a * b - 1 * c) := fun ha hb hc =>
    minor?_eq_some (abs_mul_le ha hb) (abs_mul_le hone (hc.trans (by decide))) (by decide)
  obtain ⟨q, hq⟩ : ∃ q, f.turnPoint? p = some q := by
    rw [Face.turnPoint?, dot?_eq_some hn hp (by decide), cross?_eq_some hn hp (by decide)]
    simp only [Option.bind_eq_bind, Option.bind_some]
    rw [hstep hn.x halong hacross.x, hstep hn.y halong hacross.y, hstep hn.z halong hacross.z]
    exact ⟨_, rfl⟩
  rw [hq, Face.turnPoint_of_turnPoint? hq]

/-- The depth of a point of the cube is found in range. -/
theorem depth?_eq_some (f : Face) {n : ℕ} (hn : n ≤ maxLayer) (hp : p.AtMost maxLayer) :
    f.depth? p n = some (f.depth p n) := by
  have hm : ((maxLayer : ℕ) : ℤ) = 65535 := rfl
  have hdot := abs_dot_le (atMost_normal f) hp
  have hrest : |(n : ℤ) - 1 - f.normal.dot p| ≤ 2147483647 := by
    rw [abs_le] at hdot ⊢
    omega
  rw [Face.depth?, dot?_eq_some (atMost_normal f) hp (by omega)]
  simp only [Option.bind_eq_bind, Option.bind_some]
  split_ifs
  · rfl
  · rw [fit?_eq_some hrest]
    rfl

/-! ## Centers -/

/-- The center of a cell on an `n`-layer cube. -/
def point (c : Cell) (n : ℕ) : Option Point := do
  let last ← fit? (n - 1)
  let twiceCol ← fit? (2 * c.col)
  let u ← fit? (twiceCol - last)
  let twiceRow ← fit? (2 * c.row)
  let v ← fit? (twiceRow - last)
  let f := c.face
  let x ← Point.dot? ⟨f.normal.x, f.rightward.x, f.downward.x⟩ ⟨n, u, v⟩
  let y ← Point.dot? ⟨f.normal.y, f.rightward.y, f.downward.y⟩ ⟨n, u, v⟩
  let z ← Point.dot? ⟨f.normal.z, f.rightward.z, f.downward.z⟩ ⟨n, u, v⟩
  return ⟨x, y, z⟩

variable {n : ℕ} {e : Cell}

/-- The point of a cell is found in range, coordinate by coordinate. -/
theorem point_eq_some (hn : n ≤ maxLayer) (h : e.Within n) : point e n = some (e.point n) := by
  obtain ⟨hr, hc⟩ := h
  unfold maxLayer at hn
  have hfit : ∀ x : ℤ, -65535 ≤ x → x ≤ 131070 → fit? x = some x := fun x h h' =>
    fit?_eq_some (abs_le.2 ⟨by omega, by omega⟩)
  have hcoords : Point.AtMost 65535 ⟨n, 2 * e.col - (n - 1), 2 * e.row - (n - 1)⟩ := by
    constructor <;> dsimp only <;> rw [abs_le] <;> omega
  have hnormal := atMost_normal e.face
  have hright := atMost_rightward e.face
  have hdown := atMost_downward e.face
  have hx : Point.AtMost 1 ⟨e.face.normal.x, e.face.rightward.x, e.face.downward.x⟩ :=
    ⟨hnormal.x, hright.x, hdown.x⟩
  have hy : Point.AtMost 1 ⟨e.face.normal.y, e.face.rightward.y, e.face.downward.y⟩ :=
    ⟨hnormal.y, hright.y, hdown.y⟩
  have hz : Point.AtMost 1 ⟨e.face.normal.z, e.face.rightward.z, e.face.downward.z⟩ :=
    ⟨hnormal.z, hright.z, hdown.z⟩
  rw [point, hfit (n - 1) (by omega) (by omega)]
  simp only [Option.bind_eq_bind, Option.bind_some]
  rw [hfit _ (by omega) (by omega), Option.bind_some, hfit _ (by omega) (by omega),
    Option.bind_some, hfit _ (by omega) (by omega), Option.bind_some,
    hfit _ (by omega) (by omega), Option.bind_some,
    dot?_eq_some hx hcoords (by decide), Option.bind_some,
    dot?_eq_some hy hcoords (by decide), Option.bind_some,
    dot?_eq_some hz hcoords (by decide), Option.bind_some]
  refine congrArg some (Point.ext ?_ ?_ ?_) <;>
    simp only [Point.dot, Cell.point, Point.add_x, Point.add_y, Point.add_z, Point.scale_x,
      Point.scale_y, Point.scale_z, Int.mul_comm]

/-- The points of the cells have coordinates of 16 bits. -/
theorem atMost_point (hn : n ≤ maxLayer) (h : e.Within n) : (e.point n).AtMost maxLayer := by
  obtain ⟨f, row, col⟩ := e
  obtain ⟨hr, hc⟩ : row < n ∧ col < n := h
  constructor <;> rw [abs_le] <;> cases f <;>
    simp [Cell.point, Face.normal, Face.rightward, Face.downward] <;> omega

/-! ## Slots -/

/-- The cell of a slot, on a face that is looked up by its number. -/
def position (k : SlotKind) (s n : ℕ) : Option Cell := do
  let face ← Face.all[s / k.faceSize % 6]?
  let e ← k.cell? s n
  return { e with face := face }

/-- The slot where a clockwise quarter turn of the layer at a depth below a face takes the sticker
in a slot. -/
def turnSlot (k : SlotKind) (n : ℕ) (f : Face) (depth s : ℕ) : Option ℕ := do
  let e ← position k s n
  let p ← point e n
  let d ← f.depth? p n
  if d = depth then k.slotAt? n (← f.turnPoint? p) else return s

/-- Where a clockwise quarter turn of the layer at a depth below a face takes the sticker in each
slot of a kind. -/
def kindTurn (k : SlotKind) (n : ℕ) (f : Face) (depth : ℕ) : Option (List ℕ) :=
  (List.range k.size).mapM (turnSlot k n f depth)

variable {k : SlotKind}

/-- The number of a face, taken modulo six, is that of a face. -/
theorem getElem?_all_mod (i : ℕ) : Face.all[i % 6]? = some (Face.ofIndex i) := by
  have hfaces : ∀ r < 6, Face.all[r]? = some (Face.ofIndex r) := by decide
  rw [hfaces _ (Nat.mod_lt i (by decide)), Face.ofIndex, Nat.mod_mod]
  rfl

/-- The cell of a slot is found in range. -/
theorem position_eq_some (hk : k.OnCube n) (s : ℕ) : position k s n = some (k.cell s n) := by
  have hw := SlotKind.within_startCell hk s
  rw [position, getElem?_all_mod, SlotKind.cell?_eq_some (Nat.le_sub_one_of_lt hw.1)
    (Nat.le_sub_one_of_lt hw.2)]
  refine congrArg some ?_
  rw [← SlotKind.slotFace, ← SlotKind.cell_face k s n]

/-- A turn of a layer takes every slot of a kind that is on the cube to a slot. -/
theorem kindTurn_eq_some (hk : k.OnCube n) (hn : n ≤ maxLayer) (f : Face) (depth : ℕ) :
    kindTurn k n f depth = some (k.turn n f depth) := by
  refine mapM_eq_some fun s _ => ?_
  have hw := SlotKind.within_cell hk s
  have hat := atMost_point hn hw
  have hslot := SlotKind.turnSlot?_eq hk hn f depth s
  rw [turnSlot, position_eq_some hk]
  simp only [Option.bind_eq_bind, Option.bind_some]
  rw [point_eq_some hn hw, Option.bind_some, depth?_eq_some f hn hat, Option.bind_some,
    turnPoint?_eq_some f hat, Option.bind_some, hslot, Option.getD_some, ← hslot]
  rfl

end Bounded

end Twisty
