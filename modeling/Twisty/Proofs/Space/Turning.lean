import Twisty.Space.Point
import Mathlib.Data.Fintype.Basic
import Mathlib.Logic.Function.Iterate
import Mathlib.Tactic.Ring

/-!
# The cells of a turned cube

A quarter turn of the whole cube about `f` takes the face `g` to `f.turnFace g`, and on the way the
grid of `g` makes `f.twist g` quarter turns in its plane. `Cell.carried` says in rows and columns
where a cell goes, and its center is the turned point (`point_carried`).

`f.side g` says where on the grid of `g` the layers counted from `f` start. It gives the layer of a
cell without coordinates (`Cell.layer`), which is the depth of its center (`depth_point`). A turn
about `f` leaves the layers counted from `f` in place (`layer_carried`), and counted from the
opposite face they come in reverse (`layer_opposite`). No two cells have one center (`point_inj`).
-/

namespace Twisty

open Function

namespace Face

instance : Fintype Face := ⟨⟨all, by decide⟩, mem_all⟩

/-! ## Turning points -/

theorem turnPoint_add (f : Face) (p q : Point) :
    f.turnPoint (p + q) = f.turnPoint p + f.turnPoint q := by
  cases f <;> ext <;> simp [turnPoint, normal, Point.dot, Point.cross] <;> omega

theorem turnPoint_scale (f : Face) (k : Int) (p : Point) :
    f.turnPoint (Point.scale k p) = Point.scale k (f.turnPoint p) := by
  cases f <;> ext <;> simp [turnPoint, normal, Point.dot, Point.cross]

theorem iterate_turnPoint_add (f : Face) (k : ℕ) (p q : Point) :
    f.turnPoint^[k] (p + q) = f.turnPoint^[k] p + f.turnPoint^[k] q := by
  induction k generalizing p q with
  | zero => rfl
  | succ k ih =>
    rw [iterate_succ_apply, turnPoint_add, ih, ← iterate_succ_apply, ← iterate_succ_apply]

theorem iterate_turnPoint_scale (f : Face) (k : ℕ) (a : Int) (p : Point) :
    f.turnPoint^[k] (Point.scale a p) = Point.scale a (f.turnPoint^[k] p) := by
  induction k generalizing p with
  | zero => rfl
  | succ k ih => rw [iterate_succ_apply, turnPoint_scale, ih, ← iterate_succ_apply]

/-- Four quarter turns bring every point back. -/
theorem turnPoint_iterate_four (f : Face) (p : Point) : f.turnPoint^[4] p = p := by
  cases f <;> ext <;> simp [turnPoint, normal, Point.dot, Point.cross]

/-- Only the points on the axis come back after a half turn, and they stay in a quarter turn. -/
theorem turnPoint_eq_self_of_iterate_two {f : Face} {p : Point} (h : f.turnPoint^[2] p = p) :
    f.turnPoint p = p := by
  obtain ⟨x, y, z⟩ := p
  cases f <;> simp [turnPoint, normal, Point.dot, Point.cross, Point.ext_iff] at h ⊢ <;> omega

/-! ## Turning faces -/

/-- The face where a clockwise quarter turn about `f` takes `g`. -/
def turnFace (f g : Face) : Face :=
  (all.find? fun h => h.normal = f.turnPoint g.normal).getD g

/-- How many clockwise quarter turns, seen from outside, the grid of `g` makes in its plane while a
quarter turn about `f` takes it to its new face. -/
def twist (f g : Face) : ℕ :=
  let h := f.turnFace g
  ((List.range 4).find? fun k => h.turnPoint^[k] h.rightward = f.turnPoint g.rightward).getD 0

/-- A turn takes the normal of a face to that of the turned face. -/
theorem turnPoint_normal (f g : Face) :
    f.turnPoint g.normal = (f.turnFace g).turnPoint^[f.twist g] (f.turnFace g).normal := by
  revert f g
  decide

/-- A turn takes the direction to the right in a face to that in the turned face, turned by the
twist. -/
theorem turnPoint_rightward (f g : Face) :
    f.turnPoint g.rightward = (f.turnFace g).turnPoint^[f.twist g] (f.turnFace g).rightward := by
  revert f g
  decide

/-- A turn takes the direction down in a face to that in the turned face, turned by the twist. -/
theorem turnPoint_downward (f g : Face) :
    f.turnPoint g.downward = (f.turnFace g).turnPoint^[f.twist g] (f.turnFace g).downward := by
  revert f g
  decide

/-- The faces that a turn leaves in place are the one turned about and its opposite. -/
theorem turnFace_eq_self_iff {f g : Face} : f.turnFace g = g ↔ g = f ∨ g = f.opposite := by
  revert f g
  decide

/-- The grid of a face on the axis does not stay. -/
theorem twist_of_turnFace_eq_self {f g : Face} (h : f.turnFace g = g) :
    f.twist g = 1 ∨ f.twist g = 3 := by
  revert f g
  decide

/-! ## Sides -/

end Face

/-- Where on the grid of a face the layers of the cube are counted from. -/
inductive Side
  /-- The face itself. -/
  | near
  /-- The opposite face. -/
  | far
  | top
  | right
  | bottom
  | left
  deriving DecidableEq

namespace Side

/-- The side where a side comes to lie when the grid makes a clockwise quarter turn. -/
def turned : Side → Side
  | near => near
  | far => far
  | top => right
  | right => bottom
  | bottom => left
  | left => top

/-- The side across. -/
def opposite : Side → Side
  | near => far
  | far => near
  | top => bottom
  | right => left
  | bottom => top
  | left => right

/-- What a step outwards counts on a side. -/
def outward : Side → Int
  | near => 1
  | far => -1
  | _ => 0

/-- What a step to the right counts on a side. -/
def rightward : Side → Int
  | right => 1
  | left => -1
  | _ => 0

/-- What a step down counts on a side. -/
def downward : Side → Int
  | bottom => 1
  | top => -1
  | _ => 0

end Side

namespace Face

/-- Where on the grid of `g` the layers counted from `f` start. -/
def side (f g : Face) : Side :=
  if f = g then .near
  else if f = g.opposite then .far
  else if f.normal = g.rightward then .right
  else if f.normal = g.downward then .bottom
  else if f.normal = Point.scale (-1) g.rightward then .left
  else .top

theorem dot_normal (f g : Face) : f.normal.dot g.normal = (f.side g).outward := by
  revert f g
  decide

theorem dot_rightward (f g : Face) : f.normal.dot g.rightward = (f.side g).rightward := by
  revert f g
  decide

theorem dot_downward (f g : Face) : f.normal.dot g.downward = (f.side g).downward := by
  revert f g
  decide

theorem side_opposite (f g : Face) : f.opposite.side g = (f.side g).opposite := by
  revert f g
  decide

/-- A turn takes the side of a face on by the twist. -/
theorem side_turnFace (f g : Face) :
    f.side (f.turnFace g) = Side.turned^[f.twist g] (f.side g) := by
  revert f g
  decide

/-- The near side is that of the face itself. -/
theorem side_eq_near_iff {f g : Face} : f.side g = .near ↔ f = g := by
  revert f g
  decide

end Face

namespace Cell

/-- A cell lies on a face of `n` rows and columns. -/
def Within (n : ℕ) (c : Cell) : Prop :=
  c.row < n ∧ c.col < n

/-- The cell where a clockwise quarter turn of the whole cube about a face takes a cell. -/
def carried (f : Face) (last : ℕ) (c : Cell) : Cell :=
  Cell.turns last (f.twist c.face) { c with face := f.turnFace c.face }

/-- How many layers lie between a cell and a side of its grid. -/
def distance (last : ℕ) (c : Cell) : Side → ℕ
  | .near => 0
  | .far => last
  | .top => c.row
  | .right => last - c.col
  | .bottom => last - c.row
  | .left => c.col

/-- The layer of a cell, counted from 0 at a face. -/
def layer (f : Face) (last : ℕ) (c : Cell) : ℕ :=
  c.distance last (f.side c.face)

variable {n : ℕ} {c d : Cell}

theorem Within.turned (h : c.Within n) : (c.turned (n - 1)).Within n :=
  ⟨h.2, by have := h.1; simp only [Cell.turned]; omega⟩

theorem Within.turns (h : c.Within n) (k : ℕ) : (c.turns (n - 1) k).Within n := by
  induction k generalizing c with
  | zero => exact h
  | succ k ih => exact ih h.turned

theorem Within.carried (h : c.Within n) (f : Face) : (c.carried f (n - 1)).Within n :=
  Within.turns (c := { c with face := f.turnFace c.face }) h _

theorem turned_iterate (last k : ℕ) (c : Cell) : c.turns last k = (Cell.turned last)^[k] c := by
  induction k generalizing c with
  | zero => rfl
  | succ k ih => exact ih _

theorem turns_four (h : c.Within n) : c.turns (n - 1) 4 = c := by
  obtain ⟨f, row, col⟩ := c
  obtain ⟨hr, hc⟩ : row < n ∧ col < n := h
  simp only [Cell.turns, Cell.turned, Cell.mk.injEq, true_and]
  omega

@[simp] theorem carried_face (f : Face) (last : ℕ) (c : Cell) :
    (c.carried f last).face = f.turnFace c.face := by
  simp [carried]

/-! ## Centers -/

/-- Turning a cell in its face turns its point about that face. -/
theorem point_turned (h : c.Within n) :
    (c.turned (n - 1)).point n = c.face.turnPoint (c.point n) := by
  obtain ⟨f, row, col⟩ := c
  obtain ⟨hr, hc⟩ : row < n ∧ col < n := h
  cases f <;> ext <;>
    simp [point, Cell.turned, Face.turnPoint, Face.normal, Face.rightward, Face.downward, Point.dot,
      Point.cross] <;> omega

/-- Turning a cell several times turns its point as often. -/
theorem point_turns (h : c.Within n) (k : ℕ) :
    (c.turns (n - 1) k).point n = c.face.turnPoint^[k] (c.point n) := by
  induction k generalizing c with
  | zero => rfl
  | succ k ih => rw [Cell.turns, ih h.turned, point_turned h, iterate_succ_apply]; rfl

/-- The center of the cell that a turn takes a cell to is the turned center. -/
theorem point_carried (f : Face) (h : c.Within n) :
    (c.carried f (n - 1)).point n = f.turnPoint (c.point n) := by
  have hw : Within n { c with face := f.turnFace c.face } := h
  rw [carried, point_turns hw]
  simp only [point, Face.iterate_turnPoint_add, Face.iterate_turnPoint_scale, Face.turnPoint_add,
    Face.turnPoint_scale]
  rw [Face.turnPoint_normal, Face.turnPoint_rightward, Face.turnPoint_downward]

/-- How far the center of a cell lies in the direction of a face. -/
theorem dot_point (f : Face) (c : Cell) (n : ℕ) :
    f.normal.dot (c.point n) = n * (f.side c.face).outward +
      (2 * c.col - (n - 1)) * (f.side c.face).rightward +
        (2 * c.row - (n - 1)) * (f.side c.face).downward := by
  rw [← Face.dot_normal, ← Face.dot_rightward, ← Face.dot_downward]
  simp only [point, Point.dot, Point.add_x, Point.add_y, Point.add_z, Point.scale_x, Point.scale_y,
    Point.scale_z]
  ring

/-- The depth of the point of a cell is the layer of the cell. -/
theorem depth_point (f : Face) (h : c.Within n) (hn : n ≤ maxLayer) :
    f.depth (c.point n) n = c.layer f (n - 1) := by
  obtain ⟨hr, hc⟩ := h
  simp only [Face.depth, dot_point, layer, maxLayer] at hn ⊢
  cases f.side c.face <;>
    simp only [Side.outward, Side.rightward, Side.downward, distance, Int.tdiv_eq_ediv] <;>
    split_ifs <;> omega

/-- Cells with the same point are the same. -/
theorem point_inj (hc : c.Within n) (hd : d.Within n) (h : c.point n = d.point n) : c = d := by
  obtain ⟨hr, hc⟩ := hc
  obtain ⟨hr', hc'⟩ := hd
  have hface : c.face = d.face := by
    have hdot : c.face.normal.dot (c.point n) = c.face.normal.dot (d.point n) := by rw [h]
    rw [dot_point, dot_point, Face.side_eq_near_iff.2 rfl] at hdot
    refine Face.side_eq_near_iff.1 ?_
    revert hdot
    cases c.face.side d.face <;> simp [Side.outward, Side.rightward, Side.downward] <;> omega
  obtain ⟨f, row, col⟩ := c
  obtain ⟨g, row', col'⟩ := d
  obtain rfl : f = g := hface
  simp only [point, Point.ext_iff, Point.add_x, Point.add_y, Point.add_z, Point.scale_x,
    Point.scale_y, Point.scale_z] at h
  cases f <;> simp [Face.normal, Face.rightward, Face.downward] at h ⊢ <;> omega

/-! ## Layers -/

/-- A turned cell is as far from the turned side. -/
theorem distance_turned (h : c.Within n) (s : Side) :
    (c.turned (n - 1)).distance (n - 1) s.turned = c.distance (n - 1) s := by
  have hr := h.1
  cases s with
  | top =>
    simp only [Side.turned, distance, Cell.turned]
    omega
  | _ => rfl

theorem distance_turns (h : c.Within n) (s : Side) (k : ℕ) :
    (c.turns (n - 1) k).distance (n - 1) (Side.turned^[k] s) = c.distance (n - 1) s := by
  induction k generalizing c s with
  | zero => rfl
  | succ k ih => rw [Cell.turns, iterate_succ_apply, ih h.turned, distance_turned h]

/-- A turn about a face keeps the layers counted from it. -/
theorem layer_carried (f : Face) (h : c.Within n) :
    (c.carried f (n - 1)).layer f (n - 1) = c.layer f (n - 1) := by
  have hw : Within n { c with face := f.turnFace c.face } := h
  rw [layer, carried_face, Face.side_turnFace, carried, distance_turns hw]
  rfl

/-- Layers from the opposite face are counted from the other end. -/
theorem layer_opposite (f : Face) (h : c.Within n) :
    c.layer f.opposite (n - 1) = n - 1 - c.layer f (n - 1) := by
  obtain ⟨hr, hc⟩ := h
  rw [layer, layer, Face.side_opposite]
  cases f.side c.face <;> simp only [Side.opposite, distance] <;> omega

theorem layer_lt (f : Face) (h : c.Within n) : c.layer f (n - 1) < n := by
  obtain ⟨hr, hc⟩ := h
  rw [layer]
  cases f.side c.face <;> simp only [distance] <;> omega

end Cell

end Twisty
