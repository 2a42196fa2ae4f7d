import Twisty.Face
import Twisty.Space.Layer

/-!
# Points and cells

An `n`-layer cube is centered at the origin, and lengths are doubled so that the center of every
sticker has whole coordinates : the stickers of a face lie in the plane at distance `n`, two apart.
A `Cell` is a place in the grid of a face, with rows counted down and columns counted to the right
as the face is looked at, and `Cell.point` is its center.

`Face.turnPoint` turns a point a quarter clockwise about a face, and `Face.depth` is the layer that
a point lies in, counted from 0 at the face.
-/

namespace Twisty

/-- A point in doubled coordinates. -/
structure Point where
  x : Int
  y : Int
  z : Int
  deriving DecidableEq, Inhabited

namespace Point

instance : Add Point := ⟨fun p q => ⟨p.x + q.x, p.y + q.y, p.z + q.z⟩⟩

instance : Sub Point := ⟨fun p q => ⟨p.x - q.x, p.y - q.y, p.z - q.z⟩⟩

/-- A point scaled by a number. -/
def scale (k : Int) (p : Point) : Point :=
  ⟨k * p.x, k * p.y, k * p.z⟩

/-- The scalar product. -/
def dot (p q : Point) : Int :=
  p.x * q.x + p.y * q.y + p.z * q.z

/-- The vector product. -/
def cross (p q : Point) : Point :=
  ⟨p.y * q.z - p.z * q.y, p.z * q.x - p.x * q.z, p.x * q.y - p.y * q.x⟩

@[ext] theorem ext {p q : Point} (hx : p.x = q.x) (hy : p.y = q.y) (hz : p.z = q.z) : p = q := by
  cases p
  cases q
  simp_all

@[simp] theorem add_x (p q : Point) : (p + q).x = p.x + q.x := rfl
@[simp] theorem add_y (p q : Point) : (p + q).y = p.y + q.y := rfl
@[simp] theorem add_z (p q : Point) : (p + q).z = p.z + q.z := rfl
@[simp] theorem sub_x (p q : Point) : (p - q).x = p.x - q.x := rfl
@[simp] theorem sub_y (p q : Point) : (p - q).y = p.y - q.y := rfl
@[simp] theorem sub_z (p q : Point) : (p - q).z = p.z - q.z := rfl
@[simp] theorem scale_x (k : Int) (p : Point) : (scale k p).x = k * p.x := rfl
@[simp] theorem scale_y (k : Int) (p : Point) : (scale k p).y = k * p.y := rfl
@[simp] theorem scale_z (k : Int) (p : Point) : (scale k p).z = k * p.z := rfl

end Point

namespace Face

/-- The direction that a face looks in. -/
def normal : Face → Point
  | up => ⟨0, 1, 0⟩
  | front => ⟨0, 0, 1⟩
  | right => ⟨1, 0, 0⟩
  | down => ⟨0, -1, 0⟩
  | back => ⟨0, 0, -1⟩
  | left => ⟨-1, 0, 0⟩

/-- The direction in which the columns of a face are counted. -/
def rightward : Face → Point
  | up => ⟨1, 0, 0⟩
  | front => ⟨1, 0, 0⟩
  | right => ⟨0, 0, -1⟩
  | down => ⟨1, 0, 0⟩
  | back => ⟨-1, 0, 0⟩
  | left => ⟨0, 0, 1⟩

/-- The direction in which the rows of a face are counted. -/
def downward : Face → Point
  | up => ⟨0, 0, 1⟩
  | down => ⟨0, 0, -1⟩
  | _ => ⟨0, -1, 0⟩

/-- A point turned a clockwise quarter about a face, as seen from outside. The part along the axis
stays and the rest turns. -/
def turnPoint (f : Face) (p : Point) : Point :=
  Point.scale (f.normal.dot p) f.normal - f.normal.cross p

/-- The layer of an `n`-layer cube in which a point lies, counted from 0 at the face. A point off
the layers is counted to the face. -/
def depth (f : Face) (p : Point) (n : Nat) : Nat :=
  let c := f.normal.dot p
  if c = n then 0
  else if c = -n then n - 1
  else
    let d := (n - 1 - c).tdiv 2
    if 0 ≤ d ∧ d ≤ maxLayer then d.toNat else 0

theorem normal_opposite (f : Face) : f.opposite.normal = Point.scale (-1) f.normal := by
  cases f <;> rfl

theorem rightward_cross_downward (f : Face) :
    f.rightward.cross f.downward = Point.scale (-1) f.normal := by
  cases f <;> rfl

theorem turnPoint_turnPoint_opposite (f : Face) (p : Point) :
    f.opposite.turnPoint (f.turnPoint p) = p := by
  cases f <;> ext <;> simp [turnPoint, opposite, normal, Point.dot, Point.cross]

end Face

/-- A place in the grid of a face. -/
structure Cell where
  face : Face
  row : Nat
  col : Nat
  deriving DecidableEq, Inhabited

namespace Cell

/-- The center of a cell on an `n`-layer cube. -/
def point (c : Cell) (n : Nat) : Point :=
  Point.scale n c.face.normal + Point.scale (2 * c.col - (n - 1)) c.face.rightward +
    Point.scale (2 * c.row - (n - 1)) c.face.downward

/-- The cell that a cell moves to when its face turns a clockwise quarter, where `last` is the
last row and the last column. -/
def turned (last : Nat) (c : Cell) : Cell :=
  ⟨c.face, c.col, last - c.row⟩

/-- A quarter turn of a cell that lies no lower than the last row. -/
def turned? (last : Nat) (c : Cell) : Option Cell :=
  if c.row ≤ last then some (c.turned last) else none

/-- A cell after some quarter turns of its face. -/
def turns (last : Nat) : Nat → Cell → Cell
  | 0, c => c
  | k + 1, c => (c.turned last).turns last k

/-- A cell after some quarter turns of its face, if each meets a cell no lower than the last
row. -/
def turns? (last : Nat) : Nat → Cell → Option Cell
  | 0, c => some c
  | k + 1, c => (c.turned? last).bind (turns? last k)

theorem turns?_eq_some {last : Nat} {c : Cell} (hr : c.row ≤ last) (hc : c.col ≤ last) (k : Nat) :
    c.turns? last k = some (c.turns last k) := by
  induction k generalizing c with
  | zero => rfl
  | succ k ih =>
    simp [turns?, turned?, hr, turns]
    exact ih hc (Nat.sub_le _ _)

@[simp] theorem turns_face (last k : Nat) (c : Cell) : (c.turns last k).face = c.face := by
  induction k generalizing c with
  | zero => rfl
  | succ k ih => simp [turns, ih, turned]

end Cell

end Twisty
