import Twisty.Face

/-!
# Move families

The letter in a move says what kind of layers it turns. A capital face letter turns layers counted
from that face, a small one is an old way to write the two outer layers, `M`, `E` and `S` turn
layers around the middle of the cube, and `x`, `y` and `z` turn the whole cube.

`Family.ofLetter?` reads a letter, and accepts exactly the letters of the families
(`ofLetter?_eq_some_iff`).
-/

namespace Twisty.Notation

/-- An axis of the cube : from left to right, from bottom to top, from back to front. -/
inductive Axis
  | x
  | y
  | z
  deriving DecidableEq

namespace Axis

/-- The face that a turn of the whole cube about the axis follows. -/
def rotationFace : Axis → Face
  | x => .right
  | y => .up
  | z => .front

/-- The face that a turn of the middle layers about the axis follows. -/
def middleFace : Axis → Face
  | x => .left
  | y => .down
  | z => .front

end Axis

/-- What kind of layers a move turns. -/
inductive Family
  /-- Layers counted from a face. -/
  | outer (f : Face)
  /-- The outer layers of a face, written with a small letter. -/
  | double (f : Face)
  /-- Layers around the middle of the cube. -/
  | middle (a : Axis)
  /-- The whole cube. -/
  | rotation (a : Axis)
  deriving DecidableEq

namespace Family

/-- All the families. -/
def all : List Family :=
  Face.all.map outer ++ Face.all.map double ++
    [middle .x, middle .y, middle .z, rotation .x, rotation .y, rotation .z]

/-- The letter of a family. -/
def letter : Family → Char
  | outer f => f.letter
  | double f => f.letter.toLower
  | middle .x => 'M'
  | middle .y => 'E'
  | middle .z => 'S'
  | rotation .x => 'x'
  | rotation .y => 'y'
  | rotation .z => 'z'

/-- The face that a family's layers are counted from and its turns are seen from. -/
def face : Family → Face
  | outer f => f
  | double f => f
  | middle a => a.middleFace
  | rotation a => a.rotationFace

/-- The family of a letter. -/
def ofLetter? (c : Char) : Option Family :=
  all.find? (·.letter == c)

@[simp] theorem ofLetter?_letter (f : Family) : ofLetter? f.letter = some f := by
  rcases f with f | f | a | a
  · cases f <;> rfl
  · cases f <;> rfl
  · cases a <;> rfl
  · cases a <;> rfl

theorem ofLetter?_eq_some_iff {c : Char} {f : Family} : ofLetter? c = some f ↔ c = f.letter := by
  constructor
  · intro h
    have hc := List.find?_some h
    exact (beq_iff_eq.1 hc).symm
  · rintro rfl
    exact ofLetter?_letter f

end Family

end Twisty.Notation
