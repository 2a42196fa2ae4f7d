/-!
# Faces of a cube

The six faces, in the order in which everything about them is listed : up, front, right,
down, back, left. `Face.opposite` is three places further on in that order, and
`Face.ofLetter?` reads a face from its letter, in either case
(`ofLetter?_letter`).
-/

namespace Twisty

/-- A face of a cube. -/
inductive Face
  | up
  | front
  | right
  | down
  | back
  | left
  deriving DecidableEq, Inhabited

namespace Face

/-- The faces in their listed order. -/
def all : List Face := [up, front, right, down, back, left]

/-- The place of a face in `all`. -/
def index : Face → Nat
  | up => 0
  | front => 1
  | right => 2
  | down => 3
  | back => 4
  | left => 5

/-- The face at a place of `all`. Places are counted round, so the seventh is the first again. -/
def ofIndex (i : Nat) : Face :=
  match i % 6 with
  | 0 => up
  | 1 => front
  | 2 => right
  | 3 => down
  | 4 => back
  | _ => left

/-- The face on the other side of the cube. -/
def opposite : Face → Face
  | up => down
  | front => back
  | right => left
  | down => up
  | back => front
  | left => right

/-- The capital letter that names a face. -/
def letter : Face → Char
  | up => 'U'
  | front => 'F'
  | right => 'R'
  | down => 'D'
  | back => 'B'
  | left => 'L'

/-- The text that names a face. -/
def name (f : Face) : String :=
  f.letter.toString

/-- The face that a letter names, in either case. -/
def ofLetter? (c : Char) : Option Face :=
  all.find? (·.letter == c.toUpper)

/-- The face that a text of one letter names, in either case. -/
def ofName? (s : String) : Option Face :=
  match s.toList with
  | [c] => ofLetter? c
  | _ => none

@[simp] theorem mem_all (f : Face) : f ∈ all := by
  cases f <;> decide

@[simp] theorem length_all : all.length = 6 := rfl

theorem index_lt (f : Face) : f.index < 6 := by
  cases f <;> decide

@[simp] theorem ofIndex_index (f : Face) : ofIndex f.index = f := by
  cases f <;> rfl

@[simp] theorem getElem?_all_index (f : Face) : all[f.index]? = some f := by
  cases f <;> rfl

theorem index_inj {f g : Face} (h : f.index = g.index) : f = g := by
  rw [← ofIndex_index f, h, ofIndex_index]

@[simp] theorem opposite_opposite (f : Face) : f.opposite.opposite = f := by
  cases f <;> rfl

@[simp] theorem ofLetter?_letter (f : Face) : ofLetter? f.letter = some f := by
  cases f <;> rfl

@[simp] theorem ofLetter?_letter_toLower (f : Face) : ofLetter? f.letter.toLower = some f := by
  cases f <;> rfl

end Face

end Twisty
