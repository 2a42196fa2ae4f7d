import Twisty.Cube.Basic
import Twisty.Format.Document
import Twisty.Settings.Basic

/-!
# Reports

What the actions have to say, before it is written in a format : a `MoveReport` for each move of a
text, a `CubeReport` for a cube, and the color schemes.
-/

namespace Twisty

/-! ## Moves -/

/-- What a token means, with the cycles of the move where they are asked for. -/
structure MoveReport where
  token : String
  move : Move
  cycles : Option (List Cycle)
  deriving DecidableEq

namespace MoveReport

/-- The report of a token on an `n`-layer cube. -/
def ofToken (n : Nat) (withCycles : Bool) (token : String) : Except Error MoveReport := do
  let move ← (Notation.readToken n token).mapError .token
  if withCycles then
    let cycles ← (move.cycles n (.full n)).mapError .cube
    return ⟨token, move, some cycles⟩
  else return ⟨token, move, none⟩

/-- The reports of the words of a text, if each is a move. -/
def ofText (n : Nat) (withCycles : Bool) (text : String) : Except Error (List MoveReport) :=
  (Text.words text).mapM (ofToken n withCycles)

/-- A cycle as a document. -/
def cycleDocument (c : Cycle) : Document :=
  .record [("orbit", .text c.kind.name), ("indices", .numbers c.slots)]

/-- A report as a document. -/
def document (r : MoveReport) : Document :=
  .record <|
    [("token", .text r.token), ("face", .text r.move.face.name),
      ("slice_begin", .number r.move.first), ("slice_end", .number r.move.last),
      ("layer_count", .number r.move.thickness), ("turn_count", .number r.move.turns)] ++
      r.cycles.elim [] fun cs => [("cycles", .list (cs.map cycleDocument))]

end MoveReport

/-! ## Cubes -/

/-- A list in rows of `n`, the last with what is left. -/
def rows (n : Nat) (l : List α) : List (List α) :=
  (List.range ((l.length + n - 1) / n)).map fun i => (l.drop (i * n)).take n

/-- The size of a cube, whether it is solved, and the rows of colors of each face. -/
structure CubeReport where
  size : Nat
  solved : Bool
  faces : List (Face × List (List String))
  deriving DecidableEq

namespace CubeReport

/-- The report of a cube. -/
def ofCube (c : Cube String) : CubeReport :=
  ⟨c.size, c.isSolved, Face.all.map fun f => (f, rows c.size (c.stickers f))⟩

/-- The report of a cube with the colors of a scheme, after the moves written in a text. -/
def ofText (n : Nat) (scheme : List String) (text : String) : Except Error CubeReport := do
  let cube ← (Cube.ofScheme n scheme).mapError .cube
  match cube.follow text with
  | (cube, none) => return ofCube cube
  | (_, some e) => throw e

/-- A report as a document. -/
def document (r : CubeReport) : Document :=
  .record [("size", .number r.size), ("solved", .flag r.solved),
    ("faces", .record (r.faces.map fun f => (f.1.name, .list (f.2.map .texts))))]

end CubeReport

/-! ## Color schemes -/

/-- The color schemes as a document. -/
def Settings.document (s : Settings) : Document :=
  .record (s.schemes.map fun t => (t.name, .texts t.colors))

end Twisty
