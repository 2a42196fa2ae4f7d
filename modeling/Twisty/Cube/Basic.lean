import Twisty.Attempts
import Twisty.Error
import Twisty.Cube.MoveCycles
import Twisty.Notation.Reading

/-!
# Cubes

A cube has a size and an orbit of stickers for each kind. `Cube.solved` is the cube with one color
to a face. It can be turned by cycles (`applyCycles`), by a move (`turn`), by several moves
(`turnAll`) and by written moves (`follow`).

Each of these can fail, and what is returned is the cube that was reached, with the error if there
was one. Cycles are all checked before any sticker moves. Several moves are done one after another,
and if one fails those before it stay done.

`stickers` reads the stickers of a face row by row, and a cube is solved if every face has one
color.
-/

namespace Twisty

/-- The stickers of a cube, by kind. -/
structure Cube (α : Type) where
  size : Nat
  orbits : List (Orbit α)
  deriving DecidableEq

namespace Cube

variable {α : Type}

/-- The cube with a color on each face. -/
def solved (n : Nat) (color : Face → α) : Cube α :=
  ⟨n, (Inventory.full n).kinds.map fun k => Orbit.ofFn k fun s => color (k.slotFace s)⟩

/-- The cube whose faces have the colors of a scheme, in the order of the faces. -/
def ofScheme (n : Nat) (scheme : List α) : Except CubeError (Cube α) :=
  if n = 0 then .error .noLayers
  else if h : scheme.length = 6 then
    .ok (solved n fun f => scheme.get ⟨f.index, h ▸ f.index_lt⟩)
  else .error (.schemeLength scheme.length)

/-- The orbit of a kind, if the cube has one. -/
def orbit? (c : Cube α) (k : SlotKind) : Option (Orbit α) :=
  c.orbits.find? (·.kind = k)

/-! ## Turning by cycles -/

/-- Check a cycle on a cube, and add it to those that move stickers if it does. -/
def checkCycle : Cube α × Array Cycle → Cycle → (Cube α × Array Cycle) × Option CubeError
  | (c, moving), x =>
    match x.check (c.orbit? x.kind) with
    | .ok true => ((c, moving.push x), none)
    | .ok false => ((c, moving), none)
    | .error e => ((c, moving), some e)

/-- Move the stickers of a cube along a cycle, within the orbit of its kind. -/
def rotateCycle (c : Cube α) (x : Cycle) : Cube α :=
  { c with orbits := c.orbits.map fun o => if o.kind = x.kind then o.rotate x.slots else o }

/-- Move the stickers of a cube along cycles, one cycle after another. -/
def rotate (c : Cube α) (cycles : List Cycle) : Cube α :=
  cycles.foldl rotateCycle c

/-- Move the stickers of a cube along cycles. The first loop checks them and ends at the first that
cannot be done, and the second moves the stickers. -/
def applyCycles (c : Cube α) (cycles : List Cycle) : Cube α × Option CubeError :=
  match tryEach checkCycle (c, #[]) cycles with
  | ((d, moving), none) => (d.rotate moving.toList, none)
  | ((d, _), some e) => (d, some e)

/-! ## Turning by moves -/

/-- The cycles of a move of a cube. -/
def moveCycles (c : Cube α) (m : Move) : Except CubeError (List Cycle) :=
  m.cycles c.size (.full c.size)

/-- A cube after a move. -/
def turn (c : Cube α) (m : Move) : Cube α × Option CubeError :=
  match c.moveCycles m with
  | .ok cycles => c.applyCycles cycles
  | .error e => (c, some e)

/-- A cube after moves, up to the first that cannot be done. -/
def turnAll (c : Cube α) (ms : List Move) : Cube α × Option CubeError :=
  tryEach turn c ms

/-- A cube after the move that a token writes. -/
def followToken (c : Cube α) (token : String) : Cube α × Option Error :=
  match Notation.readToken c.size token with
  | .ok m => (c.turn m).map id (Option.map .cube)
  | .error e => (c, some (.token e))

/-- A cube after the moves that tokens write, up to the first that fails. -/
def followTokens (c : Cube α) (tokens : List String) : Cube α × Option Error :=
  tryEach followToken c tokens

/-- A cube after the moves written in a text, up to the first that fails. -/
def follow (c : Cube α) (text : String) : Cube α × Option Error :=
  c.followTokens (Text.words text)

/-! ## Looking at a cube -/

/-- The stickers of an orbit on a face, each with the number of its place when the rows of the face
are put one after another. -/
def orbitStickers (n : Nat) (f : Face) (o : Orbit α) : List (Nat × α) :=
  (List.range o.kind.faceSize).filterMap fun i =>
    let slot := f.index * o.kind.faceSize + i
    let cell := o.kind.cell slot n
    o.slots[slot]?.map fun s => (cell.row * n + cell.col, s)

/-- The grid of a face, row after row, with a sticker in each place that a slot fills. -/
def grid (c : Cube α) (f : Face) : Array (Option α) :=
  (c.orbits.flatMap (orbitStickers c.size f)).foldl
    (fun grid s => grid.setIfInBounds s.1 (some s.2)) (Array.replicate (c.size * c.size) none)

/-- The stickers of a face, row after row. -/
def stickers (c : Cube α) (f : Face) : List α :=
  (c.grid f).toList.filterMap id

/-- All the entries of a list are the same. -/
def isUniform [DecidableEq α] : List α → Bool
  | [] => true
  | x :: xs => xs.all (· = x)

/-- Every face has one color. -/
def isSolved [DecidableEq α] (c : Cube α) : Bool :=
  Face.all.all fun f => isUniform (c.stickers f)

end Cube

end Twisty
