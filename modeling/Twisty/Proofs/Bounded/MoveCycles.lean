import Twisty.Proofs.Bounded.Turning
import Twisty.Proofs.Cube.MoveCycles

/-!
# The cycles of a move in range

The cycles of the patterns are worked out from the turns of the reference cube. A turn is a
permutation of the slots, so following it never leaves the list of its values (`power_eq_some`,
`cycles_eq_some`), and the table of all the cycles has an entry for each pattern, face and number of
turns (`lookup_eq_some`).

A move is refused unless it turns layers that the cube has. So each of its layers has a zone
(`zone_eq_some`), and its cycles can be put together, be the number of turns what it may
(`moveCycles_eq_some`).
-/

namespace Twisty.Bounded

open Permutation

variable {n : ℕ}

/-! ## Following a permutation -/

/-- First `p`, then `q`. -/
def followedBy (p q : List ℕ) : Option (List ℕ) :=
  p.mapM (q[·]?)

/-- A permutation done `k` times. -/
def power (p : List ℕ) : ℕ → Option (List ℕ)
  | 0 => some (identity p.length)
  | k + 1 => do followedBy (← power p k) p

/-- The points that a permutation goes through from `i` until it comes to `start`, at most `fuel`
of them. -/
def path (p : List ℕ) (start : ℕ) : ℕ → ℕ → Option (List ℕ)
  | 0, _ => some []
  | fuel + 1, i =>
    if i = start then some []
    else do
      let j ← p[i]?
      let rest ← path p start fuel j
      return i :: rest

/-- The cycle of a permutation through a point. -/
def cycleFrom (p : List ℕ) (start : ℕ) : Option (List ℕ) := do
  let i ← p[start]?
  let rest ← path p start p.length i
  return start :: rest

/-- The cycle of a permutation from its least point, if this is the point, and does not stay. -/
def cycleAt (p : List ℕ) (i : ℕ) : Option (Option (List ℕ)) := do
  let j ← p[i]?
  let c ← cycleFrom p i
  return if j != i && c.all (i ≤ ·) then some c else none

/-- The cycles of a permutation, each from its least point, without the points that stay. -/
def cycles (p : List ℕ) : Option (List (List ℕ)) :=
  collect (cycleAt p) (List.range p.length)

variable {p : List ℕ}

/-- A list has an entry at each of its places, the image of the place. -/
theorem getElem?_eq_image {i : ℕ} (hi : i < p.length) : p[i]? = some (image p i) := by
  simp [image, hi]

/-- To follow a permutation again and again never looks past its end. -/
theorem power_eq_some (hp : IsPermutation p) (k : ℕ) :
    power p k = some (Permutation.power p k) := by
  induction k with
  | zero => rfl
  | succ k ih =>
    have hlt : ∀ i ∈ Permutation.power p k, i < p.length := by
      intro i hi
      obtain ⟨j, hj, rfl⟩ := List.mem_iff_getElem.1 hi
      have himage := (isPermutation_power hp k).image_lt j hj
      rwa [image, List.getD_eq_getElem?_getD, List.getElem?_eq_getElem hj, Option.getD_some,
        length_power] at himage
    rw [power, ih]
    exact mapM_eq_some fun i hi => getElem?_eq_image (hlt i hi)

/-- A path through a permutation stays inside it. -/
theorem path_eq_some (hp : IsPermutation p) (start fuel : ℕ) {i : ℕ} (hi : i < p.length) :
    path p start fuel i = some (Permutation.path p start fuel i) := by
  induction fuel generalizing i with
  | zero => rfl
  | succ fuel ih =>
    unfold path Permutation.path
    split_ifs
    · rfl
    · rw [getElem?_eq_image hi, Option.bind_eq_bind, Option.bind_some, ih (hp.image_lt i hi)]
      rfl

/-- A cycle of a permutation is found from each of its places. -/
theorem cycleFrom_eq_some (hp : IsPermutation p) {i : ℕ} (hi : i < p.length) :
    cycleFrom p i = some (Permutation.cycleFrom p i) := by
  rw [cycleFrom, getElem?_eq_image hi, Option.bind_eq_bind, Option.bind_some,
    path_eq_some hp i _ (hp.image_lt i hi)]
  rfl

/-- All the cycles of a permutation are found. -/
theorem cycles_eq_some (hp : IsPermutation p) : cycles p = some (Permutation.cycles p) := by
  have hat : ∀ i ∈ List.range p.length, cycleAt p i =
      some (if image p i != i && (Permutation.cycleFrom p i).all (i ≤ ·) then
        some (Permutation.cycleFrom p i) else none) := by
    intro i hi
    rw [List.mem_range] at hi
    rw [cycleAt, getElem?_eq_image hi, Option.bind_eq_bind, Option.bind_some,
      cycleFrom_eq_some hp hi]
    rfl
  rw [cycles, collect_eq_some hat, Permutation.cycles, ← List.filterMap_eq_map,
    List.filterMap_filter]
  rfl

/-! ## The table -/

/-- The cycles of slots in some clockwise quarter turns of a pattern about a face. -/
def patternCycles (p : Pattern) (f : Face) (turns : ℕ) : Option (List (List ℕ)) := do
  let q ← kindTurn p.kind Pattern.referenceSize f p.depth
  let r ← power q turns
  cycles r

/-- The cycles of every pattern, face and number of turns. -/
def table : Option (List (List (List (List (List ℕ))))) :=
  Pattern.all.mapM fun p => Face.all.mapM fun f => (List.range 4).mapM (patternCycles p f)

/-- The cycles of slots in some clockwise quarter turns of a pattern about a face, from the
table. -/
def lookup (p : Pattern) (f : Face) (turns : ℕ) : Option (List (List ℕ)) := do
  let patterns ← table
  let faces ← patterns[p.index]?
  let numbers ← faces[f.index]?
  numbers[turns % 4]?

/-- The cycles of a pattern on the reference cube are found. -/
theorem patternCycles_eq_some (p : Pattern) (f : Face) {turns : ℕ} (h : turns < 4) :
    patternCycles p f turns = some (p.cycles f turns) := by
  have hp := p.isPermutation_turn f
  have hturn : kindTurn p.kind Pattern.referenceSize f p.depth = some (p.turn f) :=
    kindTurn_eq_some p.onCube_kind (by decide) f p.depth
  rw [patternCycles, hturn, Option.bind_eq_bind, Option.bind_some, power_eq_some hp,
    Option.bind_some, cycles_eq_some (isPermutation_power hp turns), Pattern.cycles,
    Nat.mod_eq_of_lt h]

/-- The table of all patterns, faces and turns can be made. -/
theorem table_eq_some : table = some (Pattern.all.map fun p => Face.all.map fun f =>
    (List.range 4).map (p.cycles f)) :=
  mapM_eq_some fun p _ => mapM_eq_some fun f _ => mapM_eq_some fun _ h =>
    patternCycles_eq_some p f (List.mem_range.1 h)

/-- What is looked up in the table is there, for every number of turns. -/
theorem lookup_eq_some (p : Pattern) (f : Face) (turns : ℕ) :
    lookup p f turns = some (p.lookup f turns) := by
  have hlt : turns % 4 < 4 := Nat.mod_lt turns (by decide)
  rw [lookup, table_eq_some, p.lookup_eq]
  simp [p.getElem?_all_index, hlt, Pattern.cycles]

/-! ## The cycles of a move -/

/-- The rank of the middle layer of an `n`-layer cube, if the cube is odd. -/
def middleRank (n : ℕ) : Option (Option ℕ) :=
  if n % 2 = 1 then do
    let l ← short? (n / 2 + 1)
    let r ← minus? l 1
    return some r
  else some none

/-- Where a layer of an `n`-layer cube lies. -/
def zone (n l : ℕ) : Option Zone := do
  let _twice ← long? (2 * l)
  zone? n l

/-- The face on the other side of the cube, by its number. -/
def opposite (f : Face) : Option Face :=
  Face.all[(f.index + 3) % 6]?

/-- The face that a layer is turned about, and by how many quarter turns. -/
def turnOf (m : Move) (b : Zone) : Option (Face × ℕ) :=
  if b.isNear then some (m.face, m.turns)
  else do
    let f ← opposite m.face
    let back ← minus? 4 (m.turns % 4)
    return (f, back % 4)

/-- The cycles of a kind when a layer in a zone is turned. -/
def kindCycles (m : Move) (n : ℕ) (b : Zone) (k : SlotKind) : Option (List Cycle) := do
  let r ← middleRank n
  let t ← turnOf m b
  match Pattern.of? b k r with
  | some p => (lookup p t.1 t.2).map (·.map (Cycle.mk k))
  | none => return []

/-- The cycles of the kinds of an inventory when one layer is turned. -/
def layerCycles (m : Move) (n : ℕ) (inv : Inventory) (l : ℕ) : Option (List Cycle) := do
  let b ← zone n l
  let found ← inv.kinds.mapM (kindCycles m n b)
  return found.flatten

/-- The cycles of the kinds of an inventory in a move of an `n`-layer cube. -/
def moveCycles (m : Move) (n : ℕ) (inv : Inventory) : Option (Except CubeError (List Cycle)) :=
  if ¬ m.InRange n then some (.error (.layersOutOfRange m.first m.last n))
  else if m.isTrivial then some (.ok [])
  else do
    let found ← m.layers.mapM (layerCycles m n inv)
    return .ok found.flatten

/-- The number of the middle layer fits 16 bits. -/
theorem middleRank_eq_some (hn : n ≤ maxLayer) : middleRank n = some (middleRank? n) := by
  unfold maxLayer at hn
  unfold middleRank middleRank? middleLayer?
  split_ifs with h
  · rw [short?_eq_some (by omega), Option.bind_eq_bind, Option.bind_some,
      minus?_eq_some (by omega)]
    rfl
  · rfl

/-- The distance of a layer from the sides fits 16 bits. -/
theorem zone_eq_some (hn : n ≤ maxLayer) {l : ℕ} (h₁ : 1 ≤ l) (h₂ : l ≤ n) :
    zone n l = some (Twisty.zone n l) := by
  unfold maxLayer at hn
  rw [zone, long?_eq_some (by omega), zone?_eq_some h₁ h₂]
  rfl

/-- The layers beyond the ends have no zone, on either side. -/
example : zone 4 0 = none ∧ zone 4 5 = none := by decide

theorem opposite_eq_some (f : Face) : opposite f = some f.opposite := by
  cases f <;> rfl

theorem turnOf_eq_some (m : Move) (b : Zone) : turnOf m b = some (m.turnOf b) := by
  have hlt : m.turns % 4 < 4 := Nat.mod_lt m.turns (by decide)
  unfold turnOf Move.turnOf
  split_ifs
  · rfl
  · rw [opposite_eq_some, minus?_eq_some hlt.le]
    rfl

/-- The cycles of a kind in a layer are found on a cube of any size. -/
theorem kindCycles_eq_some (hn : n ≤ maxLayer) (m : Move) (b : Zone) (k : SlotKind) :
    kindCycles m n b k = some (m.kindCycles n b k) := by
  rw [kindCycles, middleRank_eq_some hn, turnOf_eq_some, Move.kindCycles]
  simp only [Option.bind_eq_bind, Option.bind_some]
  cases Pattern.of? b k (middleRank? n) with
  | some p =>
    dsimp only
    rw [lookup_eq_some, Option.map_some]
  | none => rfl

/-- The cycles of all kinds in a layer are found on a cube of any size. -/
theorem layerCycles_eq_some (hn : n ≤ maxLayer) (m : Move) (inv : Inventory) {l : ℕ} (h₁ : 1 ≤ l)
    (h₂ : l ≤ n) : layerCycles m n inv l = some (m.layerCycles n inv l) := by
  rw [layerCycles, zone_eq_some hn h₁ h₂, Option.bind_eq_bind, Option.bind_some,
    mapM_eq_some fun k _ => kindCycles_eq_some hn m (Twisty.zone n l) k, Move.layerCycles,
    List.flatMap_def]
  rfl

/-- The cycles of any move can be put together on a cube of any size there is. -/
theorem moveCycles_eq_some (hn : n ≤ maxLayer) (m : Move) (inv : Inventory) :
    moveCycles m n inv = some (m.cycles n inv) := by
  unfold moveCycles Move.cycles
  split_ifs with hrange htrivial
  · rfl
  · have hlayers : m.layers.mapM (layerCycles m n inv) =
        some (m.layers.map (m.layerCycles n inv)) := by
      refine mapM_eq_some fun l hl => ?_
      obtain ⟨h₁, h₂⟩ := Move.bounds_of_mem_layers hrange hl
      exact layerCycles_eq_some hn m inv h₁ h₂
    rw [hlayers, List.flatMap_def]
    rfl
  · rfl

end Twisty.Bounded
