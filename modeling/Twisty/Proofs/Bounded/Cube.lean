import Twisty.Proofs.Bounded.Operations
import Twisty.Proofs.Cube.Stickers
import Twisty.Proofs.Cube.Stock

/-!
# Cubes in range

To look at a face its stickers are put into a grid, each in the place of its cell. On a well-formed
cube the cells lie on their face, so every place is one of the grid, and on the largest cube a place
is still a number of 32 bits (`stickers_eq_some`). Whether a face has one color is asked by
comparing with its first sticker, and only where there is a sticker to compare
(`isUniform_eq_some`).

`operations_stay_in_range` puts together what the modules of this folder show : of tokens, of new
cubes, of every run of operations on them, and of all that can be asked of a cube on the way.
-/

namespace Twisty.Bounded

variable {α : Type} {n : ℕ} {c : Cube α}

/-! ## Looking at a cube -/

/-- The sticker in a slot of an orbit, with the number of its place in the grid of its face. -/
def slotSticker (n : ℕ) (o : Orbit α) (s : ℕ) : Option (Option (ℕ × α)) :=
  match o.slots[s]? with
  | none => some none
  | some x => do
    let e ← position o.kind s n
    let before ← long? (e.row * n)
    let place ← long? (before + e.col)
    return some (place, x)

/-- The stickers of an orbit on a face, each with the number of its place. -/
def orbitStickers (n : ℕ) (f : Face) (o : Orbit α) : Option (List (ℕ × α)) :=
  collect (fun i => slotSticker n o (f.index * o.kind.faceSize + i)) (List.range o.kind.faceSize)

/-- A grid with a sticker put into one of its places. -/
def put (grid : Array (Option α)) (s : ℕ × α) : Option (Array (Option α)) :=
  if s.1 < grid.size then some (grid.setIfInBounds s.1 (some s.2)) else none

/-- The stickers of a face, row after row. -/
def stickers (c : Cube α) (f : Face) : Option (List α) := do
  let places ← long? (c.size * c.size)
  let found ← c.orbits.mapM (orbitStickers c.size f)
  let grid ← found.flatten.foldlM put (Array.replicate places none)
  return grid.toList.filterMap id

/-- All the entries of a list are the same as the first. -/
def isUniform [DecidableEq α] (xs : List α) : Option Bool := do
  let same ← xs.mapM fun x => do
    let first ← xs[0]?
    return decide (x = first)
  return same.all id

/-- Every face has one color. -/
def isSolved [DecidableEq α] (c : Cube α) : Option Bool := do
  let uniform ← Face.all.mapM fun f => do isUniform (← stickers c f)
  return uniform.all id

/-! ## No step leaves its range -/

/-- A sticker of a kind that the cube has goes to a place that 32 bits can count. -/
theorem slotSticker_eq_some (hn : n ≤ maxLayer) {o : Orbit α} (hk : o.kind.OnCube n) (s : ℕ) :
    slotSticker n o s = some (o.slots[s]?.map fun x => (Cube.place n (o.kind.cell s n), x)) := by
  have hplace := Cube.place_lt (SlotKind.within_cell hk s)
  have hmax : n * n ≤ 65535 * 65535 := Nat.mul_le_mul hn hn
  unfold Cube.place at hplace
  unfold slotSticker
  cases o.slots[s]? with
  | none => rfl
  | some x =>
    dsimp only
    rw [position_eq_some hk, Option.bind_eq_bind, Option.bind_some, long?_eq_some (by omega)]
    simp only [Option.bind_eq_bind, Option.bind_some]
    rw [long?_eq_some (by omega)]
    rfl

/-- All the stickers of an orbit on a face find their places. -/
theorem orbitStickers_eq_some (hn : n ≤ maxLayer) (f : Face) {o : Orbit α} (hk : o.kind.OnCube n) :
    orbitStickers n f o = some (Cube.orbitStickers n f o) :=
  collect_eq_some fun _ _ => slotSticker_eq_some hn hk _

theorem put_eq_some {grid : Array (Option α)} {s : ℕ × α} (h : s.1 < grid.size) :
    put grid s = some (grid.setIfInBounds s.1 (some s.2)) :=
  if_pos h

/-- Every place of a sticker is one of the grid of its face. -/
theorem stickers_eq_some (h : c.WellFormed n) (hn : n ≤ maxLayer) (f : Face) :
    stickers c f = some (c.stickers f) := by
  have hmax : n * n ≤ 65535 * 65535 := Nat.mul_le_mul hn hn
  have hfound : c.orbits.mapM (orbitStickers n f) =
      some (c.orbits.map (Cube.orbitStickers n f)) :=
    mapM_eq_some fun o ho => orbitStickers_eq_some hn f (Inventory.mem_full_iff.1 (h.kind_mem ho))
  have hput : (c.orbits.map (Cube.orbitStickers n f)).flatten.foldlM put
      (Array.replicate (n * n) none) = some (c.grid f) := by
    rw [Cube.grid, h.size_eq, List.flatMap_def]
    refine foldlM_eq_some (P := fun grid => grid.size = n * n) Array.size_replicate
      fun grid hgrid s hs => ?_
    rw [← List.flatMap_def, ← h.size_eq] at hs
    obtain ⟨k, hk, t, -, -, hplace, -⟩ := (h.mem_faceStickers (i := s.1) (x := s.2)).1 hs
    have hlt := Cube.place_lt (SlotKind.within_cell (Inventory.mem_full_iff.1 hk) t)
    exact ⟨put_eq_some (hgrid.symm ▸ hplace ▸ hlt), Array.size_setIfInBounds.trans hgrid⟩
  rw [stickers, h.size_eq, long?_eq_some (by omega), Option.bind_eq_bind, Option.bind_some, hfound]
  simp only [Option.bind_eq_bind, Option.bind_some]
  rw [hput]
  rfl

/-- The first sticker is only asked for where there is one. -/
theorem isUniform_eq_some [DecidableEq α] (xs : List α) :
    isUniform xs = some (Cube.isUniform xs) := by
  cases xs with
  | nil => rfl
  | cons x xs =>
    have hsame : (x :: xs).mapM (fun y => do
        let first ← (x :: xs)[0]?
        return decide (y = first)) = some ((x :: xs).map fun y => decide (y = x)) :=
      mapM_eq_some fun _ _ => rfl
    rw [isUniform, hsame]
    simp [Cube.isUniform]

/-- To ask whether a cube is solved leaves no range. -/
theorem isSolved_eq_some [DecidableEq α] (h : c.WellFormed n) (hn : n ≤ maxLayer) :
    isSolved c = some c.isSolved := by
  have hfaces : Face.all.mapM (fun f => do isUniform (← stickers c f)) =
      some (Face.all.map fun f => Cube.isUniform (c.stickers f)) := by
    refine mapM_eq_some fun f _ => ?_
    rw [stickers_eq_some h hn, Option.bind_eq_bind, Option.bind_some, isUniform_eq_some]
  rw [isSolved, hfaces]
  simp [Cube.isSolved, Face.all]

/-- On a cube of any size there is, no step leaves its range : not in reading a token, whatever it
is, not in counting the layers of a move that was read, not in making a cube, not in any run of
operations on it, done or failed, and not in asking for the cycles of a move, the orbit of a kind,
the stickers of a face or whether the cube is solved. -/
theorem operations_stay_in_range [DecidableEq α] (hn : n ≤ maxLayer) :
    (∀ t, readToken n t = some (Notation.readToken n t) ∧
      ∀ m, Notation.readToken n t = .ok m → m.thickness? = some m.thickness) ∧
    (1 ≤ n → ∀ scheme : List α, scheme.length = 6 → ∃ c, ofScheme n scheme = some (.ok c) ∧
      ∀ (ops : List Operation) (d : Cube α), d = c.performAll ops →
        performAll c ops = some d ∧
        (∀ m, moveCycles m d.size (.full d.size) = some (d.moveCycles m)) ∧
        (∀ k, Cube.halve k d.orbits = d.orbit? k) ∧
        (∀ f, stickers d f = some (d.stickers f)) ∧
        isSolved d = some d.isSolved) := by
  refine ⟨fun t => ⟨readToken_eq_some hn t, fun m => thickness?_eq_some_of_readToken hn⟩,
    fun h0 scheme hscheme => ?_⟩
  obtain ⟨c, hstart, hwf⟩ := Cube.exists_ofScheme h0 hscheme
  refine ⟨c, (ofScheme_eq_some n scheme).trans (congrArg some hstart), ?_⟩
  rintro ops d rfl
  have h := Cube.WellFormed.keptByCycles.performAll hwf ops
  refine ⟨performAll_eq_some hwf hn ops, fun m => ?_, fun k => ?_, stickers_eq_some h hn,
    isSolved_eq_some h hn⟩
  · rw [Cube.moveCycles, moveCycles_eq_some (h.size_eq.trans_le hn)]
  · exact Cube.halve_eq_find? (h.kinds_eq ▸ (Inventory.full n).ascending)

/-- On the largest cube : all its inner layers turned at once, and a run in which a cycle names a
slot that is not there, a move names layers that are not there, a word is no move, and a whole turn
is overdone. -/
theorem operations_stay_in_range_largest :
    65535 ≤ maxLayer ∧ 1 ≤ 65535 ∧ [0, 0, 1, 1, 2, 2].length = 6 ∧
      readToken 65535 "65533M'" = some (.ok ⟨.left, 2, 65534, 3⟩) ∧
      (Move.mk .left 2 65534 3).thickness? = some 65533 ∧
      ∃ c : Cube ℕ, ofScheme 65535 [0, 0, 1, 1, 2, 2] = some (.ok c) ∧
        ∃ d, performAll c [.cycles [⟨.corner, [0, 24]⟩], .move ⟨.up, 0, 70000, 255⟩,
            .text "65533M' 2Uw Q", .moves [⟨.left, 1, 65535, 255⟩]] = some d ∧
          (∀ f, stickers d f = some (d.stickers f)) ∧ isSolved d = some d.isSolved := by
  have hn : 65535 ≤ maxLayer := by decide
  have h0 : 1 ≤ 65535 := by decide
  have hscheme : [0, 0, 1, 1, 2, 2].length = 6 := rfl
  have hread : Notation.readToken 65535 "65533M'" = .ok ⟨.left, 2, 65534, 3⟩ := by decide
  obtain ⟨htokens, hcubes⟩ := operations_stay_in_range (α := ℕ) hn
  obtain ⟨c, hc, hops⟩ := hcubes h0 _ hscheme
  obtain ⟨hrun, -, -, hstickers, hsolved⟩ := hops _ _ rfl
  exact ⟨hn, h0, hscheme, hread ▸ (htokens "65533M'").1, (htokens "65533M'").2 _ hread, c, hc, _,
    hrun, hstickers, hsolved⟩

end Twisty.Bounded
