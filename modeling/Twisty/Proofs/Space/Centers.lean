import Twisty.Proofs.Bounded.Turning
import Mathlib.Data.Set.Function

/-!
# The centers of a cube

`centers n` are the centers of the cells of an `n`-layer cube. Each belongs to one cell
(`injOn_point`), and a quarter turn takes them to each other (`turnPoint_mem_centers`).

A center lies in one of the `n` layers below a face, and its layer is found without a remainder
(`on_plane_or_two_mul_depth`). `centers_under_turns` says how the layers, the turns and the grid of
a face go together.
-/

namespace Twisty

variable {n : ℕ}

/-- The centers of the cells of an `n`-layer cube. -/
def centers (n : ℕ) : Set Point :=
  {p | ∃ c : Cell, c.Within n ∧ c.point n = p}

theorem injOn_point : Set.InjOn (fun c : Cell => c.point n) {c | c.Within n} :=
  fun _ hc _ hd h => Cell.point_inj hc hd h

namespace Face

variable {p : Point}

/-- A quarter turn takes centers to centers. -/
theorem turnPoint_mem_centers (f : Face) (hp : p ∈ centers n) : f.turnPoint p ∈ centers n := by
  obtain ⟨c, hc, rfl⟩ := hp
  exact ⟨c.carried f (n - 1), hc.carried f, Cell.point_carried f hc⟩

/-- The grid of the face that turns makes the turn in its plane. -/
theorem turnPoint_point_self (f : Face) {row col : ℕ} (hr : row < n) (hc : col < n) :
    f.turnPoint (Cell.point ⟨f, row, col⟩ n) = Cell.point ⟨f, col, n - 1 - row⟩ n :=
  (Cell.point_turned (c := ⟨f, row, col⟩) ⟨hr, hc⟩).symm

section Layers

variable (f : Face) (hn : n ≤ maxLayer) (hp : p ∈ centers n)

include hn hp

/-- Every center lies in a layer of the cube. -/
theorem depth_lt_of_mem_centers : f.depth p n < n := by
  obtain ⟨c, hc, rfl⟩ := hp
  rw [Cell.depth_point f hc hn]
  exact Cell.layer_lt f hc

theorem depth_turnPoint : f.depth (f.turnPoint p) n = f.depth p n := by
  obtain ⟨c, hc, rfl⟩ := hp
  rw [← Cell.point_carried f hc, Cell.depth_point f (hc.carried f) hn, Cell.layer_carried f hc,
    Cell.depth_point f hc hn]

theorem depth_opposite : f.opposite.depth p n = n - 1 - f.depth p n := by
  obtain ⟨c, hc, rfl⟩ := hp
  rw [Cell.depth_point _ hc hn, Cell.depth_point f hc hn, Cell.layer_opposite f hc]

/-- A center is on the plane of the face or of its opposite, or twice its layer is its distance from
the outermost centers between them, so that nothing is left over in halving it. -/
theorem on_plane_or_two_mul_depth : f.normal.dot p = n ∨ f.normal.dot p = -n ∨
    (n : ℤ) - 1 - f.normal.dot p = 2 * f.depth p n := by
  obtain ⟨c, ⟨hrow, hcol⟩, rfl⟩ := hp
  rw [Cell.depth_point f ⟨hrow, hcol⟩ hn, Cell.dot_point, Cell.layer]
  cases f.side c.face <;>
    simp only [Cell.distance, Side.outward, Side.rightward, Side.downward] <;> omega

end Layers

end Face

/-- Different cells have different centers. A quarter turn about a face takes centers to centers and
keeps the layers counted from that face, of which there are `n`. A layer is found without a
remainder, and from the opposite face the layers are counted the other way round. Four quarter turns
change nothing, and one about the opposite face undoes one. On the face itself the columns become
rows, and the rows are columns from the right. No number on the way is too large. -/
theorem centers_under_turns (hn : n ≤ maxLayer) :
    Set.InjOn (fun c : Cell => c.point n) {c | c.Within n} ∧
      ∀ f : Face, ∀ p ∈ centers n,
        f.turnPoint? p = some (f.turnPoint p) ∧ f.turnPoint p ∈ centers n ∧
        f.depth? p n = some (f.depth p n) ∧ f.depth p n < n ∧
        (f.normal.dot p = n ∨ f.normal.dot p = -n ∨
          (n : ℤ) - 1 - f.normal.dot p = 2 * f.depth p n) ∧
        f.depth (f.turnPoint p) n = f.depth p n ∧
        f.opposite.depth p n = n - 1 - f.depth p n ∧
        f.turnPoint^[4] p = p ∧
        f.opposite.turnPoint (f.turnPoint p) = p ∧
        ∀ row < n, ∀ col < n, p = Cell.point ⟨f, row, col⟩ n →
          f.turnPoint p = Cell.point ⟨f, col, n - 1 - row⟩ n := by
  refine ⟨injOn_point, fun f p hp => ?_⟩
  have hbound : p.AtMost maxLayer := by
    obtain ⟨c, hc, rfl⟩ := hp
    exact Bounded.atMost_point hn hc
  refine ⟨Bounded.turnPoint?_eq_some f hbound, f.turnPoint_mem_centers hp,
    Bounded.depth?_eq_some f hn hbound, f.depth_lt_of_mem_centers hn hp,
    f.on_plane_or_two_mul_depth hn hp, f.depth_turnPoint hn hp, f.depth_opposite hn hp,
    f.turnPoint_iterate_four p, f.turnPoint_turnPoint_opposite p, ?_⟩
  rintro row hr col hc rfl
  exact f.turnPoint_point_self hr hc

/-- On a cube of one layer, and on the largest about its own face and about the next. -/
theorem centers_under_turns_largest :
    1 ≤ maxLayer ∧ ⟨0, 1, 0⟩ ∈ centers 1 ∧ Face.right.depth ⟨0, 1, 0⟩ 1 < 1 ∧
      Face.left.depth ⟨0, 1, 0⟩ 1 = 1 - 1 - Face.right.depth ⟨0, 1, 0⟩ 1 ∧
      65535 ≤ maxLayer ∧ ⟨0, 65535, -65528⟩ ∈ centers 65535 ∧
      Face.right.depth? ⟨0, 65535, -65528⟩ 65535 =
        some (Face.right.depth ⟨0, 65535, -65528⟩ 65535) ∧
      Face.right.depth (Face.right.turnPoint ⟨0, 65535, -65528⟩) 65535 =
        Face.right.depth ⟨0, 65535, -65528⟩ 65535 ∧
      Face.up.turnPoint ⟨0, 65535, -65528⟩ = Cell.point ⟨.up, 32767, 65531⟩ 65535 := by
  have hone : 1 ≤ maxLayer := by decide
  have hlargest : 65535 ≤ maxLayer := by decide
  have hp : (⟨0, 1, 0⟩ : Point) ∈ centers 1 := ⟨⟨.up, 0, 0⟩, ⟨by decide, by decide⟩, by decide⟩
  have hq : (⟨0, 65535, -65528⟩ : Point) ∈ centers 65535 :=
    ⟨⟨.up, 3, 32767⟩, ⟨by decide, by decide⟩, by decide⟩
  obtain ⟨-, -, -, hlt, -, -, hopposite, -⟩ := (centers_under_turns hone).2 .right _ hp
  obtain ⟨-, -, hdepth, -, -, hturned, -⟩ := (centers_under_turns hlargest).2 .right _ hq
  obtain ⟨-, -, -, -, -, -, -, -, -, hgrid⟩ := (centers_under_turns hlargest).2 .up _ hq
  exact ⟨hone, hp, hlt, hopposite, hlargest, hq, hdepth, hturned,
    hgrid 3 (by decide) 32767 (by decide) (by decide)⟩

end Twisty
