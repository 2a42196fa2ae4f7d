import Twisty.Proofs.Cube.Solved

/-!
# Faces of a turned cube

A clockwise quarter turn of a face in its plane moves the entries of its grid, listed row after row,
from cell to turned cell (`getElem?_turnGrid`), and leaves none out (`mem_turnGrid`). A whole turn
of the cube takes each grid to a face and turns it there, by the twists of its quarter turns added
up (`Face.twists`, `SlotKind.cell_iterate_carried`). So on the turned cube the stickers of a face
are the turned grid of one face (`WellFormed.stickers_of_rotation`), and the cube is solved as
before (`stickers_rotated`).
-/

namespace Twisty

open Function

variable {α : Type} {n : ℕ} {k : SlotKind} {l : List α} {e : Cell}

/-! ## Turned grids -/

/-- The entries of a square grid with `n` rows, listed row after row, when the grid has made a
clockwise quarter turn : its rows are the columns of before, read from below. -/
def turnGrid (n : ℕ) (l : List α) : List α :=
  (List.range (n * n)).filterMap fun i => l[(n - 1 - i % n) * n + i / n]?

namespace Cube

/-- Each place of a grid is the number of a turned cell. -/
theorem exists_place_turned_eq {i : ℕ} (hi : i < n * n) :
    ∃ e : Cell, e.Within n ∧ place n (e.turned (n - 1)) = i := by
  obtain ⟨e, -, he, rfl⟩ := exists_place_eq .up hi
  exact ⟨e.turns (n - 1) 3, he.turns 3, congrArg (place n) (Cell.turns_four he)⟩

/-- The entry of a turned cell is read in the cell. -/
theorem source_place_turned (he : e.Within n) :
    (n - 1 - place n (e.turned (n - 1)) % n) * n + place n (e.turned (n - 1)) / n = place n e := by
  have hrow : n - 1 - (n - 1 - e.row) = e.row := by
    have hlt : e.row < n := he.1
    omega
  rw [col_of_place he.turned, row_of_place he.turned, Cell.turned, hrow, place]

/-- No place is left out when a grid is turned. -/
theorem map_some_turnGrid (h : l.length = n * n) : (turnGrid n l).map some =
    (List.range (n * n)).map fun i => l[(n - 1 - i % n) * n + i / n]? := by
  rw [turnGrid, List.map_filterMap_some_eq_filter_map_isSome, List.filter_eq_self]
  intro o ho
  obtain ⟨i, hi, rfl⟩ := List.mem_map.1 ho
  obtain ⟨e, he, rfl⟩ := exists_place_turned_eq (List.mem_range.1 hi)
  rw [source_place_turned he, List.getElem?_eq_getElem (h ▸ place_lt he)]
  rfl

/-- A turned grid has as many entries. -/
theorem length_turnGrid (h : l.length = n * n) : (turnGrid n l).length = n * n := by
  rw [← List.length_map some, map_some_turnGrid h, List.length_map, List.length_range]

/-- A turned grid has the entry of a cell in the turned cell. -/
theorem getElem?_turnGrid (h : l.length = n * n) (he : e.Within n) :
    (turnGrid n l)[place n (e.turned (n - 1))]? = l[place n e]? := by
  have hlt : place n (e.turned (n - 1)) < n * n := place_lt he.turned
  have hentry := congrArg (·[place n (e.turned (n - 1))]?) (map_some_turnGrid h)
  simp only [List.getElem?_map, List.getElem?_range hlt, Option.map_some,
    source_place_turned he] at hentry
  rw [List.getElem?_eq_getElem (length_turnGrid h ▸ hlt)] at hentry ⊢
  exact Option.some.inj hentry

example : turnGrid 3 [1, 2, 3, 4, 5, 6, 7, 8, 9] = [7, 4, 1, 8, 5, 2, 9, 6, 3] := by decide

/-- A turned grid has the same entries. -/
theorem mem_turnGrid (h : l.length = n * n) {x : α} : x ∈ turnGrid n l ↔ x ∈ l := by
  constructor
  · intro hx
    obtain ⟨i, -, hi⟩ := List.mem_filterMap.1 hx
    exact List.mem_of_getElem? hi
  · intro hx
    obtain ⟨i, hi⟩ := List.mem_iff_getElem?.1 hx
    obtain ⟨hlt, -⟩ := List.getElem?_eq_some_iff.1 hi
    obtain ⟨e, -, he, rfl⟩ := exists_place_eq .up (h ▸ hlt)
    exact List.mem_of_getElem? ((getElem?_turnGrid h he).trans hi)

/-- A grid that is turned several times has as many entries. -/
theorem length_iterate_turnGrid (h : l.length = n * n) (q : ℕ) :
    ((turnGrid n)^[q] l).length = n * n := by
  induction q generalizing l with
  | zero => exact h
  | succ q ih => exact ih (length_turnGrid h)

/-- The entry of a cell comes to where the turns take the cell. -/
theorem getElem?_iterate_turnGrid (h : l.length = n * n) (he : e.Within n) (q : ℕ) :
    ((turnGrid n)^[q] l)[place n (e.turns (n - 1) q)]? = l[place n e]? := by
  induction q generalizing l e with
  | zero => rfl
  | succ q ih => exact (ih (length_turnGrid h) he.turned).trans (getElem?_turnGrid h he)

/-- Several turns keep the entries of a grid. -/
theorem mem_iterate_turnGrid (h : l.length = n * n) (q : ℕ) {x : α} :
    x ∈ (turnGrid n)^[q] l ↔ x ∈ l := by
  induction q generalizing l with
  | zero => rfl
  | succ q ih => exact (ih (length_turnGrid h)).trans (mem_turnGrid h)

/-- Whether all entries are equal does not change when the grid is turned. -/
theorem isUniform_iterate_turnGrid [DecidableEq α] (h : l.length = n * n) (q : ℕ) :
    isUniform ((turnGrid n)^[q] l) = isUniform l := by
  rw [Bool.eq_iff_iff, isUniform_iff, isUniform_iff]
  simp only [mem_iterate_turnGrid h]

end Cube

/-! ## Whole turns of the grids -/

/-- How many clockwise quarter turns the grid of a face makes in its plane in some quarter turns of
the whole cube. -/
def Face.twists (f : Face) : ℕ → Face → ℕ
  | 0, _ => 0
  | t + 1, g => f.twist g + f.twists t (f.turnFace g)

/-- Some quarter turns of the whole cube take a cell to its place turned on another face. -/
theorem Cell.iterate_carried (f : Face) (last t : ℕ) (c : Cell) :
    (Cell.carried f last)^[t] c =
      Cell.turns last (f.twists t c.face) { c with face := f.turnFace^[t] c.face } := by
  induction t generalizing c with
  | zero => rfl
  | succ t ih =>
    rw [iterate_succ_apply, ih, carried_face, ← iterate_succ_apply, carried,
      SlotKind.turns_withFace, ← Cell.turns_add]
    rfl

/-- Turns of the cube take the cell of a slot where they take cells. -/
theorem SlotKind.cell_iterate_carried (hk : k.OnCube n) (f : Face) (t s : ℕ) :
    k.cell ((k.carried f)^[t] s) n = (Cell.carried f (n - 1))^[t] (k.cell s n) := by
  induction t generalizing s with
  | zero => rfl
  | succ t ih => rw [iterate_succ_apply, ih, cell_carried hk, ← iterate_succ_apply]

namespace Cube

/-- The place of a slot on its face after some quarter turns of the whole cube. -/
theorem place_iterate_carried (hk : k.OnCube n) (f : Face) (t s : ℕ) :
    place n (k.cell ((k.carried f)^[t] s) n) =
      place n ((k.cell s n).turns (n - 1) (f.twists t (k.slotFace s))) := by
  rw [SlotKind.cell_iterate_carried hk, Cell.iterate_carried, ← SlotKind.turns_withFace,
    SlotKind.cell_face]
  rfl

variable {c d : Cube α}

/-- A whole turn takes every face to another, turned in its plane. -/
theorem WellFormed.stickers_of_rotation (hc : c.WellFormed n) (hd : d.WellFormed n) {r : Move}
    (hr : r.IsRotation n)
    (hturn : ∀ k ∈ (Inventory.full n).kinds, ∀ s < k.size,
      d.sticker? k (r.turnedSlot n k s) = c.sticker? k s) (g : Face) :
    d.stickers (r.face.turnFace^[r.turns % 4] g) =
      (turnGrid n)^[r.face.twists (r.turns % 4) g] (c.stickers g) := by
  have hlen := hc.length_stickers g
  have hlen' := length_iterate_turnGrid hlen (r.face.twists (r.turns % 4) g)
  refine List.ext_getElem? fun i => ?_
  by_cases hi : i < n * n
  · obtain ⟨k, hk, u, hu, hface, rfl⟩ := exists_slot (r.face.turnFace^[r.turns % 4] g) hi
    have hon := Inventory.mem_full_iff.1 hk
    obtain ⟨s, hs, rfl⟩ := r.exists_turnedSlot_eq hon hu
    rw [hr.slotFace_turnedSlot hon] at hface
    obtain rfl := (injective_turnFace r.face).iterate _ hface
    have hsticker := hd.getElem?_stickers hk hu
    rw [hr.slotFace_turnedSlot hon, hturn k hk s hs, ← hc.getElem?_stickers hk hs] at hsticker
    rw [hsticker, hr.turnedSlot_eq hon, place_iterate_carried hon,
      getElem?_iterate_turnGrid hlen (SlotKind.within_cell hon s)]
  · rw [List.getElem?_eq_none (by rw [hd.length_stickers]; exact Nat.not_lt.1 hi),
      List.getElem?_eq_none (by rw [hlen']; exact Nat.not_lt.1 hi)]

/-- Cubes are solved alike if each face of one is as uniform as some face of the other. -/
theorem isSolved_congr [DecidableEq α] {source : Face → Face} (hsource : Surjective source)
    (h : ∀ g, isUniform (d.stickers g) = isUniform (c.stickers (source g))) :
    d.isSolved = c.isSolved := by
  rw [Bool.eq_iff_iff, isSolved, isSolved, List.all_eq_true, List.all_eq_true]
  constructor
  · intro hd g _
    obtain ⟨g, rfl⟩ := hsource g
    rw [← h]
    exact hd g (Face.mem_all g)
  · intro hc g _
    rw [h]
    exact hc _ (Face.mem_all _)

/-- On a reachable cube that is turned as a whole, the stickers of each face are those of one face
before, turned in its plane. Which face, and how far it is turned, is the same for all such cubes of
all sizes, so they stay solved or unsolved. -/
theorem stickers_rotated (f : Face) (t : ℕ) :
    ∃ (source : Face → Face) (turns : Face → ℕ), Bijective source ∧
      ∀ n, 1 ≤ n → ∀ {α : Type} [DecidableEq α] (c : Cube α), c.Reachable n →
        ∃ d, c.turn ⟨f, 1, n, t⟩ = (d, none) ∧
          (∀ g, d.stickers g = (turnGrid n)^[turns g] (c.stickers (source g))) ∧
          d.isSolved = c.isSolved := by
  have hinj := (injective_turnFace f).iterate (t % 4)
  obtain ⟨source, hleft, hright⟩ :=
    bijective_iff_has_inverse.1 ⟨hinj, Finite.injective_iff_surjective.1 hinj⟩
  refine ⟨source, fun g => f.twists (t % 4) (source g), ⟨hright.injective, hleft.surjective⟩, ?_⟩
  intro n hn α _ c hc
  have hr : (Move.mk f 1 n t).IsRotation n := ⟨rfl, rfl⟩
  obtain ⟨d, hd, hwf, hturn⟩ := hc.wellFormed.turn_eq_ok (hr.inRange (Nat.ne_of_gt hn))
  have hgrid : ∀ g, d.stickers g =
      (turnGrid n)^[f.twists (t % 4) (source g)] (c.stickers (source g)) := by
    intro g
    have hsource := hc.wellFormed.stickers_of_rotation hwf hr hturn (source g)
    rwa [show f.turnFace^[t % 4] (source g) = g from hright g] at hsource
  refine ⟨d, hd, hgrid, isSolved_congr hleft.surjective fun g => ?_⟩
  rw [hgrid g, isUniform_iterate_turnGrid (hc.wellFormed.length_stickers _)]

/-- A cube of three layers on which a cycle with a slot named twice has been done and cycles have
failed, turned back about its right face. -/
theorem stickers_rotated_three :
    1 ≤ 3 ∧ ∃ c : Cube ℕ, c = (solved 3 Face.index).performAll
        [.cycles [⟨.corner, [0, 5, 0, 23]⟩], .cycles [⟨.corner, [1, 1, 99]⟩], .text "U R3"] ∧
      c.Reachable 3 ∧ ∃ d, c.turn ⟨.right, 1, 3, 7⟩ = (d, none) ∧
        (∀ g, ∃ g' q, d.stickers g = (turnGrid 3)^[q] (c.stickers g')) ∧
        d.isSolved = c.isSolved := by
  have hn : 1 ≤ 3 := by decide
  have hc := (Reachable.solved (by decide : 3 ≠ 0) Face.index).performAll
    [.cycles [⟨.corner, [0, 5, 0, 23]⟩], .cycles [⟨.corner, [1, 1, 99]⟩], .text "U R3"]
  obtain ⟨source, turns, -, hturns⟩ := stickers_rotated .right 7
  obtain ⟨d, hd, hgrid, hsolved⟩ := hturns 3 hn _ hc
  exact ⟨hn, _, rfl, hc, d, hd, fun g => ⟨_, _, hgrid g⟩, hsolved⟩

end Cube

end Twisty
