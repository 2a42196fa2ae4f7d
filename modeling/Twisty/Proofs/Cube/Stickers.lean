import Twisty.Proofs.Cube.Reachable
import Twisty.Proofs.Slot.Tiling

/-!
# The stickers of a face

`Cube.grid` puts the stickers of a face into their places one after another (`mem_faceStickers`).
The slots tile the face (`SlotKind.bijOn_cell`), so every place belongs to a slot (`exists_slot`),
and what stands in it at the end is the sticker of that slot (`WellFormed.getElem?_grid`). Hence no
place is left out when the rows are put one after another (`WellFormed.map_some_stickers`), and
`Cube.stickers` lists the stickers of all the cells in order (`WellFormed.getElem?_stickers`), as it
does on every reachable cube (`slots_tile_faces`).
-/

namespace Twisty

variable {α : Type} {n s : ℕ} {k : SlotKind} {f : Face}

/-- Entries put into an array one after another stay if no two are put into the same place. -/
theorem getElem?_foldl_setIfInBounds {entries : List (ℕ × α)} {grid : Array (Option α)} {i : ℕ}
    {x : α} (hi : i < grid.size) (hone : ∀ y, (i, y) ∈ entries → y = x)
    (h : (i, x) ∈ entries ∨ grid[i]? = some (some x)) :
    (entries.foldl (fun grid e => grid.setIfInBounds e.1 (some e.2)) grid)[i]? = some (some x) := by
  induction entries generalizing grid with
  | nil => simpa using h
  | cons e entries ih =>
    obtain ⟨j, y⟩ := e
    refine ih (by simpa using hi) (fun z hz => hone z (List.mem_cons_of_mem _ hz)) ?_
    by_cases hj : j = i
    · subst hj
      right
      rw [hone y (by simp), Array.getElem?_setIfInBounds_self_of_lt hi]
    · rcases h with h | h
      · left
        rcases List.mem_cons.1 h with heq | hmem
        · exact absurd (congrArg Prod.fst heq).symm hj
        · exact hmem
      · right
        rw [Array.getElem?_setIfInBounds_ne hj, h]

namespace Cube

variable {c : Cube α}

/-! ## Places of cells -/

/-- The number of a cell of a face when the rows are put one after another. -/
def place (n : ℕ) (c : Cell) : ℕ :=
  c.row * n + c.col

/-- The number of a cell is one of the places of a face. -/
theorem place_lt {e : Cell} (h : e.Within n) : place n e < n * n := by
  have hrow : (e.row + 1) * n ≤ n * n := Nat.mul_le_mul_right n h.1
  rw [Nat.succ_mul] at hrow
  have hcol : e.col < n := h.2
  rw [place]
  omega

/-- The row of a cell is told from its number. -/
theorem row_of_place {e : Cell} (h : e.Within n) : place n e / n = e.row := by
  have hcol : e.col < n := h.2
  rw [place, Nat.mul_comm, Nat.mul_add_div (by omega), Nat.div_eq_of_lt hcol, Nat.add_zero]

/-- The column of a cell is told from its number. -/
theorem col_of_place {e : Cell} (h : e.Within n) : place n e % n = e.col := by
  rw [place, Nat.mul_comm, Nat.mul_add_mod, Nat.mod_eq_of_lt h.2]

/-- Different cells of a face have different numbers. -/
theorem place_inj {e e' : Cell} (h : e.Within n) (h' : e'.Within n) (hf : e.face = e'.face)
    (hp : place n e = place n e') : e = e' := by
  have hrow : e.row = e'.row := by rw [← row_of_place h, hp, row_of_place h']
  have hcol : e.col = e'.col := by rw [← col_of_place h, hp, col_of_place h']
  exact Cell.mk.injEq .. ▸ ⟨hf, hrow, hcol⟩

/-- Each place of a face is the number of a cell. -/
theorem exists_place_eq (f : Face) {i : ℕ} (hi : i < n * n) :
    ∃ e : Cell, e.face = f ∧ e.Within n ∧ place n e = i := by
  have hn : 0 < n := Nat.pos_of_mul_pos_left (Nat.zero_lt_of_lt hi)
  refine ⟨⟨f, i / n, i % n⟩, rfl, ⟨Nat.div_lt_of_lt_mul hi, Nat.mod_lt i hn⟩, ?_⟩
  exact Nat.div_add_mod' i n

/-- The slot that a place of a face belongs to. -/
theorem exists_slot (f : Face) {i : ℕ} (hi : i < n * n) :
    ∃ k ∈ (Inventory.full n).kinds, ∃ s < k.size, k.slotFace s = f ∧ place n (k.cell s n) = i := by
  obtain ⟨e, rfl, he, rfl⟩ := exists_place_eq f hi
  obtain ⟨k, hk, s, hs, rfl⟩ := SlotKind.exists_cell_eq he
  exact ⟨k, Inventory.mem_full_iff.2 hk, s, hs, by rw [SlotKind.cell_face], rfl⟩

/-- The stickers of a face, each with the number of its place. -/
def faceStickers (c : Cube α) (f : Face) : List (ℕ × α) :=
  c.orbits.flatMap (orbitStickers c.size f)

/-- The grid has a place for each cell of a face. -/
theorem size_grid (c : Cube α) (f : Face) : (c.grid f).size = c.size * c.size := by
  have key : ∀ (entries : List (ℕ × α)) (grid : Array (Option α)),
      (entries.foldl (fun grid e => grid.setIfInBounds e.1 (some e.2)) grid).size = grid.size := by
    intro entries
    induction entries with
    | nil => exact fun _ => rfl
    | cons e entries ih => exact fun grid => (ih _).trans Array.size_setIfInBounds
  exact (key _ _).trans Array.size_replicate

namespace WellFormed

/-! ## Stickers in their places -/

/-- The stickers of a face are those in the slots on it, each with the place of its cell. -/
theorem mem_faceStickers (h : c.WellFormed n) {i : ℕ} {x : α} :
    (i, x) ∈ c.faceStickers f ↔ ∃ k ∈ (Inventory.full n).kinds, ∃ s < k.size, k.slotFace s = f ∧
      place n (k.cell s n) = i ∧ c.sticker? k s = some x := by
  simp only [faceStickers, orbitStickers, List.mem_flatMap, List.mem_filterMap, List.mem_range,
    Option.map_eq_some_iff, Prod.mk.injEq, h.size_eq]
  constructor
  · rintro ⟨o, ho, j, hj, y, hy, hplace, rfl⟩
    refine ⟨o.kind, h.kind_mem ho, o.kind.slotOn f j, SlotKind.slotOn_lt_size hj,
      SlotKind.slotFace_slotOn hj, hplace, ?_⟩
    rw [h.sticker?_kind ho]
    exact hy
  · rintro ⟨k, hk, s, hs, rfl, hplace, hx⟩
    obtain ⟨o, ho, rfl⟩ := h.exists_orbit hk
    have hslot : (o.kind.slotFace s).index * o.kind.faceSize + s % o.kind.faceSize = s :=
      SlotKind.slotOn_slotFace hs
    rw [h.sticker?_kind ho] at hx
    refine ⟨o, ho, s % o.kind.faceSize, o.kind.mod_faceSize_lt s, x, ?_⟩
    rw [hslot]
    exact ⟨hx, hplace, rfl⟩

/-- Every place of a face gets the sticker of a slot, and of only one. -/
theorem getElem?_grid (h : c.WellFormed n) (hk : k ∈ (Inventory.full n).kinds) (hs : s < k.size) :
    (c.grid (k.slotFace s))[place n (k.cell s n)]? = some (c.sticker? k s) := by
  have hon := Inventory.mem_full_iff.1 hk
  have hwithin := SlotKind.within_cell hon s
  obtain ⟨x, hx⟩ := h.exists_sticker hk hs
  rw [hx]
  have hmem := h.mem_faceStickers.2 ⟨k, hk, s, hs, rfl, rfl, hx⟩
  refine getElem?_foldl_setIfInBounds ?_ ?_ (.inl hmem)
  · rw [Array.size_replicate, h.size_eq]
    exact place_lt hwithin
  · intro y hy
    obtain ⟨j, hj, t, ht, hface, hplace, hy'⟩ := h.mem_faceStickers.1 hy
    have hcell : j.cell t n = k.cell s n := by
      have hj := Inventory.mem_full_iff.1 hj
      exact place_inj (SlotKind.within_cell hj t) hwithin (by simpa using hface) hplace
    obtain ⟨rfl, rfl⟩ := SlotKind.cell_inj (Inventory.mem_full_iff.1 hj) hon ht hs hcell
    rw [hx] at hy'
    exact (Option.some.inj hy').symm

/-- No place is left out when the rows are put one after another. -/
theorem map_some_stickers (h : c.WellFormed n) (f : Face) :
    (c.stickers f).map some = (c.grid f).toList := by
  rw [stickers, List.map_filterMap_some_eq_filter_map_isSome, List.map_id, List.filter_eq_self]
  intro o ho
  obtain ⟨i, hi, rfl⟩ := List.mem_iff_getElem.1 ho
  have hi' : i < n * n := by simpa [size_grid, h.size_eq] using hi
  obtain ⟨k, hk, s, hs, rfl, rfl⟩ := exists_slot f hi'
  obtain ⟨x, hx⟩ := h.exists_sticker hk hs
  have hgrid := h.getElem?_grid hk hs
  rw [Array.getElem?_eq_getElem hi, hx, Option.some.injEq] at hgrid
  rw [Array.getElem_toList, hgrid]
  rfl

/-- A face has as many stickers as cells. -/
theorem length_stickers (h : c.WellFormed n) (f : Face) : (c.stickers f).length = n * n := by
  rw [← List.length_map some, h.map_some_stickers, Array.length_toList, size_grid, h.size_eq]

/-- In the place of a cell of a slot is the sticker of the slot. -/
theorem getElem?_stickers (h : c.WellFormed n) (hk : k ∈ (Inventory.full n).kinds)
    (hs : s < k.size) :
    (c.stickers (k.slotFace s))[place n (k.cell s n)]? = c.sticker? k s := by
  obtain ⟨x, hx⟩ := h.exists_sticker hk hs
  have hgrid := h.getElem?_grid hk hs
  rw [← Array.getElem?_toList, ← h.map_some_stickers, List.getElem?_map, hx] at hgrid
  rw [hx]
  simpa using hgrid

/-- The stickers of a face are those in the slots on it. -/
theorem mem_stickers (h : c.WellFormed n) {x : α} :
    x ∈ c.stickers f ↔ ∃ k ∈ (Inventory.full n).kinds, ∃ s < k.size, k.slotFace s = f ∧
      c.sticker? k s = some x := by
  constructor
  · intro hx
    obtain ⟨i, hi, rfl⟩ := List.mem_iff_getElem.1 hx
    rw [h.length_stickers f] at hi
    obtain ⟨k, hk, s, hs, rfl, rfl⟩ := exists_slot f hi
    refine ⟨k, hk, s, hs, rfl, ?_⟩
    rw [← h.getElem?_stickers hk hs]
    exact List.getElem?_eq_getElem _
  · rintro ⟨k, hk, s, hs, rfl, hx⟩
    exact List.mem_of_getElem? ((h.getElem?_stickers hk hs).trans hx)

end WellFormed

/-- The slots of a cube and the cells of its faces correspond, and a face of a reachable cube lists
the stickers of the slots of its cells, row after row. -/
theorem slots_tile_faces (n : ℕ) :
    Set.BijOn (fun x : SlotKind × ℕ => x.1.cell x.2 n)
      {x | x.1 ∈ (Inventory.full n).kinds ∧ x.2 < x.1.size} {e | e.row < n ∧ e.col < n} ∧
    ∀ c : Cube α, c.Reachable n → ∀ f, (c.stickers f).length = n * n ∧
      ∀ row < n, ∀ col < n, ∃ k ∈ (Inventory.full n).kinds, ∃ s < k.size,
        k.cell s n = ⟨f, row, col⟩ ∧ ∃ x, c.sticker? k s = some x ∧
          (c.stickers f)[row * n + col]? = some x := by
  refine ⟨SlotKind.bijOn_cell n, fun c hc f => ?_⟩
  have h := hc.wellFormed
  refine ⟨h.length_stickers f, fun row hrow col hcol => ?_⟩
  obtain ⟨k, hon, s, hs, hcell⟩ := SlotKind.exists_cell_eq (c := ⟨f, row, col⟩) ⟨hrow, hcol⟩
  have hk := Inventory.mem_full_iff.2 hon
  have hface : k.slotFace s = f := by rw [← SlotKind.cell_face k s n, hcell]
  obtain ⟨x, hx⟩ := h.exists_sticker hk hs
  refine ⟨k, hk, s, hs, hcell, x, hx, ?_⟩
  have hplace := h.getElem?_stickers hk hs
  rwa [hface, hcell, hx] at hplace

/-- The faces of a three-layer cube whose right face has been turned. -/
theorem slots_tile_faces_three :
    ∃ c : Cube ℕ, c = ((solved 3 Face.index).turnAll [⟨.right, 1, 1, 1⟩]).1 ∧ c.Reachable 3 ∧
      ∀ f, (c.stickers f).length = 3 * 3 ∧
        ∀ row < 3, ∀ col < 3, ∃ k ∈ (Inventory.full 3).kinds, ∃ s < k.size,
          k.cell s 3 = ⟨f, row, col⟩ ∧ ∃ x, c.sticker? k s = some x ∧
            (c.stickers f)[row * 3 + col]? = some x := by
  have hstart : ofScheme 3 [0, 1, 2, 3, 4, 5] = .ok (solved 3 Face.index) := by
    refine ofScheme_eq_ok_iff.2 ⟨by decide, rfl, congrArg (solved 3) (funext fun f => ?_)⟩
    cases f <;> rfl
  have hc := (Reachable.ofScheme hstart).turnAll [⟨.right, 1, 1, 1⟩]
  exact ⟨_, rfl, hc, (slots_tile_faces 3).2 _ hc⟩

end Cube

end Twisty
