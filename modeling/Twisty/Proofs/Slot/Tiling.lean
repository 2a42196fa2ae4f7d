import Twisty.Slot.Inventory
import Twisty.Slot.Place
import Twisty.Proofs.Space.Turning
import Mathlib.Data.Set.Function
import Mathlib.Dynamics.PeriodicPts.Defs

/-!
# The slots tile the cube

Every cell of an `n`-layer cube is the place of exactly one slot of one of its kinds
(`bijOn_cell`). The slots of a kind start in cells that no turn of their face takes into one
another (`Cell.IsStart`), apart from the exact centers, which stay (`Cell.IsCenter`), and a start
determines its kind (`kindOfStart_startCell`). On the other hand some turn takes every cell to a
start (`exists_turns_isStart`), and every start belongs to a kind.
-/

namespace Twisty

/-! ## The numbers of the slots -/

namespace SlotKind

/-- The slot with the number `i` among those of a kind on a face. -/
def slotOn (k : SlotKind) (f : Face) (i : ℕ) : ℕ :=
  f.index * k.faceSize + i

variable {k : SlotKind} {f : Face} {i s n : ℕ}

theorem slotFace_slotOn (hi : i < k.faceSize) : k.slotFace (k.slotOn f i) = f := by
  rw [slotFace, slotOn, Nat.add_comm, Nat.add_mul_div_right _ _ k.faceSize_pos, Nat.div_eq_of_lt hi,
    Nat.zero_add, Face.ofIndex_index]

theorem slotOn_mod (hi : i < k.faceSize) : k.slotOn f i % k.faceSize = i := by
  rw [slotOn, Nat.add_comm, Nat.add_mul_mod_self_right, Nat.mod_eq_of_lt hi]

theorem slotOn_lt_size (hi : i < k.faceSize) : k.slotOn f i < k.size := by
  have hf : (f.index + 1) * k.faceSize ≤ 6 * k.faceSize := Nat.mul_le_mul_right _ f.index_lt
  rw [Nat.add_mul] at hf
  rw [slotOn, size]
  omega

/-- A slot is the one on its face with its number there. -/
theorem slotOn_slotFace (hs : s < k.size) : k.slotOn (k.slotFace s) (s % k.faceSize) = s := by
  have hlt : s / k.faceSize < 6 := Nat.div_lt_of_lt_mul (by rw [Nat.mul_comm]; exact hs)
  have hidx : ∀ j < 6, (Face.ofIndex j).index = j := by decide
  rw [slotOn, slotFace, hidx _ hlt, Nat.mul_comm, Nat.div_add_mod]

theorem mod_faceSize_lt (k : SlotKind) (s : ℕ) : s % k.faceSize < k.faceSize :=
  Nat.mod_lt _ k.faceSize_pos

theorem slotTurns_lt (k : SlotKind) (s : ℕ) : k.slotTurns s < 4 := by
  cases k <;> simp only [slotTurns] <;> omega

theorem slotTurns_mod (k : SlotKind) (s : ℕ) : k.slotTurns (s % k.faceSize) = k.slotTurns s := by
  cases k <;> simp only [slotTurns, faceSize] <;> omega

end SlotKind

/-! ## Starts -/

namespace Cell

variable {n : ℕ} {c : Cell}

/-- A cell is one of those that the four turns of its face take to all cells but the center, each to
a quarter of them. -/
def IsStart (n : ℕ) (c : Cell) : Prop :=
  c.row = 0 ∧ c.col + 1 < n ∨
    (1 ≤ c.row ∧ c.row ≤ maxPairedRank n) ∧ 1 ≤ c.col ∧ c.col ≤ maxRank n

/-- A cell is the middle of its face. -/
def IsCenter (n : ℕ) (c : Cell) : Prop :=
  2 * c.row + 1 = n ∧ 2 * c.col + 1 = n

theorem IsStart.within (h : c.IsStart n) : c.Within n := by
  simp only [IsStart, maxPairedRank, maxRank] at h
  simp only [Within]
  omega

theorem IsCenter.within (h : c.IsCenter n) : c.Within n := by
  simp only [IsCenter] at h
  simp only [Within]
  omega

/-- No turn but the full one takes a start to a start. -/
theorem IsStart.turns_eq_zero (h : c.IsStart n) {k : ℕ} (hk : k < 4)
    (ht : (c.turns (n - 1) k).IsStart n) : k = 0 := by
  simp only [IsStart, maxPairedRank, maxRank] at h ht
  match k with
  | 0 => rfl
  | 1 | 2 | 3 =>
    simp only [Cell.turns, Cell.turned] at ht
    omega
  | k + 4 => omega

/-- Turning leaves the center cell where it is. -/
theorem IsCenter.turns (h : c.IsCenter n) (k : ℕ) : c.turns (n - 1) k = c := by
  induction k with
  | zero => rfl
  | succ k ih =>
    obtain ⟨f, row, col⟩ := c
    obtain ⟨hr, hc⟩ : 2 * row + 1 = n ∧ 2 * col + 1 = n := h
    have ht : Cell.turned (n - 1) ⟨f, row, col⟩ = ⟨f, row, col⟩ := by
      simp only [Cell.turned, Cell.mk.injEq, true_and]
      omega
    rw [Cell.turns, ht, ih]

theorem IsStart.not_isCenter (h : c.IsStart n) : ¬c.IsCenter n := by
  simp only [IsStart, IsCenter, maxPairedRank, maxRank] at h ⊢
  omega

/-- Each edge without its last corner is turned to the top. -/
theorem exists_turns_isStart_of_edge (h : c.Within n) (hn : 2 ≤ n)
    (hedge : c.row = 0 ∨ c.row + 1 = n ∨ c.col = 0 ∨ c.col + 1 = n) :
    ∃ k < 4, (c.turns (n - 1) k).IsStart n := by
  obtain ⟨f, row, col⟩ := c
  obtain ⟨hrow, hcol⟩ : row < n ∧ col < n := h
  dsimp only at hedge
  by_cases htop : row = 0 ∧ col + 1 < n
  · exact ⟨0, by decide, .inl htop⟩
  by_cases hleft : col = 0 ∧ 1 ≤ row
  · refine ⟨1, by decide, .inl ?_⟩
    simp only [Cell.turns, Cell.turned]
    omega
  by_cases hbottom : row + 1 = n ∧ 1 ≤ col
  · refine ⟨2, by decide, .inl ?_⟩
    simp only [Cell.turns, Cell.turned]
    omega
  · refine ⟨3, by decide, .inl ?_⟩
    simp only [Cell.turns, Cell.turned]
    omega

/-- Each quarter of the inside is turned to the upper left. -/
theorem exists_turns_isStart_of_inside (hc : ¬c.IsCenter n)
    (hin : 1 ≤ c.row ∧ c.row + 1 < n ∧ 1 ≤ c.col ∧ c.col + 1 < n) :
    ∃ k < 4, (c.turns (n - 1) k).IsStart n := by
  obtain ⟨f, row, col⟩ := c
  replace hc : ¬(2 * row + 1 = n ∧ 2 * col + 1 = n) := hc
  dsimp only at hin
  by_cases hfirst : 2 * row + 1 < n ∧ 2 * col + 1 ≤ n
  · refine ⟨0, by decide, .inr ?_⟩
    simp only [Cell.turns, maxPairedRank, maxRank]
    omega
  by_cases hsecond : 2 * col + 1 < n ∧ n ≤ 2 * row + 1
  · refine ⟨1, by decide, .inr ?_⟩
    simp only [Cell.turns, Cell.turned, maxPairedRank, maxRank]
    omega
  by_cases hthird : n < 2 * row + 1 ∧ n ≤ 2 * col + 1
  · refine ⟨2, by decide, .inr ?_⟩
    simp only [Cell.turns, Cell.turned, maxPairedRank, maxRank]
    omega
  · have hfourth : n < 2 * col + 1 ∧ 2 * row + 1 ≤ n := by omega
    refine ⟨3, by decide, .inr ?_⟩
    simp only [Cell.turns, Cell.turned, maxPairedRank, maxRank]
    omega

/-- Some turn takes every cell but the middle to a start. -/
theorem exists_turns_isStart (h : c.Within n) (hc : ¬c.IsCenter n) :
    ∃ k < 4, (c.turns (n - 1) k).IsStart n := by
  obtain ⟨hrow, hcol⟩ := id h
  by_cases hedge : c.row = 0 ∨ c.row + 1 = n ∨ c.col = 0 ∨ c.col + 1 = n
  · have hn : 2 ≤ n := by
      by_contra hsmall
      exact hc ⟨by omega, by omega⟩
    exact exists_turns_isStart_of_edge h hn hedge
  · exact exists_turns_isStart_of_inside hc (by omega)

theorem turns_add (last j k : ℕ) (c : Cell) :
    c.turns last (j + k) = (c.turns last j).turns last k := by
  rw [turned_iterate, turned_iterate, turned_iterate, Nat.add_comm, Function.iterate_add_apply]

/-- Four turns more or less make no difference. -/
theorem turns_mod (h : c.Within n) (k : ℕ) : c.turns (n - 1) (k % 4) = c.turns (n - 1) k := by
  have hper : Function.IsPeriodicPt (Cell.turned (n - 1)) 4 c :=
    (turned_iterate _ 4 c).symm.trans (turns_four h)
  rw [turned_iterate, turned_iterate, hper.iterate_mod_apply]

/-- The turns that are left to four bring a cell back. -/
theorem turns_sub (h : c.Within n) {k : ℕ} (hk : k < 4) :
    (c.turns (n - 1) k).turns (n - 1) (4 - k) = c := by
  rw [← turns_add, Nat.add_sub_cancel' hk.le, turns_four h]

end Cell

namespace SlotKind

variable {k j : SlotKind} {s t n : ℕ}

/-- The kind of the slots that start in a cell. -/
def kindOfStart (n : ℕ) (c : Cell) : SlotKind :=
  if c.row = 0 ∧ 1 < n then
    if c.col = 0 then corner
    else if 2 * c.col + 1 = n then midge
    else wing (min c.col (n - 1 - c.col))
  else if 2 * c.row + 1 = n then exactCenter
  else center c.row c.col

theorem startCell_wing_col (r s n : ℕ) :
    ((wing r).startCell s n).col = r ∨ ((wing r).startCell s n).col = n - 1 - r := by
  simp only [startCell]
  split_ifs
  · exact .inl rfl
  · exact .inr rfl

/-- The kind of the start cell of a slot is the kind of the slot. -/
theorem kindOfStart_startCell (h : k.OnCube n) : kindOfStart n (k.startCell s n) = k := by
  cases k with
  | corner =>
    have hn : 1 < n := h
    simp [kindOfStart, startCell, hn]
  | midge =>
    obtain ⟨hodd, hn⟩ : n % 2 = 1 ∧ 3 ≤ n := h
    rw [kindOfStart, if_pos ⟨rfl, by omega⟩, if_neg (by simp only [startCell]; omega),
      if_pos (by simp only [startCell]; omega)]
  | exactCenter =>
    have hodd : n % 2 = 1 := h
    rw [kindOfStart, if_neg (by simp only [startCell]; omega),
      if_pos (by simp only [startCell]; omega)]
  | wing r =>
    obtain ⟨h₁, h₂⟩ : 1 ≤ r ∧ r ≤ (n - 2) / 2 := h
    have hcol := startCell_wing_col r s n
    rw [kindOfStart, if_pos ⟨rfl, by omega⟩, if_neg (by omega), if_neg (by omega)]
    congr 1
    omega
  | center r₁ r₂ =>
    obtain ⟨⟨h₁, h₂⟩, -⟩ : (1 ≤ r₁ ∧ r₁ ≤ (n - 2) / 2) ∧ 1 ≤ r₂ ∧ r₂ ≤ maxRank n := h
    rw [kindOfStart, if_neg (by simp only [startCell]; omega),
      if_neg (by simp only [startCell]; omega)]
    rfl

/-- The start cell of a slot is a start cell, but for the exact center. -/
theorem isStart_startCell (h : k.OnCube n) (hk : k ≠ exactCenter) :
    (k.startCell s n).IsStart n := by
  cases k with
  | corner => exact .inl ⟨rfl, h⟩
  | midge =>
    have hn : 3 ≤ n := h.2
    exact .inl ⟨rfl, by simp only [startCell]; omega⟩
  | exactCenter => exact absurd rfl hk
  | wing r =>
    obtain ⟨h₁, h₂⟩ : 1 ≤ r ∧ r ≤ (n - 2) / 2 := h
    have hcol := startCell_wing_col r s n
    exact .inl ⟨rfl, by omega⟩
  | center r₁ r₂ => exact .inr h

theorem isCenter_startCell (h : exactCenter.OnCube n) : (exactCenter.startCell s n).IsCenter n := by
  have hn : n % 2 = 1 := h
  simp only [Cell.IsCenter, startCell]
  omega

theorem within_startCell (h : k.OnCube n) (s : ℕ) : (k.startCell s n).Within n := by
  by_cases hk : k = exactCenter
  · subst hk
    exact (isCenter_startCell h).within
  · exact (isStart_startCell h hk).within

/-- The cell of a slot is a cell of its face. -/
theorem within_cell (h : k.OnCube n) (s : ℕ) : (k.cell s n).Within n :=
  (within_startCell h s).turns _

/-- Slots with the same start cell have the same kind. -/
theorem kind_eq_of_startCell (hk : k.OnCube n) (hj : j.OnCube n)
    (h : k.startCell s n = j.startCell t n) : k = j := by
  rw [← kindOfStart_startCell (s := s) hk, h, kindOfStart_startCell hj]

/-- The start and the turns of a slot determine its number on its face. -/
theorem mod_eq_of_startCell (hk : k.OnCube n) (h : k.startCell s n = k.startCell t n)
    (ht : k.slotTurns s = k.slotTurns t) : s % k.faceSize = t % k.faceSize := by
  cases k with
  | wing r =>
    obtain ⟨h₁, h₂⟩ : 1 ≤ r ∧ r ≤ maxPairedRank n := hk
    rw [maxPairedRank] at h₂
    simp only [startCell, Cell.mk.injEq] at h
    simp only [slotTurns, faceSize] at ht ⊢
    have hcol := h.2.2
    split_ifs at hcol <;> omega
  | exactCenter => simp [faceSize, Nat.mod_one]
  | _ => exact ht

/-- Slots of one cell start in one cell, and unless it is the middle of the face they make the same
turns. -/
theorem start_eq_of_cell (hk : k.OnCube n) (hj : j.OnCube n) (h : k.cell s n = j.cell t n) :
    k.startCell s n = j.startCell t n ∧
      ((k.startCell s n).IsStart n → k.slotTurns s = j.slotTurns t) := by
  have hlt := slotTurns_lt k s
  have hlt' := slotTurns_lt j t
  have hback := Cell.turns_sub (within_startCell hk s) hlt
  have hback' := Cell.turns_sub (within_startCell hj t) hlt'
  rw [cell, cell] at h
  by_cases hkc : k = exactCenter
  · subst hkc
    have hc := isCenter_startCell (s := s) hk
    rw [hc.turns] at h
    rw [← h, hc.turns] at hback'
    exact ⟨hback', fun hst => absurd hc hst.not_isCenter⟩
  · have hst := isStart_startCell (s := s) hk hkc
    by_cases hjc : j = exactCenter
    · subst hjc
      have hc := isCenter_startCell (s := t) hj
      rw [h, hc.turns, hc.turns] at hback
      exact absurd (hback ▸ hc) hst.not_isCenter
    · have hst' := isStart_startCell (s := t) hj hjc
      have hturn : k.slotTurns s = j.slotTurns t := by
        rw [h, ← Cell.turns_add, ← Cell.turns_mod (within_startCell hj t)] at hback
        have hz := hst'.turns_eq_zero (Nat.mod_lt _ (by decide)) (hback ▸ hst)
        omega
      rw [h, hturn, hback'] at hback
      exact ⟨hback.symm, fun _ => hturn⟩

/-- Two slots in the same cell are the same. -/
theorem cell_inj (hk : k.OnCube n) (hj : j.OnCube n) (hs : s < k.size) (ht : t < j.size)
    (h : k.cell s n = j.cell t n) : k = j ∧ s = t := by
  obtain ⟨hstart, hturns⟩ := start_eq_of_cell hk hj h
  obtain rfl := kind_eq_of_startCell hk hj hstart
  have hface : k.slotFace s = k.slotFace t := by
    rw [← cell_face k s n, h, cell_face]
  refine ⟨rfl, ?_⟩
  have hmod : s % k.faceSize = t % k.faceSize := by
    by_cases hkc : k = exactCenter
    · subst hkc
      simp [faceSize, Nat.mod_one]
    · exact mod_eq_of_startCell hk hstart (hturns (isStart_startCell hk hkc))
  rw [← slotOn_slotFace hs, ← slotOn_slotFace ht, hface, hmod]

/-! ## Every cell has a slot -/

theorem slotTurns_slotOn (f : Face) {i : ℕ} (hi : i < k.faceSize) :
    k.slotTurns (k.slotOn f i) = k.slotTurns i := by
  rw [← slotTurns_mod, slotOn_mod hi]

/-- A start and a number of turns belong to a slot. -/
theorem exists_slotOn (c : Cell) (hc : c.IsStart n) {m : ℕ} (hm : m < 4) :
    ∃ k : SlotKind, k.OnCube n ∧ ∃ i < k.faceSize,
      k.startCell (k.slotOn c.face i) n = c ∧ k.slotTurns (k.slotOn c.face i) = m := by
  obtain ⟨f, row, col⟩ := c
  rcases hc with ⟨hrow, hcol⟩ | ⟨hrow, hcol⟩
  · obtain rfl : row = 0 := hrow
    have hlt : col + 1 < n := hcol
    rcases Nat.eq_zero_or_pos col with rfl | hpos
    · refine ⟨corner, hlt, m, hm, ?_, ?_⟩
      · rw [startCell, slotFace_slotOn hm]
      · rw [slotTurns_slotOn f hm]
        exact Nat.mod_eq_of_lt hm
    rcases Nat.lt_trichotomy (2 * col + 1) n with hside | hmid | hside
    · have hi : 2 * m < 8 := by omega
      have heven : (wing col).slotOn f (2 * m) % 2 = 0 := by simp only [slotOn, faceSize]; omega
      refine ⟨wing col, ⟨hpos, by rw [maxPairedRank]; omega⟩, 2 * m, hi, ?_, ?_⟩
      · rw [startCell, slotFace_slotOn hi, if_pos heven]
      · rw [slotTurns_slotOn f hi, slotTurns]
        omega
    · refine ⟨midge, ⟨by omega, by omega⟩, m, hm, ?_, ?_⟩
      · rw [startCell, slotFace_slotOn hm, show (n - 1) / 2 = col by omega]
      · rw [slotTurns_slotOn f hm]
        exact Nat.mod_eq_of_lt hm
    · have hi : 2 * m + 1 < 8 := by omega
      have hodd : (wing (n - 1 - col)).slotOn f (2 * m + 1) % 2 ≠ 0 := by
        simp only [slotOn, faceSize]
        omega
      refine ⟨wing (n - 1 - col), ⟨by omega, by rw [maxPairedRank]; omega⟩, 2 * m + 1, hi, ?_, ?_⟩
      · rw [startCell, slotFace_slotOn hi, if_neg hodd, show n - 1 - (n - 1 - col) = col by omega]
      · rw [slotTurns_slotOn f hi, slotTurns]
        omega
  · refine ⟨center row col, ⟨hrow, hcol⟩, m, hm, ?_, ?_⟩
    · rw [startCell, slotFace_slotOn hm]
    · rw [slotTurns_slotOn f hm]
      exact Nat.mod_eq_of_lt hm

/-- Every cell of a face is the cell of a slot. -/
theorem exists_cell_eq {c : Cell} (hc : c.Within n) :
    ∃ k : SlotKind, k.OnCube n ∧ ∃ s < k.size, k.cell s n = c := by
  by_cases hmid : c.IsCenter n
  · have hi : 0 < exactCenter.faceSize := faceSize_pos _
    have hodd : exactCenter.OnCube n := by
      have hr := hmid.1
      show n % 2 = 1
      omega
    refine ⟨exactCenter, hodd, exactCenter.slotOn c.face 0, slotOn_lt_size hi, ?_⟩
    rw [cell, (isCenter_startCell hodd).turns]
    obtain ⟨f, row, col⟩ := c
    obtain ⟨hr, hcol⟩ : 2 * row + 1 = n ∧ 2 * col + 1 = n := hmid
    rw [startCell, slotFace_slotOn hi, show (n - 1) / 2 = row by omega, show col = row by omega]
  · obtain ⟨m, hm, hst⟩ := Cell.exists_turns_isStart hc hmid
    obtain ⟨k, hk, i, hi, hstart, hturns⟩ :=
      exists_slotOn _ hst (m := (4 - m) % 4) (Nat.mod_lt _ (by decide))
    refine ⟨k, hk, k.slotOn (c.turns (n - 1) m).face i, slotOn_lt_size hi, ?_⟩
    rw [cell, hstart, hturns, Cell.turns_mod hst.within, Cell.turns_sub hc hm]

/-- The slots of the kinds of a cube and the cells of its faces correspond. -/
theorem bijOn_cell (n : ℕ) :
    Set.BijOn (fun x : SlotKind × ℕ => x.1.cell x.2 n)
      {x | x.1 ∈ (Inventory.full n).kinds ∧ x.2 < x.1.size} {c | c.Within n} := by
  refine ⟨?_, ?_, ?_⟩
  · rintro ⟨k, s⟩ ⟨hk, -⟩
    exact within_cell (Inventory.mem_full_iff.1 hk) s
  · rintro ⟨k, s⟩ ⟨hk, hs⟩ ⟨j, t⟩ ⟨hj, ht⟩ h
    have hk := Inventory.mem_full_iff.1 hk
    have hj := Inventory.mem_full_iff.1 hj
    obtain ⟨rfl, rfl⟩ := cell_inj hk hj hs ht h
    rfl
  · intro c hc
    obtain ⟨k, hk, s, hs, rfl⟩ := exists_cell_eq hc
    exact ⟨(k, s), ⟨Inventory.mem_full_iff.2 hk, hs⟩, rfl⟩

end SlotKind

end Twisty
