import Twisty.Slot.Turn
import Twisty.Proofs.Permutation.Decomposition
import Twisty.Proofs.Slot.Tiling

/-!
# Where turns take the slots

A quarter turn of the whole cube takes the slots of a kind to slots of that kind, and
`SlotKind.carried` gives their numbers, from the new face and the turns its grid makes. They do not
depend on the size of the cube or on the ranks, though the cells do (`cell_carried`).

A turn of one layer takes the slots of that layer along and leaves the others (`turnedSlot`). This
is what `SlotKind.turn` finds by comparing centers (`image_turn`), and it permutes the slots
(`isPermutation_turn`).
-/

namespace Twisty.SlotKind

open Function Permutation

variable {k j : SlotKind} {f : Face} {s t n d : ℕ}

/-- The slot where a clockwise quarter turn of the whole cube about a face takes a slot. -/
def carried (k : SlotKind) (f : Face) (s : ℕ) : ℕ :=
  k.slotOn (f.turnFace (k.slotFace s))
    ((s % k.faceSize + k.faceSize / 4 * f.twist (k.slotFace s)) % k.faceSize)

/-- A quarter turn takes a slot to the face that its face goes to. -/
@[simp] theorem slotFace_carried (k : SlotKind) (f : Face) (s : ℕ) :
    k.slotFace (k.carried f s) = f.turnFace (k.slotFace s) :=
  slotFace_slotOn (mod_faceSize_lt k _)

theorem carried_lt_size (k : SlotKind) (f : Face) (s : ℕ) : k.carried f s < k.size :=
  slotOn_lt_size (mod_faceSize_lt k _)

theorem carried_mod (k : SlotKind) (f : Face) (s : ℕ) :
    k.carried f s % k.faceSize =
      (s % k.faceSize + k.faceSize / 4 * f.twist (k.slotFace s)) % k.faceSize :=
  slotOn_mod (mod_faceSize_lt k _)

/-- Kinds with as many slots on a face are turned alike. -/
theorem carried_congr (h : k.faceSize = j.faceSize) : k.carried = j.carried := by
  funext f s
  simp only [carried, slotOn, slotFace, h]

/-- A wing slot is carried to one on the same side of the middle of its edge. -/
theorem carried_wing_mod_two (r : ℕ) (f : Face) (s : ℕ) : (wing r).carried f s % 2 = s % 2 := by
  have hmod := carried_mod (wing r) f s
  simp only [faceSize] at hmod
  omega

/-- Only the exact centers on the axis stay. -/
theorem carried_eq_self_iff (hs : s < k.size) :
    k.carried f s = s ↔ k = exactCenter ∧ (k.slotFace s = f ∨ k.slotFace s = f.opposite) := by
  constructor
  · intro h
    have hface : f.turnFace (k.slotFace s) = k.slotFace s := by rw [← slotFace_carried, h]
    have htwist := Face.twist_of_turnFace_eq_self hface
    have hmod := carried_mod k f s
    rw [h] at hmod
    refine ⟨?_, Face.turnFace_eq_self_iff.1 hface⟩
    cases k with
    | exactCenter => rfl
    | _ =>
      simp only [faceSize] at hmod
      omega
  · rintro ⟨rfl, h⟩
    rw [carried, Face.turnFace_eq_self_iff.2 h]
    simpa [faceSize, Nat.mod_one] using slotOn_slotFace hs

/-- The start of a carried slot is the same place on the new face. -/
theorem startCell_carried (k : SlotKind) (f : Face) (s n : ℕ) :
    k.startCell (k.carried f s) n =
      { k.startCell s n with face := f.turnFace (k.slotFace s) } := by
  cases k with
  | wing r => simp only [startCell, slotFace_carried, carried_wing_mod_two]
  | _ => simp only [startCell, slotFace_carried]

/-- A quarter turn takes a slot on in its face by the twist of that face. -/
theorem slotTurns_carried (hk : k ≠ exactCenter) (f : Face) (s : ℕ) :
    k.slotTurns (k.carried f s) = (k.slotTurns s + f.twist (k.slotFace s)) % 4 := by
  have hmod := carried_mod k f s
  cases k with
  | exactCenter => exact absurd rfl hk
  | _ =>
    simp only [slotTurns, faceSize] at hmod ⊢
    omega

theorem turns_withFace (last m : ℕ) (c : Cell) (g : Face) :
    { c.turns last m with face := g } = Cell.turns last m { c with face := g } := by
  induction m generalizing c with
  | zero => rfl
  | succ m ih => exact ih (c.turned last)

/-- The cell of a carried slot is the carried cell. -/
theorem cell_carried (hk : k.OnCube n) (f : Face) (s : ℕ) :
    k.cell (k.carried f s) n = (k.cell s n).carried f (n - 1) := by
  have hw : Cell.Within n { k.startCell s n with face := f.turnFace (k.slotFace s) } :=
    within_startCell hk s
  rw [Cell.carried, cell_face, cell, cell, turns_withFace, ← Cell.turns_add, startCell_carried]
  by_cases hkc : k = exactCenter
  · subst hkc
    have hc : Cell.IsCenter n
        { exactCenter.startCell s n with face := f.turnFace (exactCenter.slotFace s) } :=
      isCenter_startCell (s := s) hk
    rw [hc.turns, hc.turns]
  · rw [slotTurns_carried hkc, Cell.turns_mod hw]

/-- A quarter turn of the cube takes the sticker in a slot to the turned point. -/
theorem point_carried (hk : k.OnCube n) (f : Face) (s : ℕ) :
    k.point (k.carried f s) n = f.turnPoint (k.point s n) := by
  rw [point, cell_carried hk, Cell.point_carried f (within_cell hk s), point]

/-- Quarter turns one after another turn the point as often. -/
theorem point_iterate_carried (hk : k.OnCube n) (f : Face) (m s : ℕ) :
    k.point ((k.carried f)^[m] s) n = f.turnPoint^[m] (k.point s n) := by
  induction m generalizing s with
  | zero => rfl
  | succ m ih => rw [iterate_succ_apply, ih, point_carried hk, ← iterate_succ_apply]

/-- Different slots have different centers. -/
theorem point_inj (hk : k.OnCube n) (hs : s < k.size) (ht : t < k.size)
    (h : k.point s n = k.point t n) : s = t := by
  have hcell := Cell.point_inj (within_cell hk s) (within_cell hk t) h
  exact (cell_inj hk hk hs ht hcell).2

theorem iterate_carried_lt (hs : s < k.size) (f : Face) (m : ℕ) : (k.carried f)^[m] s < k.size := by
  cases m with
  | zero => exact hs
  | succ m =>
    rw [iterate_succ_apply']
    exact carried_lt_size k f _

/-- Four quarter turns bring every slot back. -/
theorem carried_iterate_four (hk : k.OnCube n) (hs : s < k.size) (f : Face) :
    (k.carried f)^[4] s = s := by
  refine point_inj hk (iterate_carried_lt hs f 4) hs ?_
  rw [point_iterate_carried hk, Face.turnPoint_iterate_four]

theorem iterate_carried_mod (hk : k.OnCube n) (hs : s < k.size) (f : Face) (m : ℕ) :
    (k.carried f)^[m % 4] s = (k.carried f)^[m] s := by
  have hper : IsPeriodicPt (k.carried f) 4 s := carried_iterate_four hk hs f
  exact hper.iterate_mod_apply m

/-- A slot that comes back before the fourth turn does not move at all. -/
theorem iterate_carried_eq_self_iff (hk : k.OnCube n) (hs : s < k.size) {m : ℕ} (hm : m % 4 ≠ 0) :
    (k.carried f)^[m] s = s ↔ k.carried f s = s := by
  refine ⟨fun h => ?_, fun h => ?_⟩
  · rw [← iterate_carried_mod hk hs] at h
    obtain hone | htwo | hthree : m % 4 = 1 ∨ m % 4 = 2 ∨ m % 4 = 3 := by omega
    · rwa [hone] at h
    · refine point_inj hk (carried_lt_size k f s) hs ?_
      rw [point_carried hk, Face.turnPoint_eq_self_of_iterate_two]
      rw [← point_iterate_carried hk, ← htwo, h]
    · have hfour := carried_iterate_four hk hs f
      rw [hthree] at h
      rwa [iterate_succ_apply', h] at hfour
  · have hfix : IsFixedPt (k.carried f) s := h
    exact hfix.iterate m

/-- A quarter turn about the opposite face undoes one about the face. -/
theorem carried_carried_opposite (hk : k.OnCube n) (hs : s < k.size) (f : Face) :
    k.carried f.opposite (k.carried f s) = s := by
  refine point_inj hk (carried_lt_size k _ _) hs ?_
  rw [point_carried hk, point_carried hk, Face.turnPoint_turnPoint_opposite]

theorem carried_inj (hk : k.OnCube n) (hs : s < k.size) (ht : t < k.size)
    (h : k.carried f s = k.carried f t) : s = t := by
  rw [← carried_carried_opposite hk hs f, h, carried_carried_opposite hk ht]

/-! ## Turning one layer -/

/-- The layer of a slot of an `n`-layer cube, counted from 0 at a face. -/
def layer (k : SlotKind) (n : ℕ) (f : Face) (s : ℕ) : ℕ :=
  (k.cell s n).layer f (n - 1)

/-- The slot where a clockwise quarter turn of one layer takes a slot. -/
def turnedSlot (k : SlotKind) (n : ℕ) (f : Face) (d s : ℕ) : ℕ :=
  if k.layer n f s = d then k.carried f s else s

/-- A turn about a face keeps the layers from that face. -/
theorem layer_carried (hk : k.OnCube n) (f : Face) (s : ℕ) :
    k.layer n f (k.carried f s) = k.layer n f s := by
  rw [layer, cell_carried hk, Cell.layer_carried f (within_cell hk s), layer]

theorem layer_iterate_carried (hk : k.OnCube n) (f : Face) (m s : ℕ) :
    k.layer n f ((k.carried f)^[m] s) = k.layer n f s := by
  induction m generalizing s with
  | zero => rfl
  | succ m ih => rw [iterate_succ_apply, ih, layer_carried hk]

theorem layer_opposite (hk : k.OnCube n) (f : Face) (s : ℕ) :
    k.layer n f.opposite s = n - 1 - k.layer n f s :=
  Cell.layer_opposite f (within_cell hk s)

theorem layer_lt (hk : k.OnCube n) (f : Face) (s : ℕ) : k.layer n f s < n :=
  Cell.layer_lt f (within_cell hk s)

/-- The depth of the point of a slot is the layer of the slot. -/
theorem depth_point (hk : k.OnCube n) (hn : n ≤ maxLayer) (f : Face) (s : ℕ) :
    f.depth (k.point s n) n = k.layer n f s :=
  Cell.depth_point f (within_cell hk s) hn

theorem turnedSlot_lt (hs : s < k.size) : k.turnedSlot n f d s < k.size := by
  unfold turnedSlot
  split_ifs
  · exact carried_lt_size k f s
  · exact hs

theorem layer_turnedSlot (hk : k.OnCube n) :
    k.layer n f (k.turnedSlot n f d s) = k.layer n f s := by
  unfold turnedSlot
  split_ifs
  · exact layer_carried hk f s
  · rfl

theorem turnedSlot_inj (hk : k.OnCube n) (hs : s < k.size) (ht : t < k.size)
    (h : k.turnedSlot n f d s = k.turnedSlot n f d t) : s = t := by
  have hlayer : k.layer n f s = k.layer n f t := by
    rw [← layer_turnedSlot hk (d := d), h, layer_turnedSlot hk]
  unfold turnedSlot at h
  rw [hlayer] at h
  split_ifs at h
  · exact carried_inj hk hs ht h
  · exact h

/-- Turning a layer some times takes its slots along as often. -/
theorem iterate_turnedSlot (hk : k.OnCube n) (m : ℕ) :
    (k.turnedSlot n f d)^[m] s = if k.layer n f s = d then (k.carried f)^[m] s else s := by
  induction m generalizing s with
  | zero => simp
  | succ m ih =>
    rw [iterate_succ_apply, ih, layer_turnedSlot hk, turnedSlot]
    split_ifs <;> rfl

/-- The slot at the point of a slot is that slot. -/
theorem slotAt?_point (hk : k.OnCube n) (ht : t < k.size) : k.slotAt? n (k.point t n) = some t := by
  cases h : k.slotAt? n (k.point t n) with
  | none =>
    have hno := List.find?_eq_none.1 h t (by simpa using ht)
    simp at hno
  | some r =>
    have hr : r < k.size := by simpa using List.mem_of_find?_eq_some h
    have hp : k.point r n = k.point t n := by simpa using List.find?_some h
    rw [point_inj hk hr ht hp]

/-- The slot found by its center is the carried one. -/
theorem turnSlot?_eq (hk : k.OnCube n) (hn : n ≤ maxLayer) (f : Face) (d s : ℕ) :
    k.turnSlot? n f d s = some (k.turnedSlot n f d s) := by
  simp only [turnSlot?, depth_point hk hn, turnedSlot]
  split_ifs
  · rw [← point_carried hk, slotAt?_point hk (carried_lt_size k f s)]
  · rfl

/-- The permutation of a turn sends a slot to the slot it is turned to. -/
theorem image_turn (hk : k.OnCube n) (hn : n ≤ maxLayer) (hs : s < k.size) :
    image (k.turn n f d) s = k.turnedSlot n f d s := by
  simp [image, turn, turnSlot?_eq hk hn, hs]

/-- A turn is a permutation of the slots. -/
theorem isPermutation_turn (hk : k.OnCube n) (hn : n ≤ maxLayer) (f : Face) (d : ℕ) :
    IsPermutation (k.turn n f d) := by
  constructor
  · intro s hs
    rw [length_turn] at hs ⊢
    rw [image_turn hk hn hs]
    exact turnedSlot_lt hs
  · intro s hs t ht h
    rw [length_turn] at hs ht
    rw [image_turn hk hn hs, image_turn hk hn ht] at h
    exact turnedSlot_inj hk hs ht h

end Twisty.SlotKind
