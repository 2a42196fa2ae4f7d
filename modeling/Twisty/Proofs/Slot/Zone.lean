import Twisty.Proofs.Slot.Carrying

/-!
# The zones of slots

Counted from the other end, a layer lies in the opposite zone (`zone_reflect`), and each layer of a
cube lies in a zone of its own (`zone_inj`).

A slot lies as far from each side of its face as the start of its kind does from some side, and from
which one depends on the number of the slot alone (`layer_eq_distance`). So the zone of its layer
can be read off the start without coordinates (`SlotKind.zoneAbout`, `SlotKind.zone_layer`). This
gives a zone to slots of any kind, also where its ranks do not fit on the cube.
-/

namespace Twisty

open Function

/-! ## Zones -/

theorem middleRank?_eq {n r : ℕ} : some r = middleRank? n ↔ 2 * r + 1 = n := by
  simp only [middleRank?, middleLayer?]
  split_ifs with h
  · simp only [Option.map_some, Option.some.injEq]
    omega
  · simp only [Option.map_none, reduceCtorEq, false_iff]
    omega

theorem zone_middle {n l : ℕ} (h : 2 * l = n + 1) : zone n l = .middle := by
  have hm : some l = middleLayer? n := by
    rw [middleLayer?, if_pos (by omega)]
    congr 1
    omega
  rw [zone, if_pos hm]

theorem ne_middleLayer {n l : ℕ} (h : 2 * l ≠ n + 1) : ¬some l = middleLayer? n := by
  rw [middleLayer?]
  split_ifs <;> simp
  omega

theorem zone_first {n : ℕ} (h : 2 ≤ n) : zone n 1 = .first := by
  rw [zone, if_neg (ne_middleLayer (by omega)), if_pos rfl]

theorem zone_last {n : ℕ} (h : 2 ≤ n) : zone n n = .last := by
  rw [zone, if_neg (ne_middleLayer (by omega)), if_neg (by omega), if_pos rfl]

/-- A layer in the near half that is not the first is before the middle. -/
theorem zone_beforeMiddle {n l : ℕ} (h₁ : 2 ≤ l) (h₂ : 2 * l ≤ n) :
    zone n l = .beforeMiddle (l - 1) := by
  rw [zone, if_neg (ne_middleLayer (by omega)), if_neg (by omega), if_neg (by omega), if_pos h₂]

/-- A layer in the far half that is not the last is after the middle. -/
theorem zone_afterMiddle {n l : ℕ} (h₁ : n + 1 < 2 * l) (h₂ : l < n) :
    zone n l = .afterMiddle (n - l) := by
  rw [zone, if_neg (ne_middleLayer (by omega)), if_neg (by omega), if_neg (by omega),
    if_neg (by omega)]

/-- The near layers : the middle one, the first, and those between them. -/
theorem near_zone_cases {n l : ℕ} (h₁ : 1 ≤ l) (h₂ : 2 * l ≤ n + 1) :
    (zone n l = .middle ∧ 2 * l = n + 1) ∨ (zone n l = .first ∧ l = 1 ∧ 2 ≤ n) ∨
      (zone n l = .beforeMiddle (l - 1) ∧ 2 ≤ l ∧ 2 * l ≤ n) := by
  rcases Nat.lt_or_ge (2 * l) (n + 1) with h | h
  · rcases Nat.eq_or_lt_of_le h₁ with rfl | h₁
    · exact .inr (.inl ⟨zone_first (by omega), rfl, by omega⟩)
    · exact .inr (.inr ⟨zone_beforeMiddle h₁ (by omega), h₁, by omega⟩)
  · exact .inl ⟨zone_middle (by omega), by omega⟩

namespace Zone

/-- A zone as it lies when the layers are counted from the other end. -/
def opposite : Zone → Zone
  | first => last
  | beforeMiddle d => afterMiddle d
  | middle => middle
  | afterMiddle d => beforeMiddle d
  | last => first

@[simp] theorem opposite_opposite (b : Zone) : b.opposite.opposite = b := by
  cases b <;> rfl

/-- The opposite of a zone in one half is in the other. -/
theorem isNear_opposite {b : Zone} (h : b ≠ middle) : b.opposite.isNear = !b.isNear := by
  cases b with
  | middle => exact absurd rfl h
  | _ => rfl

end Zone

/-- A layer counted from the other end lies as far from that end. -/
theorem zone_reflect {n l : ℕ} (h₁ : 1 ≤ l) (h₂ : l ≤ n) :
    zone n (n + 1 - l) = (zone n l).opposite := by
  have hnear : ∀ {j : ℕ}, 1 ≤ j → 2 * j < n + 1 → zone n (n + 1 - j) = (zone n j).opposite := by
    intro j hj hlt
    rcases Nat.eq_or_lt_of_le hj with rfl | hj
    · rw [Nat.add_sub_cancel, zone_last (by omega), zone_first (by omega)]
      rfl
    · rw [zone_afterMiddle (by omega) (by omega), zone_beforeMiddle hj (by omega), Zone.opposite]
      congr 1
      omega
  rcases Nat.lt_trichotomy (2 * l) (n + 1) with h | h | h
  · exact hnear h₁ h
  · rw [show n + 1 - l = l by omega, zone_middle h]
    rfl
  · have hback := hnear (j := n + 1 - l) (by omega) (by omega)
    rw [Nat.sub_sub_self (by omega)] at hback
    rw [hback, Zone.opposite_opposite]

namespace Zone

/-- The layer of an `n`-layer cube that lies in a zone. -/
def layer (n : ℕ) : Zone → ℕ
  | first => 1
  | beforeMiddle d => d + 1
  | middle => n / 2 + 1
  | afterMiddle d => n - d
  | last => n

/-- A layer is the layer of its zone. -/
theorem layer_zone {n l : ℕ} (h₁ : 1 ≤ l) (h₂ : l ≤ n) : (zone n l).layer n = l := by
  rcases Nat.lt_or_ge (n + 1) (2 * l) with hfar | hnear
  · rcases Nat.eq_or_lt_of_le h₂ with rfl | hlt
    · rw [zone_last (by omega), layer]
    · rw [zone_afterMiddle hfar hlt, layer, Nat.sub_sub_self h₂]
  · rcases near_zone_cases h₁ hnear with ⟨hz, hl⟩ | ⟨hz, rfl, -⟩ | ⟨hz, hl, -⟩ <;>
      rw [hz, layer] <;> omega

end Zone

/-- No two layers lie in one zone. -/
theorem zone_inj {n l j : ℕ} (hl : 1 ≤ l ∧ l ≤ n) (hj : 1 ≤ j ∧ j ≤ n) :
    zone n l = zone n j ↔ l = j := by
  refine ⟨fun h => ?_, congrArg (zone n)⟩
  rw [← Zone.layer_zone hl.1 hl.2, h, Zone.layer_zone hj.1 hj.2]

/-! ## The sides of a start -/

namespace SlotKind

variable {k j : SlotKind} {f : Face} {s n : ℕ}

/-- The turns of a slot depend only on how many slots a face has. -/
theorem slotTurns_congr (h : k.faceSize = j.faceSize) : k.slotTurns = j.slotTurns := by
  funext s
  cases k <;> cases j <;> first | rfl | simp [faceSize] at h

/-- The side of the start of a slot that a turn of its face takes to a side of the cube. -/
def startSide (k : SlotKind) (f : Face) (s : ℕ) : Side :=
  Side.turned^[4 - k.slotTurns s] (f.side (k.slotFace s))

theorem startSide_congr (h : k.faceSize = j.faceSize) : k.startSide f s = j.startSide f s := by
  rw [startSide, startSide, slotTurns_congr h, slotFace, slotFace, h]

/-- Four quarter turns bring every side back. -/
theorem turned_iterate_four (σ : Side) : Side.turned^[4] σ = σ := by
  cases σ <;> rfl

/-- The layer of a slot is the distance of its start from the side it has there. -/
theorem layer_eq_distance (hk : k.OnCube n) :
    k.layer n f s = (k.startCell s n).distance (n - 1) (k.startSide f s) := by
  have hside : Side.turned^[k.slotTurns s] (k.startSide f s) = f.side (k.slotFace s) := by
    rw [startSide, ← iterate_add_apply, Nat.add_sub_cancel' (slotTurns_lt k s).le,
      turned_iterate_four]
  rw [layer, Cell.layer, cell_face, ← hside, cell, Cell.distance_turns (within_startCell hk s)]

/-- The exact centers that a turn moves are not on its axis. -/
theorem startSide_of_carried_ne (hs : s < k.size) (hmoves : k.carried f s ≠ s) :
    k = exactCenter → k.startSide f s ≠ .near ∧ k.startSide f s ≠ .far := by
  have haxis : ∀ f g : Face, f.side g = .near ∨ f.side g = .far → g = f ∨ g = f.opposite := by
    decide
  rintro rfl
  rw [startSide, slotTurns, Nat.sub_zero, turned_iterate_four]
  exact not_or.1 fun hside => hmoves ((carried_eq_self_iff hs).2 ⟨rfl, haxis _ _ hside⟩)

/-! ## The zone of a slot -/

/-- The zones of the row and of the column of the start of a slot. -/
def startZones (k : SlotKind) (n s : ℕ) : Zone × Zone :=
  match k with
  | corner => (.first, .first)
  | midge => (.first, .middle)
  | exactCenter => (.middle, .middle)
  | wing r => (.first, if s % 2 = 0 then .beforeMiddle r else .afterMiddle r)
  | center r₁ r₂ => (.beforeMiddle r₁, if 2 * r₂ + 1 = n then .middle else .beforeMiddle r₂)

/-- The zone of the start of a slot when the layers are counted from a side. -/
def sideZone (k : SlotKind) (n s : ℕ) : Side → Zone
  | .near => .first
  | .far => .last
  | .top => (k.startZones n s).1
  | .right => (k.startZones n s).2.opposite
  | .bottom => (k.startZones n s).1.opposite
  | .left => (k.startZones n s).2

/-- The zone of a slot when the layers are counted from a face. -/
def zoneAbout (k : SlotKind) (n : ℕ) (f : Face) (s : ℕ) : Zone :=
  k.sideZone n s (k.startSide f s)

/-- On opposite sides a slot is in opposite zones. -/
theorem sideZone_opposite (k : SlotKind) (n s : ℕ) (σ : Side) :
    k.sideZone n s σ.opposite = (k.sideZone n s σ).opposite := by
  cases σ with
  | right | bottom => exact (Zone.opposite_opposite _).symm
  | _ => rfl

theorem startSide_opposite (k : SlotKind) (f : Face) (s : ℕ) :
    k.startSide f.opposite s = (k.startSide f s).opposite := by
  have hcomm : Function.Commute Side.turned Side.opposite := by
    intro σ
    cases σ <;> rfl
  rw [startSide, startSide, Face.side_opposite, hcomm.iterate_left]

/-- About opposite faces a slot is in opposite zones. -/
theorem zoneAbout_opposite (k : SlotKind) (n : ℕ) (f : Face) (s : ℕ) :
    k.zoneAbout n f.opposite s = (k.zoneAbout n f s).opposite := by
  rw [zoneAbout, startSide_opposite, sideZone_opposite, zoneAbout]

theorem zone_row (hk : k.OnCube n) (s : ℕ) :
    zone n ((k.startCell s n).row + 1) = (k.startZones n s).1 := by
  cases k with
  | corner => exact zone_first hk
  | midge =>
    obtain ⟨-, hn⟩ : n % 2 = 1 ∧ 3 ≤ n := hk
    exact zone_first (by omega)
  | exactCenter =>
    have hn : n % 2 = 1 := hk
    exact zone_middle (by simp only [startCell]; omega)
  | wing r =>
    obtain ⟨h₁, h₂⟩ : 1 ≤ r ∧ r ≤ (n - 2) / 2 := hk
    exact zone_first (by omega)
  | center r₁ r₂ =>
    obtain ⟨⟨h₁, h₂⟩, -⟩ : (1 ≤ r₁ ∧ r₁ ≤ (n - 2) / 2) ∧ 1 ≤ r₂ ∧ r₂ ≤ (n - 1) / 2 := hk
    exact zone_beforeMiddle (by simp only [startCell]; omega) (by simp only [startCell]; omega)

theorem zone_col (hk : k.OnCube n) (s : ℕ) :
    zone n ((k.startCell s n).col + 1) = (k.startZones n s).2 := by
  cases k with
  | corner => exact zone_first hk
  | midge =>
    obtain ⟨hodd, -⟩ : n % 2 = 1 ∧ 3 ≤ n := hk
    exact zone_middle (by simp only [startCell]; omega)
  | exactCenter =>
    have hodd : n % 2 = 1 := hk
    exact zone_middle (by simp only [startCell]; omega)
  | wing r =>
    obtain ⟨h₁, h₂⟩ : 1 ≤ r ∧ r ≤ (n - 2) / 2 := hk
    simp only [startCell, startZones]
    split_ifs
    · exact zone_beforeMiddle (by omega) (by omega)
    · rw [zone_afterMiddle (by omega) (by omega)]
      congr 1
      omega
  | center r₁ r₂ =>
    obtain ⟨-, h₁, h₂⟩ : (1 ≤ r₁ ∧ r₁ ≤ (n - 2) / 2) ∧ 1 ≤ r₂ ∧ r₂ ≤ (n - 1) / 2 := hk
    simp only [startCell, startZones]
    split_ifs
    · exact zone_middle (by omega)
    · exact zone_beforeMiddle (by omega) (by omega)

theorem two_le_of_onCube (hk : k.OnCube n) (hne : k ≠ exactCenter) : 2 ≤ n := by
  have hstart := isStart_startCell (s := 0) hk hne
  simp only [Cell.IsStart, maxPairedRank] at hstart
  omega

/-- The layer of a start as counted from a side lies in its zone there, unless the start is the
middle of the face and the layer is the face or the opposite one. -/
theorem zone_distance (hk : k.OnCube n) (s : ℕ) {σ : Side}
    (hσ : k = exactCenter → σ ≠ .near ∧ σ ≠ .far) :
    zone n ((k.startCell s n).distance (n - 1) σ + 1) = k.sideZone n s σ := by
  obtain ⟨hrow, hcol⟩ := within_startCell hk s
  cases σ with
  | near =>
    have hne : k ≠ exactCenter := fun hkc => (hσ hkc).1 rfl
    exact zone_first (two_le_of_onCube hk hne)
  | far =>
    have hn : 2 ≤ n := two_le_of_onCube hk fun hkc => (hσ hkc).2 rfl
    rw [Cell.distance, Nat.sub_add_cancel (by omega), zone_last hn, sideZone]
  | top => exact zone_row hk s
  | left => exact zone_col hk s
  | bottom =>
    rw [sideZone, ← zone_row hk, ← zone_reflect (by omega) (by omega), Cell.distance]
    congr 1
    omega
  | right =>
    rw [sideZone, ← zone_col hk, ← zone_reflect (by omega) (by omega), Cell.distance]
    congr 1
    omega

/-- A slot that a turn about a face moves has the zone of its layer. -/
theorem zone_layer (hk : k.OnCube n) (hs : s < k.size) (hmoves : k.carried f s ≠ s) :
    zone n (k.layer n f s + 1) = k.zoneAbout n f s := by
  rw [layer_eq_distance hk, zoneAbout, zone_distance hk]
  exact startSide_of_carried_ne hs hmoves

end SlotKind

end Twisty
