import Twisty.Pattern
import Twisty.Proofs.Slot.Zone

/-!
# Patterns on every cube

The cycles of a pattern are found on one reference cube. Here they are shown to be right for every
cube and all ranks : where the pattern is the one in which a near layer meets a kind, it takes each
slot where a quarter turn of that layer takes it (`Pattern.image_turn`), and where there is no
pattern the layer leaves every slot of the kind in its place (`turnedSlot_of_no_pattern`).

The reason is that a layer turns the slots of its zone. The slots that have the zone of the layer on
the cube are those that have the zone of the pattern on the reference cube
(`Pattern.zoneAbout_iff`), for kinds of any ranks, and if there is no pattern no slot that moves has
that zone (`Pattern.zoneAbout_ne_of_no_pattern`).
-/

namespace Twisty.Pattern

open Function Permutation SlotKind

variable {p : Pattern} {k : SlotKind} {f : Face} {n l s : ℕ} {σ : Side}

theorem onCube_kind (p : Pattern) : p.kind.OnCube referenceSize := by
  cases p <;> decide

/-- The kind of a pattern has as many slots on a face as the kinds it is for. -/
theorem faceSize_kind {b : Zone} {r : Option ℕ} (hp : of? b k r = some p) :
    p.kind.faceSize = k.faceSize := by
  unfold of? at hp
  split at hp <;> (try split_ifs at hp) <;> cases hp <;> rfl

/-- A layer meets a kind as the layer as far from the other end does. -/
theorem of?_opposite (b : Zone) (k : SlotKind) (r : Option ℕ) :
    of? b.opposite k r = of? b k r := by
  cases b <;> cases k <;> rfl

/-! ## The zone of a pattern -/

/-- The zone of the layer of the reference cube that shows a pattern. -/
def layerZone : Pattern → Zone
  | cornerOuter | midgeOuter | wingOuter | centerOuter => .first
  | midgeMiddle | exactCenterMiddle | centerMiddle => .middle
  | wingInner | centerFirst | centerSecond => .beforeMiddle 1
  | centerDiagonal => .beforeMiddle 2

/-- The depth of a pattern lies in its zone on the reference cube. -/
theorem zone_depth (p : Pattern) : zone referenceSize (p.depth + 1) = p.layerZone := by
  cases p <;> rfl

/-- A slot is in the middle layer if on the reference cube it is in the layer of the pattern. -/
theorem sideZone_iff_middle (hp : of? .middle k (middleRank? n) = some p) :
    p.kind.sideZone referenceSize s σ = p.layerZone ↔ k.sideZone n s σ = .middle := by
  cases k with
  | corner | wing r => cases hp
  | midge | exactCenter =>
    cases hp
    rfl
  | center r₁ r₂ =>
    simp only [of?, middleRank?_eq] at hp
    split_ifs at hp with hr
    cases hp
    cases σ <;> simp [kind, referenceSize, layerZone, sideZone, startZones, Zone.opposite, hr]

/-- A slot is in the first layer if on the reference cube it is in the layer of the pattern. -/
theorem sideZone_iff_first (hp : of? .first k (middleRank? n) = some p) :
    p.kind.sideZone referenceSize s σ = p.layerZone ↔ k.sideZone n s σ = .first := by
  cases k with
  | exactCenter => cases hp
  | corner | midge =>
    cases hp
    rfl
  | wing r =>
    cases hp
    rcases Nat.mod_two_eq_zero_or_one s with hs | hs <;> cases σ <;>
      simp [kind, layerZone, sideZone, startZones, Zone.opposite, hs]
  | center r₁ r₂ =>
    cases hp
    by_cases hr : 2 * r₂ + 1 = n <;> cases σ <;>
      simp [kind, referenceSize, layerZone, sideZone, startZones, Zone.opposite, hr]

/-- A slot is in an inner layer if on the reference cube it is in the layer of the pattern. -/
theorem sideZone_iff_beforeMiddle {d : ℕ} (hd : 2 * d + 1 ≠ n)
    (hp : of? (.beforeMiddle d) k (middleRank? n) = some p) :
    p.kind.sideZone referenceSize s σ = p.layerZone ↔ k.sideZone n s σ = .beforeMiddle d := by
  cases k with
  | corner | midge | exactCenter => cases hp
  | wing r =>
    simp only [of?] at hp
    split_ifs at hp with hr
    cases hp
    rcases Nat.mod_two_eq_zero_or_one s with hs | hs <;> cases σ <;>
      simp [kind, layerZone, sideZone, startZones, Zone.opposite, hs, hr]
  | center r₁ r₂ =>
    simp only [of?] at hp
    by_cases hr : 2 * r₂ + 1 = n <;> split_ifs at hp with h₁ h₂ h₂ <;> cases hp <;> cases σ <;>
      simp_all [kind, referenceSize, layerZone, sideZone, startZones, Zone.opposite]

/-- The slots that have the zone of a near layer have the zone of its pattern on the reference
cube. -/
theorem zoneAbout_iff (h₁ : 1 ≤ l) (h₂ : 2 * l ≤ n + 1)
    (hp : of? (zone n l) k (middleRank? n) = some p) :
    p.kind.zoneAbout referenceSize f s = p.layerZone ↔ k.zoneAbout n f s = zone n l := by
  rw [zoneAbout, zoneAbout, startSide_congr (faceSize_kind hp)]
  rcases near_zone_cases h₁ h₂ with ⟨hz, -⟩ | ⟨hz, -⟩ | ⟨hz, hl, hn⟩ <;> rw [hz] at hp ⊢
  · exact sideZone_iff_middle hp
  · exact sideZone_iff_first hp
  · exact sideZone_iff_beforeMiddle (by omega) hp

/-- With no pattern for the middle layer no slot is in it. -/
theorem sideZone_ne_middle (hp : of? .middle k (middleRank? n) = none) :
    k.sideZone n s σ ≠ .middle := by
  cases k with
  | midge | exactCenter => cases hp
  | corner => cases σ <;> simp [sideZone, startZones, Zone.opposite]
  | wing r =>
    rcases Nat.mod_two_eq_zero_or_one s with hs | hs <;> cases σ <;>
      simp [sideZone, startZones, Zone.opposite, hs]
  | center r₁ r₂ =>
    simp only [of?, middleRank?_eq] at hp
    split_ifs at hp with hr
    cases σ <;> simp [sideZone, startZones, Zone.opposite, hr]

/-- With no pattern for the first layer no slot is in it. -/
theorem sideZone_ne_first (hp : of? .first k (middleRank? n) = none)
    (hσ : k = exactCenter → σ ≠ .near ∧ σ ≠ .far) : k.sideZone n s σ ≠ .first := by
  cases k with
  | exactCenter => cases σ <;> simp [sideZone, startZones, Zone.opposite] at hσ ⊢
  | _ => cases hp

/-- With no pattern for an inner layer no slot is in it. -/
theorem sideZone_ne_beforeMiddle {d : ℕ} (hp : of? (.beforeMiddle d) k (middleRank? n) = none) :
    k.sideZone n s σ ≠ .beforeMiddle d := by
  cases k with
  | corner | midge | exactCenter => cases σ <;> simp [sideZone, startZones, Zone.opposite]
  | wing r =>
    simp only [of?] at hp
    split_ifs at hp with hr
    rcases Nat.mod_two_eq_zero_or_one s with hs | hs <;> cases σ <;>
      simp [sideZone, startZones, Zone.opposite, hs, hr]
  | center r₁ r₂ =>
    simp only [of?] at hp
    split_ifs at hp with h₁ h₂ h₂
    by_cases hr : 2 * r₂ + 1 = n <;> cases σ <;>
      simp [sideZone, startZones, Zone.opposite, h₁, h₂, hr]

/-- Where there is no pattern, no slot that moves has the zone of the layer. -/
theorem zoneAbout_ne_of_no_pattern (h₁ : 1 ≤ l) (h₂ : 2 * l ≤ n + 1)
    (hp : of? (zone n l) k (middleRank? n) = none) (hs : s < k.size)
    (hmoves : k.carried f s ≠ s) : k.zoneAbout n f s ≠ zone n l := by
  rcases near_zone_cases h₁ h₂ with ⟨hz, -⟩ | ⟨hz, -⟩ | ⟨hz, -⟩ <;> rw [hz] at hp ⊢
  · exact sideZone_ne_middle hp
  · exact sideZone_ne_first hp (startSide_of_carried_ne hs hmoves)
  · exact sideZone_ne_beforeMiddle hp

/-! ## The turn of a pattern -/

theorem depth_lt (p : Pattern) : p.depth < referenceSize := by
  cases p <;> decide

/-- The layer of a pattern holds the slots that have the zone of the layer on the cube. -/
theorem layer_eq_depth_iff (h₁ : 1 ≤ l) (h₂ : 2 * l ≤ n + 1)
    (hp : of? (zone n l) k (middleRank? n) = some p) (hs : s < k.size)
    (hmoves : k.carried f s ≠ s) :
    p.kind.layer referenceSize f s = p.depth ↔ k.zoneAbout n f s = zone n l := by
  have hface := faceSize_kind hp
  have hs' : s < p.kind.size := by rwa [size, hface]
  have hmoves' : p.kind.carried f s ≠ s := by rwa [carried_congr hface]
  have hlt := layer_lt p.onCube_kind f s
  rw [← zoneAbout_iff h₁ h₂ hp, ← zone_depth, ← zone_layer p.onCube_kind hs' hmoves',
    zone_inj ⟨Nat.le_add_left 1 _, hlt⟩ ⟨Nat.le_add_left 1 _, p.depth_lt⟩, Nat.add_right_cancel_iff]

/-- The pattern of a near layer and a kind takes each slot where the layer takes it, on every cube
and for all ranks. -/
theorem image_turn (hk : k.OnCube n) (h₁ : 1 ≤ l) (h₂ : 2 * l ≤ n + 1)
    (hp : of? (zone n l) k (middleRank? n) = some p) (f : Face) (hs : s < k.size) :
    image (p.turn f) s = k.turnedSlot n f (l - 1) s := by
  have hface := faceSize_kind hp
  have hs' : s < p.kind.size := by rwa [size, hface]
  rw [turn, SlotKind.image_turn p.onCube_kind (by decide) hs', turnedSlot, turnedSlot,
    carried_congr hface]
  by_cases hmoves : k.carried f s = s
  · rw [hmoves, ite_self, ite_self]
  · have hlt := layer_lt hk f s
    refine if_congr ?_ rfl rfl
    rw [layer_eq_depth_iff h₁ h₂ hp hs hmoves, ← zone_layer hk hs hmoves,
      zone_inj ⟨Nat.le_add_left 1 _, hlt⟩ ⟨h₁, by omega⟩]
    omega

/-- Where there is no pattern, the layer leaves every slot of the kind in its place. -/
theorem turnedSlot_of_no_pattern (hk : k.OnCube n) (h₁ : 1 ≤ l) (h₂ : 2 * l ≤ n + 1)
    (hp : of? (zone n l) k (middleRank? n) = none) (f : Face) (hs : s < k.size) :
    k.turnedSlot n f (l - 1) s = s := by
  rw [turnedSlot]
  split_ifs with hl
  · by_contra hmoves
    have hzone := zone_layer hk hs hmoves
    rw [hl, Nat.sub_add_cancel h₁] at hzone
    exact zoneAbout_ne_of_no_pattern h₁ h₂ hp hs hmoves hzone.symm
  · rfl

end Twisty.Pattern
