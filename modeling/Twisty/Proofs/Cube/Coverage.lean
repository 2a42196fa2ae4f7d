import Twisty.Proofs.Slot.Piece
import Twisty.Proofs.Slot.Zone
import Twisty.Proofs.Cube.Flipping
import Mathlib.Dynamics.PeriodicPts.Lemmas

/-!
# The slots in the cycles of a move

The cycles of a pattern hold the slots that its turn moves, each once. As a slot that moves comes
back only with the fourth quarter turn, all of them have four slots, or two if the turns are even
(`Pattern.length_of_mem_lookup`).

No two layers turn one slot (`Move.zoneAbout_of_mem`), so no slot is in the cycles of a move twice
(`Move.nodup_places`), whatever the kinds. With all the kinds of the cube the cycles hold every slot
in the layers of the move but the exact centers on its axis (`Move.cycles_disjoint_and_cover`).
-/

namespace Twisty

open Function Permutation

variable {n l s t : ℕ} {k : SlotKind} {f : Face} {m : Move} {inv : Inventory}

/-! ## The cycles of a pattern -/

/-- A point that comes back after four steps and not after two is on a cycle of four, which falls
apart if several steps are taken at a time. -/
theorem minimalPeriod_iterate_of_four {σ : ℕ → ℕ} {x j : ℕ} (hfour : σ^[4] x = x)
    (htwo : σ^[2] x ≠ x) (hj : j ≠ 0) : minimalPeriod σ^[j] x = 4 / Nat.gcd 4 j := by
  have : Fact (Nat.Prime 2) := ⟨Nat.prime_two⟩
  have hperiod : minimalPeriod σ x = 2 ^ 2 := minimalPeriod_eq_prime_pow htwo hfour
  rw [minimalPeriod_iterate_eq_div_gcd hj, hperiod]
  rfl

namespace Pattern

variable {p : Pattern}

/-- The cycles of a pattern have the slots that it moves. -/
theorem mem_flatten_lookup : s ∈ (p.lookup f t).flatten ↔ (image (p.turn f))^[t % 4] s ≠ s := by
  have hp := isPermutation_power (p.isPermutation_turn f) (t % 4)
  rw [p.lookup_eq, cycles, mem_flatten_cycles hp, image_power]

/-- The cycles of a pattern have no slot twice. -/
theorem nodup_flatten_lookup (p : Pattern) (f : Face) (t : ℕ) : (p.lookup f t).flatten.Nodup := by
  rw [p.lookup_eq, cycles]
  exact nodup_flatten_cycles (isPermutation_power (p.isPermutation_turn f) (t % 4))

/-- The slots that a pattern moves are in its layer. -/
theorem moved_of_mem_lookup (h : s ∈ (p.lookup f t).flatten) :
    s < p.kind.size ∧ p.kind.layer referenceSize f s = p.depth ∧
      (p.kind.carried f)^[t % 4] s ≠ s := by
  obtain ⟨c, hc, hsc⟩ := List.mem_flatten.1 h
  have hs := (isProper_of_mem_lookup hc).2 s hsc
  rw [mem_flatten_lookup, iterate_image_turn p f _ hs] at h
  split_ifs at h with hlayer
  · exact ⟨hs, hlayer, h⟩
  · exact absurd rfl h

/-- The cycles of a pattern are of four slots for a quarter turn and of two for a half turn. -/
theorem length_of_mem_lookup {c : List ℕ} (hc : c ∈ p.lookup f t) :
    c.length = if t % 2 = 1 then 4 else 2 := by
  have hon := p.onCube_kind
  rw [p.lookup_eq, cycles] at hc
  obtain ⟨s, -, hs, hlen⟩ :=
    length_of_mem_cycles (isPermutation_power (p.isPermutation_turn f) (t % 4)) hc
  rw [image_power] at hs hlen
  obtain ⟨hsize, hlayer, hmoves⟩ := moved_of_mem_lookup (mem_flatten_lookup.2 hs)
  have hiterate : ∀ j, (image (p.turn f))^[j] s = (p.kind.carried f)^[j] s := by
    intro j
    rw [iterate_image_turn p f j hsize, if_pos hlayer]
  have hstays : ∀ j, j % 4 ≠ 0 → ((p.kind.carried f)^[j] s = s ↔ p.kind.carried f s = s) :=
    fun j hj => SlotKind.iterate_carried_eq_self_iff hon hsize hj
  have h0 : t % 4 ≠ 0 := fun h0 => hmoves (by rw [h0]; rfl)
  have htwo : (image (p.turn f))^[2] s ≠ s := by
    rwa [hiterate, ne_eq, hstays 2 (by decide), ← hstays (t % 4) (by omega)]
  have hfour : (image (p.turn f))^[4] s = s := by
    rw [hiterate, SlotKind.carried_iterate_four hon hsize]
  rw [hlen, minimalPeriod_iterate_of_four hfour htwo h0]
  obtain h | h | h : t % 4 = 1 ∨ t % 4 = 2 ∨ t % 4 = 3 := by omega
  · rw [h, if_pos (by omega)]
    rfl
  · rw [h, if_neg (by omega)]
    rfl
  · rw [h, if_pos (by omega)]
    rfl

end Pattern

/-! ## The slots of a layer -/

namespace Move

/-- The slots in the cycles of a kind when a layer in a zone is turned. -/
def kindSlots (m : Move) (n : ℕ) (b : Zone) (k : SlotKind) : List ℕ :=
  ((m.kindCycles n b k).map Cycle.slots).flatten

/-- The slots of a kind that a layer moves are those in the cycles of its pattern. -/
theorem mem_kindSlots {b : Zone} : s ∈ m.kindSlots n b k ↔
    ∃ p, Pattern.of? b k (middleRank? n) = some p ∧
      s ∈ (p.lookup (m.turnOf b).1 (m.turnOf b).2).flatten := by
  rw [kindSlots, map_slots_kindCycles]
  cases Pattern.of? b k (middleRank? n) <;> simp

/-- No slot of a kind is listed twice for a layer. -/
theorem nodup_kindSlots (m : Move) (n : ℕ) (b : Zone) (k : SlotKind) :
    (m.kindSlots n b k).Nodup := by
  rw [kindSlots, map_slots_kindCycles]
  cases Pattern.of? b k (middleRank? n) with
  | none => exact List.nodup_nil
  | some p => exact p.nodup_flatten_lookup _ _

/-- A slot that a near layer turns has the zone of that layer. -/
theorem zoneAbout_of_mem_near (h₁ : 1 ≤ l) (h₂ : 2 * l ≤ n + 1)
    (hs : s ∈ m.kindSlots n (zone n l) k) : k.zoneAbout n m.face s = zone n l := by
  obtain ⟨p, hp, hs⟩ := mem_kindSlots.1 hs
  rw [turnOf_near m h₁ h₂] at hs
  obtain ⟨hsize, hlayer, hmoves⟩ := Pattern.moved_of_mem_lookup hs
  have hface := Pattern.faceSize_kind hp
  rw [SlotKind.size, hface] at hsize
  rw [SlotKind.carried_congr hface] at hmoves
  refine (Pattern.layer_eq_depth_iff h₁ h₂ hp hsize fun hfix => hmoves ?_).1 hlayer
  exact IsFixedPt.iterate hfix _

/-- A slot that a layer turns has the zone of that layer. -/
theorem zoneAbout_of_mem (h₁ : 1 ≤ l) (h₂ : l ≤ n) (hs : s ∈ m.kindSlots n (zone n l) k) :
    k.zoneAbout n m.face s = zone n l := by
  rcases Nat.lt_or_ge (n + 1) (2 * l) with hfar | hnear
  · rw [kindSlots, ← m.kindCycles_flipped, ← zone_reflect h₁ h₂] at hs
    have hback := zoneAbout_of_mem_near (m := m.flipped n) (by omega) (by omega) hs
    rw [zone_reflect h₁ h₂, flipped, SlotKind.zoneAbout_opposite] at hback
    rw [← Zone.opposite_opposite (k.zoneAbout n m.face s), hback, Zone.opposite_opposite]
  · exact zoneAbout_of_mem_near h₁ hnear hs

/-- No two layers turn one slot. -/
theorem eq_of_mem_kindSlots {j : ℕ} (hl : 1 ≤ l ∧ l ≤ n) (hj : 1 ≤ j ∧ j ≤ n)
    (hs : s ∈ m.kindSlots n (zone n l) k) (hs' : s ∈ m.kindSlots n (zone n j) k) : l = j := by
  rw [← zone_inj hl hj, ← zoneAbout_of_mem hl.1 hl.2 hs, zoneAbout_of_mem hj.1 hj.2 hs']

/-- On the cube the slots in the cycles of a layer are those that the turned layer moves. -/
theorem mem_kindSlots_iff_moved (hk : k.OnCube n) (h₁ : 1 ≤ l) (h₂ : l ≤ n) :
    s ∈ m.kindSlots n (zone n l) k ↔ s < k.size ∧ m.turnedLayer n k l s ≠ s := by
  rw [mem_kindSlots]
  constructor
  · rintro ⟨p, hp, hs⟩
    obtain ⟨hsize, -⟩ := Pattern.moved_of_mem_lookup hs
    rw [SlotKind.size, Pattern.faceSize_kind hp] at hsize
    rw [Pattern.mem_flatten_lookup, turnedLayer_of_pattern hk h₁ h₂ hp hsize] at hs
    exact ⟨hsize, hs⟩
  · rintro ⟨hsize, hmoves⟩
    cases hp : Pattern.of? (zone n l) k (middleRank? n) with
    | none => exact absurd (turnedLayer_of_no_pattern hk h₁ h₂ hp hsize) hmoves
    | some p =>
      refine ⟨p, rfl, ?_⟩
      rwa [Pattern.mem_flatten_lookup, turnedLayer_of_pattern hk h₁ h₂ hp hsize]

/-- A layer moves the slots that lie in it, except one in the middle of the face. -/
theorem turnedLayer_ne_self_iff (hk : k.OnCube n) (hs : s < k.size) (ht : m.turns % 4 ≠ 0) :
    m.turnedLayer n k l s ≠ s ↔ k.layer n m.face s + 1 = l ∧ k.carried m.face s ≠ s := by
  have hstays := SlotKind.iterate_carried_eq_self_iff hk hs (f := m.face) (m := m.turns % 4)
    (by omega)
  rw [turnedLayer, ne_eq, ne_eq, ← hstays]
  split_ifs with hl <;> simp [hl]

/-- Cycles of a move are of four slots for a quarter turn and of two for a half turn. -/
theorem length_of_mem_kindCycles {b : Zone} {c : Cycle} (hc : c ∈ m.kindCycles n b k) :
    c.slots.length = if m.turns % 2 = 1 then 4 else 2 := by
  have hslots : c.slots ∈ (m.kindCycles n b k).map Cycle.slots := List.mem_map_of_mem hc
  rw [map_slots_kindCycles] at hslots
  cases hp : Pattern.of? b k (middleRank? n) with
  | none => simp [hp] at hslots
  | some p =>
    rw [hp] at hslots
    have hturns : (m.turnOf b).2 % 2 = m.turns % 2 := by
      unfold turnOf
      split_ifs
      · rfl
      · omega
    rw [← hturns]
    exact Pattern.length_of_mem_lookup hslots

end Move

/-! ## The slots of a move -/

/-- The slots that a cycle goes through, each with its kind. -/
def Cycle.places (c : Cycle) : List (SlotKind × ℕ) :=
  c.slots.map (Prod.mk c.kind)

namespace Move

/-- The places in the cycles of a kind are its slots, each with the kind. -/
theorem flatMap_places_kindCycles (m : Move) (n : ℕ) (b : Zone) (k : SlotKind) :
    (m.kindCycles n b k).flatMap Cycle.places = (m.kindSlots n b k).map (Prod.mk k) := by
  have hkind : ∀ c ∈ m.kindCycles n b k, c.places = c.slots.map (Prod.mk k) := by
    intro c hc
    rw [Cycle.places, kind_of_mem_kindCycles hc]
  rw [List.flatMap_congr hkind, kindSlots, List.map_flatten, List.map_map, ← List.flatMap_def]
  rfl

/-- The slots in the cycles of a move, layer by layer and kind by kind. -/
theorem flatMap_places_eq (m : Move) (n : ℕ) (inv : Inventory) :
    (m.layers.flatMap (m.layerCycles n inv)).flatMap Cycle.places =
      m.layers.flatMap fun l => inv.kinds.flatMap fun k =>
        (m.kindSlots n (zone n l) k).map (Prod.mk k) := by
  simp only [layerCycles, List.flatMap_assoc, flatMap_places_kindCycles]

/-- A move has a slot in its cycles if one of its layers moves it. -/
theorem mem_places : (k, s) ∈ (m.layers.flatMap (m.layerCycles n inv)).flatMap Cycle.places ↔
    k ∈ inv.kinds ∧ ∃ l ∈ m.layers, s ∈ m.kindSlots n (zone n l) k := by
  rw [flatMap_places_eq]
  simp only [List.mem_flatMap, List.mem_map, Prod.mk.injEq]
  constructor
  · rintro ⟨l, hl, j, hj, t, ht, rfl, rfl⟩
    exact ⟨hj, l, hl, ht⟩
  · rintro ⟨hk, l, hl, hs⟩
    exact ⟨l, hl, k, hk, s, hs, rfl, rfl⟩

/-- No slot is in the cycles of a move twice : the cycles of a layer and a kind have none in common,
different kinds have different slots, and different layers turn different slots. -/
theorem nodup_places (hm : m.InRange n) (inv : Inventory) :
    ((m.layers.flatMap (m.layerCycles n inv)).flatMap Cycle.places).Nodup := by
  rw [flatMap_places_eq]
  refine List.nodup_flatMap.2 ⟨fun l _ => List.nodup_flatMap.2 ⟨fun k _ => ?_, ?_⟩, ?_⟩
  · exact (m.nodup_kindSlots n (zone n l) k).map (Prod.mk_right_injective k)
  · refine inv.nodup_kinds.imp fun hne x hx hx' => hne ?_
    obtain ⟨_, -, rfl⟩ := List.mem_map.1 hx
    obtain ⟨_, -, heq⟩ := List.mem_map.1 hx'
    exact (congrArg Prod.fst heq).symm
  · refine m.nodup_layers.imp_of_mem fun {l j} hl hj hne x hx hx' => hne ?_
    obtain ⟨k, -, hx⟩ := List.mem_flatMap.1 hx
    obtain ⟨s, hs, rfl⟩ := List.mem_map.1 hx
    obtain ⟨k', -, hx'⟩ := List.mem_flatMap.1 hx'
    obtain ⟨s', hs', heq⟩ := List.mem_map.1 hx'
    obtain ⟨rfl, rfl⟩ := Prod.mk.inj heq
    exact eq_of_mem_kindSlots (bounds_of_mem_layers hm hl) (bounds_of_mem_layers hm hj) hs hs'

/-- With all the kinds of the cube the cycles hold the slots that lie in the layers of the move and
that turns about its face move. -/
theorem mem_places_full (hm : m.InRange n) (ht : m.turns % 4 ≠ 0) :
    (k, s) ∈ (m.layers.flatMap (m.layerCycles n (.full n))).flatMap Cycle.places ↔
      SlotKind.IsSlot n (k, s) ∧ k.layer n m.face s + 1 ∈ m.layers ∧ k.carried m.face s ≠ s := by
  rw [mem_places]
  constructor
  · rintro ⟨hk, l, hl, hs⟩
    have hon := Inventory.mem_full_iff.1 hk
    obtain ⟨h₁, h₂⟩ := bounds_of_mem_layers hm hl
    obtain ⟨hsize, hmoves⟩ := (mem_kindSlots_iff_moved hon h₁ h₂).1 hs
    obtain ⟨rfl, hcarried⟩ := (turnedLayer_ne_self_iff hon hsize ht).1 hmoves
    exact ⟨⟨hk, hsize⟩, hl, hcarried⟩
  · rintro ⟨⟨hk, hsize⟩, hl, hcarried⟩
    have hon := Inventory.mem_full_iff.1 hk
    obtain ⟨h₁, h₂⟩ := bounds_of_mem_layers hm hl
    exact ⟨hk, _, hl, (mem_kindSlots_iff_moved hon h₁ h₂).2
      ⟨hsize, (turnedLayer_ne_self_iff hon hsize ht).2 ⟨rfl, hcarried⟩⟩⟩

/-- The cycles of a move hold no slot twice, whatever the kinds, and all of them have four slots if
the turns are odd and two if they are even. With all the kinds of the cube they hold just the slots
whose stickers lie in the layers of the move, without the exact centers of its face and the opposite
one. -/
theorem cycles_disjoint_and_cover (hn : n ≤ maxLayer) (hm : m.InRange n) (ht : m.turns % 4 ≠ 0) :
    (∀ inv : Inventory, ∃ cs, m.cycles n inv = .ok cs ∧
      (∀ c ∈ cs, (∀ s ∈ c.slots, s < c.kind.size) ∧
        c.slots.length = if m.turns % 2 = 1 then 4 else 2) ∧
      (cs.flatMap Cycle.places).Nodup) ∧
    ∃ cs, m.cycles n (.full n) = .ok cs ∧ ∀ k s, (k, s) ∈ cs.flatMap Cycle.places ↔
      SlotKind.IsSlot n (k, s) ∧ (m.first ≤ m.face.depth (k.point s n) n + 1 ∧
        m.face.depth (k.point s n) n + 1 ≤ m.last) ∧
        ¬(k = .exactCenter ∧ (k.slotFace s = m.face ∨ k.slotFace s = m.face.opposite)) := by
  refine ⟨fun inv => ?_, _, cycles_eq_flatMap hm (.full n), fun k s => ?_⟩
  · have hcycles := cycles_eq_flatMap hm inv
    refine ⟨_, hcycles, fun c hc => ⟨?_, ?_⟩, nodup_places hm inv⟩
    · exact (isProper_of_mem_cycles hcycles hc).1.2
    · obtain ⟨l, -, hc⟩ := List.mem_flatMap.1 hc
      obtain ⟨k, -, hc⟩ := List.mem_flatMap.1 hc
      exact length_of_mem_kindCycles hc
  · rw [mem_places_full hm ht]
    refine and_congr_right fun ⟨hk, hsize⟩ => ?_
    rw [SlotKind.depth_point (Inventory.mem_full_iff.1 hk) hn, mem_layers, ne_eq,
      SlotKind.carried_eq_self_iff hsize]

/-- The three layers of a five-layer cube next to the right face, turned by a half and some whole
turns. Among the kinds are a wing and a center that are not on the cube, the center with the rank of
the middle layer. The exact center of the upper face is turned, that of the right face is not. -/
theorem cycles_disjoint_and_cover_five :
    5 ≤ maxLayer ∧ (Move.mk .right 1 3 6).InRange 5 ∧ 6 % 4 ≠ 0 ∧
      (∃ cs, Move.cycles ⟨.right, 1, 3, 6⟩ 5
          (.ofList [.wing 1, .center 7 2, .wing 9, .center 1 2]) = .ok cs ∧
        (∀ c ∈ cs, c.slots.length = 2) ∧ (cs.flatMap Cycle.places).Nodup) ∧
      ∃ cs, Move.cycles ⟨.right, 1, 3, 6⟩ 5 (.full 5) = .ok cs ∧
        (SlotKind.exactCenter, 0) ∈ cs.flatMap Cycle.places ∧
        (SlotKind.exactCenter, 2) ∉ cs.flatMap Cycle.places := by
  have hn : 5 ≤ maxLayer := by decide
  have hm : (Move.mk .right 1 3 6).InRange 5 := by decide
  have ht : 6 % 4 ≠ 0 := by decide
  obtain ⟨hdisjoint, cs, hcs, hcover⟩ := cycles_disjoint_and_cover hn hm ht
  obtain ⟨ds, hds, hlength, hnodup⟩ :=
    hdisjoint (.ofList [.wing 1, .center 7 2, .wing 9, .center 1 2])
  refine ⟨hn, hm, ht, ⟨ds, hds, fun c hc => (hlength c hc).2, hnodup⟩, cs, hcs, ?_, ?_⟩
  · exact (hcover .exactCenter 0).2 (by decide)
  · exact fun hmem => ((hcover .exactCenter 2).1 hmem).2.2 (by decide)

end Move

end Twisty
