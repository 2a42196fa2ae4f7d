import Twisty.Proofs.Cube.Axis

/-!
# Moves said from the opposite face

Said from the opposite face a move counts its layers from the other end and turns them the other way
(`Move.flipped`). A layer off the middle is turned about the face nearer to it either way, and the
middle one about the face that the move is said from, but the cycles of opposite faces are the same
there (`Pattern.lookup_opposite`). So each layer has the same cycles either way
(`Move.layerCycles_flipped`), and only the order of the layers is reversed
(`Move.cycles_flipped_eq`).
-/

namespace Twisty

open Function Permutation

variable {n l s t : ℕ} {k : SlotKind} {f : Face} {m : Move}

/-! ## The cycles of opposite faces -/

namespace Permutation

/-- The identity has no cycles. -/
theorem cycles_identity (m : ℕ) : cycles (identity m) = [] := by
  refine List.map_eq_nil_iff.2 (List.filter_eq_nil_iff.2 fun i hi => ?_)
  have hi : i < m := by simpa [identity] using hi
  simp [image, identity, hi]

/-- Two lists of one length with the same images are equal. -/
theorem eq_of_image_eq {p q : List ℕ} (hlen : p.length = q.length)
    (h : ∀ i < p.length, image p i = image q i) : p = q := by
  refine List.ext_getElem hlen fun i hi hi' => ?_
  simpa [image, hi, hi'] using h i hi

end Permutation

namespace Pattern

variable {p : Pattern}

/-- Cycles are looked up by the number of quarter turns modulo four. -/
theorem lookup_mod (p : Pattern) (f : Face) (t : ℕ) : p.lookup f (t % 4) = p.lookup f t := by
  rw [lookup, lookup, Nat.mod_mod]

/-- No turn has no cycles. -/
theorem lookup_zero (p : Pattern) (f : Face) : p.lookup f 0 = [] := by
  rw [lookup_eq, cycles]
  exact cycles_identity _

/-- The permutation of a pattern turns the slots of its layer and leaves the others. -/
theorem iterate_image_turn (p : Pattern) (f : Face) (j : ℕ) (hs : s < p.kind.size) :
    (image (p.turn f))^[j] s =
      if p.kind.layer referenceSize f s = p.depth then (p.kind.carried f)^[j] s else s := by
  rw [← SlotKind.iterate_turnedSlot p.onCube_kind]
  exact iterate_congr_below (fun i hi => SlotKind.image_turn p.onCube_kind (by decide) hi)
    (fun i hi => SlotKind.turnedSlot_lt hi) j hs

/-- Where the middle layer is turned, the cycles about a face are those of the turn back about the
opposite face. -/
theorem lookup_opposite (h : 2 * p.depth + 1 = referenceSize) (f : Face) (t : ℕ) :
    p.lookup f.opposite (Move.quarters (-t)) = p.lookup f t := by
  have hquarters := Move.quarters_neg_natCast t
  have hpower : power (p.turn f.opposite) (Move.quarters (-t)) = power (p.turn f) (t % 4) := by
    refine eq_of_image_eq (by simp) fun s hs => ?_
    have hs : s < p.kind.size := by simpa using hs
    have hlt := SlotKind.layer_lt p.onCube_kind f s
    have hback := SlotKind.iterate_carried_quarters_neg p.onCube_kind hs f.opposite t
    rw [Face.opposite_opposite] at hback
    rw [image_power, image_power, iterate_image_turn p _ _ hs, iterate_image_turn p _ _ hs,
      SlotKind.layer_opposite p.onCube_kind, hback]
    exact if_congr (by omega) rfl rfl
  rw [lookup_eq, lookup_eq, cycles, cycles, Nat.mod_eq_of_lt (Move.quarters_lt _), hpower]

/-- The patterns of a middle layer lie in the middle of the reference cube. -/
theorem depth_of_middle {r : Option ℕ} (hp : of? .middle k r = some p) :
    2 * p.depth + 1 = referenceSize := by
  cases k with
  | midge | exactCenter =>
    cases hp
    rfl
  | center r₁ r₂ =>
    simp only [of?] at hp
    split_ifs at hp
    cases hp
    rfl
  | corner | wing r => cases hp

end Pattern

/-! ## Flipped moves -/

namespace Move

/-- The move of one layer only. -/
def onlyLayer (m : Move) (l : ℕ) : Move :=
  { m with first := l, last := l }

/-- The cycles of a kind in a layer are the same when the move is said from the opposite face. -/
theorem kindCycles_flipped (m : Move) (n : ℕ) (b : Zone) (k : SlotKind) :
    (m.flipped n).kindCycles n b.opposite k = m.kindCycles n b k := by
  have hquarters := quarters_neg_natCast m.turns
  unfold kindCycles
  rw [Pattern.of?_opposite]
  cases hp : Pattern.of? b k (middleRank? n) with
  | none => rfl
  | some p =>
    dsimp only
    congr 1
    by_cases hb : b = .middle
    · subst hb
      exact Pattern.lookup_opposite (Pattern.depth_of_middle hp) m.face m.turns
    · unfold turnOf
      rw [Zone.isNear_opposite hb]
      cases b.isNear with
      | false => exact congrArg (p.lookup m.face.opposite) hquarters
      | true =>
        have hturns : (4 - (m.flipped n).turns % 4) % 4 = m.turns % 4 := by
          simp only [flipped]
          omega
        simp only [Bool.not_true, Bool.false_eq_true, if_false, if_true]
        rw [hturns, Pattern.lookup_mod]
        exact congrArg (p.lookup · m.turns) (Face.opposite_opposite m.face)

/-- A layer has the same cycles in a move and, counted from the other side, in the flipped one. -/
theorem layerCycles_flipped (m : Move) (inv : Inventory) (h₁ : 1 ≤ l) (h₂ : l ≤ n) :
    (m.flipped n).layerCycles n inv (n + 1 - l) = m.layerCycles n inv l := by
  rw [layerCycles, layerCycles, zone_reflect h₁ h₂]
  exact congrArg (inv.kinds.flatMap ·) (funext (m.kindCycles_flipped n (zone n l)))

/-- The layers of a flipped move are those of the move, from the last to the first. -/
theorem layers_flipped (hn : n ≤ maxLayer) (hm : m.InRange n) :
    (m.flipped n).layers = m.layers.reverse.map (n + 1 - ·) := by
  obtain ⟨h₁, h₂, h₃⟩ := hm
  rw [layers, layers, flipped, reflectLayer_eq hn h₁ (h₂.trans h₃),
    reflectLayer_eq hn (h₁.trans h₂) h₃]
  refine List.ext_getElem (by simp; omega) fun i hi hi' => ?_
  simp at hi hi' ⊢
  omega

/-- A flipped move is in range. -/
theorem inRange_flipped (hn : n ≤ maxLayer) (hm : m.InRange n) : (m.flipped n).InRange n := by
  obtain ⟨h₁, h₂, h₃⟩ := hm
  simp only [InRange, flipped, reflectLayer_eq hn h₁ (h₂.trans h₃),
    reflectLayer_eq hn (h₁.trans h₂) h₃]
  omega

/-- To flip a move twice gives it back, if its turns are fewer than four. -/
theorem flipped_flipped (hn : n ≤ maxLayer) (hm : m.InRange n) (ht : m.turns < 4) :
    (m.flipped n).flipped n = m := by
  obtain ⟨face, first, last, turns⟩ := m
  obtain ⟨h₁, h₂, h₃⟩ : 1 ≤ first ∧ first ≤ last ∧ last ≤ n := hm
  have ht : turns < 4 := ht
  have hreflect : ∀ l, 1 ≤ l → l ≤ n → reflectLayer n (reflectLayer n l) = l := by
    intro l hl hln
    rw [reflectLayer_eq hn hl hln, reflectLayer_eq hn (by omega) (by omega)]
    omega
  simp only [flipped, Face.opposite_opposite, hreflect first h₁ (h₂.trans h₃),
    hreflect last (h₁.trans h₂) h₃, quarters_neg_quarters, Int.neg_neg, quarters_natCast,
    Nat.mod_eq_of_lt ht]

/-- A move without turns has no cycles. -/
theorem layerCycles_of_isTrivial (h : m.isTrivial) (inv : Inventory) (l : ℕ) :
    m.layerCycles n inv l = [] := by
  have h0 : m.turns = 0 := by simpa [isTrivial] using h
  have hturns : (m.turnOf (zone n l)).2 = 0 := by
    unfold turnOf
    split_ifs
    · exact h0
    · rw [h0]
  refine List.flatMap_eq_nil_iff.2 fun k _ => ?_
  unfold kindCycles
  split
  · rw [hturns, Pattern.lookup_zero]
    rfl
  · rfl

/-- A move in range has the cycles of its layers, also if it is trivial. -/
theorem cycles_eq_flatMap (hm : m.InRange n) (inv : Inventory) :
    m.cycles n inv = .ok (m.layers.flatMap (m.layerCycles n inv)) := by
  rw [cycles_eq_ok hm]
  split_ifs with h
  · rw [funext (layerCycles_of_isTrivial h inv)]
    simp
  · rfl

/-- The move of one of its layers has the cycles of that layer. -/
theorem cycles_onlyLayer (hm : m.InRange n) (hl : l ∈ m.layers) (inv : Inventory) :
    (m.onlyLayer l).cycles n inv = .ok (m.layerCycles n inv l) := by
  obtain ⟨h₁, h₂⟩ := bounds_of_mem_layers hm hl
  have hone : (m.onlyLayer l).InRange n := ⟨h₁, le_rfl, h₂⟩
  have hlayers : (m.onlyLayer l).layers = [l] := by
    rw [layers, onlyLayer, Nat.add_sub_cancel_left]
    rfl
  rw [cycles_eq_flatMap hone, hlayers, List.flatMap_singleton]
  rfl

/-- A flipped move has the cycles of the layers, from the last to the first. -/
theorem cycles_flipped (hn : n ≤ maxLayer) (hm : m.InRange n) (inv : Inventory) :
    (m.flipped n).cycles n inv = .ok (m.layers.reverse.flatMap (m.layerCycles n inv)) := by
  have hlayer : ∀ l ∈ m.layers.reverse,
      (m.flipped n).layerCycles n inv (n + 1 - l) = m.layerCycles n inv l := by
    intro l hl
    obtain ⟨h₁, h₂⟩ := bounds_of_mem_layers hm (List.mem_reverse.1 hl)
    exact m.layerCycles_flipped inv h₁ h₂
  rw [cycles_eq_flatMap (inRange_flipped hn hm), layers_flipped hn hm, List.flatMap_map,
    List.flatMap_congr hlayer]

/-- A single layer is the same from both sides. -/
theorem reverse_layers_of_single (h : m.first = m.last) : m.layers.reverse = m.layers := by
  rw [layers, h, Nat.add_sub_cancel_left]
  rfl

/-- A move in range has a block of cycles for each of its layers, the cycles of that layer alone.
The move has the blocks from the first layer to the last, and said from the opposite face it has the
same blocks from the last to the first. So a move of one layer has the same cycles either way, and
the canonical form of a move has its blocks in one of the two orders. -/
theorem cycles_flipped_eq (hn : n ≤ maxLayer) (hm : m.InRange n) (inv : Inventory) :
    ∃ block : ℕ → List Cycle, (∀ l ∈ m.layers, (m.onlyLayer l).cycles n inv = .ok (block l)) ∧
      m.cycles n inv = .ok (m.layers.flatMap block) ∧
      (m.flipped n).cycles n inv = .ok (m.layers.reverse.flatMap block) ∧
      (m.first = m.last → (m.flipped n).cycles n inv = m.cycles n inv) ∧
      ((m.canonical n).cycles n inv = .ok (m.layers.flatMap block) ∨
        (m.canonical n).cycles n inv = .ok (m.layers.reverse.flatMap block)) := by
  have hcycles := cycles_eq_flatMap hm inv
  have hflipped := cycles_flipped hn hm inv
  refine ⟨m.layerCycles n inv, fun l hl => cycles_onlyLayer hm hl inv, hcycles, hflipped,
    fun hone => ?_, ?_⟩
  · rw [hflipped, reverse_layers_of_single hone, hcycles]
  · unfold canonical
    split_ifs
    · exact .inr hflipped
    · exact .inl hcycles

/-- Seven quarter turns of the inner layers of a five-layer cube about its right face, and five of
the middle layer about the front, for some kinds of which one is not on the cube. -/
theorem cycles_flipped_eq_five :
    5 ≤ maxLayer ∧ (Move.mk .right 2 4 7).InRange 5 ∧ (Move.mk .front 3 3 5).InRange 5 ∧
      (∃ block : ℕ → List Cycle,
        (∀ l ∈ [2, 3, 4],
          Move.cycles ⟨.right, l, l, 7⟩ 5 (.ofList [.center 1 2, .wing 1, .wing 9]) =
            .ok (block l)) ∧
        Move.cycles ⟨.right, 2, 4, 7⟩ 5 (.ofList [.center 1 2, .wing 1, .wing 9]) =
          .ok ([2, 3, 4].flatMap block) ∧
        Move.cycles ⟨.left, 2, 4, 1⟩ 5 (.ofList [.center 1 2, .wing 1, .wing 9]) =
          .ok ([4, 3, 2].flatMap block)) ∧
      Move.cycles ⟨.back, 3, 3, 3⟩ 5 (.full 5) = Move.cycles ⟨.front, 3, 3, 5⟩ 5 (.full 5) := by
  have hn : 5 ≤ maxLayer := by decide
  have hm : (Move.mk .right 2 4 7).InRange 5 := by decide
  have hm' : (Move.mk .front 3 3 5).InRange 5 := by decide
  obtain ⟨block, hblock, hcycles, hflipped, -⟩ :=
    cycles_flipped_eq hn hm (.ofList [.center 1 2, .wing 1, .wing 9])
  obtain ⟨-, -, -, -, hone, -⟩ := cycles_flipped_eq hn hm' (.full 5)
  exact ⟨hn, hm, hm', ⟨block, hblock, hcycles, hflipped⟩, hone rfl⟩

end Move

end Twisty
