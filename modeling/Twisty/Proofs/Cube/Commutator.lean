import Twisty.Proofs.Cube.Conjugation

/-!
# The commutator of two adjacent faces

`commutator f g` turns two adjacent faces one after the other and then both back. Turns of faces do
not depend on the size of the cube or on ranks : an outer layer meets a kind in the same pattern on
every cube, so it takes the slots as on the reference cube (`Cube.runSlot_outer`). There a whole
turn of the cube takes the commutator of two faces to that of the turned ones
(`Cube.semiconj_runSlot`), and all pairs of adjacent faces are turned pairs of one
(`Face.Adjacent.induction`). For that pair the permutation is worked out.

So six commutators leave every slot in its place (`Cube.iterate_six_commutator`), while after fewer
some face has corners from two faces (`Cube.mixesCorners`). `Cube.commutator_order_six` says this
of cubes.
-/

namespace Twisty

open Function Permutation

variable {n s : ℕ} {k : SlotKind} {p : Pattern} {f g : Face} {ms : List Move}

/-! ## Adjacent faces -/

namespace Face

/-- Two faces share an edge of the cube. -/
def Adjacent (f g : Face) : Prop :=
  g ≠ f ∧ g ≠ f.opposite

instance (f g : Face) : Decidable (f.Adjacent g) :=
  inferInstanceAs (Decidable (_ ∧ _))

/-- Two adjacent faces have a third one with which they are right-handed. -/
theorem Adjacent.exists_rightHanded (h : f.Adjacent g) : ∃ c, RightHanded f g c := by
  revert f g
  decide

/-- What holds of one pair of adjacent faces and stays when the cube is turned holds of all. -/
theorem Adjacent.induction {P : Face → Face → Prop} (hone : P up front)
    (hturn : ∀ d f g : Face, P f g → P (d.turnFace f) (d.turnFace g)) (h : f.Adjacent g) :
    P f g := by
  have hturns : ∀ (d : Face) (i : ℕ) (f g : Face), P f g →
      P (d.turnFace^[i] f) (d.turnFace^[i] g) := by
    intro d i
    induction i with
    | zero => exact fun f g hfg => hfg
    | succ i ih => exact fun f g hfg => ih _ _ (hturn d f g hfg)
  obtain ⟨c, hc⟩ := h.exists_rightHanded
  obtain ⟨d, i, -, j, -, rfl, rfl⟩ := exists_turns_up_front hc
  exact hturns _ _ _ _ (hturns _ _ _ _ hone)

end Face

/-! ## Outer layers -/

/-- A move turns one face and no layer below it. -/
def Move.IsOuter (m : Move) : Prop :=
  m.first = 1 ∧ m.last = 1

/-- A move of the outer layer takes a slot round by its quarter turns. -/
theorem Move.IsOuter.turnedSlot_eq {m : Move} (hm : m.IsOuter) (hk : k.OnCube n) :
    m.turnedSlot n k s = (k.turnedSlot n m.face 0)^[m.turns % 4] s := by
  rw [SlotKind.iterate_turnedSlot hk, Move.turnedSlot, hm.1, hm.2]
  exact if_congr (by omega) rfl rfl

namespace Pattern

/-- The kinds on the reference cube that show the patterns of outer layers. -/
def outerKinds : List SlotKind :=
  [cornerOuter.kind, midgeOuter.kind, wingOuter.kind, centerOuter.kind]

/-- In the outer layer only the patterns of the outer kinds occur. -/
theorem of_first {r : Option ℕ} (hp : of? .first k r = some p) :
    p.depth = 0 ∧ p.kind ∈ outerKinds := by
  cases k with
  | exactCenter => cases hp
  | _ =>
    cases hp
    decide

/-- A turned face takes the slots of a kind as it does on the reference cube. -/
theorem turnedSlot_first (hn : 2 ≤ n) (hk : k.OnCube n)
    (hp : of? .first k (middleRank? n) = some p) (f : Face) (hs : s < k.size) :
    k.turnedSlot n f 0 s = p.kind.turnedSlot referenceSize f 0 s := by
  have hs' : s < p.kind.size := by rwa [SlotKind.size, faceSize_kind hp]
  have hzone : of? (zone n 1) k (middleRank? n) = some p := by rwa [zone_first hn]
  have himage := image_turn hk (Nat.le_refl 1) (by omega) hzone f hs
  rwa [turn, SlotKind.image_turn p.onCube_kind (by decide) hs', (of_first hp).1, eq_comm] at himage

/-- Slots of a kind without a pattern in the outer layer stay where they are. -/
theorem turnedSlot_first_of_none (hn : 2 ≤ n) (hk : k.OnCube n)
    (hp : of? .first k (middleRank? n) = none) (f : Face) (hs : s < k.size) :
    k.turnedSlot n f 0 s = s :=
  turnedSlot_of_no_pattern hk (Nat.le_refl 1) (by omega) (by rwa [zone_first hn]) f hs

end Pattern

namespace Cube

open Pattern (referenceSize outerKinds of?)

/-- Turns of faces take the slots of a kind as they do on the reference cube. -/
theorem runSlot_outer (hms : ∀ m ∈ ms, m.IsOuter) (hn : 2 ≤ n) (hk : k.OnCube n)
    (hp : of? .first k (middleRank? n) = some p) (hs : s < k.size) :
    runSlot n k ms s = runSlot referenceSize p.kind ms s := by
  induction ms generalizing s with
  | nil => rfl
  | cons m ms ih =>
    have hm := hms m (by simp)
    have hstep : m.turnedSlot n k s = m.turnedSlot referenceSize p.kind s := by
      rw [hm.turnedSlot_eq hk, hm.turnedSlot_eq p.onCube_kind]
      exact (iterate_congr_below (fun i hi => (Pattern.turnedSlot_first hn hk hp _ hi).symm)
        (fun i hi => SlotKind.turnedSlot_lt hi) _ hs).symm
    have hrest := ih (fun m' hm' => hms m' (List.mem_cons_of_mem m hm')) (m.turnedSlot_lt n hs)
    exact hrest.trans (congrArg (runSlot referenceSize p.kind ms) hstep)

/-- Turns of faces leave the slots of a kind without a pattern where they are. -/
theorem runSlot_outer_of_none (hms : ∀ m ∈ ms, m.IsOuter) (hn : 2 ≤ n) (hk : k.OnCube n)
    (hp : of? .first k (middleRank? n) = none) (hs : s < k.size) : runSlot n k ms s = s := by
  induction ms with
  | nil => rfl
  | cons m ms ih =>
    have hfix : IsFixedPt (k.turnedSlot n m.face 0) s :=
      Pattern.turnedSlot_first_of_none hn hk hp m.face hs
    have hstep : m.turnedSlot n k s = s := by
      rw [(hms m (by simp)).turnedSlot_eq hk, hfix.iterate]
    have hrest := ih fun m' hm' => hms m' (List.mem_cons_of_mem m hm')
    exact (congrArg (runSlot n k ms) hstep).trans hrest

/-! ## Turned and repeated moves -/

/-- A whole turn takes the slots from the moves to the turned moves. -/
theorem semiconj_runSlot (hk : k.OnCube n) (d : Face) (ms : List Move) :
    Semiconj (k.carried d) (runSlot n k ms) (runSlot n k (ms.map (Move.turned d 1))) := by
  intro s
  induction ms generalizing s with
  | nil => rfl
  | cons m ms ih =>
    have hstep := m.carried_turnedSlot hk d s
    exact (ih _).trans (congrArg (runSlot n k (ms.map (Move.turned d 1))) hstep)

/-- Moves several times in a row. -/
def repeated (j : ℕ) (ms : List Move) : List Move :=
  (List.replicate j ms).flatten

/-- Moves that are repeated take a slot as often. -/
theorem runSlot_repeated (j : ℕ) (ms : List Move) (s : ℕ) :
    runSlot n k (repeated j ms) s = (runSlot n k ms)^[j] s := by
  induction j generalizing s with
  | zero => rfl
  | succ j ih =>
    rw [repeated, List.replicate_succ, List.flatten_cons, runSlot, List.foldl_append]
    exact ih _

theorem mem_of_mem_repeated {j : ℕ} {m : Move} (hm : m ∈ repeated j ms) : m ∈ ms := by
  obtain ⟨ms', hms', hm⟩ := List.mem_flatten.1 hm
  rwa [List.eq_of_mem_replicate hms'] at hm

/-- Where moves take each slot of a kind, as a list. -/
def slotsAfter (n : ℕ) (k : SlotKind) (ms : List Move) : List ℕ :=
  (List.range k.size).map (runSlot n k ms)

/-- To follow the table of moves is to follow the moves. -/
theorem iterate_image_slotsAfter (ms : List Move) (j : ℕ) (hs : s < k.size) :
    (image (slotsAfter n k ms))^[j] s = (runSlot n k ms)^[j] s :=
  iterate_congr_below (fun i hi => by simp [image, slotsAfter, hi]) (fun i hi => runSlot_lt ms hi) j
    hs

/-! ## The commutator -/

/-- A face turned, an other face turned, and then each turned back. -/
def commutator (f g : Face) : List Move :=
  [⟨f, 1, 1, 1⟩, ⟨g, 1, 1, 1⟩, ⟨f, 1, 1, 3⟩, ⟨g, 1, 1, 3⟩]

theorem isOuter_of_mem_commutator : ∀ m ∈ commutator f g, m.IsOuter := by
  simp [commutator, Move.IsOuter]

/-- A commutator of outer layers is in range on a cube of two layers or more. -/
theorem inRange_of_mem_repeated (hn : 2 ≤ n) (j : ℕ) :
    ∀ m ∈ repeated j (commutator f g), m.InRange n := by
  intro m hm
  obtain ⟨hfirst, hlast⟩ := isOuter_of_mem_commutator m (mem_of_mem_repeated hm)
  exact ⟨by omega, by omega, by omega⟩

theorem onCube_outerKinds : ∀ k ∈ outerKinds, k.OnCube referenceSize := by decide

/-- A whole turn of the reference cube takes repeated commutators to those of the turned faces. -/
theorem carried_iterate_commutator (hk : k ∈ outerKinds) (d f g : Face) (j s : ℕ) :
    k.carried d ((runSlot referenceSize k (commutator f g))^[j] s) =
      (runSlot referenceSize k (commutator (d.turnFace f) (d.turnFace g)))^[j] (k.carried d s) :=
  (semiconj_runSlot (onCube_outerKinds k hk) d (commutator f g)).iterate_right j s

/-- The commutator of up and front, done six times, brings back all slots of the reference cube. -/
theorem iterate_six_up_front (hk : k ∈ outerKinds) (hs : s < k.size) :
    (runSlot referenceSize k (commutator .up .front))^[6] s = s := by
  have hfixed : ∀ k ∈ outerKinds, ∀ s < k.size,
      (image (slotsAfter referenceSize k (commutator .up .front)))^[6] s = s := by
    decide +kernel
  rw [← iterate_image_slotsAfter _ 6 hs, hfixed k hk s hs]

/-- Every commutator of adjacent faces, done six times, brings back all slots of the reference cube,
since it is the one of up and front in another position. -/
theorem iterate_six_commutator_reference (hfg : f.Adjacent g) (hk : k ∈ outerKinds)
    (hs : s < k.size) : (runSlot referenceSize k (commutator f g))^[6] s = s := by
  refine hfg.induction (P := fun f g => ∀ s < k.size,
    (runSlot referenceSize k (commutator f g))^[6] s = s) (fun s hs => iterate_six_up_front hk hs)
    (fun d f g hfg s hs => ?_) s hs
  have hback := SlotKind.carried_carried_opposite (onCube_outerKinds k hk) hs d.opposite
  rw [Face.opposite_opposite] at hback
  rw [← hback, ← carried_iterate_commutator hk, hfg _ (SlotKind.carried_lt_size k _ s)]

/-- Six commutators leave every slot of a cube in its place. -/
theorem iterate_six_commutator (hn : 2 ≤ n) (hfg : f.Adjacent g) (hk : k.OnCube n)
    (hs : s < k.size) : (runSlot n k (commutator f g))^[6] s = s := by
  cases hp : of? .first k (middleRank? n) with
  | none =>
    have hfix : IsFixedPt (runSlot n k (commutator f g)) s :=
      runSlot_outer_of_none isOuter_of_mem_commutator hn hk hp hs
    exact hfix.iterate 6
  | some p =>
    have hs' : s < p.kind.size := by rwa [SlotKind.size, Pattern.faceSize_kind hp]
    rw [← iterate_congr_below
      (fun i hi => (runSlot_outer isOuter_of_mem_commutator hn hk hp hi).symm)
      (fun i hi => runSlot_lt _ hi) 6 hs]
    exact iterate_six_commutator_reference hfg (Pattern.of_first hp).2 hs'

/-- After `j` commutators some face has corners from two faces. -/
def MixesCorners (j : ℕ) (f g : Face) : Prop :=
  ∃ s < SlotKind.corner.size, ∃ t < SlotKind.corner.size,
    SlotKind.corner.slotFace ((runSlot referenceSize .corner (commutator f g))^[j] s) =
      SlotKind.corner.slotFace ((runSlot referenceSize .corner (commutator f g))^[j] t) ∧
    SlotKind.corner.slotFace s ≠ SlotKind.corner.slotFace t

/-- The commutator of up and front mixes corners up to its sixth time. -/
theorem mixesCorners_up_front {j : ℕ} (hpos : 0 < j) (hj : j < 6) : MixesCorners j .up .front := by
  have hmixed : ∀ j < 6, 0 < j → ∃ s < SlotKind.corner.size, ∃ t < SlotKind.corner.size,
      SlotKind.corner.slotFace
          ((image (slotsAfter referenceSize .corner (commutator .up .front)))^[j] s) =
        SlotKind.corner.slotFace
          ((image (slotsAfter referenceSize .corner (commutator .up .front)))^[j] t) ∧
      SlotKind.corner.slotFace s ≠ SlotKind.corner.slotFace t := by
    decide +kernel
  obtain ⟨s, hs, t, ht, hsame, hne⟩ := hmixed j hj hpos
  rw [iterate_image_slotsAfter _ j hs, iterate_image_slotsAfter _ j ht] at hsame
  exact ⟨s, hs, t, ht, hsame, hne⟩

/-- A commutator mixes corners as it does in another position of the cube. -/
theorem MixesCorners.turned {j : ℕ} (d : Face) (h : MixesCorners j f g) :
    MixesCorners j (d.turnFace f) (d.turnFace g) := by
  have hcorner : SlotKind.corner ∈ outerKinds := by decide
  obtain ⟨s, -, t, -, hsame, hne⟩ := h
  refine ⟨_, SlotKind.carried_lt_size _ d s, _, SlotKind.carried_lt_size _ d t, ?_, ?_⟩
  · rw [← carried_iterate_commutator hcorner, ← carried_iterate_commutator hcorner,
      SlotKind.slotFace_carried, SlotKind.slotFace_carried, hsame]
  · rw [SlotKind.slotFace_carried, SlotKind.slotFace_carried]
    exact (injective_turnFace d).ne hne

/-- Every commutator of adjacent faces mixes corners up to its sixth time. -/
theorem mixesCorners (hfg : f.Adjacent g) {j : ℕ} (hpos : 0 < j) (hj : j < 6) :
    MixesCorners j f g :=
  hfg.induction (mixesCorners_up_front hpos hj) fun d _ _ h => h.turned d

/-- Fewer than six commutators do not keep the faces apart. -/
theorem not_keepsFaces_commutator (hn : 2 ≤ n) (hfg : f.Adjacent g) {j : ℕ} (hpos : 0 < j)
    (hj : j < 6) : ¬KeepsFaces n (repeated j (commutator f g)) := by
  have hcorner : SlotKind.corner.OnCube n := hn
  have hmem := Inventory.mem_full_iff.2 hcorner
  have hrun : ∀ s < SlotKind.corner.size, runSlot n .corner (repeated j (commutator f g)) s =
      (runSlot referenceSize .corner (commutator f g))^[j] s := by
    intro s hs
    rw [runSlot_outer (fun m hm => isOuter_of_mem_commutator m (mem_of_mem_repeated hm)) hn hcorner
      (p := .cornerOuter) rfl hs, runSlot_repeated]
    rfl
  obtain ⟨s, hs, t, ht, hsame, hne⟩ := mixesCorners hfg hpos hj
  intro hkeeps
  refine hne (hkeeps _ hmem s hs _ hmem t ht ?_)
  rw [hrun s hs, hrun t ht, hsame]

/-- On a cube with at least two layers, six commutators of two adjacent faces give back every cube,
and no fewer solve a new cube with six colors. -/
theorem commutator_order_six (hn : 2 ≤ n) (hfg : f.Adjacent g) {α : Type} [DecidableEq α] :
    (∀ c : Cube α, c.Reachable n → c.turnAll (repeated 6 (commutator f g)) = (c, none)) ∧
      ∀ scheme : List α, scheme.length = 6 → scheme.Nodup → ∀ j, 0 < j → j < 6 →
        ∃ start c, ofScheme n scheme = .ok start ∧
          start.turnAll (repeated j (commutator f g)) = (c, none) ∧ c.isSolved = false := by
  refine ⟨fun c hc => ?_, fun scheme hlen hnodup j hpos hj => ?_⟩
  · have hrun : ∀ k ∈ (Inventory.full n).kinds, ∀ s < k.size,
        runSlot n k (repeated 6 (commutator f g)) s = runSlot n k [] s := by
      intro k hk s hs
      rw [runSlot_repeated]
      exact iterate_six_commutator hn hfg (Inventory.mem_full_iff.1 hk) hs
    obtain ⟨d, hd, hstay⟩ :=
      hc.wellFormed.turnAll_eq_of_runSlot (inRange_of_mem_repeated hn 6) (by simp) hrun
    obtain rfl : c = d := congrArg Prod.fst hstay
    exact hd
  · have hpos' : n ≠ 0 := by omega
    obtain ⟨color, hcolor, hstart⟩ := exists_color_of_scheme hpos' hlen hnodup
    obtain ⟨c, hc⟩ := exists_isTurned color (inRange_of_mem_repeated hn j)
    refine ⟨_, c, hstart, hc.turnAll_eq, ?_⟩
    rw [Bool.eq_false_iff, ne_eq, hc.isSolved_iff_keepsFaces hcolor]
    exact not_keepsFaces_commutator hn hfg hpos hj

/-- The commutator of the right and the upper face of a cube of four layers whose inner layers have
been turned. -/
theorem commutator_order_six_four :
    2 ≤ 4 ∧ Face.right.Adjacent .up ∧
      (∃ c : Cube ℕ, c = ((solved 4 Face.index).turnAll [⟨.front, 2, 3, 1⟩]).1 ∧ c.Reachable 4 ∧
        c.turnAll (repeated 6 (commutator .right .up)) = (c, none)) ∧
      ∃ start c, ofScheme 4 [0, 1, 2, 3, 4, 5] = .ok start ∧
        start.turnAll (repeated 3 (commutator .right .up)) = (c, none) ∧ c.isSolved = false := by
  have hn : 2 ≤ 4 := by decide
  have hfg : Face.right.Adjacent .up := by decide
  have hc := (Reachable.solved (by decide : 4 ≠ 0) Face.index).turnAll [⟨.front, 2, 3, 1⟩]
  obtain ⟨hback, hunsolved⟩ := commutator_order_six (α := ℕ) hn hfg
  exact ⟨hn, hfg, ⟨_, rfl, hc, hback _ hc⟩,
    hunsolved [0, 1, 2, 3, 4, 5] rfl (by decide) 3 (by decide) (by decide)⟩

end Cube

end Twisty
