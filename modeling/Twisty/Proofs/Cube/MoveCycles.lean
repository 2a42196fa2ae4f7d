import Twisty.Cube.MoveCycles
import Twisty.Proofs.Slot.Pattern

/-!
# Where the cycles of a move carry the stickers

The cycles of a layer carry each sticker where the turned layer takes its slot
(`carries_kindCycles`), for a layer beyond the middle too, which is turned about the opposite face.
Layers about one axis do not meet, so all the cycles of a move carry each sticker of a kind to
`Move.turnedSlot` of its slot (`carries_cycles_of_kind`).

Every cycle of a move has at least two slots, all of them slots of its kind
(`isProper_of_mem_cycles`). So the cycles can be applied to an orbit one after another without a
check failing (`applyEach_eq_ok`), and `carried_to_turned_point` says in coordinates where they
carry its stickers.
-/

namespace Twisty

open Function Permutation

variable {α : Type} {k : SlotKind} {n l s : ℕ}

/-! ## One layer -/

/-- Where two maps agree below a bound that one of them keeps, so do their iterates. -/
theorem iterate_congr_below {σ τ : ℕ → ℕ} {b : ℕ} (h : ∀ i < b, σ i = τ i) (hτ : ∀ i < b, τ i < b)
    (m : ℕ) {i : ℕ} (hi : i < b) : σ^[m] i = τ^[m] i := by
  induction m generalizing i with
  | zero => rfl
  | succ m ih => rw [iterate_succ_apply, iterate_succ_apply, h i hi, ih (hτ i hi)]

/-- The slots of a pattern are permuted by a turn. -/
theorem Pattern.isPermutation_turn (p : Pattern) (f : Face) : IsPermutation (p.turn f) :=
  SlotKind.isPermutation_turn p.onCube_kind (by decide) f p.depth

@[simp] theorem Pattern.length_turn (p : Pattern) (f : Face) : (p.turn f).length = p.kind.size :=
  SlotKind.length_turn p.kind referenceSize f p.depth

/-- The cycles of a pattern carry as its turn does, done as often. -/
theorem Pattern.carries_lookup (p : Pattern) (f : Face) (t : ℕ) {slots : List α}
    (h : slots.length = p.kind.size) :
    Carries (image (p.turn f))^[t % 4] slots
      ((p.lookup f t).foldl (fun l c => rotate c l) slots) := by
  have hp := p.isPermutation_turn f
  have hc := carries_cycles (isPermutation_power hp (t % 4)) (l := slots) (by simpa using h)
  rw [image_power] at hc
  rwa [p.lookup_eq, Pattern.cycles]

namespace SlotKind

/-- To turn back from the fourth turn is to turn on. -/
theorem iterate_carried_opposite (hk : k.OnCube n) (hs : s < k.size) (f : Face) {m : ℕ}
    (hm : m ≤ 4) : (k.carried f.opposite)^[4 - m] s = (k.carried f)^[m] s := by
  have hback : ∀ (j : ℕ) {t : ℕ}, t < k.size →
      (k.carried f.opposite)^[j] ((k.carried f)^[j] t) = t := by
    intro j
    induction j with
    | zero => intro t _; rfl
    | succ j ih =>
      intro t ht
      rw [iterate_succ_apply' (k.carried f), iterate_succ_apply,
        carried_carried_opposite hk (iterate_carried_lt ht f j), ih ht]
  have hfour : (k.carried f)^[4 - m] ((k.carried f)^[m] s) = s := by
    rw [← iterate_add_apply, Nat.sub_add_cancel hm, carried_iterate_four hk hs]
  calc (k.carried f.opposite)^[4 - m] s
      = (k.carried f.opposite)^[4 - m] ((k.carried f)^[4 - m] ((k.carried f)^[m] s)) := by
        rw [hfour]
    _ = (k.carried f)^[m] s := hback _ (iterate_carried_lt hs f m)

end SlotKind

namespace Move

variable {m : Move}

/-- Where turning one layer of a move takes a slot. -/
def turnedLayer (m : Move) (n : ℕ) (k : SlotKind) (l s : ℕ) : ℕ :=
  if k.layer n m.face s + 1 = l then (k.carried m.face)^[m.turns % 4] s else s

/-- A near layer is turned about the face of the move. -/
theorem turnOf_near (m : Move) (h₁ : 1 ≤ l) (h₂ : 2 * l ≤ n + 1) :
    m.turnOf (zone n l) = (m.face, m.turns) := by
  rcases near_zone_cases h₁ h₂ with ⟨hz, -⟩ | ⟨hz, -⟩ | ⟨hz, -⟩ <;> rw [hz] <;> rfl

/-- A far layer is turned about the opposite face, the other way round. -/
theorem turnOf_far (m : Move) (h₁ : n + 1 < 2 * l) (h₂ : l ≤ n) :
    m.turnOf (zone n l) = (m.face.opposite, (4 - m.turns % 4) % 4) := by
  rcases Nat.eq_or_lt_of_le h₂ with rfl | hlt
  · rw [zone_last (by omega)]
    rfl
  · rw [zone_afterMiddle h₁ hlt]
    rfl

/-- A layer lies near to the face that it is turned about, and meets the kinds there as it does from
the face of the move. -/
theorem exists_near_layer (m : Move) (hk : k.OnCube n) (h₁ : 1 ≤ l) (h₂ : l ≤ n) :
    ∃ d, 1 ≤ d ∧ 2 * d ≤ n + 1 ∧
      Pattern.of? (zone n d) k (middleRank? n) = Pattern.of? (zone n l) k (middleRank? n) ∧
      ∀ s < k.size,
        (k.turnedSlot n (m.turnOf (zone n l)).1 (d - 1))^[(m.turnOf (zone n l)).2 % 4] s =
          m.turnedLayer n k l s := by
  rcases Nat.lt_or_ge (n + 1) (2 * l) with hfar | hnear
  · refine ⟨n + 1 - l, by omega, by omega, by rw [zone_reflect h₁ h₂, Pattern.of?_opposite],
      fun s hs => ?_⟩
    have ht : m.turns % 4 ≤ 4 := (Nat.mod_lt _ (by decide)).le
    have hlt := SlotKind.layer_lt hk m.face s
    rw [turnOf_far m hfar h₂, SlotKind.iterate_turnedSlot hk, SlotKind.layer_opposite hk,
      Nat.mod_mod, SlotKind.iterate_carried_mod hk hs,
      SlotKind.iterate_carried_opposite hk hs m.face ht, turnedLayer]
    exact if_congr (by omega) rfl rfl
  · refine ⟨l, h₁, hnear, rfl, fun s _ => ?_⟩
    rw [turnOf_near m h₁ hnear, SlotKind.iterate_turnedSlot hk, turnedLayer]
    exact if_congr (by dsimp only; omega) rfl rfl

/-- The pattern of a layer takes a slot where the turned layer takes it. -/
theorem turnedLayer_of_pattern (hk : k.OnCube n) (h₁ : 1 ≤ l) (h₂ : l ≤ n) {p : Pattern}
    (hp : Pattern.of? (zone n l) k (middleRank? n) = some p) (hs : s < k.size) :
    (image (p.turn (m.turnOf (zone n l)).1))^[(m.turnOf (zone n l)).2 % 4] s =
      m.turnedLayer n k l s := by
  obtain ⟨d, hd, hnear, hof, hturn⟩ := m.exists_near_layer hk h₁ h₂
  rw [← hturn s hs]
  exact iterate_congr_below (fun i hi => Pattern.image_turn hk hd hnear (hof.trans hp) _ hi)
    (fun i hi => SlotKind.turnedSlot_lt hi) _ hs

/-- A layer that shows no pattern of a kind leaves its slots where they are. -/
theorem turnedLayer_of_no_pattern (hk : k.OnCube n) (h₁ : 1 ≤ l) (h₂ : l ≤ n)
    (hp : Pattern.of? (zone n l) k (middleRank? n) = none) (hs : s < k.size) :
    m.turnedLayer n k l s = s := by
  obtain ⟨d, hd, hnear, hof, hturn⟩ := m.exists_near_layer hk h₁ h₂
  have hfix : IsFixedPt (k.turnedSlot n (m.turnOf (zone n l)).1 (d - 1)) s :=
    Pattern.turnedSlot_of_no_pattern hk hd hnear (hof.trans hp) _ hs
  rw [← hturn s hs, hfix.iterate]

/-- The cycles of a kind go through the slots that are looked up for its pattern. -/
theorem map_slots_kindCycles (m : Move) (n : ℕ) (b : Zone) (k : SlotKind) :
    (m.kindCycles n b k).map Cycle.slots =
      (Pattern.of? b k (middleRank? n)).elim [] (·.lookup (m.turnOf b).1 (m.turnOf b).2) := by
  unfold kindCycles
  split <;> simp_all [Function.comp_def]

/-- The cycles of a layer carry the stickers of a kind where the turned layer takes their slots. -/
theorem carries_kindCycles (hk : k.OnCube n) (h₁ : 1 ≤ l) (h₂ : l ≤ n) {slots : List α}
    (h : slots.length = k.size) :
    Carries (m.turnedLayer n k l) slots
      (((m.kindCycles n (zone n l) k).map Cycle.slots).foldl (fun l c => rotate c l) slots) := by
  rw [map_slots_kindCycles]
  cases hp : Pattern.of? (zone n l) k (middleRank? n) with
  | none =>
    exact (Carries.refl slots).congr fun s hs =>
      (turnedLayer_of_no_pattern hk h₁ h₂ hp (h ▸ hs)).symm
  | some p =>
    have hsize : p.kind.size = k.size := by
      rw [SlotKind.size, Pattern.faceSize_kind hp, SlotKind.size]
    exact (p.carries_lookup _ _ (h.trans hsize.symm)).congr fun s hs =>
      turnedLayer_of_pattern hk h₁ h₂ hp (h ▸ hs)

/-! ## All the layers -/

/-- Where a move takes a slot of a kind. -/
def turnedSlot (m : Move) (n : ℕ) (k : SlotKind) (s : ℕ) : ℕ :=
  if m.first ≤ k.layer n m.face s + 1 ∧ k.layer n m.face s + 1 ≤ m.last then
    (k.carried m.face)^[m.turns % 4] s
  else s

/-- A move takes slots of a kind to slots of the kind. -/
theorem turnedSlot_lt (m : Move) (n : ℕ) (hs : s < k.size) : m.turnedSlot n k s < k.size := by
  unfold turnedSlot
  split_ifs
  · exact SlotKind.iterate_carried_lt hs m.face _
  · exact hs

/-- Every slot of a kind is where a move takes some slot of the kind. -/
theorem exists_turnedSlot_eq (m : Move) (hk : k.OnCube n) (hs : s < k.size) :
    ∃ t < k.size, m.turnedSlot n k t = s := by
  by_cases hl : m.first ≤ k.layer n m.face s + 1 ∧ k.layer n m.face s + 1 ≤ m.last
  · have hsum : m.turns % 4 + (4 - m.turns % 4) = 4 := by omega
    refine ⟨(k.carried m.face)^[4 - m.turns % 4] s, SlotKind.iterate_carried_lt hs _ _, ?_⟩
    rw [turnedSlot, SlotKind.layer_iterate_carried hk, if_pos hl, ← iterate_add_apply, hsum,
      SlotKind.carried_iterate_four hk hs]
  · exact ⟨s, hs, if_neg hl⟩

/-- Layers turned one after another take a slot along if its own layer is among them. -/
theorem carries_layers (hk : k.OnCube n) {ls : List ℕ} (hls : ls.Nodup)
    (hin : ∀ l ∈ ls, 1 ≤ l ∧ l ≤ n) {slots : List α} (h : slots.length = k.size) :
    Carries (fun s => if k.layer n m.face s + 1 ∈ ls then (k.carried m.face)^[m.turns % 4] s else s)
      slots (((ls.flatMap fun l => m.kindCycles n (zone n l) k).map Cycle.slots).foldl
        (fun l c => rotate c l) slots) := by
  induction ls generalizing slots with
  | nil => exact (Carries.refl slots).congr fun s _ => by simp
  | cons l ls ih =>
    obtain ⟨hl, hls⟩ := List.nodup_cons.1 hls
    have hone := carries_kindCycles (m := m) hk (hin l (by simp)).1 (hin l (by simp)).2 h
    have hrest := ih hls (fun j hj => hin j (List.mem_cons_of_mem l hj)) (hone.length_eq.trans h)
    rw [List.flatMap_cons, List.map_append, List.foldl_append]
    refine (hone.trans hrest).congr fun s _ => ?_
    rw [comp_apply, turnedLayer]
    by_cases hs : k.layer n m.face s + 1 = l
    · rw [if_pos hs, SlotKind.layer_iterate_carried hk, hs, if_neg hl, if_pos (by simp)]
    · rw [if_neg hs]
      exact if_congr (by simp [hs]) rfl rfl

theorem mem_layers {m : Move} : l ∈ m.layers ↔ m.first ≤ l ∧ l ≤ m.last := by
  rw [layers, List.mem_range'_1]
  omega

/-- The layers of a move in range are layers of the cube. -/
theorem bounds_of_mem_layers {m : Move} (hm : m.InRange n) (hl : l ∈ m.layers) : 1 ≤ l ∧ l ≤ n := by
  obtain ⟨hfirst, hlast⟩ := mem_layers.1 hl
  exact ⟨hm.1.trans hfirst, hlast.trans hm.2.2⟩

/-- A move turns each of its layers once. -/
theorem nodup_layers (m : Move) : m.layers.Nodup :=
  List.nodup_range'

theorem kind_of_mem_kindCycles {b : Zone} {c : Cycle} (hc : c ∈ m.kindCycles n b k) :
    c.kind = k := by
  unfold kindCycles at hc
  split at hc
  · obtain ⟨slots, -, rfl⟩ := List.mem_map.1 hc
    rfl
  · simp at hc

/-- Of the cycles of a layer, those of one kind are the cycles of that kind. -/
theorem filter_kind_layerCycles {inv : Inventory} (hk : k ∈ inv.kinds) (m : Move) (n l : ℕ) :
    (m.layerCycles n inv l).filter (·.kind = k) = m.kindCycles n (zone n l) k := by
  have key : ∀ ks : List SlotKind, ks.Pairwise (· < ·) →
      (ks.flatMap (m.kindCycles n (zone n l))).filter (·.kind = k) =
        if k ∈ ks then m.kindCycles n (zone n l) k else [] := by
    intro ks hks
    induction ks with
    | nil => rfl
    | cons j ks ih =>
      obtain ⟨hj, hks⟩ := List.pairwise_cons.1 hks
      rw [List.flatMap_cons, List.filter_append, ih hks]
      by_cases hjk : j = k
      · subst hjk
        have hnot : j ∉ ks := fun h => SlotKind.lt_irrefl j (hj j h)
        rw [if_neg hnot, if_pos (by simp), List.append_nil, List.filter_eq_self]
        exact fun c hc => by simpa using kind_of_mem_kindCycles hc
      · have hnone : (m.kindCycles n (zone n l) j).filter (·.kind = k) = [] := by
          rw [List.filter_eq_nil_iff]
          intro c hc
          simpa [kind_of_mem_kindCycles hc] using hjk
        rw [hnone, List.nil_append]
        exact if_congr (by simp [Ne.symm hjk]) rfl rfl
  rw [layerCycles, key inv.kinds inv.ascending, if_pos hk]

/-- A move in range has cycles, those of its layers one after another. -/
theorem cycles_eq_ok {inv : Inventory} (hm : m.InRange n) :
    m.cycles n inv = .ok (if m.isTrivial then [] else m.layers.flatMap (m.layerCycles n inv)) := by
  rw [cycles, if_neg (not_not.2 hm)]
  split_ifs <;> rfl

end Move

/-- Move the stickers of an orbit along the cycles of its kind. -/
def Orbit.rotateEach (o : Orbit α) (cs : List Cycle) : Orbit α :=
  (cs.filter (·.kind = o.kind)).foldl (fun o c => o.rotate c.slots) o

/-- To rotate an orbit along cycles is to rotate its slots along those of its kind. -/
theorem Orbit.rotateEach_eq (o : Orbit α) (cs : List Cycle) :
    o.rotateEach cs = ⟨o.kind, ((cs.filter (·.kind = o.kind)).map Cycle.slots).foldl
      (fun l c => Twisty.rotate c l) o.slots⟩ := by
  have key : ∀ (cs : List Cycle) (o : Orbit α), cs.foldl (fun o c => o.rotate c.slots) o =
      ⟨o.kind, (cs.map Cycle.slots).foldl (fun l c => Twisty.rotate c l) o.slots⟩ := by
    intro cs
    induction cs with
    | nil => intro o; rfl
    | cons c cs ih => intro o; exact ih _
  exact key _ o

@[simp] theorem Orbit.kind_rotateEach (o : Orbit α) (cs : List Cycle) :
    (o.rotateEach cs).kind = o.kind := by
  rw [rotateEach_eq]

@[simp] theorem Orbit.length_slots_rotateEach (o : Orbit α) (cs : List Cycle) :
    (o.rotateEach cs).slots.length = o.slots.length := by
  unfold rotateEach
  induction cs.filter (·.kind = o.kind) generalizing o with
  | nil => rfl
  | cons c cs ih => exact (ih _).trans (o.length_slots_rotate c.slots)

/-- The cycles of a move carry each sticker of a kind where the move takes its slot. -/
theorem Move.carries_cycles_of_kind {m : Move} (hm : m.InRange n) {inv : Inventory}
    (hinv : k ∈ inv.kinds) (hk : k.OnCube n) {cs : List Cycle} (hcs : m.cycles n inv = .ok cs)
    {o : Orbit α} (ho : o.kind = k) (hlen : o.slots.length = k.size) :
    Carries (m.turnedSlot n k) o.slots (o.rotateEach cs).slots := by
  subst ho
  rw [cycles_eq_ok hm, Except.ok.injEq] at hcs
  subst hcs
  rw [Orbit.rotateEach_eq]
  by_cases ht : m.isTrivial
  · have h0 : m.turns = 0 := by simpa [isTrivial] using ht
    rw [if_pos ht]
    refine (Carries.refl o.slots).congr fun s _ => ?_
    simp [turnedSlot, h0]
  · rw [if_neg ht, List.filter_flatMap]
    simp only [filter_kind_layerCycles hinv]
    exact (carries_layers hk m.nodup_layers (fun _ => bounds_of_mem_layers hm) hlen).congr
      fun s _ => if_congr mem_layers rfl rfl

/-! ## Applying the cycles -/

/-- A cycle has at least two slots, and all of them are slots of its kind. -/
def Cycle.IsProper (c : Cycle) : Prop :=
  2 ≤ c.slots.length ∧ ∀ s ∈ c.slots, s < c.kind.size

/-- The cycles of a pattern have at least two slots, all of its kind. -/
theorem Pattern.isProper_of_mem_lookup {p : Pattern} {f : Face} {t : ℕ} {slots : List ℕ}
    (h : slots ∈ p.lookup f t) : 2 ≤ slots.length ∧ ∀ s ∈ slots, s < p.kind.size := by
  rw [p.lookup_eq, Pattern.cycles] at h
  have hp := isPermutation_power (p.isPermutation_turn f) (t % 4)
  refine ⟨two_le_length_of_mem_cycles hp h, fun s hs => ?_⟩
  simpa using lt_of_mem_cycles hp h hs

/-- The cycles of a move are proper, and of the kinds that were asked for. -/
theorem Move.isProper_of_mem_cycles {m : Move} {inv : Inventory} {cs : List Cycle}
    (hcs : m.cycles n inv = .ok cs) {c : Cycle} (hc : c ∈ cs) :
    c.IsProper ∧ c.kind ∈ inv.kinds := by
  have hm : m.InRange n := by
    by_contra hno
    simp [Move.cycles, hno] at hcs
  rw [cycles_eq_ok hm, Except.ok.injEq] at hcs
  subst hcs
  split_ifs at hc
  · simp at hc
  · obtain ⟨l, -, hl⟩ := List.mem_flatMap.1 hc
    obtain ⟨k, hk, hck⟩ := List.mem_flatMap.1 hl
    obtain rfl := kind_of_mem_kindCycles hck
    refine ⟨?_, hk⟩
    unfold kindCycles at hck
    split at hck
    · next p hp =>
      obtain ⟨slots, hslots, hcs⟩ := List.mem_map.1 hck
      obtain ⟨h₁, h₂⟩ := Pattern.isProper_of_mem_lookup hslots
      rw [SlotKind.size, Pattern.faceSize_kind hp] at h₂
      rw [← hcs]
      exact ⟨h₁, h₂⟩
    · simp at hck

/-- Move the stickers of an orbit along cycles one after another, each checked before it is done. -/
def Cycle.applyEach (cs : List Cycle) (o : Option (Orbit α)) :
    Except CubeError (Option (Orbit α)) :=
  cs.foldlM (fun o c => c.apply o) o

/-- An orbit with a sticker in each slot of its kind is not empty. -/
theorem Orbit.slots_ne_nil {o : Orbit α} (ho : o.slots.length = o.kind.size) : o.slots ≠ [] := by
  have hpos : 0 < o.kind.size := Nat.mul_pos (by decide) o.kind.faceSize_pos
  exact List.length_pos_iff.1 (ho ▸ hpos)

/-- A cycle of several slots, all of them slots of the orbit if it is of its kind, passes its
check on an orbit that has slots. -/
theorem Cycle.check_eq_ok {c : Cycle} {o : Orbit α} (hlen : 2 ≤ c.slots.length)
    (ho : o.slots ≠ []) (hlt : o.kind = c.kind → ∀ s ∈ c.slots, s < o.slots.length) :
    c.check (some o) = .ok (decide (o.kind = c.kind)) := by
  obtain ⟨kind, slots⟩ := c
  match slots, hlen with
  | i :: j :: is, _ =>
    by_cases hk : o.kind = kind
    · have hnone : (i :: j :: is).find? (o.slots.length ≤ ·) = none := by
        rw [List.find?_eq_none]
        intro s hs
        simpa using hlt hk s hs
      simp only [check, ho, hk, hnone]
      simp
    · simp [check, ho, hk]

/-- A proper cycle passes its check, and moves stickers if it is of the kind of the orbit. -/
theorem Cycle.IsProper.check_eq {c : Cycle} (hc : c.IsProper) {o : Orbit α}
    (ho : o.slots.length = o.kind.size) : c.check (some o) = .ok (decide (o.kind = c.kind)) :=
  check_eq_ok hc.1 (Orbit.slots_ne_nil ho) fun hk s hs => by
    rw [ho, hk]
    exact hc.2 s hs

/-- No check of proper cycles fails, and those of other kinds leave the orbit as it is. -/
theorem Cycle.applyEach_eq_ok {cs : List Cycle} (hcs : ∀ c ∈ cs, c.IsProper) {o : Orbit α}
    (ho : o.slots.length = o.kind.size) : applyEach cs (some o) = .ok (some (o.rotateEach cs)) := by
  induction cs generalizing o with
  | nil => rfl
  | cons c cs ih =>
    have hrest : ∀ d ∈ cs, d.IsProper := fun d hd => hcs d (List.mem_cons_of_mem c hd)
    have hcheck := (hcs c (by simp)).check_eq ho
    by_cases hk : o.kind = c.kind
    · have happly : c.apply (some o) = .ok (some (o.rotate c.slots)) := by
        simp [apply, hcheck, hk, Except.map]
      rw [applyEach, List.foldlM_cons, happly]
      refine (ih (o := o.rotate c.slots) hrest (by simpa using ho)).trans ?_
      simp [Orbit.rotateEach, hk]
    · have happly : c.apply (some o) = .ok (some o) := by
        simp [apply, hcheck, hk, Except.map]
      rw [applyEach, List.foldlM_cons, happly]
      refine (ih hrest ho).trans ?_
      simp [Orbit.rotateEach, Ne.symm hk]

/-! ## In coordinates -/

/-- Where a move of an `n`-layer cube takes a point : as many quarter turns on about its face, if
the point lies in one of its layers. -/
def Move.turnPoint (m : Move) (n : ℕ) (p : Point) : Point :=
  if m.first ≤ m.face.depth p n + 1 ∧ m.face.depth p n + 1 ≤ m.last then
    m.face.turnPoint^[m.turns % 4] p
  else p

/-- A move takes the point of a slot where it takes points. -/
theorem SlotKind.point_turnedSlot (hk : k.OnCube n) (hn : n ≤ maxLayer) (m : Move) (s : ℕ) :
    k.point (m.turnedSlot n k s) n = m.turnPoint n (k.point s n) := by
  rw [Move.turnPoint, depth_point hk hn, Move.turnedSlot]
  split_ifs
  · exact point_iterate_carried hk m.face _ s
  · rfl

/-- The cycles of a move of a cube can all be done on an orbit of a kind that the cube has, and they
carry the sticker of each slot to the one slot of the orbit whose center is the turned center. -/
theorem carried_to_turned_point (hn : n ≤ maxLayer) {m : Move} (hm : m.InRange n)
    (hk : k ∈ (Inventory.full n).kinds) :
    ∃ cs, m.cycles n (.full n) = .ok cs ∧ ∀ o : Orbit α, o.kind = k → o.slots.length = k.size →
      ∃ o', Cycle.applyEach cs (some o) = .ok (some o') ∧ o'.kind = k ∧ o'.slots.length = k.size ∧
        ∀ s < k.size, (∃! t, t < k.size ∧ k.point t n = m.turnPoint n (k.point s n)) ∧
          ∀ t < k.size, k.point t n = m.turnPoint n (k.point s n) → o'.slots[t]? = o.slots[s]? := by
  have hon := Inventory.mem_full_iff.1 hk
  have hcs : m.cycles n (.full n) = _ := Move.cycles_eq_ok hm
  refine ⟨_, hcs, fun o ho hlen => ?_⟩
  have hcarry := Move.carries_cycles_of_kind hm hk hon hcs ho hlen
  refine ⟨_, Cycle.applyEach_eq_ok (fun c hc => (Move.isProper_of_mem_cycles hcs hc).1)
    (by rw [hlen, ho]), by rw [Orbit.kind_rotateEach, ho], by rw [hcarry.length_eq, hlen],
    fun s hs => ?_⟩
  have hlt : m.turnedSlot n k s < k.size := m.turnedSlot_lt n hs
  have huniq : ∀ t < k.size, k.point t n = m.turnPoint n (k.point s n) →
      t = m.turnedSlot n k s := by
    intro t ht hpt
    rw [← SlotKind.point_turnedSlot hon hn] at hpt
    exact SlotKind.point_inj hon ht hlt hpt
  refine ⟨⟨_, ⟨hlt, SlotKind.point_turnedSlot hon hn m s⟩, fun t ht => huniq t ht.1 ht.2⟩, ?_⟩
  intro t ht hpt
  rw [huniq t ht hpt, hcarry.getElem?_eq s (hlen ▸ hs)]

/-- The second to fourth layers of a five-layer cube turned seven times about its right face : a
sticker next to the centers goes a quarter turn back. -/
theorem carried_to_turned_point_five :
    5 ≤ maxLayer ∧ (Move.mk .right 2 4 7).InRange 5 ∧
      SlotKind.center 1 1 ∈ (Inventory.full 5).kinds ∧
      ∃ cs, (Move.mk .right 2 4 7).cycles 5 (.full 5) = .ok cs ∧ ∀ o : Orbit ℕ,
        o.kind = .center 1 1 → o.slots.length = (SlotKind.center 1 1).size →
          ∃ o', Cycle.applyEach cs (some o) = .ok (some o') ∧ o'.kind = .center 1 1 ∧
            o'.slots.length = (SlotKind.center 1 1).size ∧ ∀ s < (SlotKind.center 1 1).size,
              (∃! t, t < (SlotKind.center 1 1).size ∧ (SlotKind.center 1 1).point t 5 =
                (Move.mk .right 2 4 7).turnPoint 5 ((SlotKind.center 1 1).point s 5)) ∧
              ∀ t < (SlotKind.center 1 1).size, (SlotKind.center 1 1).point t 5 =
                (Move.mk .right 2 4 7).turnPoint 5 ((SlotKind.center 1 1).point s 5) →
                  o'.slots[t]? = o.slots[s]? :=
  have hn : 5 ≤ maxLayer := by decide
  have hm : (Move.mk .right 2 4 7).InRange 5 := by decide
  have hk : SlotKind.center 1 1 ∈ (Inventory.full 5).kinds := by decide
  ⟨hn, hm, hk, carried_to_turned_point hn hm hk⟩

end Twisty
