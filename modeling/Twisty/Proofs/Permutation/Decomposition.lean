import Twisty.Permutation.Cycles
import Twisty.Proofs.Permutation.Carrying
import Mathlib.Dynamics.PeriodicPts.Defs
import Mathlib.Data.Fintype.Pigeonhole

/-!
# Taking a permutation apart into cycles

`IsPermutation p` says that a list of values is a permutation of the numbers below its length. Every
number then comes back to itself (`IsPermutation.mem_periodicPts`), and `cycleFrom` lists the
numbers met on the way (`cycleFrom_eq_map`). The cycles of a permutation have no number in common
(`eq_of_mem_cycles`) and hold the numbers that move (`mem_flatten_cycles`). So rotating the entries
of a list along all of them, in any order, carries each entry to the place that the permutation
gives (`carries_of_perm`).
-/

namespace Twisty.Permutation

open Function

/-- The values of `p` are the numbers below its length, each once. -/
structure IsPermutation (p : List ℕ) : Prop where
  image_lt : ∀ i < p.length, image p i < p.length
  image_inj : ∀ i < p.length, ∀ j < p.length, image p i = image p j → i = j

namespace IsPermutation

variable {p : List ℕ} (hp : IsPermutation p)

include hp

theorem image_lt_iff {i : ℕ} : image p i < p.length ↔ i < p.length := by
  refine ⟨fun h => ?_, hp.image_lt i⟩
  by_contra hi
  rw [image_of_length_le (not_lt.1 hi)] at h
  exact hi h

theorem injective : Injective (image p) := by
  intro i j h
  have hij : i < p.length ↔ j < p.length := by
    rw [← hp.image_lt_iff, h, hp.image_lt_iff]
  rcases Nat.lt_or_ge i p.length with hi | hi
  · exact hp.image_inj i hi j (hij.1 hi) h
  · rwa [image_of_length_le hi, image_of_length_le (not_lt.1 fun hj => hi.not_gt (hij.2 hj))] at h

/-- The images of an entry of the list stay in the list. -/
theorem iterate_lt {i : ℕ} (hi : i < p.length) (k : ℕ) : (image p)^[k] i < p.length := by
  induction k with
  | zero => exact hi
  | succ k ih =>
    rw [iterate_succ_apply']
    exact hp.image_lt _ ih

/-- Below the length there is no room for endlessly many numbers, so two steps meet, and the map is
injective. -/
theorem mem_periodicPts (i : ℕ) : i ∈ periodicPts (image p) := by
  rcases Nat.lt_or_ge i p.length with hi | hi
  · have meet : ∀ a b, a < b → (image p)^[a] i = (image p)^[b] i → i ∈ periodicPts (image p) := by
      intro a b hlt hab
      refine mk_mem_periodicPts (Nat.sub_pos_of_lt hlt) (hp.injective.iterate a ?_)
      rw [← iterate_add_apply, Nat.add_sub_cancel' hlt.le, hab]
    obtain ⟨a, b, hne, hab⟩ := Finite.exists_ne_map_eq_of_infinite
      fun k : ℕ => (⟨_, hp.iterate_lt hi k⟩ : Fin p.length)
    have hab : (image p)^[a] i = (image p)^[b] i := congrArg Fin.val hab
    rcases hne.lt_or_gt with hlt | hlt
    · exact meet a b hlt hab
    · exact meet b a hlt hab.symm
  · exact mk_mem_periodicPts one_pos (image_of_length_le hi)

theorem minimalPeriod_pos (i : ℕ) : 0 < minimalPeriod (image p) i :=
  minimalPeriod_pos_of_mem_periodicPts (hp.mem_periodicPts i)

theorem minimalPeriod_le {i : ℕ} (hi : i < p.length) :
    minimalPeriod (image p) i ≤ p.length := by
  have h := Finset.card_le_card_of_injOn (s := Finset.range (minimalPeriod (image p) i))
    (t := Finset.range p.length) (fun k => (image p)^[k] i)
    (fun k _ => Finset.mem_coe.2 (Finset.mem_range.2 (hp.iterate_lt hi k)))
    (fun a ha b hb h => iterate_injOn_Iio_minimalPeriod (by simpa using ha) (by simpa using hb) h)
  simpa using h

end IsPermutation

/-! ## One cycle -/

/-- From a point of a cycle the path goes through the rest of it and stops at the start. -/
theorem path_iterate {p : List ℕ} {i fuel j : ℕ} (hj : 0 < j) (hk : j ≤ minimalPeriod (image p) i)
    (hf : minimalPeriod (image p) i ≤ fuel + j) :
    path p i fuel ((image p)^[j] i) =
      (List.range' j (minimalPeriod (image p) i - j)).map fun k => (image p)^[k] i := by
  induction fuel generalizing j with
  | zero =>
    obtain rfl : j = minimalPeriod (image p) i := by omega
    simp [path]
  | succ fuel ih =>
    rcases hk.eq_or_lt with rfl | hlt
    · simp [path, iterate_minimalPeriod]
    · have hne : (image p)^[j] i ≠ i := fun h =>
        not_isPeriodicPt_of_pos_of_lt_minimalPeriod hj.ne' hlt h
      rw [path, if_neg hne, ← iterate_succ_apply' (image p), ih (Nat.succ_pos j) hlt (by omega),
        show minimalPeriod (image p) i - j = minimalPeriod (image p) i - (j + 1) + 1 by omega,
        List.range'_succ, List.map_cons]

/-- The cycle from an entry lists its images up to its minimal period. -/
theorem cycleFrom_eq_map {p : List ℕ} (hp : IsPermutation p) {i : ℕ} (hi : i < p.length) :
    cycleFrom p i = (List.range (minimalPeriod (image p) i)).map fun k => (image p)^[k] i := by
  have hpos := hp.minimalPeriod_pos i
  have hle := hp.minimalPeriod_le hi
  have hpath : path p i p.length ((image p)^[1] i) = _ := path_iterate one_pos hpos (by omega)
  rw [iterate_one] at hpath
  rw [cycleFrom, hpath, List.range_eq_range',
    show minimalPeriod (image p) i = minimalPeriod (image p) i - 1 + 1 by omega,
    List.range'_succ, List.map_cons]
  simp

section Cycle

variable {p : List ℕ} (hp : IsPermutation p) {i : ℕ} (hi : i < p.length)

include hp hi

/-- The cycle from an entry has all its images and nothing else. -/
theorem mem_cycleFrom {x : ℕ} : x ∈ cycleFrom p i ↔ ∃ k, (image p)^[k] i = x := by
  rw [cycleFrom_eq_map hp hi, List.mem_map]
  constructor
  · rintro ⟨k, -, hk⟩
    exact ⟨k, hk⟩
  · rintro ⟨k, rfl⟩
    exact ⟨k % minimalPeriod (image p) i, List.mem_range.2 (Nat.mod_lt _ (hp.minimalPeriod_pos i)),
      iterate_mod_minimalPeriod_eq⟩

theorem length_cycleFrom : (cycleFrom p i).length = minimalPeriod (image p) i := by
  rw [cycleFrom_eq_map hp hi, List.length_map, List.length_range]

theorem lt_of_mem_cycleFrom {x : ℕ} (hx : x ∈ cycleFrom p i) : x < p.length := by
  obtain ⟨k, rfl⟩ := (mem_cycleFrom hp hi).1 hx
  exact hp.iterate_lt hi k

/-- A cycle has no entry twice. -/
theorem nodup_cycleFrom : (cycleFrom p i).Nodup := by
  rw [cycleFrom_eq_map hp hi]
  refine List.Nodup.map_on (fun a ha b hb h => ?_) List.nodup_range
  exact iterate_injOn_Iio_minimalPeriod (List.mem_range.1 ha) (List.mem_range.1 hb) h

theorem image_mem_cycleFrom {x : ℕ} (hx : x ∈ cycleFrom p i) : image p x ∈ cycleFrom p i := by
  obtain ⟨k, rfl⟩ := (mem_cycleFrom hp hi).1 hx
  exact (mem_cycleFrom hp hi).2 ⟨k + 1, iterate_succ_apply' _ _ _⟩

/-- On its cycle the permutation goes to the next number, and from the last to the first. -/
theorem formPerm_cycleFrom {x : ℕ} (hx : x ∈ cycleFrom p i) :
    (cycleFrom p i).formPerm x = image p x := by
  have hlen := length_cycleFrom hp hi
  have hget : ∀ k (hk : k < (cycleFrom p i).length), (cycleFrom p i)[k] = (image p)^[k] i := by
    intro k hk
    simp only [cycleFrom_eq_map hp hi, List.getElem_map, List.getElem_range]
  obtain ⟨k, hk, rfl⟩ := List.mem_iff_getElem.1 hx
  rw [List.formPerm_apply_getElem _ (nodup_cycleFrom hp hi) k hk, hget, hget, hlen,
    iterate_mod_minimalPeriod_eq, iterate_succ_apply']

/-- The cycle of an entry that moves has two entries or more. -/
theorem two_le_length_cycleFrom (hm : image p i ≠ i) : 2 ≤ (cycleFrom p i).length := by
  have hpos := hp.minimalPeriod_pos i
  have hne : minimalPeriod (image p) i ≠ 1 := fun h => hm (minimalPeriod_eq_one_iff_isFixedPt.1 h)
  rw [length_cycleFrom hp hi]
  omega

end Cycle

/-! ## All the cycles -/

/-- No entry of a cycle is below its start if no image of the start is. -/
theorem all_le_cycleFrom_iff {p : List ℕ} (hp : IsPermutation p) {i : ℕ} (hi : i < p.length) :
    (cycleFrom p i).all (i ≤ ·) = true ↔ ∀ k, i ≤ (image p)^[k] i := by
  simp only [List.all_eq_true, decide_eq_true_eq]
  exact ⟨fun h k => h _ ((mem_cycleFrom hp hi).2 ⟨k, rfl⟩), fun h x hx =>
    ((mem_cycleFrom hp hi).1 hx).elim fun k hk => hk ▸ h k⟩

/-- The cycles of a permutation are those of the numbers that move and are least on their cycle. -/
theorem mem_cycles {p : List ℕ} (hp : IsPermutation p) {c : List ℕ} :
    c ∈ cycles p ↔ ∃ i < p.length, image p i ≠ i ∧ (∀ k, i ≤ (image p)^[k] i) ∧
      cycleFrom p i = c := by
  simp only [cycles, List.mem_map, List.mem_filter, List.mem_range, Bool.and_eq_true, bne_iff_ne,
    and_assoc]
  exact exists_congr fun i => and_congr_right fun hi => and_congr_right fun _ =>
    and_congr_left fun _ => all_le_cycleFrom_iff hp hi

section Cycles

variable {p : List ℕ} (hp : IsPermutation p)

include hp

/-- The least number of its cycle comes back from any number there. -/
theorem exists_iterate_eq (i k : ℕ) : ∃ j, (image p)^[j] ((image p)^[k] i) = i := by
  have hpos := hp.minimalPeriod_pos i
  refine ⟨minimalPeriod (image p) i - k % minimalPeriod (image p) i, ?_⟩
  have hlt := Nat.mod_lt k hpos
  rw [← iterate_mod_minimalPeriod_eq (n := k), ← iterate_add_apply, Nat.sub_add_cancel hlt.le,
    iterate_minimalPeriod]

/-- Two cycles with an entry in common are the same. -/
theorem eq_of_mem_cycles {c d : List ℕ} (hc : c ∈ cycles p) (hd : d ∈ cycles p) {x : ℕ}
    (hxc : x ∈ c) (hxd : x ∈ d) : c = d := by
  obtain ⟨i, hi, -, hic, rfl⟩ := (mem_cycles hp).1 hc
  obtain ⟨j, hj, -, hjd, rfl⟩ := (mem_cycles hp).1 hd
  obtain ⟨a, rfl⟩ := (mem_cycleFrom hp hi).1 hxc
  obtain ⟨b, hb⟩ := (mem_cycleFrom hp hj).1 hxd
  obtain ⟨a', ha'⟩ := exists_iterate_eq hp i a
  obtain ⟨b', hb'⟩ := exists_iterate_eq hp j b
  have hij : i ≤ j := by
    rw [← hb', hb, ← iterate_add_apply]
    exact hic _
  have hji : j ≤ i := by
    rw [← ha', ← hb, ← iterate_add_apply]
    exact hjd _
  rw [le_antisymm hij hji]

/-- A number that moves is on a cycle. -/
theorem exists_mem_cycles {x : ℕ} (hx : image p x ≠ x) : ∃ c ∈ cycles p, x ∈ c := by
  classical
  have hlt : x < p.length := by
    by_contra h
    exact hx (image_of_length_le (not_lt.1 h))
  have hex : ∃ y, ∃ k, (image p)^[k] x = y := ⟨x, 0, rfl⟩
  obtain ⟨k, hk⟩ := Nat.find_spec hex
  obtain ⟨j, hj⟩ := exists_iterate_eq hp x k
  have hi : Nat.find hex < p.length := hk ▸ hp.iterate_lt hlt k
  rw [hk] at hj
  refine ⟨_, (mem_cycles hp).2 ⟨Nat.find hex, hi, fun hfix => hx ?_, fun a => ?_, rfl⟩,
    (mem_cycleFrom hp hi).2 ⟨j, hj⟩⟩
  · rw [← hj, ← iterate_succ_apply' (image p), iterate_succ_apply, hfix]
  · refine Nat.find_min' hex ⟨a + k, ?_⟩
    rw [iterate_add_apply, hk]

omit hp in
theorem nodup_cycles : (cycles p).Nodup := by
  refine List.Nodup.map_on (fun i hi j hj h => ?_) (List.nodup_range.filter _)
  simpa [cycleFrom] using congrArg List.head? h

/-- Rotating along disjoint cycles in any order takes each number where its own cycle takes it. -/
theorem rotationsPerm_apply {cs : List (List ℕ)} (hsub : ∀ c ∈ cs, c ∈ cycles p) (hn : cs.Nodup)
    (x : ℕ) : rotationsPerm cs x = if ∃ c ∈ cs, x ∈ c then image p x else x := by
  induction cs generalizing x with
  | nil => simp [rotationsPerm]
  | cons c cs ih =>
    obtain ⟨hc, hcs⟩ := List.nodup_cons.1 hn
    have hmem := hsub c (by simp)
    have hrest := ih (fun d hd => hsub d (List.mem_cons_of_mem c hd)) hcs
    obtain ⟨i, hi, -, -, hci⟩ := (mem_cycles hp).1 hmem
    rw [rotationsPerm_cons, Equiv.Perm.mul_apply]
    by_cases hx : x ∈ c
    · have hy : c.formPerm x = image p x := by
        subst hci
        exact formPerm_cycleFrom hp hi hx
      have hyc : image p x ∈ c := by
        subst hci
        exact image_mem_cycleFrom hp hi hx
      have hnot : ¬∃ d ∈ cs, image p x ∈ d := by
        rintro ⟨d, hd, hyd⟩
        have hcd := eq_of_mem_cycles hp hmem (hsub d (List.mem_cons_of_mem c hd)) hyc hyd
        exact hc (hcd ▸ hd)
      rw [hy, hrest, if_neg hnot, if_pos ⟨c, by simp, hx⟩]
    · rw [List.formPerm_apply_of_notMem hx, hrest]
      simp [hx]

/-- Rotating along the cycles in any order moves each entry to its image. -/
theorem rotationsPerm_of_perm {cs : List (List ℕ)} (h : cs.Perm (cycles p)) (x : ℕ) :
    rotationsPerm cs x = image p x := by
  rw [rotationsPerm_apply hp (fun _ hc => h.mem_iff.1 hc) (h.nodup_iff.2 nodup_cycles)]
  split_ifs with hon
  · rfl
  · by_contra hne
    obtain ⟨c, hc, hx⟩ := exists_mem_cycles hp (Ne.symm hne)
    exact hon ⟨c, h.mem_iff.2 hc, hx⟩

theorem lt_of_mem_cycles {c : List ℕ} (hc : c ∈ cycles p) {x : ℕ} (hx : x ∈ c) : x < p.length := by
  obtain ⟨i, hi, -, -, rfl⟩ := (mem_cycles hp).1 hc
  exact lt_of_mem_cycleFrom hp hi hx

theorem two_le_length_of_mem_cycles {c : List ℕ} (hc : c ∈ cycles p) : 2 ≤ c.length := by
  obtain ⟨i, hi, hm, -, rfl⟩ := (mem_cycles hp).1 hc
  exact two_le_length_cycleFrom hp hi hm

/-- Every cycle is as long as the minimal period of an entry that moves. -/
theorem length_of_mem_cycles {c : List ℕ} (hc : c ∈ cycles p) :
    ∃ i < p.length, image p i ≠ i ∧ c.length = minimalPeriod (image p) i := by
  obtain ⟨i, hi, hm, -, rfl⟩ := (mem_cycles hp).1 hc
  exact ⟨i, hi, hm, length_cycleFrom hp hi⟩

/-- A cycle starts at its least number. -/
theorem head_le_of_mem_cycles {c : List ℕ} (hc : c ∈ cycles p) {i x : ℕ} (hi : i ∈ c.head?)
    (hx : x ∈ c) : i ≤ x := by
  obtain ⟨j, hj, -, hle, rfl⟩ := (mem_cycles hp).1 hc
  obtain rfl : j = i := by simpa [cycleFrom] using hi
  obtain ⟨k, rfl⟩ := (mem_cycleFrom hp hj).1 hx
  exact hle k

omit hp in
/-- The cycles come in the order of their starts. -/
theorem pairwise_head_cycles :
    (cycles p).Pairwise fun c d => ∀ i ∈ c.head?, ∀ j ∈ d.head?, i < j := by
  refine List.pairwise_map.2 ((List.pairwise_lt_range.filter _).imp fun hlt i hi j hj => ?_)
  simp only [cycleFrom, List.head?_cons, Option.mem_some_iff] at hi hj
  exact hi ▸ hj ▸ hlt

/-- The cycles have no entry in common. -/
theorem disjoint_cycles : (cycles p).Pairwise List.Disjoint :=
  nodup_cycles.imp_of_mem fun hc hd hne _ hxc hxd => hne (eq_of_mem_cycles hp hc hd hxc hxd)

/-- The cycles hold the numbers that move. -/
theorem mem_flatten_cycles {x : ℕ} : x ∈ (cycles p).flatten ↔ image p x ≠ x := by
  rw [List.mem_flatten]
  constructor
  · rintro ⟨c, hc, hx⟩ hfix
    obtain ⟨i, hi, hm, -, rfl⟩ := (mem_cycles hp).1 hc
    obtain ⟨k, rfl⟩ := (mem_cycleFrom hp hi).1 hx
    refine hm (hp.injective.iterate k ?_)
    rw [← iterate_succ_apply, iterate_succ_apply', hfix]
  · exact exists_mem_cycles hp

theorem nodup_flatten_cycles : (cycles p).flatten.Nodup := by
  refine List.nodup_flatten.2 ⟨fun c hc => ?_, disjoint_cycles hp⟩
  obtain ⟨i, hi, -, -, rfl⟩ := (mem_cycles hp).1 hc
  exact nodup_cycleFrom hp hi

/-- Rotating along the cycles of a permutation in any order carries each entry to its value. -/
theorem carries_of_perm {α : Type*} {cs : List (List ℕ)} (h : cs.Perm (cycles p)) {l : List α}
    (hl : l.length = p.length) : Carries (image p) l (cs.foldl (fun l c => rotate c l) l) := by
  have hcarry : Carries (rotationsPerm cs) l (cs.foldl (fun l c => rotate c l) l) :=
    carries_foldl_rotate fun c hc i hi => hl ▸ lt_of_mem_cycles hp (h.mem_iff.1 hc) hi
  exact hcarry.congr fun i _ => rotationsPerm_of_perm hp h i

/-- Rotating along the cycles one after another carries each entry to its image. -/
theorem carries_cycles {α : Type*} {l : List α} (hl : l.length = p.length) :
    Carries (image p) l ((cycles p).foldl (fun l c => rotate c l) l) :=
  carries_of_perm hp (.refl _) hl

end Cycles

/-! ## Powers -/

theorem image_power (p : List ℕ) (k : ℕ) : image (power p k) = (image p)^[k] := by
  funext i
  rcases Nat.lt_or_ge i p.length with hi | hi
  · induction k with
    | zero => simp [power, identity, image, hi]
    | succ k ih => rw [power, image_followedBy (by simpa using hi), ih, iterate_succ_apply']
  · have hfix : IsFixedPt (image p) i := image_of_length_le hi
    rw [image_of_length_le (by simpa using hi), hfix.iterate k]

theorem isPermutation_power {p : List ℕ} (hp : IsPermutation p) (k : ℕ) :
    IsPermutation (power p k) := by
  constructor
  · intro i hi
    rw [length_power] at hi ⊢
    rw [image_power]
    exact hp.iterate_lt hi k
  · intro i _ j _ h
    rw [image_power] at h
    exact hp.injective.iterate k h

end Twisty.Permutation
