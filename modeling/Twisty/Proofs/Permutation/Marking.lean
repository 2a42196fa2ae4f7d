import Twisty.Proofs.Bounded.Operations

/-!
# Finding cycles with marks

Each number below the length of a permutation is taken for a start, in order. A start that is marked
or stays is left out. From any other the permutation is followed up to a marked number, and the
numbers on the way are marked. `markedCycles` does this step by step, and gives nothing if a step
leaves the list of values or of marks.

Every step marks one number more (`walk`), so a walk ends whatever the list of values. For a
permutation more is known : before a start, the marked numbers are those that move and have a number
below the start on their cycle (`Marked`). So a start that moves and has no mark is the least number
of a cycle without marks. The walk goes round it once (`walk_iterate`), and what it marks is what
has to be marked for the next start (`markFrom_eq_some`). What is found are the cycles of the
permutation (`markedCycles_eq_some`), and rotating along them in any order carries each entry to its
value (`markedCycles_carry`).
-/

namespace Twisty.Permutation

open Function

/-- The numbers that a permutation goes through from `i` until it comes to a marked one, and the
marks with theirs. -/
def walk (p : List ℕ) (marks : List Bool) (i : ℕ) : Option (List ℕ × List Bool) :=
  match _h : marks[i]? with
  | none => none
  | some true => some ([], marks)
  | some false => do
    let j ← p[i]?
    let r ← walk p (marks.set i true) j
    return (i :: r.1, r.2)
termination_by marks.count false
decreasing_by
  obtain ⟨hi, hfalse⟩ := List.getElem?_eq_some_iff.1 ‹marks[i]? = some false›
  have hmem : false ∈ marks := hfalse ▸ List.getElem_mem hi
  rw [List.count_set hi]
  simp [hfalse, hmem]

/-- The cycles found so far and the marks, with the cycle of one more start. The next start is
counted up at once. -/
def markFrom (p : List ℕ) (found : List (List ℕ) × List Bool) (start : ℕ) :
    Option (List (List ℕ) × List Bool) := do
  let _ ← Bounded.short? (start + 1)
  if ← found.2[start]? then return found
  else if (← p[start]?) = start then return found
  else
    let r ← walk p found.2 start
    return (found.1 ++ [r.1], r.2)

/-- The cycles of a permutation, found with marks. -/
def markedCycles (p : List ℕ) : Option (List (List ℕ)) :=
  ((List.range p.length).foldlM (markFrom p) ([], List.replicate p.length false)).map Prod.fst

/-- Before a start, the marked numbers are those that move and have a number below the start on
their cycle. -/
structure Marked (p : List ℕ) (start : ℕ) (marks : List Bool) : Prop where
  length_eq : marks.length = p.length
  marked_iff : ∀ x, marks[x]? = some true ↔ image p x ≠ x ∧ ∃ k, (image p)^[k] x < start

/-- The cycles whose least numbers are below a start. -/
def cyclesBelow (p : List ℕ) (start : ℕ) : List (List ℕ) :=
  ((List.range start).filter fun i => image p i != i && (cycleFrom p i).all (i ≤ ·)).map
    (cycleFrom p)

variable {p : List ℕ} {marks : List Bool} {start : ℕ}

/-- A walk ends at an entry that has its mark. -/
theorem walk_of_marked {i : ℕ} (h : marks[i]? = some true) : walk p marks i = some ([], marks) := by
  unfold walk
  split <;> simp_all

/-- A walk marks an entry that has none, and goes on from its image. -/
theorem walk_of_unmarked {i : ℕ} (hi : i < p.length) (h : marks[i]? = some false) :
    walk p marks i =
      (walk p (marks.set i true) (image p i)).map fun r => (i :: r.1, r.2) := by
  rw [walk]
  split
  · simp_all
  · simp_all
  · rw [Bounded.getElem?_eq_image hi, Option.map_eq_bind]
    rfl

section Permutation

variable (hp : IsPermutation p)

include hp

/-- On a cycle that is marked up to a place with `n` more to come, the walk goes through these and
marks them. -/
theorem walk_iterate {i : ℕ} (hi : i < p.length) {j n : ℕ} (hj : j + n = minimalPeriod (image p) i)
    (hlen : marks.length = p.length)
    (hmarks : ∀ k < minimalPeriod (image p) i, marks[(image p)^[k] i]? = some (decide (k < j))) :
    ∃ marks', walk p marks ((image p)^[j] i) =
        some ((List.range' j n).map fun k => (image p)^[k] i, marks') ∧
      marks'.length = p.length ∧
      ∀ x, marks'[x]? = some true ↔ marks[x]? = some true ∨
        ∃ k ∈ List.range' j n, (image p)^[k] i = x := by
  have hpos := hp.minimalPeriod_pos i
  induction n generalizing j marks with
  | zero =>
    obtain rfl : j = minimalPeriod (image p) i := hj
    refine ⟨marks, ?_, hlen, by simp⟩
    rw [iterate_minimalPeriod]
    exact walk_of_marked (by simpa [hpos] using hmarks 0 hpos)
  | succ n ih =>
    have hjlt : j < minimalPeriod (image p) i := by omega
    have hx : (image p)^[j] i < marks.length := hlen ▸ hp.iterate_lt hi j
    have hset : ∀ k < minimalPeriod (image p) i,
        (marks.set ((image p)^[j] i) true)[(image p)^[k] i]? = some (decide (k < j + 1)) := by
      intro k hk
      rcases eq_or_ne k j with rfl | hne
      · simp [hx]
      · have hdiff : (image p)^[j] i ≠ (image p)^[k] i := fun h =>
          hne (iterate_injOn_Iio_minimalPeriod hjlt hk h).symm
        rw [List.getElem?_set_ne hdiff, hmarks k hk]
        exact congrArg some (decide_eq_decide.2 (by omega))
    obtain ⟨marks', hwalk, hlen', hmarks'⟩ := ih (by omega) (by simpa using hlen) hset
    refine ⟨marks', ?_, hlen', fun x => ?_⟩
    · rw [walk_of_unmarked (hlen ▸ hx) (by simpa using hmarks j hjlt),
        ← iterate_succ_apply' (image p), hwalk, List.range'_succ]
      rfl
    · rw [hmarks' x, List.range'_succ, List.getElem?_set]
      rcases eq_or_ne ((image p)^[j] i) x with rfl | h
      · simp [hx]
      · simp [h]

/-- A walk from an entry with no marks on its cycle gives that cycle and marks its entries. -/
theorem walk_eq_some {i : ℕ} (hi : i < p.length) (hlen : marks.length = p.length)
    (hmarks : ∀ k, marks[(image p)^[k] i]? = some false) :
    ∃ marks', walk p marks i = some (cycleFrom p i, marks') ∧ marks'.length = p.length ∧
      ∀ x, marks'[x]? = some true ↔ marks[x]? = some true ∨ x ∈ cycleFrom p i := by
  obtain ⟨marks', hwalk, hlen', hmarks'⟩ :=
    walk_iterate hp hi (j := 0) (Nat.zero_add _) hlen fun k _ => by simpa using hmarks k
  rw [cycleFrom_eq_map hp hi, List.range_eq_range']
  exact ⟨marks', hwalk, hlen', fun x => by rw [hmarks' x, List.mem_map]⟩

/-! ## One start after another -/

theorem image_iterate_ne_iff (i k : ℕ) :
    image p ((image p)^[k] i) ≠ (image p)^[k] i ↔ image p i ≠ i := by
  rw [← iterate_succ_apply' (image p), iterate_succ_apply]
  exact (hp.injective.iterate k).ne_iff

/-- The number comes to a start up to this one if it comes to one below or is on the cycle of this
one. -/
theorem exists_iterate_lt_succ_iff {x : ℕ} : (∃ k, (image p)^[k] x < start + 1) ↔
    (∃ k, (image p)^[k] x < start) ∨ ∃ k, (image p)^[k] start = x := by
  constructor
  · rintro ⟨k, hk⟩
    rcases Nat.lt_succ_iff_lt_or_eq.1 hk with hlt | rfl
    · exact .inl ⟨k, hlt⟩
    · exact .inr (exists_iterate_eq hp x k)
  · rintro (⟨k, hk⟩ | ⟨k, rfl⟩)
    · exact ⟨k, hk.trans (Nat.lt_succ_self start)⟩
    · obtain ⟨j, hj⟩ := exists_iterate_eq hp start k
      exact ⟨j, hj.trans_lt (Nat.lt_succ_self start)⟩

/-- A start that stays, or that has a number below it on its cycle, needs no marks. -/
theorem Marked.skip (h : Marked p start marks)
    (hcycle : image p start ≠ start → ∃ k, (image p)^[k] start < start) :
    Marked p (start + 1) marks := by
  refine ⟨h.length_eq, fun x => ?_⟩
  rw [h.marked_iff, exists_iterate_lt_succ_iff hp]
  refine and_congr_right fun hx => (or_iff_left_of_imp ?_).symm
  rintro ⟨k, rfl⟩
  obtain ⟨a, ha⟩ := hcycle ((image_iterate_ne_iff hp start k).1 hx)
  obtain ⟨b, hb⟩ := exists_iterate_eq hp start k
  exact ⟨a + b, by rwa [iterate_add_apply, hb]⟩

/-- A start that moves needs the marks of its cycle. -/
theorem Marked.mark (h : Marked p start marks) (hs : start < p.length)
    (hmoves : image p start ≠ start) {marks' : List Bool} (hlen : marks'.length = p.length)
    (hmarks : ∀ x, marks'[x]? = some true ↔ marks[x]? = some true ∨ x ∈ cycleFrom p start) :
    Marked p (start + 1) marks' := by
  refine ⟨hlen, fun x => ?_⟩
  rw [hmarks, h.marked_iff, exists_iterate_lt_succ_iff hp, mem_cycleFrom hp hs, and_or_left]
  refine or_congr_right (iff_and_self.2 ?_)
  rintro ⟨k, rfl⟩
  exact (image_iterate_ne_iff hp start k).2 hmoves

/-- When the scan comes to the least entry of a cycle that cycle has no marks. -/
theorem Marked.unmarked_of_least (h : Marked p start marks) (hs : start < p.length)
    (hleast : ∀ k, start ≤ (image p)^[k] start) (k : ℕ) :
    marks[(image p)^[k] start]? = some false := by
  have hlt : (image p)^[k] start < marks.length := h.length_eq ▸ hp.iterate_lt hs k
  rw [List.getElem?_eq_getElem hlt, Option.some_inj, ← Bool.not_eq_true]
  intro htrue
  obtain ⟨-, j, hj⟩ := (h.marked_iff _).1 (List.getElem?_eq_some_iff.2 ⟨hlt, htrue⟩)
  rw [← iterate_add_apply] at hj
  exact (hleast (j + k)).not_gt hj

/-- The least entry of a cycle of two or more adds that cycle. -/
theorem cyclesBelow_succ_of_least (hs : start < p.length) (hmoves : image p start ≠ start)
    (hleast : ∀ k, start ≤ (image p)^[k] start) :
    cyclesBelow p (start + 1) = cyclesBelow p start ++ [cycleFrom p start] := by
  have hall := (all_le_cycleFrom_iff hp hs).2 hleast
  simp [cyclesBelow, List.range_succ, hmoves, hall]

/-- An entry that does not move or is not the least of its cycle adds nothing. -/
theorem cyclesBelow_succ_of_not_least (hs : start < p.length)
    (hnot : image p start ≠ start → ∃ k, (image p)^[k] start < start) :
    cyclesBelow p (start + 1) = cyclesBelow p start := by
  have hnone : [start].filter (fun i => image p i != i && (cycleFrom p i).all (i ≤ ·)) = [] := by
    refine List.filter_eq_nil_iff.2 fun i hi hfound => ?_
    obtain rfl := List.mem_singleton.1 hi
    rw [Bool.and_eq_true, bne_iff_ne] at hfound
    obtain ⟨k, hk⟩ := hnot hfound.1
    exact ((all_le_cycleFrom_iff hp hs).1 hfound.2 k).not_gt hk
  rw [cyclesBelow, List.range_succ, List.filter_append, hnone, List.append_nil]
  rfl

/-- One start adds the cycle that is least there, if there is one, and marks it. -/
theorem markFrom_eq_some (hs : start < p.length) (hlen : p.length ≤ 65535)
    (h : Marked p start marks) :
    ∃ marks', markFrom p (cyclesBelow p start, marks) start =
      some (cyclesBelow p (start + 1), marks') ∧ Marked p (start + 1) marks' := by
  have hshort : Bounded.short? (start + 1) = some (start + 1) :=
    Bounded.short?_eq_some (by omega)
  have hvalue := Bounded.getElem?_eq_image hs
  obtain ⟨b, hb⟩ : ∃ b, marks[start]? = some b :=
    ⟨_, List.getElem?_eq_getElem (h.length_eq ▸ hs)⟩
  cases b with
  | true =>
    have hbelow := ((h.marked_iff start).1 hb).2
    refine ⟨marks, ?_, h.skip hp fun _ => hbelow⟩
    rw [cyclesBelow_succ_of_not_least hp hs fun _ => hbelow]
    simp [markFrom, hshort, hb]
  | false =>
    by_cases hfix : image p start = start
    · refine ⟨marks, ?_, h.skip hp fun hmoves => absurd hfix hmoves⟩
      rw [cyclesBelow_succ_of_not_least hp hs fun hmoves => absurd hfix hmoves]
      simp [markFrom, hshort, hb, hvalue, hfix]
    · have hleast : ∀ k, start ≤ (image p)^[k] start := fun k => by
        by_contra hlt
        have hmark := (h.marked_iff start).2 ⟨hfix, k, not_le.1 hlt⟩
        simp [hb] at hmark
      obtain ⟨marks', hwalk, hlen', hmarks'⟩ :=
        walk_eq_some hp hs h.length_eq (h.unmarked_of_least hp hs hleast)
      refine ⟨marks', ?_, h.mark hp hs hfix hlen' hmarks'⟩
      rw [cyclesBelow_succ_of_least hp hs hfix hleast]
      simp [markFrom, hshort, hb, hvalue, hfix, hwalk]

omit hp in
theorem marked_zero (p : List ℕ) : Marked p 0 (List.replicate p.length false) := by
  refine ⟨List.length_replicate, fun x => ?_⟩
  simp [List.getElem?_replicate]

/-- The marks find the cycles of a permutation. -/
theorem markedCycles_eq_some (hlen : p.length ≤ 65535) : markedCycles p = some (cycles p) := by
  have hrun : ∀ m ≤ p.length, ∃ marks, Marked p m marks ∧
      (List.range m).foldlM (markFrom p) ([], List.replicate p.length false) =
        some (cyclesBelow p m, marks) := by
    intro m hm
    induction m with
    | zero => exact ⟨_, marked_zero p, rfl⟩
    | succ m ih =>
      obtain ⟨marks, hmarked, hfold⟩ := ih (Nat.le_of_succ_le hm)
      obtain ⟨marks', hstep, hmarked'⟩ := markFrom_eq_some hp hm hlen hmarked
      refine ⟨marks', hmarked', ?_⟩
      rw [List.range_succ, List.foldlM_append, hfold]
      simp [hstep]
  obtain ⟨marks, -, hfold⟩ := hrun p.length le_rfl
  rw [markedCycles, hfold]
  rfl

/-- A permutation of at most 65535 numbers is taken apart with marks, and no step leaves its range.
The cycles have no number in common. Each has at least two numbers, all different, and starts at the
least of them, and they come in the order of their starts. They hold the numbers that move. Rotating
along them in any order, each exchange finds both its entries, and each entry comes to the place
that the permutation gives. -/
theorem markedCycles_carry {α : Type} (hlen : p.length ≤ 65535) :
    markedCycles p = some (cycles p) ∧ (cycles p).Pairwise List.Disjoint ∧
      (∀ c ∈ cycles p, 2 ≤ c.length ∧ c.Nodup ∧ ∀ i ∈ c.head?, ∀ x ∈ c, i ≤ x) ∧
      (cycles p).Pairwise (fun c d => ∀ i ∈ c.head?, ∀ j ∈ d.head?, i < j) ∧
      (∀ x, x ∈ (cycles p).flatten ↔ image p x ≠ x) ∧
      ∀ cs : List (List ℕ), cs.Perm (cycles p) → ∀ l : List α, l.length = p.length →
        ∃ m, cs.foldlM (fun l c => Bounded.rotate c l) l = some m ∧ m.length = l.length ∧
          ∀ i < p.length, m[image p i]? = l[i]? := by
  refine ⟨markedCycles_eq_some hp hlen, disjoint_cycles hp, fun c hc => ?_, pairwise_head_cycles,
    fun x => mem_flatten_cycles hp, fun cs hcs l hl => ?_⟩
  · have hnodup := (List.nodup_flatten.1 (nodup_flatten_cycles hp)).1 c hc
    exact ⟨two_le_length_of_mem_cycles hp hc, hnodup, fun i hi x => head_le_of_mem_cycles hp hc hi⟩
  · have hcarry := carries_of_perm hp hcs hl
    refine ⟨_, Bounded.foldlM_eq_some (P := fun l => l.length = p.length) hl fun l hl c hc => ?_,
      hcarry.length_eq, hl ▸ hcarry.getElem?_eq⟩
    have hlt : ∀ i ∈ c, i < l.length := fun i hi => hl ▸ lt_of_mem_cycles hp (hcs.mem_iff.1 hc) hi
    exact ⟨Bounded.rotate_eq_some hlt, (length_rotate c l).trans hl⟩

end Permutation

/-- A permutation that leaves 1 where it is, lets 0 and 2 trade places and moves 3, 4 and 5 round,
and its cycles taken in the other order. -/
theorem markedCycles_carry_six :
    IsPermutation [2, 1, 0, 4, 5, 3] ∧ [2, 1, 0, 4, 5, 3].length ≤ 65535 ∧
      markedCycles [2, 1, 0, 4, 5, 3] = some [[0, 2], [3, 4, 5]] ∧
      [[3, 4, 5], [0, 2]].Perm (cycles [2, 1, 0, 4, 5, 3]) ∧
      ∃ m, [[3, 4, 5], [0, 2]].foldlM (fun l c => Bounded.rotate c l)
          ['a', 'b', 'c', 'd', 'e', 'f'] = some m ∧ m[2]? = some 'a' ∧ m[3]? = some 'f' := by
  have hp : IsPermutation [2, 1, 0, 4, 5, 3] := ⟨by decide, by decide⟩
  have hlen : [2, 1, 0, 4, 5, 3].length ≤ 65535 := by decide
  have hperm : [[3, 4, 5], [0, 2]].Perm (cycles [2, 1, 0, 4, 5, 3]) := by decide
  obtain ⟨hfound, -, -, -, -, hrotate⟩ := markedCycles_carry (α := Char) hp hlen
  obtain ⟨m, hm, -, hentry⟩ := hrotate _ hperm ['a', 'b', 'c', 'd', 'e', 'f'] rfl
  exact ⟨hp, hlen, hfound.trans (by decide), hperm, m, hm, hentry 0 (by decide),
    hentry 5 (by decide)⟩

end Twisty.Permutation
