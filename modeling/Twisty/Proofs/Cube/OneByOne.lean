import Twisty.Proofs.Cube.Reachable

/-!
# Cycles one by one

`applyCycles` checks all the cycles of a list before it moves a sticker. One can also take the
cycles one after another, each with the orbit of its kind and checked just before it is done
(`applyOneByOne`).

Which cycles fail their check is a matter of the size of the cube alone (`Cycle.Faulty`,
`WellFormed.check_of_faulty`). So what was done before does not change what a check finds, and
without faulty cycles both ways reach the same cube (`WellFormed.applyCycles_of_not_faulty`,
`WellFormed.applyOneByOne_of_not_faulty`). The first faulty cycle of a list says why it cannot be
done, and then `applyCycles` leaves the cube as it was (`applyCycles_all_or_none`). One after
another, the cycles before it stay done (`WellFormed.applyOneByOne_of_faulty`).
-/

namespace Twisty

variable {α : Type} {n : ℕ} {x : Cycle} {cs : List Cycle}

/-! ## Faulty cycles -/

namespace Cycle

/-- A cycle cannot be done on an `n`-layer cube : it has no slots, or it has several and the cube
has not its kind or not all of its slots. -/
def Faulty (n : ℕ) (x : Cycle) : Prop :=
  x.slots = [] ∨ 2 ≤ x.slots.length ∧
    (x.kind ∉ (Inventory.full n).kinds ∨ ∃ s ∈ x.slots, x.kind.size ≤ s)

instance (n : ℕ) (x : Cycle) : Decidable (x.Faulty n) :=
  inferInstanceAs (Decidable (_ ∨ _))

/-- A cycle that is not faulty has a single slot, or its slots are on the cube. -/
theorem exists_single_or_isProper (h : ¬x.Faulty n) :
    (∃ s, x.slots = [s]) ∨ x.IsProper ∧ x.kind ∈ (Inventory.full n).kinds := by
  obtain ⟨hne, hseveral⟩ := not_or.1 h
  by_cases hlen : 2 ≤ x.slots.length
  · obtain ⟨hkind, hslots⟩ := not_or.1 (not_and.1 hseveral hlen)
    refine .inr ⟨⟨hlen, fun s hs => ?_⟩, not_not.1 hkind⟩
    exact Nat.not_le.1 fun hle => hslots ⟨s, hs, hle⟩
  · have hpos := List.length_pos_iff.2 hne
    exact .inl (List.length_eq_one_iff.1 (by omega))

end Cycle

namespace Cube

variable {c : Cube α}

/-- A cycle of one slot passes its check and moves nothing. -/
theorem check_of_single {s : ℕ} (c : Cube α) (hx : x.slots = [s]) :
    x.check (c.orbit? x.kind) = .ok false := by
  rw [Cycle.check, hx]

namespace WellFormed

/-- A cube has no orbit of a kind that is not one of its size. -/
theorem orbit?_eq_none (h : c.WellFormed n) {k : SlotKind} (hk : k ∉ (Inventory.full n).kinds) :
    c.orbit? k = none := by
  refine List.find?_eq_none.2 fun o ho hok => hk ?_
  rw [← of_decide_eq_true hok]
  exact h.kind_mem ho

/-- A cube has one orbit of each kind. -/
theorem eq_of_kind_eq (h : c.WellFormed n) {o o' : Orbit α} (ho : o ∈ c.orbits)
    (ho' : o' ∈ c.orbits) (hk : o'.kind = o.kind) : o' = o := by
  have hfound := h.orbit?_kind ho'
  rw [hk, h.orbit?_kind ho] at hfound
  exact (Option.some.inj hfound).symm

/-- A faulty cycle fails its check on every cube of the size. -/
theorem check_of_faulty (h : c.WellFormed n) (hx : x.Faulty n) :
    ∃ e, x.check (c.orbit? x.kind) = .error e := by
  obtain ⟨k, slots⟩ := x
  rcases hx with rfl | ⟨hlen, hx⟩
  · exact ⟨.emptyCycle k, rfl⟩
  · dsimp only at hlen hx ⊢
    match slots, hlen with
    | i :: j :: is, _ =>
      by_cases hk : k ∈ (Inventory.full n).kinds
      · obtain ⟨o, ho, rfl⟩ := h.exists_orbit hk
        obtain ⟨s, hs, hle⟩ := hx.resolve_left (not_not.2 hk)
        rw [← h.length_slots o ho] at hle
        obtain ⟨t, ht⟩ : ∃ t, (i :: j :: is).find? (o.slots.length ≤ ·) = some t :=
          Option.isSome_iff_exists.1 (List.find?_isSome.2 ⟨s, hs, decide_eq_true hle⟩)
        have hempty : o.slots ≠ [] := Orbit.slots_ne_nil (h.length_slots o ho)
        refine ⟨.slotOutOfRange o.kind t o.slots.length, ?_⟩
        simp [Cycle.check, h.orbit?_kind ho, hempty, ht]
      · refine ⟨.missingOrbit k, ?_⟩
        simp [Cycle.check, h.orbit?_eq_none hk]

/-- A cycle that is not faulty passes its check on every cube of the size. -/
theorem check_of_not_faulty (h : c.WellFormed n) (hx : ¬x.Faulty n) :
    ∃ moves, x.check (c.orbit? x.kind) = .ok moves := by
  rcases Cycle.exists_single_or_isProper hx with ⟨s, hs⟩ | ⟨hx, hk⟩
  · exact ⟨false, check_of_single c hs⟩
  · exact ⟨true, h.check_of_isProper hx hk⟩

/-! ## All at once -/

/-- Cycles that are not faulty can all be done. -/
theorem applyCycles_of_not_faulty (h : c.WellFormed n) (hcs : ∀ x ∈ cs, ¬x.Faulty n) :
    c.applyCycles cs = (c.rotate cs, none) :=
  applyCycles_eq_rotate fun x hx => h.check_of_not_faulty (hcs x hx)

/-- The first faulty cycle says why cycles cannot be done, and none of them is. -/
theorem applyCycles_of_faulty (h : c.WellFormed n) {pre : List Cycle}
    (hpre : ∀ y ∈ pre, ¬y.Faulty n) {e : CubeError} (hx : x.check (c.orbit? x.kind) = .error e)
    (post : List Cycle) : c.applyCycles (pre ++ x :: post) = (c, some e) :=
  applyCycles_of_error (fun y hy => h.check_of_not_faulty (hpre y hy)) hx post

end WellFormed

/-! ## One after another -/

/-- A cube with another orbit in the place of the one of its kind. -/
def replaceOrbit (c : Cube α) (o : Orbit α) : Cube α :=
  { c with orbits := c.orbits.map fun o' => if o'.kind = o.kind then o else o' }

/-- Move the stickers of a cube along one cycle, if it can be done on the orbit of its kind. -/
def applyCycle (c : Cube α) (x : Cycle) : Cube α × Option CubeError :=
  match x.apply (c.orbit? x.kind) with
  | .ok o => (o.elim c c.replaceOrbit, none)
  | .error e => (c, some e)

/-- Move the stickers of a cube along cycles one after another, each checked just before it is done,
up to the first that cannot be done. -/
def applyOneByOne (c : Cube α) (cs : List Cycle) : Cube α × Option CubeError :=
  tryEach applyCycle c cs

namespace WellFormed

/-- To rotate a cube along a cycle is to rotate the orbit of its kind. -/
theorem replaceOrbit_rotate (h : c.WellFormed n) {o : Orbit α} (ho : o ∈ c.orbits)
    (hk : x.kind = o.kind) : c.replaceOrbit (o.rotate x.slots) = c.rotateCycle x := by
  have horbit : ∀ o' ∈ c.orbits, (if o'.kind = o.kind then o.rotate x.slots else o') =
      if o'.kind = x.kind then o'.rotate x.slots else o' := by
    intro o' ho'
    rw [hk]
    split_ifs with heq
    · rw [h.eq_of_kind_eq ho ho' heq]
    · rfl
  exact congrArg (Cube.mk c.size) (List.map_congr_left horbit)

/-- An orbit put back changes nothing. -/
theorem replaceOrbit_self (h : c.WellFormed n) {o : Orbit α} (ho : o ∈ c.orbits) :
    c.replaceOrbit o = c := by
  have horbit : ∀ o' ∈ c.orbits, (if o'.kind = o.kind then o else o') = o' := by
    intro o' ho'
    split_ifs with heq
    · exact (h.eq_of_kind_eq ho ho' heq).symm
    · rfl
  exact congrArg (Cube.mk c.size) ((List.map_congr_left horbit).trans (List.map_id' _))

/-- A cycle that is not faulty can be done by itself. -/
theorem applyCycle_of_not_faulty (h : c.WellFormed n) (hx : ¬x.Faulty n) :
    c.applyCycle x = (c.rotateCycle x, none) := by
  rcases Cycle.exists_single_or_isProper hx with ⟨s, hs⟩ | ⟨hx, hk⟩
  · have happly : x.apply (c.orbit? x.kind) = .ok (c.orbit? x.kind) := by
      rw [Cycle.apply, check_of_single c hs]
      rfl
    rw [applyCycle, happly, rotateCycle_of_single c hs]
    refine congrArg (·, none) ?_
    cases ho : c.orbit? x.kind with
    | none => rfl
    | some o => exact h.replaceOrbit_self (List.mem_of_find?_eq_some ho)
  · obtain ⟨o, ho, hok⟩ := h.exists_orbit hk
    have happly : x.apply (c.orbit? x.kind) = .ok (some (o.rotate x.slots)) := by
      rw [Cycle.apply, h.check_of_isProper hx hk, ← hok, h.orbit?_kind ho]
      rfl
    rw [applyCycle, happly]
    exact congrArg (·, none) (h.replaceOrbit_rotate ho hok.symm)

/-- Cycles that are not faulty can be done one after another, and come to the same cube. -/
theorem applyOneByOne_of_not_faulty (h : c.WellFormed n) (hcs : ∀ x ∈ cs, ¬x.Faulty n) :
    c.applyOneByOne cs = (c.rotate cs, none) := by
  induction cs generalizing c with
  | nil => rfl
  | cons x cs ih =>
    have hfirst := h.applyCycle_of_not_faulty (hcs x (by simp))
    have hrest := ih (h.rotate [x]) fun y hy => hcs y (List.mem_cons_of_mem x hy)
    exact (tryEach_cons_of_none hfirst cs).trans hrest

/-- One after another, the cycles before the first faulty one stay done. -/
theorem applyOneByOne_of_faulty (h : c.WellFormed n) {pre : List Cycle}
    (hpre : ∀ y ∈ pre, ¬y.Faulty n) (hx : x.Faulty n) (post : List Cycle) :
    ∃ e, c.applyOneByOne (pre ++ x :: post) = (c.rotate pre, some e) := by
  obtain ⟨e, he⟩ := (h.rotate pre).check_of_faulty hx
  have hfails : (c.rotate pre).applyCycle x = (c.rotate pre, some e) := by
    rw [applyCycle, Cycle.apply, he]
    rfl
  refine ⟨e, ?_⟩
  rw [applyOneByOne, tryEach_append_of_none (h.applyOneByOne_of_not_faulty hpre),
    tryEach_cons_of_some hfails]

end WellFormed

/-- Cycles are applied all or none. They fail exactly if one of them is faulty. Then the check of
the first faulty one says why, and the cube that is reached is the cube as it was. Otherwise the
cube comes out as if the cycles were done one after another, and none of these fails. -/
theorem applyCycles_all_or_none (hc : c.Reachable n) (cs : List Cycle) :
    ((∃ e, (c.applyCycles cs).2 = some e) ↔ ∃ x ∈ cs, x.Faulty n) ∧
      (∀ pre x post, cs = pre ++ x :: post → (∀ y ∈ pre, ¬y.Faulty n) → x.Faulty n →
        ∃ e, x.check (c.orbit? x.kind) = .error e ∧ c.applyCycles cs = (c, some e) ∧
          c.perform (.cycles cs) = c) ∧
      ((∀ x ∈ cs, ¬x.Faulty n) →
        ∃ d, c.applyCycles cs = (d, none) ∧ c.applyOneByOne cs = (d, none) ∧
          c.perform (.cycles cs) = d) := by
  have h := hc.wellFormed
  have hfirst : ∀ pre x post, cs = pre ++ x :: post → (∀ y ∈ pre, ¬y.Faulty n) → x.Faulty n →
      ∃ e, x.check (c.orbit? x.kind) = .error e ∧ c.applyCycles cs = (c, some e) := by
    rintro pre x post rfl hpre hx
    obtain ⟨e, he⟩ := h.check_of_faulty hx
    exact ⟨e, he, h.applyCycles_of_faulty hpre he post⟩
  refine ⟨⟨?_, ?_⟩, ?_, fun hcs => ?_⟩
  · rintro ⟨e, he⟩
    by_contra hno
    have hcs : ∀ x ∈ cs, ¬x.Faulty n := fun x hx hfaulty => hno ⟨x, hx, hfaulty⟩
    rw [h.applyCycles_of_not_faulty hcs] at he
    cases he
  · rintro ⟨y, hy, hfaulty⟩
    obtain ⟨x, hx⟩ : ∃ x, cs.find? (·.Faulty n) = some x :=
      Option.isSome_iff_exists.1 (List.find?_isSome.2 ⟨y, hy, decide_eq_true hfaulty⟩)
    obtain ⟨hx, pre, post, hcs, hpre⟩ := List.find?_eq_some_iff_append.1 hx
    obtain ⟨e, -, happly⟩ := hfirst pre x post hcs (by simpa using hpre) (of_decide_eq_true hx)
    exact ⟨e, congrArg Prod.snd happly⟩
  · intro pre x post hcs hpre hx
    obtain ⟨e, he, happly⟩ := hfirst pre x post hcs hpre hx
    exact ⟨e, he, happly, congrArg Prod.fst happly⟩
  · have happly := h.applyCycles_of_not_faulty hcs
    exact ⟨c.rotate cs, happly, h.applyOneByOne_of_not_faulty hcs, congrArg Prod.fst happly⟩

/-- On a scrambled cube of three layers a single slot of a kind that is not there does nothing, and
a cycle may name a slot twice. If a cycle of such a kind has two slots, none of the cycles is done,
and the empty one after it goes unnoticed. -/
theorem applyCycles_all_or_none_three :
    ∃ c : Cube ℕ, c = ((solved 3 Face.index).turnAll [⟨.right, 1, 2, 1⟩]).1 ∧ c.Reachable 3 ∧
      (∃ d, c.applyCycles [⟨.wing 7, [5]⟩, ⟨.midge, [0, 5, 0]⟩] = (d, none) ∧
        c.applyOneByOne [⟨.wing 7, [5]⟩, ⟨.midge, [0, 5, 0]⟩] = (d, none)) ∧
      ∃ e, Cycle.check ⟨.center 1 1, [0, 1]⟩ (c.orbit? (.center 1 1)) = .error e ∧
        c.applyCycles [⟨.midge, [0, 5]⟩, ⟨.center 1 1, [0, 1]⟩, ⟨.corner, []⟩] = (c, some e) ∧
        c.perform (.cycles [⟨.midge, [0, 5]⟩, ⟨.center 1 1, [0, 1]⟩, ⟨.corner, []⟩]) = c := by
  have hc := (Reachable.solved (by decide : 3 ≠ 0) Face.index).turnAll [⟨.right, 1, 2, 1⟩]
  obtain ⟨-, -, hdone⟩ := applyCycles_all_or_none hc [⟨.wing 7, [5]⟩, ⟨.midge, [0, 5, 0]⟩]
  obtain ⟨-, hfailed, -⟩ := applyCycles_all_or_none hc
    [⟨.midge, [0, 5]⟩, ⟨.center 1 1, [0, 1]⟩, ⟨.corner, []⟩]
  obtain ⟨d, happly, hone, -⟩ := hdone (by decide)
  exact ⟨_, rfl, hc, ⟨d, happly, hone⟩,
    hfailed [⟨.midge, [0, 5]⟩] _ [⟨.corner, []⟩] rfl (by decide) (by decide)⟩

/-- One after another, the cycle before the faulty one stays done. -/
example : ((solved 3 Face.index).applyOneByOne [⟨.midge, [0, 5]⟩, ⟨.center 1 1, [0, 1]⟩]).1 ≠
    solved 3 Face.index := by decide

end Cube

end Twisty
