import Twisty.Cube.Basic
import Mathlib.Data.Nat.Notation
import Mathlib.Tactic.SplitIfs

/-!
# Cycles are checked before they are done

`applyCycles` goes through its cycles twice. The first loop only looks at the cube : whatever its
checks find, it hands on the cube it was given (`fst_tryEach_checkCycle`). So every cycle is checked
on the cube as it was at the start, and if one of them fails its check the cube is left as it was
(`eq_of_applyCycles_eq_some`).

If no check fails, all the cycles are done (`applyCycles_eq_rotate`). Those that the first loop
leaves out have a single slot, and they would not move a sticker (`rotateCycle_of_single`). If some
fail, the first of them says why (`applyCycles_of_error`).
-/

namespace Twisty

variable {α : Type} {x : Cycle} {cs : List Cycle}

namespace Cube

variable {c d : Cube α}

/-! ## The first loop -/

/-- A check leaves the cube alone. -/
theorem fst_checkCycle (s : Cube α × Array Cycle) (x : Cycle) : (checkCycle s x).1.1 = s.1 := by
  obtain ⟨c, moving⟩ := s
  dsimp only [checkCycle]
  split <;> rfl

/-- The checks of cycles leave the cube alone, also where one of them fails. -/
theorem fst_tryEach_checkCycle (c : Cube α) (moving : Array Cycle) (cs : List Cycle) :
    (tryEach checkCycle (c, moving) cs).1.1 = c :=
  tryEach_kept (P := fun s => s.1 = c) (fun s x hs => (fst_checkCycle s x).trans hs) rfl cs

/-- The checks of cycles collect those that are found to move stickers of the cube. -/
theorem check_of_mem_tryEach (c : Cube α) (cs : List Cycle) :
    ∀ x ∈ (tryEach checkCycle (c, #[]) cs).1.2, x.check (c.orbit? x.kind) = .ok true := by
  refine (tryEach_kept (P := fun s : Cube α × Array Cycle => s.1 = c ∧
    ∀ x ∈ s.2, x.check (c.orbit? x.kind) = .ok true) ?_ ⟨rfl, by simp⟩ cs).2
  rintro ⟨d, moving⟩ x ⟨rfl, hmoving⟩
  dsimp only [checkCycle]
  split
  · next hcheck =>
    refine ⟨rfl, fun y hy => ?_⟩
    rcases Array.mem_push.1 hy with hy | rfl
    · exact hmoving y hy
    · exact hcheck
  · exact ⟨rfl, hmoving⟩
  · exact ⟨rfl, hmoving⟩

/-! ## The second loop -/

@[simp] theorem rotate_nil (c : Cube α) : c.rotate [] = c :=
  rfl

/-- The first cycle is done first. -/
theorem rotate_cons (c : Cube α) (x : Cycle) (cs : List Cycle) :
    c.rotate (x :: cs) = (c.rotateCycle x).rotate cs :=
  rfl

/-- Cycles of two lists are done one list after the other. -/
theorem rotate_append (c : Cube α) (cs ds : List Cycle) :
    c.rotate (cs ++ ds) = (c.rotate cs).rotate ds :=
  List.foldl_append

/-- A cycle of one slot moves nothing. -/
theorem rotateCycle_of_single {s : ℕ} (c : Cube α) (hx : x.slots = [s]) : c.rotateCycle x = c := by
  have horbit : ∀ o : Orbit α, (if o.kind = x.kind then o.rotate x.slots else o) = o := by
    intro o
    rw [hx]
    exact ite_self o
  have horbits : (c.rotateCycle x).orbits = c.orbits := by
    simp only [rotateCycle, horbit, List.map_id']
  exact congrArg (Cube.mk c.size) horbits

/-- Only a cycle of one slot passes its check and moves nothing, since the orbit is the one of its
kind. -/
theorem exists_single_of_check (h : x.check (c.orbit? x.kind) = .ok false) :
    ∃ s, x.slots = [s] := by
  unfold Cycle.check at h
  split at h
  · cases h
  · next s hs => exact ⟨s, hs⟩
  · cases ho : c.orbit? x.kind with
    | none =>
      rw [ho] at h
      cases h
    | some o =>
      have hkind : o.kind = x.kind := by simpa using List.find?_some ho
      rw [ho] at h
      dsimp only at h
      split_ifs at h with hempty hother
      · exact absurd hkind hother
      · split at h <;> cases h

/-! ## Both loops -/

/-- A list of cycles that fails leaves the cube as it was. -/
theorem eq_of_applyCycles_eq_some {e : CubeError} (h : c.applyCycles cs = (d, some e)) : d = c := by
  have hkept := fst_tryEach_checkCycle c #[] cs
  unfold applyCycles at h
  split at h
  · cases h
  · next hchecks =>
    cases h
    rw [hchecks] at hkept
    exact hkept

/-- Cycles move stickers along some cycles that passed their checks on the cube, or along none. -/
theorem exists_rotate_eq_applyCycles (c : Cube α) (cs : List Cycle) :
    ∃ moving, (c.applyCycles cs).1 = c.rotate moving ∧
      ∀ x ∈ moving, x.check (c.orbit? x.kind) = .ok true := by
  have hkept := fst_tryEach_checkCycle c #[] cs
  have hmoving := check_of_mem_tryEach c cs
  unfold applyCycles
  split
  · next d moving hchecks =>
    rw [hchecks] at hkept hmoving
    cases hkept
    exact ⟨moving.toList, rfl, fun x hx => hmoving x (Array.mem_toList_iff.1 hx)⟩
  · next d moving e hchecks =>
    rw [hchecks] at hkept
    cases hkept
    exact ⟨[], rfl, by simp⟩

/-- Checks that do not fail collect cycles that move the stickers as all the cycles would. -/
theorem tryEach_checkCycle_of_ok (hcs : ∀ x ∈ cs, ∃ moves, x.check (c.orbit? x.kind) = .ok moves)
    (moving : Array Cycle) :
    ∃ moving', tryEach checkCycle (c, moving) cs = ((c, moving'), none) ∧
      c.rotate moving'.toList = (c.rotate moving.toList).rotate cs := by
  induction cs generalizing moving with
  | nil => exact ⟨moving, rfl, rfl⟩
  | cons x cs ih =>
    have hrest := ih fun y hy => hcs y (List.mem_cons_of_mem x hy)
    obtain ⟨moves, hmoves⟩ := hcs x (by simp)
    cases moves with
    | false =>
      have hstep : checkCycle (c, moving) x = ((c, moving), none) := by
        simp only [checkCycle, hmoves]
      obtain ⟨s, hs⟩ := exists_single_of_check hmoves
      obtain ⟨moving', hchecks, hrotate⟩ := hrest moving
      refine ⟨moving', (tryEach_cons_of_none hstep cs).trans hchecks, ?_⟩
      rw [hrotate, rotate_cons, rotateCycle_of_single _ hs]
    | true =>
      have hstep : checkCycle (c, moving) x = ((c, moving.push x), none) := by
        simp only [checkCycle, hmoves]
      obtain ⟨moving', hchecks, hrotate⟩ := hrest (moving.push x)
      refine ⟨moving', (tryEach_cons_of_none hstep cs).trans hchecks, ?_⟩
      rw [hrotate, Array.toList_push, rotate_append]
      rfl

/-- If no check fails, all the cycles are done. -/
theorem applyCycles_eq_rotate
    (hcs : ∀ x ∈ cs, ∃ moves, x.check (c.orbit? x.kind) = .ok moves) :
    c.applyCycles cs = (c.rotate cs, none) := by
  obtain ⟨moving, hchecks, hrotate⟩ := tryEach_checkCycle_of_ok hcs #[]
  rw [applyCycles, hchecks]
  exact congrArg (·, none) hrotate

/-- The first cycle that fails its check says why, and no cycle is done. -/
theorem applyCycles_of_error {pre : List Cycle} {e : CubeError}
    (hpre : ∀ y ∈ pre, ∃ moves, y.check (c.orbit? y.kind) = .ok moves)
    (hx : x.check (c.orbit? x.kind) = .error e) (post : List Cycle) :
    c.applyCycles (pre ++ x :: post) = (c, some e) := by
  obtain ⟨moving, hchecks, -⟩ := tryEach_checkCycle_of_ok hpre #[]
  have hstep : checkCycle (c, moving) x = ((c, moving), some e) := by
    simp only [checkCycle, hx]
  rw [applyCycles, tryEach_append_of_none hchecks, tryEach_cons_of_some hstep]

end Cube

end Twisty
