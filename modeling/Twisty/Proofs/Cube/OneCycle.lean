import Twisty.Proofs.Cube.Stock

/-!
# The laws of one cycle

A cycle is done by exchanges from its end to its beginning, and it may name a slot more than once.
It carries the stickers of an orbit by `List.formPerm` of its slots all the same (`carries_rotate`),
so the cycle with its slots in reverse order takes them back (`rotate_reverse_rotate`). If no slot
is named twice, the sticker of each slot goes to the next (`getElem?_rotate_next`), and the cycle
done as often as it has slots leaves everything where it was (`iterate_rotate_length`).

`cycle_laws` says this of cycles that are checked before they are done.
-/

namespace Twisty

variable {α : Type} {is : List ℕ} {l : List α}

/-! ## Rotated lists -/

/-- What is carried nowhere stays the same. -/
theorem Carries.eq_self {σ : ℕ → ℕ} {m : List α} (h : Carries σ l m)
    (hσ : ∀ i < l.length, σ i = i) : m = l :=
  (h.congr hσ).unique (Carries.refl l) fun i hi => ⟨i, hi, rfl⟩

/-- Places that are not listed keep their entries. -/
theorem getElem?_rotate_of_notMem (h : ∀ i ∈ is, i < l.length) {i : ℕ} (hi : i ∉ is) :
    (rotate is l)[i]? = l[i]? := by
  by_cases hlt : i < l.length
  · have hcarry := (carries_rotate h).getElem?_eq i hlt
    rwa [List.formPerm_apply_of_notMem hi] at hcarry
  · have hout := Nat.not_lt.1 hlt
    rw [List.getElem?_eq_none hout, List.getElem?_eq_none ((length_rotate is l).trans_le hout)]

/-- Rotating along the places in reverse order undoes a rotation, also when places repeat. -/
theorem rotate_reverse_rotate (h : ∀ i ∈ is, i < l.length) :
    rotate is.reverse (rotate is l) = l := by
  have hback : Carries is.reverse.formPerm (rotate is l) (rotate is.reverse (rotate is l)) :=
    carries_rotate fun i hi => by simpa using h i (List.mem_reverse.1 hi)
  refine ((carries_rotate h).trans hback).eq_self fun i _ => ?_
  rw [List.formPerm_reverse]
  exact is.formPerm.symm_apply_apply i

/-- If no place repeats, the entry of each goes to the next, and that of the last to the first. -/
theorem getElem?_rotate_next (h : ∀ i ∈ is, i < l.length) (hn : is.Nodup) {i x y : ℕ}
    (hx : is[i]? = some x) (hy : is[(i + 1) % is.length]? = some y) :
    (rotate is l)[y]? = l[x]? := by
  obtain ⟨hi, rfl⟩ := List.getElem?_eq_some_iff.1 hx
  obtain ⟨hi', rfl⟩ := List.getElem?_eq_some_iff.1 hy
  rw [← List.formPerm_apply_getElem is hn i hi]
  exact (carries_rotate h).getElem?_eq _ (h _ (List.getElem_mem hi))

/-- A rotation done several times carries by a power of its permutation. -/
theorem carries_iterate_rotate (h : ∀ i ∈ is, i < l.length) (k : ℕ) :
    Carries (is.formPerm ^ k : Equiv.Perm ℕ) l ((rotate is)^[k] l) := by
  induction k generalizing l with
  | zero => exact Carries.refl l
  | succ k ih =>
    have hrest := ih (l := rotate is l) (by simpa using h)
    rw [pow_succ, Equiv.Perm.coe_mul]
    exact (carries_rotate h).trans hrest

/-- If no place repeats, a rotation done once for each place leaves the list as it was. -/
theorem iterate_rotate_length (h : ∀ i ∈ is, i < l.length) (hn : is.Nodup) :
    (rotate is)^[is.length] l = l := by
  refine (carries_iterate_rotate h is.length).eq_self fun i _ => ?_
  rw [List.formPerm_pow_length_eq_one_of_nodup is hn, Equiv.Perm.one_apply]

/-! ## Cycles of an orbit -/

namespace Cycle

variable {c : Cycle} {o : Orbit α}

/-- A cycle is of the kind of an orbit and has at least two slots, all of them slots of the orbit. A
slot may be named more than once. -/
structure Fits (c : Cycle) (o : Orbit α) : Prop where
  kind_eq : c.kind = o.kind
  two_le_length : 2 ≤ c.slots.length
  lt_length : ∀ s ∈ c.slots, s < o.slots.length

/-- The cycle that goes through the slots the other way. -/
def reverse (c : Cycle) : Cycle :=
  { c with slots := c.slots.reverse }

namespace Fits

theorem rotate (h : c.Fits o) (is : List ℕ) : c.Fits (o.rotate is) :=
  ⟨h.kind_eq, h.two_le_length, by simpa using h.lt_length⟩

theorem reverse (h : c.Fits o) : c.reverse.Fits o :=
  ⟨h.kind_eq, by simpa [Cycle.reverse] using h.two_le_length,
    by simpa [Cycle.reverse] using h.lt_length⟩

/-- An orbit that a cycle fits has slots. -/
theorem slots_ne_nil (h : c.Fits o) : o.slots ≠ [] := by
  obtain ⟨s, hs⟩ : ∃ s, s ∈ c.slots :=
    List.exists_mem_of_length_pos (Nat.lt_of_lt_of_le (by decide) h.two_le_length)
  exact List.length_pos_iff.1 (Nat.zero_lt_of_lt (h.lt_length s hs))

/-- A cycle that fits an orbit passes its check on it. -/
theorem check_eq (h : c.Fits o) : c.check (some o) = .ok true := by
  rw [check_eq_ok h.two_le_length h.slots_ne_nil fun _ => h.lt_length,
    decide_eq_true h.kind_eq.symm]

/-- A cycle that fits an orbit can be done on it, by exchanges. -/
theorem apply_eq (h : c.Fits o) : c.apply (some o) = .ok (some (o.rotate c.slots)) := by
  rw [Cycle.apply, h.check_eq]
  rfl

/-- A cycle that fits an orbit can be done on it several times. -/
theorem applyEach_replicate (h : c.Fits o) (k : ℕ) :
    applyEach (List.replicate k c) (some o) =
      .ok (some ⟨o.kind, (Twisty.rotate c.slots)^[k] o.slots⟩) := by
  induction k generalizing o with
  | zero => rfl
  | succ k ih =>
    rw [List.replicate_succ, applyEach, List.foldlM_cons, h.apply_eq]
    exact ih (h.rotate c.slots)

end Fits

/-- A cycle that fits an orbit can be done on it. It leaves the slots that it does not name as they
are, keeps the stickers, and is undone by the cycle in reverse order. If it names no slot twice,
each sticker goes to the next slot and that of the last to the first, and the cycle done as often as
it has slots changes nothing. -/
theorem cycle_laws (h : c.Fits o) :
    ∃ o', c.apply (some o) = .ok (some o') ∧ o'.kind = o.kind ∧
      (∀ s ∉ c.slots, o'.slots[s]? = o.slots[s]?) ∧ o'.slots.Perm o.slots ∧
      c.reverse.apply (some o') = .ok (some o) ∧
      (c.slots.Nodup →
        (∀ i s t, c.slots[i]? = some s → c.slots[(i + 1) % c.slots.length]? = some t →
          o'.slots[t]? = o.slots[s]?) ∧
        applyEach (List.replicate c.slots.length c) (some o) = .ok (some o)) := by
  refine ⟨o.rotate c.slots, h.apply_eq, rfl, fun s hs => ?_, perm_rotate c.slots o.slots, ?_,
    fun hn => ⟨fun i s t hs ht => ?_, ?_⟩⟩
  · exact getElem?_rotate_of_notMem h.lt_length hs
  · have hback := rotate_reverse_rotate h.lt_length
    rw [(h.reverse.rotate c.slots).apply_eq]
    exact congrArg (fun slots => Except.ok (some (Orbit.mk o.kind slots))) hback
  · exact getElem?_rotate_next h.lt_length hn hs ht
  · rw [h.applyEach_replicate, iterate_rotate_length h.lt_length hn]

/-- A cycle of corners that names a slot twice, and one that does not. -/
theorem cycle_laws_corner :
    Fits ⟨.corner, [0, 5, 0, 9]⟩ (Orbit.ofFn .corner id) ∧
      Fits ⟨.corner, [23, 5, 9]⟩ (Orbit.ofFn .corner id) ∧
      (∃ o', apply ⟨.corner, [0, 5, 0, 9]⟩ (some (Orbit.ofFn .corner id)) = .ok (some o') ∧
        o'.slots[7]? = some 7 ∧ o'.slots.Perm (List.range 24) ∧
        apply ⟨.corner, [9, 0, 5, 0]⟩ (some o') = .ok (some (Orbit.ofFn .corner id))) ∧
      ∃ o', apply ⟨.corner, [23, 5, 9]⟩ (some (Orbit.ofFn .corner id)) = .ok (some o') ∧
        o'.slots[5]? = some 23 ∧ o'.slots[23]? = some 9 ∧
        applyEach (List.replicate 3 ⟨.corner, [23, 5, 9]⟩) (some (Orbit.ofFn .corner id)) =
          .ok (some (Orbit.ofFn .corner id)) := by
  have htwice : Fits ⟨.corner, [0, 5, 0, 9]⟩ (Orbit.ofFn .corner id) :=
    ⟨rfl, by decide, by decide⟩
  have honce : Fits ⟨.corner, [23, 5, 9]⟩ (Orbit.ofFn .corner id) := ⟨rfl, by decide, by decide⟩
  obtain ⟨o', hdone, -, hstay, hperm, hback, -⟩ := cycle_laws htwice
  obtain ⟨o'', hdone', -, -, -, -, hround⟩ := cycle_laws honce
  obtain ⟨hnext, hrepeat⟩ := hround (by decide)
  exact ⟨htwice, honce, ⟨o', hdone, hstay 7 (by decide), hperm, hback⟩, o'', hdone',
    hnext 0 23 5 rfl rfl, hnext 2 9 23 rfl rfl, hrepeat⟩

end Cycle

end Twisty
