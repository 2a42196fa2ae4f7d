import Twisty.Proofs.Cube.Reachable

/-!
# What every operation keeps

Operations move stickers about in their orbits and do nothing else : a rotation only permutes the
entries of a list, whatever its places (`perm_rotate`), so each color stays as often in its orbit as
it was. On a new cube it is there once for each of its slots on the faces of that color
(`count_solved`). `Stocked` adds this count to the orbits of a well-formed cube, and applying cycles
keeps it (`stocked_keptByCycles`).

The orbits of such a cube are in ascending order, so that an orbit is also found by halving the list
again and again (`halve_eq_find?`). `stocked_after_operations` puts it all together.
-/

namespace Twisty

variable {α : Type} {n : ℕ} {k : SlotKind}

/-! ## Rotations only permute -/

/-- An exchange keeps the entries of a list, each as often as it is there. -/
theorem perm_exchange (i j : ℕ) (l : List α) : (exchange i j l).Perm l := by
  by_cases h : i < l.length ∧ j < l.length
  · rw [exchange_eq_set h.1 h.2]
    exact List.set_set_perm h.1 h.2
  · unfold exchange
    split
    · next hi hj =>
      exact absurd ⟨(List.getElem?_eq_some_iff.1 hi).1, (List.getElem?_eq_some_iff.1 hj).1⟩ h
    · exact .refl l

/-- A rotation along any places keeps the entries of a list, each as often as it is there. -/
theorem perm_rotate (is : List ℕ) (l : List α) : (rotate is l).Perm l := by
  fun_induction rotate is l with
  | case1 i j is l ih => exact (perm_exchange i j _).trans ih
  | case2 => exact .refl _

/-- Cycles keep the stickers of an orbit, each as often as it is there. -/
theorem Orbit.perm_rotateEach (o : Orbit α) (cs : List Cycle) :
    (o.rotateEach cs).slots.Perm o.slots := by
  unfold rotateEach
  induction cs.filter (·.kind = o.kind) generalizing o with
  | nil => exact .refl _
  | cons c cs ih => exact (ih _).trans (perm_rotate c.slots o.slots)

/-! ## The colors of a new cube -/

/-- The slots of a kind come face by face. -/
theorem SlotKind.map_slotFace (k : SlotKind) :
    (List.range k.size).map k.slotFace = Face.all.flatMap (List.replicate k.faceSize) := by
  have hsizes : ∀ m ∈ [1, 4, 8], (List.range (6 * m)).map (fun s => Face.ofIndex (s / m)) =
      Face.all.flatMap (List.replicate m) := by decide
  exact hsizes k.faceSize (by cases k <;> simp [faceSize])

/-- A color is on as many slots of a kind as a face has, for each face that has the color. -/
theorem count_map_slotFace [DecidableEq α] (k : SlotKind) (color : Face → α) (x : α) :
    ((List.range k.size).map fun s => color (k.slotFace s)).count x =
      k.faceSize * (Face.all.map color).count x := by
  have hfaces : (List.range k.size).map (fun s => color (k.slotFace s)) =
      Face.all.flatMap fun f => List.replicate k.faceSize (color f) := by
    have hmap := congrArg (List.map color) k.map_slotFace
    simpa only [List.map_map, List.map_flatMap, List.map_replicate, Function.comp_def] using hmap
  rw [hfaces]
  induction Face.all with
  | nil => rfl
  | cons f fs ih =>
    rw [List.flatMap_cons, List.count_append, ih, List.map_cons, List.count_cons,
      List.count_replicate, Nat.mul_add, Nat.add_comm]
    split_ifs <;> simp

/-- The colors of the faces, in their order, are the scheme. -/
theorem map_get_all {scheme : List α} (h : scheme.length = 6) :
    Face.all.map (fun f => scheme.get ⟨f.index, h ▸ f.index_lt⟩) = scheme := by
  match scheme, h with
  | [a, b, c, d, e, f], _ => rfl

namespace Cube

variable {c d : Cube α}

/-! ## Stocked cubes -/

/-- A well-formed cube on which each color is as often in an orbit as a scheme gives it to the slots
of the kind. -/
structure Stocked [DecidableEq α] (n : ℕ) (scheme : List α) (c : Cube α) : Prop extends
    WellFormed n c where
  count_slots : ∀ o ∈ c.orbits, ∀ x, o.slots.count x = o.kind.faceSize * scheme.count x

/-- A new cube has each color as often as its scheme gives it. -/
theorem stocked_ofScheme [DecidableEq α] {scheme : List α} (h : ofScheme n scheme = .ok c) :
    c.Stocked n scheme := by
  obtain ⟨-, hlen, rfl⟩ := ofScheme_eq_ok_iff.1 h
  refine ⟨wellFormed_solved n _, fun o ho x => ?_⟩
  obtain ⟨k, -, rfl⟩ := List.mem_map.1 ho
  have hcount := count_map_slotFace k (fun f => scheme.get ⟨f.index, hlen ▸ f.index_lt⟩) x
  rwa [map_get_all hlen] at hcount

/-- To apply cycles keeps the colors, be they done or failed. -/
theorem stocked_keptByCycles [DecidableEq α] (scheme : List α) :
    KeptByCycles (Stocked (α := α) n scheme) := by
  intro c cs hc
  obtain ⟨moving, hmoving, -⟩ := exists_rotate_eq_applyCycles c cs
  rw [hmoving]
  refine ⟨hc.toWellFormed.rotate moving, fun o ho x => ?_⟩
  rw [orbits_rotate] at ho
  obtain ⟨o', ho', rfl⟩ := List.mem_map.1 ho
  rw [(o'.perm_rotateEach moving).count_eq, Orbit.kind_rotateEach, hc.count_slots o' ho' x]

/-! ## Looking an orbit up -/

/-- The orbit of a kind among orbits in ascending order : it is looked for in the half where it must
be. -/
def halve (k : SlotKind) (os : List (Orbit α)) : Option (Orbit α) :=
  if h : os.length / 2 < os.length then
    let o := os[os.length / 2]
    if k < o.kind then halve k (os.take (os.length / 2))
    else if o.kind = k then some o
    else halve k (os.drop (os.length / 2 + 1))
  else none
termination_by os.length
decreasing_by all_goals simp; omega

/-- Among orbits in ascending order each says on which side of it a kind is. -/
theorem find?_of_ascending {os : List (Orbit α)} (h : (os.map Orbit.kind).Pairwise (· < ·)) {i : ℕ}
    (hi : i < os.length) : os.find? (·.kind = k) =
      if k < os[i].kind then (os.take i).find? (·.kind = k)
      else if os[i].kind = k then some os[i] else (os.drop (i + 1)).find? (·.kind = k) := by
  have hsplit : os.take i ++ os[i] :: os.drop (i + 1) = os := by
    rw [← List.drop_eq_getElem_cons hi, List.take_append_drop]
  have hnone : ∀ {us : List (Orbit α)}, (∀ u ∈ us, u.kind ≠ k) → us.find? (·.kind = k) = none := by
    intro us hus
    simpa [List.find?_eq_none] using hus
  rw [← hsplit, List.map_append, List.map_cons, List.pairwise_append, List.pairwise_cons] at h
  have hleft : ∀ u ∈ os.take i, u.kind < os[i].kind := fun u hu =>
    h.2.2 _ (List.mem_map_of_mem hu) _ List.mem_cons_self
  have hright : ∀ u ∈ os.drop (i + 1), os[i].kind < u.kind := fun u hu =>
    h.2.1.1 _ (List.mem_map_of_mem hu)
  conv_lhs => rw [← hsplit, List.find?_append, List.find?_cons]
  split_ifs with hlt heq
  · have hne : os[i].kind ≠ k := fun he => SlotKind.lt_irrefl k (he ▸ hlt)
    have hnot : ∀ u ∈ os.drop (i + 1), u.kind ≠ k := fun u hu he =>
      SlotKind.lt_irrefl k (SlotKind.lt_trans hlt (he ▸ hright u hu))
    simp [hne, hnone hnot]
  · have hnot : ∀ u ∈ os.take i, u.kind ≠ k := fun u hu he =>
      SlotKind.lt_irrefl k (by simpa [he, heq] using hleft u hu)
    simp [heq, hnone hnot]
  · have hgt : os[i].kind < k :=
      ((SlotKind.lt_or_eq_or_lt k os[i].kind).resolve_left hlt).resolve_left fun he => heq he.symm
    have hnot : ∀ u ∈ os.take i, u.kind ≠ k := fun u hu he =>
      SlotKind.lt_irrefl k (SlotKind.lt_trans (he ▸ hleft u hu) hgt)
    simp [heq, hnone hnot]

/-- In ascending order halving finds what going through all the orbits finds. -/
theorem halve_eq_find? {os : List (Orbit α)} (h : (os.map Orbit.kind).Pairwise (· < ·)) :
    halve k os = os.find? (·.kind = k) := by
  fun_induction halve k os with
  | case1 os hlt o hk ih =>
    rw [find?_of_ascending h hlt, if_pos hk, ih (h.sublist ((List.take_sublist _ _).map _))]
  | case2 os hlt o hk ho =>
    rw [find?_of_ascending h hlt, if_neg hk, if_pos ho]
  | case3 os hlt o hk ho ih =>
    rw [find?_of_ascending h hlt, if_neg hk, if_neg ho,
      ih (h.sublist ((List.drop_sublist _ _).map _))]
  | case4 os hlt =>
    obtain rfl : os = [] := List.length_eq_zero_iff.1 (by omega)
    rfl

/-! ## Runs of operations -/

/-- Whatever is done to a new cube, its size stays, it has one orbit for each kind of its size, in
ascending order and with all its slots, the orbit of a kind is found exactly if the cube has the
kind, also by halving, and in every orbit each color is as often as the scheme gives it to the
slots. -/
theorem stocked_after_operations [DecidableEq α] (hn : 1 ≤ n) {scheme : List α}
    (hscheme : scheme.length = 6) :
    ∃ c, ofScheme n scheme = .ok c ∧ ∀ (ops : List Operation) (d : Cube α), d = c.performAll ops →
      d.size = n ∧
      d.orbits.map Orbit.kind = (Inventory.full n).kinds ∧
      (d.orbits.map Orbit.kind).Pairwise (· < ·) ∧
      (∀ o ∈ d.orbits, o.slots.length = o.kind.size) ∧
      (∀ k, ((∃ o, d.orbit? k = some o) ↔ k ∈ (Inventory.full n).kinds) ∧
        (∀ o, d.orbit? k = some o → o ∈ d.orbits ∧ o.kind = k) ∧ halve k d.orbits = d.orbit? k) ∧
      ∀ o ∈ d.orbits, ∀ x, o.slots.count x = o.kind.faceSize * scheme.count x := by
  obtain ⟨c, hstart, -⟩ := exists_ofScheme hn hscheme
  refine ⟨c, hstart, ?_⟩
  rintro ops _ rfl
  have h := (stocked_keptByCycles scheme).performAll (stocked_ofScheme hstart) ops
  have hascending : ((c.performAll ops).orbits.map Orbit.kind).Pairwise (· < ·) :=
    h.kinds_eq ▸ (Inventory.full n).ascending
  refine ⟨h.size_eq, h.kinds_eq, hascending, h.length_slots, fun k => ⟨⟨?_, fun hk => ?_⟩, ?_, ?_⟩,
    h.count_slots⟩
  · rintro ⟨o, ho⟩
    have hkind : o.kind = k := by simpa using List.find?_some ho
    exact hkind ▸ h.kind_mem (List.mem_of_find?_eq_some ho)
  · obtain ⟨o, ho, rfl⟩ := h.exists_orbit hk
    exact ⟨o, h.orbit?_kind ho⟩
  · intro o ho
    exact ⟨List.mem_of_find?_eq_some ho, by simpa using List.find?_some ho⟩
  · exact halve_eq_find? hascending

/-- A cube of three layers, two faces to a color, on which a cycle with a slot named twice is done,
then cycles fail, then a text fails at its second word. -/
theorem stocked_after_operations_three :
    1 ≤ 3 ∧ [0, 0, 1, 1, 2, 2].length = 6 ∧ ∃ c : Cube ℕ, ofScheme 3 [0, 0, 1, 1, 2, 2] = .ok c ∧
      ∀ d, d = c.performAll [.cycles [⟨.corner, [0, 5, 0, 23]⟩], .cycles [⟨.wing 1, [0, 1]⟩],
          .move ⟨.up, 2, 9, 1⟩, .text "R Q"] →
        (∃ o, d.orbit? .midge = some o) ∧ ¬(∃ o, d.orbit? (.wing 1) = some o) ∧
          ∀ o ∈ d.orbits, o.slots.count 1 = o.kind.faceSize * 2 := by
  have hn : 1 ≤ 3 := by decide
  have hscheme : [0, 0, 1, 1, 2, 2].length = 6 := rfl
  obtain ⟨c, hc, hops⟩ := stocked_after_operations hn hscheme
  refine ⟨hn, hscheme, c, hc, fun d hd => ?_⟩
  obtain ⟨-, -, -, -, hkinds, hcount⟩ := hops _ d hd
  exact ⟨(hkinds .midge).1.2 (by decide), fun h => absurd ((hkinds (.wing 1)).1.1 h) (by decide),
    fun o ho => hcount o ho 1⟩

end Cube

end Twisty
