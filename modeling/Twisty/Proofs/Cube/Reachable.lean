import Twisty.Proofs.Cube.Checking
import Twisty.Proofs.Cube.MoveCycles
import Twisty.Proofs.Cube.Operation

/-!
# Reachable cubes

A cube is reachable if it comes from a new cube by applying cycles (`Reachable`), and so by any run
of operations (`Reachable.performAll`). Every such cube is well
formed (`Reachable.wellFormed`) : it has one orbit for each kind of its size, and a sticker in each
slot (`WellFormed.exists_sticker`). Two well-formed cubes of one size are equal if the same stickers
are in the same slots (`WellFormed.eq_of_sticker`), and any choice of stickers is on a well-formed
cube (`ofSlots`, `wellFormed_ofSlots`).

A well-formed cube can be turned by every move in range, and the sticker of each slot goes where the
move takes the slot (`WellFormed.turn_eq_ok`). Several moves take the slots one after another
(`WellFormed.turnAll_eq_ok`) and leave none out, so the slots that they reach are enough to know a
cube by (`WellFormed.eq_of_sticker_runSlot`).
-/

namespace Twisty

variable {α : Type} {n s : ℕ} {k : SlotKind}

/-- No kind is twice in an inventory. -/
theorem Inventory.nodup_kinds (inv : Inventory) : inv.kinds.Nodup := by
  refine inv.ascending.imp fun {a b} hab heq => ?_
  subst heq
  exact SlotKind.lt_irrefl a hab

namespace Cube

variable {c d : Cube α}

/-- The sticker in a slot of a kind. -/
def sticker? (c : Cube α) (k : SlotKind) (s : ℕ) : Option α :=
  (c.orbit? k).bind fun o => o.slots[s]?

/-! ## Well-formed cubes -/

/-- A cube has one orbit for each kind that an `n`-layer cube has, in order, and each orbit has a
sticker in each slot of its kind. -/
structure WellFormed (n : ℕ) (c : Cube α) : Prop where
  size_eq : c.size = n
  kinds_eq : c.orbits.map Orbit.kind = (Inventory.full n).kinds
  length_slots : ∀ o ∈ c.orbits, o.slots.length = o.kind.size

namespace WellFormed

/-- Each orbit of a well-formed cube is the one of its kind. -/
theorem orbit?_kind (h : c.WellFormed n) {o : Orbit α} (ho : o ∈ c.orbits) :
    c.orbit? o.kind = some o := by
  have hnodup : (c.orbits.map Orbit.kind).Nodup := h.kinds_eq ▸ (Inventory.full n).nodup_kinds
  obtain ⟨o', ho'⟩ : ∃ o', c.orbit? o.kind = some o' := by
    refine Option.isSome_iff_exists.1 (List.find?_isSome.2 ⟨o, ho, ?_⟩)
    simp
  have hkind : o'.kind = o.kind := by simpa using List.find?_some ho'
  have hmem : o' ∈ c.orbits := List.mem_of_find?_eq_some ho'
  rw [ho', List.inj_on_of_nodup_map hnodup hmem ho hkind]

/-- A well-formed cube has an orbit of each kind of its size. -/
theorem exists_orbit (h : c.WellFormed n) (hk : k ∈ (Inventory.full n).kinds) :
    ∃ o ∈ c.orbits, o.kind = k := by
  rw [← h.kinds_eq] at hk
  exact List.mem_map.1 hk

/-- A well-formed cube has orbits of no other kinds than those of its size. -/
theorem kind_mem (h : c.WellFormed n) {o : Orbit α} (ho : o ∈ c.orbits) :
    o.kind ∈ (Inventory.full n).kinds := by
  rw [← h.kinds_eq]
  exact List.mem_map_of_mem ho

/-- The stickers of a kind are those of its orbit. -/
theorem sticker?_kind (h : c.WellFormed n) {o : Orbit α} (ho : o ∈ c.orbits) (s : ℕ) :
    c.sticker? o.kind s = o.slots[s]? := by
  rw [sticker?, h.orbit?_kind ho, Option.bind_some]

/-- There is a sticker in each slot. -/
theorem exists_sticker (h : c.WellFormed n) (hk : k ∈ (Inventory.full n).kinds) (hs : s < k.size) :
    ∃ x, c.sticker? k s = some x := by
  obtain ⟨o, ho, rfl⟩ := h.exists_orbit hk
  rw [← h.length_slots o ho] at hs
  exact ⟨o.slots[s], by rw [h.sticker?_kind ho, List.getElem?_eq_getElem hs]⟩

/-- There are stickers in slots only. -/
theorem slot_of_sticker (h : c.WellFormed n) {x : α} (hx : c.sticker? k s = some x) :
    k ∈ (Inventory.full n).kinds ∧ s < k.size := by
  obtain ⟨o, ho, hs⟩ := Option.bind_eq_some_iff.1 hx
  have hmem : o ∈ c.orbits := List.mem_of_find?_eq_some ho
  have hkind : o.kind = k := by simpa using List.find?_some ho
  obtain ⟨hlt, -⟩ := List.getElem?_eq_some_iff.1 hs
  rw [h.length_slots o hmem, hkind] at hlt
  exact ⟨hkind ▸ h.kind_mem hmem, hlt⟩

/-- Well-formed cubes with the same stickers in the same slots are equal. -/
theorem eq_of_sticker (hc : c.WellFormed n) (hd : d.WellFormed n)
    (h : ∀ k ∈ (Inventory.full n).kinds, ∀ s < k.size, c.sticker? k s = d.sticker? k s) :
    c = d := by
  have hkinds : c.orbits.map Orbit.kind = d.orbits.map Orbit.kind :=
    hc.kinds_eq.trans hd.kinds_eq.symm
  have horbits : c.orbits = d.orbits := by
    refine List.ext_getElem (by simpa using congrArg List.length hkinds) fun i hi hi' => ?_
    have hkind : c.orbits[i].kind = d.orbits[i].kind := by
      simpa [hi, hi'] using congrArg (·[i]?) hkinds
    have hci := List.getElem_mem hi
    have hdi := List.getElem_mem hi'
    have hlen : c.orbits[i].slots.length = d.orbits[i].slots.length := by
      rw [hc.length_slots _ hci, hd.length_slots _ hdi, hkind]
    have hslots : c.orbits[i].slots = d.orbits[i].slots := by
      refine List.ext_getElem? fun s => ?_
      by_cases hs : s < c.orbits[i].kind.size
      · have hsame := h _ (hc.kind_mem hci) s hs
        rwa [hc.sticker?_kind hci, hkind, hd.sticker?_kind hdi] at hsame
      · have hout : c.orbits[i].slots.length ≤ s := by
          rw [hc.length_slots _ hci]
          exact Nat.not_lt.1 hs
        rw [List.getElem?_eq_none hout, List.getElem?_eq_none (hlen ▸ hout)]
    exact Orbit.mk.injEq .. ▸ ⟨hkind, hslots⟩
  obtain ⟨size, orbits⟩ := c
  obtain ⟨size', orbits'⟩ := d
  exact Cube.mk.injEq .. ▸ ⟨hc.size_eq.trans hd.size_eq.symm, horbits⟩

end WellFormed

/-! ## New cubes -/

/-- The cube with a sticker given for each slot. -/
def ofSlots (n : ℕ) (sticker : SlotKind → ℕ → α) : Cube α :=
  ⟨n, (Inventory.full n).kinds.map fun k => Orbit.ofFn k (sticker k)⟩

/-- Any choice of stickers makes a well-formed cube. -/
theorem wellFormed_ofSlots (n : ℕ) (sticker : SlotKind → ℕ → α) :
    (ofSlots n sticker).WellFormed n where
  size_eq := rfl
  kinds_eq := by
    rw [ofSlots, List.map_map]
    exact List.map_id' _
  length_slots o ho := by
    obtain ⟨k, -, rfl⟩ := List.mem_map.1 ho
    simp [Orbit.ofFn]

/-- Each slot holds the sticker that was chosen for it. -/
theorem sticker?_ofSlots (sticker : SlotKind → ℕ → α) (hk : k ∈ (Inventory.full n).kinds)
    (hs : s < k.size) : (ofSlots n sticker).sticker? k s = some (sticker k s) := by
  have ho : Orbit.ofFn k (sticker k) ∈ (ofSlots n sticker).orbits := List.mem_map.2 ⟨k, hk, rfl⟩
  refine ((wellFormed_ofSlots n sticker).sticker?_kind ho s).trans ?_
  simp [Orbit.ofFn, hs]

theorem wellFormed_solved (n : ℕ) (color : Face → α) : (solved n color).WellFormed n :=
  wellFormed_ofSlots n fun k s => color (k.slotFace s)

/-- A slot of a solved cube has the color of its face. -/
theorem sticker?_solved (color : Face → α) (hk : k ∈ (Inventory.full n).kinds) (hs : s < k.size) :
    (solved n color).sticker? k s = some (color (k.slotFace s)) :=
  sticker?_ofSlots (fun k s => color (k.slotFace s)) hk hs

/-- A scheme makes a cube if there are layers and six colors, one for each face. -/
theorem ofScheme_eq_ok_iff {scheme : List α} :
    ofScheme n scheme = .ok c ↔ n ≠ 0 ∧ ∃ h : scheme.length = 6,
      c = solved n fun f => scheme.get ⟨f.index, h ▸ f.index_lt⟩ := by
  unfold ofScheme
  split_ifs with hn hlen
  · simp [hn]
  · simp [hn, hlen, eq_comm]
  · simp [hlen]

/-- A scheme has the color of a slot at the number that the slot gives its face. -/
theorem getElem?_scheme {scheme : List α} (hlen : scheme.length = 6) (hs : s < k.size) :
    scheme[s / k.faceSize]? =
      some (scheme.get ⟨(k.slotFace s).index, hlen ▸ Face.index_lt _⟩) := by
  have hlt : s / k.faceSize < 6 := Nat.div_lt_of_lt_mul (Nat.mul_comm 6 k.faceSize ▸ hs)
  have hfaces : ∀ r < 6, (Face.ofIndex r).index = r := by decide
  rw [List.getElem?_eq_getElem (hlen ▸ hlt)]
  simp only [List.get_eq_getElem, SlotKind.slotFace, hfaces _ hlt]

/-- Any six colors make a cube. -/
theorem exists_ofScheme (hn : 1 ≤ n) {scheme : List α} (hscheme : scheme.length = 6) :
    ∃ c, ofScheme n scheme = .ok c ∧ c.WellFormed n :=
  ⟨_, ofScheme_eq_ok_iff.2 ⟨Nat.ne_of_gt hn, hscheme, rfl⟩, wellFormed_solved n _⟩

/-! ## Applying cycles -/

/-- To rotate a cube along cycles is to rotate each of its orbits along them. -/
theorem orbits_rotate (c : Cube α) (cs : List Cycle) :
    (c.rotate cs).orbits = c.orbits.map (·.rotateEach cs) := by
  induction cs generalizing c with
  | nil => exact (List.map_id' c.orbits).symm
  | cons x cs ih =>
    have hstep : ∀ o : Orbit α,
        (if o.kind = x.kind then o.rotate x.slots else o).rotateEach cs =
          o.rotateEach (x :: cs) := by
      intro o
      by_cases hk : o.kind = x.kind
      · simp [Orbit.rotateEach, hk]
      · simp [Orbit.rotateEach, hk, Ne.symm hk]
    rw [rotate_cons, ih, rotateCycle, List.map_map]
    exact List.map_congr_left fun o _ => hstep o

@[simp] theorem size_rotate (c : Cube α) (cs : List Cycle) : (c.rotate cs).size = c.size := by
  induction cs generalizing c with
  | nil => rfl
  | cons x cs ih => exact ih (c.rotateCycle x)

namespace WellFormed

/-- To move stickers along cycles keeps a cube well formed. -/
theorem rotate (h : c.WellFormed n) (cs : List Cycle) : (c.rotate cs).WellFormed n where
  size_eq := (size_rotate c cs).trans h.size_eq
  kinds_eq := by
    rw [orbits_rotate, List.map_map, ← h.kinds_eq]
    exact List.map_congr_left fun o _ => o.kind_rotateEach cs
  length_slots o ho := by
    rw [orbits_rotate] at ho
    obtain ⟨o', ho', rfl⟩ := List.mem_map.1 ho
    rw [Orbit.length_slots_rotateEach, Orbit.kind_rotateEach, h.length_slots o' ho']

/-- Every operation keeps a cube well formed, since applying cycles does. -/
theorem keptByCycles : KeptByCycles (WellFormed (α := α) n) := by
  intro c cs h
  obtain ⟨moving, hmoving, -⟩ := exists_rotate_eq_applyCycles c cs
  rw [hmoving]
  exact h.rotate moving

/-- A proper cycle of a kind that the cube has passes its check. -/
theorem check_of_isProper (h : c.WellFormed n) {x : Cycle} (hx : x.IsProper)
    (hk : x.kind ∈ (Inventory.full n).kinds) : x.check (c.orbit? x.kind) = .ok true := by
  obtain ⟨o, ho, hok⟩ := h.exists_orbit hk
  rw [← hok, h.orbit?_kind ho, hx.check_eq (h.length_slots o ho), decide_eq_true hok]

/-- Proper cycles of kinds that the cube has can all be done. -/
theorem applyCycles_of_isProper (h : c.WellFormed n) {cs : List Cycle}
    (hcs : ∀ x ∈ cs, x.IsProper ∧ x.kind ∈ (Inventory.full n).kinds) :
    c.applyCycles cs = (c.rotate cs, none) :=
  applyCycles_eq_rotate fun x hx => ⟨true, h.check_of_isProper (hcs x hx).1 (hcs x hx).2⟩

/-! ## Turning -/

/-- A move turns a cube as its cycles do. -/
theorem turn_eq_rotate (h : c.WellFormed n) {m : Move} {cs : List Cycle}
    (hcs : m.cycles n (.full n) = .ok cs) : c.turn m = (c.rotate cs, none) := by
  have hcycles : c.moveCycles m = .ok cs := by rw [moveCycles, h.size_eq, hcs]
  rw [Cube.turn, hcycles]
  exact h.applyCycles_of_isProper fun x hx => Move.isProper_of_mem_cycles hcs hx

/-- A well-formed cube can be turned by a move in range, which takes the sticker of each slot where
it takes the slot. -/
theorem turn_eq_ok (h : c.WellFormed n) {m : Move} (hm : m.InRange n) :
    ∃ d, c.turn m = (d, none) ∧ d.WellFormed n ∧ ∀ k ∈ (Inventory.full n).kinds, ∀ s < k.size,
      d.sticker? k (m.turnedSlot n k s) = c.sticker? k s := by
  obtain ⟨cs, hcs⟩ : ∃ cs, m.cycles n (.full n) = .ok cs := ⟨_, Move.cycles_eq_ok hm⟩
  refine ⟨c.rotate cs, h.turn_eq_rotate hcs, h.rotate cs, fun k hk s hs => ?_⟩
  · obtain ⟨o, ho, rfl⟩ := h.exists_orbit hk
    have ho' : o.rotateEach cs ∈ (c.rotate cs).orbits := by
      rw [orbits_rotate]
      exact List.mem_map_of_mem ho
    have hlen := h.length_slots o ho
    have hcarry := Move.carries_cycles_of_kind hm hk (Inventory.mem_full_iff.1 hk) hcs rfl hlen
    have hsame := (h.rotate cs).sticker?_kind ho' (m.turnedSlot n o.kind s)
    rw [Orbit.kind_rotateEach] at hsame
    rw [hsame, hcarry.getElem?_eq s (hlen ▸ hs), h.sticker?_kind ho]

end WellFormed

/-- Where moves take a slot of a kind, one after another. -/
def runSlot (n : ℕ) (k : SlotKind) (ms : List Move) (s : ℕ) : ℕ :=
  ms.foldl (fun s m => m.turnedSlot n k s) s

/-- Moves take slots of a kind to slots of the kind. -/
theorem runSlot_lt (ms : List Move) (hs : s < k.size) : runSlot n k ms s < k.size := by
  induction ms generalizing s with
  | nil => exact hs
  | cons m ms ih => exact ih (m.turnedSlot_lt n hs)

/-- Every slot is reached by moves from some slot. -/
theorem exists_runSlot_eq (hk : k.OnCube n) (ms : List Move) (hs : s < k.size) :
    ∃ t < k.size, runSlot n k ms t = s := by
  induction ms with
  | nil => exact ⟨s, hs, rfl⟩
  | cons m ms ih =>
    obtain ⟨u, hu, hus⟩ := ih
    obtain ⟨t, ht, htu⟩ := m.exists_turnedSlot_eq hk hu
    refine ⟨t, ht, ?_⟩
    rw [← hus, ← htu]
    rfl

/-- Moves reach every slot, so cubes with the same stickers in the slots reached are equal. -/
theorem WellFormed.eq_of_sticker_runSlot (hc : c.WellFormed n) (hd : d.WellFormed n)
    {ms : List Move} (h : ∀ k ∈ (Inventory.full n).kinds, ∀ s < k.size,
      c.sticker? k (runSlot n k ms s) = d.sticker? k (runSlot n k ms s)) : c = d := by
  refine hc.eq_of_sticker hd fun k hk s hs => ?_
  obtain ⟨t, ht, rfl⟩ := exists_runSlot_eq (Inventory.mem_full_iff.1 hk) ms hs
  exact h k hk t ht

/-- Several moves in range are all done, and take the sticker of each slot where they take the slot
one after another. -/
theorem WellFormed.turnAll_eq_ok (h : c.WellFormed n) {ms : List Move}
    (hms : ∀ m ∈ ms, m.InRange n) :
    ∃ d, c.turnAll ms = (d, none) ∧ d.WellFormed n ∧ ∀ k ∈ (Inventory.full n).kinds, ∀ s < k.size,
      d.sticker? k (runSlot n k ms s) = c.sticker? k s := by
  induction ms generalizing c with
  | nil => exact ⟨c, rfl, h, fun k _ s _ => rfl⟩
  | cons m ms ih =>
    obtain ⟨d, hd, hwf, hstep⟩ := h.turn_eq_ok (hms m (by simp))
    obtain ⟨e, he, hwf', hrun⟩ := ih hwf fun m' hm' => hms m' (List.mem_cons_of_mem m hm')
    refine ⟨e, ?_, hwf', fun k hk s hs => ?_⟩
    · exact (tryEach_cons_of_none hd ms).trans he
    · exact (hrun k hk _ (m.turnedSlot_lt n hs)).trans (hstep k hk s hs)

/-! ## Reachable cubes -/

/-- The `n`-layer cubes that come from a new cube by applying cycles, be they done or failed. -/
inductive Reachable (n : ℕ) : Cube α → Prop
  | ofScheme {c : Cube α} {scheme : List α} (h : Cube.ofScheme n scheme = .ok c) : Reachable n c
  | applyCycles {c : Cube α} (hc : Reachable n c) (cs : List Cycle) :
    Reachable n (c.applyCycles cs).1

namespace Reachable

/-- Every reachable cube is well formed. -/
theorem wellFormed (h : Reachable n c) : c.WellFormed n := by
  induction h with
  | ofScheme h =>
    obtain ⟨-, -, rfl⟩ := ofScheme_eq_ok_iff.1 h
    exact wellFormed_solved n _
  | applyCycles _ cs ih => exact WellFormed.keptByCycles cs ih

/-- A cube with one color to a face is reachable. -/
theorem solved (hn : n ≠ 0) (color : Face → α) : Reachable n (Cube.solved n color) := by
  have h : Cube.ofScheme n (Face.all.map color) = .ok (Cube.solved n color) := by
    refine ofScheme_eq_ok_iff.2 ⟨hn, rfl, congrArg (Cube.solved n) (funext fun f => ?_)⟩
    cases f <;> rfl
  exact ofScheme h

theorem keptByCycles : KeptByCycles (Reachable (α := α) n) :=
  fun _ cs hc => hc.applyCycles cs

/-- What moves make of a reachable cube is reachable. -/
theorem turnAll (hc : Reachable n c) (ms : List Move) : Reachable n (c.turnAll ms).1 :=
  keptByCycles.turnAll hc ms

/-- What a run of operations makes of a reachable cube is reachable. -/
theorem performAll (hc : Reachable n c) (ops : List Operation) : Reachable n (c.performAll ops) :=
  keptByCycles.performAll hc ops

end Reachable

end Cube

end Twisty
