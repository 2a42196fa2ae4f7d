import Twisty.Proofs.Cube.Stickers
import Twisty.Proofs.Slot.Corner

/-!
# Solved cubes

A cube reached by moves from one with a color on each face is solved exactly if the moves take slots
of different faces to different faces (`KeepsFaces`, `isSolved_iff_keepsFaces`). Whole turns of the
cube do so (`keepsFaces_of_isRotation`).

Conversely moves that keep faces apart permute the faces, and since every turn of a layer takes the
three slots of a corner along together (`OneCorner.runSlot`), the permutation keeps right-handed
corners right-handed. So it is that of two whole turns (`KeepsFaces.exists_rotations`), and these
reach the same cube (`isSolved_iff_rotated`).
-/

namespace Twisty

open Function

variable {α : Type} {n s t u : ℕ} {k : SlotKind} {ms : List Move}

/-! ## Where moves take the corners -/

namespace SlotKind.OneCorner

/-- A turn of layers takes all the slots of a corner along or none. -/
theorem turnedSlot (h : OneCorner s t u) (hn : 2 ≤ n) (m : Move) :
    OneCorner (m.turnedSlot n corner s) (m.turnedSlot n corner t) (m.turnedSlot n corner u) := by
  obtain ⟨ht, hu⟩ := h.layer_eq hn m.face
  unfold Move.turnedSlot
  rw [ht, hu]
  split_ifs
  · exact h.iterate_carried m.face _
  · exact h

/-- Moves take the three slots of a corner to the three slots of a corner. -/
theorem runSlot (h : OneCorner s t u) (hn : 2 ≤ n) (ms : List Move) :
    OneCorner (Cube.runSlot n corner ms s) (Cube.runSlot n corner ms t)
      (Cube.runSlot n corner ms u) := by
  induction ms generalizing s t u with
  | nil => exact h
  | cons m ms ih => exact ih (h.turnedSlot hn m)

end SlotKind.OneCorner

/-! ## Whole turns -/

/-- A move turns all the layers of an `n`-layer cube. -/
def Move.IsRotation (m : Move) (n : ℕ) : Prop :=
  m.first = 1 ∧ m.last = n

/-- A rotation of the whole cube is in range. -/
theorem Move.IsRotation.inRange {m : Move} (h : m.IsRotation n) (hn : n ≠ 0) : m.InRange n := by
  obtain ⟨hfirst, hlast⟩ := h
  refine ⟨?_, ?_, ?_⟩ <;> omega

/-- Where whole turns take a face, one after another. -/
def turnedFace (ms : List Move) (f : Face) : Face :=
  ms.foldl (fun f m => m.face.turnFace^[m.turns % 4] f) f

theorem injective_turnFace (f : Face) : Injective f.turnFace := by
  have h : ∀ f g : Face, f.opposite.turnFace (f.turnFace g) = g := by decide
  exact LeftInverse.injective (h f)

/-- Several moves take no two faces to one. -/
theorem injective_turnedFace (ms : List Move) : Injective (turnedFace ms) := by
  induction ms with
  | nil => exact injective_id
  | cons m ms ih => exact ih.comp ((injective_turnFace m.face).iterate _)

/-- Turns of the cube take the face of a slot along. -/
theorem slotFace_iterate_carried (k : SlotKind) (f : Face) (m s : ℕ) :
    k.slotFace ((k.carried f)^[m] s) = f.turnFace^[m] (k.slotFace s) := by
  induction m generalizing s with
  | zero => rfl
  | succ m ih => rw [iterate_succ_apply, ih, SlotKind.slotFace_carried, ← iterate_succ_apply]

/-- A whole turn takes every slot along. -/
theorem Move.IsRotation.turnedSlot_eq {m : Move} (h : m.IsRotation n) (hk : k.OnCube n) (s : ℕ) :
    m.turnedSlot n k s = (k.carried m.face)^[m.turns % 4] s := by
  obtain ⟨hfirst, hlast⟩ := h
  have hlt := SlotKind.layer_lt hk m.face s
  rw [turnedSlot, if_pos (by omega)]

/-- A rotation of the whole cube takes the face of a slot where it takes faces. -/
theorem Move.IsRotation.slotFace_turnedSlot {m : Move} (h : m.IsRotation n) (hk : k.OnCube n)
    (s : ℕ) : k.slotFace (m.turnedSlot n k s) = m.face.turnFace^[m.turns % 4] (k.slotFace s) := by
  rw [h.turnedSlot_eq hk, slotFace_iterate_carried]

namespace Cube

/-- Rotations of the whole cube take the face of a slot where they take faces. -/
theorem slotFace_runSlot (hms : ∀ m ∈ ms, m.IsRotation n) (hk : k.OnCube n) (s : ℕ) :
    k.slotFace (runSlot n k ms s) = turnedFace ms (k.slotFace s) := by
  induction ms generalizing s with
  | nil => rfl
  | cons m ms ih =>
    have hm := (hms m (by simp)).slotFace_turnedSlot hk s
    have hrest := ih (fun m' hm' => hms m' (List.mem_cons_of_mem m hm')) (m.turnedSlot n k s)
    exact hrest.trans (congrArg (turnedFace ms) hm)

/-! ## Keeping faces apart -/

/-- Moves take only slots of one face to slots of one face. -/
def KeepsFaces (n : ℕ) (ms : List Move) : Prop :=
  ∀ k ∈ (Inventory.full n).kinds, ∀ s < k.size, ∀ j ∈ (Inventory.full n).kinds, ∀ t < j.size,
    k.slotFace (runSlot n k ms s) = j.slotFace (runSlot n j ms t) → k.slotFace s = j.slotFace t

/-- Rotations of the whole cube keep the faces together. -/
theorem keepsFaces_of_isRotation (hms : ∀ m ∈ ms, m.IsRotation n) : KeepsFaces n ms := by
  intro k hk s _ j hj t _ h
  rw [slotFace_runSlot hms (Inventory.mem_full_iff.1 hk),
    slotFace_runSlot hms (Inventory.mem_full_iff.1 hj)] at h
  exact injective_turnedFace ms h

/-- The face that moves take the first corner slot of a face to. -/
def cornerFace (n : ℕ) (ms : List Move) (f : Face) : Face :=
  SlotKind.corner.slotFace (runSlot n .corner ms (SlotKind.corner.slotOn f 0))

/-- Moves that keep faces apart permute the faces, and every slot goes along with its face. -/
theorem KeepsFaces.slotFace_runSlot (h : KeepsFaces n ms) (hn : 2 ≤ n)
    (hk : k ∈ (Inventory.full n).kinds) (hs : s < k.size) :
    k.slotFace (runSlot n k ms s) = cornerFace n ms (k.slotFace s) := by
  have hcorner : SlotKind.corner ∈ (Inventory.full n).kinds := Inventory.mem_full_iff.2 hn
  have hzero : 0 < SlotKind.corner.faceSize := SlotKind.faceSize_pos _
  have hlt : ∀ f, SlotKind.corner.slotOn f 0 < SlotKind.corner.size := fun f =>
    SlotKind.slotOn_lt_size hzero
  have hface : ∀ f, SlotKind.corner.slotFace (SlotKind.corner.slotOn f 0) = f := fun f =>
    SlotKind.slotFace_slotOn hzero
  have hinj : Injective (cornerFace n ms) := by
    intro f f' hff
    rw [← hface f, ← hface f']
    exact h _ hcorner _ (hlt f) _ hcorner _ (hlt f') hff
  obtain ⟨f, hf⟩ := Finite.injective_iff_surjective.1 hinj (k.slotFace (runSlot n k ms s))
  have hsame := h _ hcorner _ (hlt f) k hk s hs hf
  rw [← hf, ← hsame, hface]

/-- Moves that keep faces apart permute them like whole turns. -/
theorem KeepsFaces.exists_rotations (h : KeepsFaces n ms) (hn : 2 ≤ n) :
    ∃ rs : List Move, (∀ r ∈ rs, r.IsRotation n) ∧ ∀ k ∈ (Inventory.full n).kinds, ∀ s < k.size,
      k.slotFace (runSlot n k ms s) = turnedFace rs (k.slotFace s) := by
  have hcorner : SlotKind.corner ∈ (Inventory.full n).kinds := Inventory.mem_full_iff.2 hn
  have hhands : Face.PreservesHands (cornerFace n ms) := by
    intro a b c habc
    obtain ⟨s, t, u, hstu, rfl, rfl, rfl⟩ := SlotKind.exists_oneCorner habc
    obtain ⟨hs, ht, hu⟩ := hstu.lt_size
    rw [← h.slotFace_runSlot hn hcorner hs, ← h.slotFace_runSlot hn hcorner ht,
      ← h.slotFace_runSlot hn hcorner hu]
    exact (hstu.runSlot hn ms).rightHanded
  obtain ⟨d, i, hi, j, hj, hturns⟩ := hhands.exists_turns
  refine ⟨[⟨d, 1, n, i⟩, ⟨.up, 1, n, j⟩], ?_, fun k hk s hs => ?_⟩
  · simp [Move.IsRotation]
  · rw [h.slotFace_runSlot hn hk hs, hturns]
    simp [turnedFace, Nat.mod_eq_of_lt hi, Nat.mod_eq_of_lt hj]

/-! ## Solved cubes -/

variable {c : Cube α}

/-- A list is uniform if any two of its entries are equal. -/
theorem isUniform_iff [DecidableEq α] {l : List α} :
    isUniform l = true ↔ ∀ x ∈ l, ∀ y ∈ l, x = y := by
  cases l with
  | nil => simp [isUniform]
  | cons z l =>
    simp only [isUniform, List.all_eq_true, decide_eq_true_eq]
    constructor
    · intro h x hx y hy
      have hz : ∀ x ∈ z :: l, x = z := by simpa using h
      rw [hz x hx, hz y hy]
    · exact fun h x hx => h x (List.mem_cons_of_mem z hx) z (by simp)

/-- A cube is solved if slots of one face have the same sticker. -/
theorem WellFormed.isSolved_iff [DecidableEq α] (h : c.WellFormed n) : c.isSolved = true ↔
    ∀ k ∈ (Inventory.full n).kinds, ∀ s < k.size, ∀ j ∈ (Inventory.full n).kinds, ∀ t < j.size,
      k.slotFace s = j.slotFace t → c.sticker? k s = c.sticker? j t := by
  simp only [isSolved, List.all_eq_true, isUniform_iff]
  constructor
  · intro hc k hk s hs j hj t ht hface
    obtain ⟨x, hx⟩ := h.exists_sticker hk hs
    obtain ⟨y, hy⟩ := h.exists_sticker hj ht
    have hxm := h.mem_stickers.2 ⟨k, hk, s, hs, hface, hx⟩
    have hym := h.mem_stickers.2 ⟨j, hj, t, ht, rfl, hy⟩
    rw [hx, hy, hc _ (Face.mem_all _) x hxm y hym]
  · intro hc f _ x hx y hy
    obtain ⟨k, hk, s, hs, hf, hx⟩ := h.mem_stickers.1 hx
    obtain ⟨j, hj, t, ht, hf', hy⟩ := h.mem_stickers.1 hy
    have hsame := hc k hk s hs j hj t ht (hf.trans hf'.symm)
    rw [hx, hy] at hsame
    exact Option.some.inj hsame

/-- The stickers of a cube with a color on each face, after moves. -/
structure IsTurned (n : ℕ) (color : Face → α) (ms : List Move) (c : Cube α) : Prop where
  turnAll_eq : (solved n color).turnAll ms = (c, none)
  wellFormed : c.WellFormed n
  sticker_eq : ∀ k ∈ (Inventory.full n).kinds, ∀ s < k.size,
    c.sticker? k (runSlot n k ms s) = some (color (k.slotFace s))

/-- Moves in range can be done on a solved cube. -/
theorem exists_isTurned (color : Face → α) (hms : ∀ m ∈ ms, m.InRange n) :
    ∃ c, IsTurned n color ms c := by
  obtain ⟨c, hc, hwf, hrun⟩ := (wellFormed_solved n color).turnAll_eq_ok hms
  refine ⟨c, hc, hwf, fun k hk s hs => ?_⟩
  rw [hrun k hk s hs, sticker?_solved color hk hs]

namespace IsTurned

variable {color : Face → α}

/-- If the colors are different, a turned cube is solved exactly if the moves keep the faces
together. -/
theorem isSolved_iff_keepsFaces [DecidableEq α] (h : IsTurned n color ms c)
    (hcolor : Injective color) : c.isSolved = true ↔ KeepsFaces n ms := by
  rw [h.wellFormed.isSolved_iff]
  constructor
  · intro hc k hk s hs j hj t ht hface
    have hsame := hc k hk _ (runSlot_lt ms hs) j hj _ (runSlot_lt ms ht) hface
    rw [h.sticker_eq k hk s hs, h.sticker_eq j hj t ht] at hsame
    exact hcolor (Option.some.inj hsame)
  · intro hkeeps k hk s hs j hj t ht hface
    obtain ⟨s, hs', rfl⟩ := exists_runSlot_eq (Inventory.mem_full_iff.1 hk) ms hs
    obtain ⟨t, ht', rfl⟩ := exists_runSlot_eq (Inventory.mem_full_iff.1 hj) ms ht
    rw [h.sticker_eq k hk s hs', h.sticker_eq j hj t ht', hkeeps k hk s hs' j hj t ht' hface]

/-- Moves that permute the faces like whole turns reach the same cube. -/
theorem eq_of_turnedFace {rs : List Move} {d : Cube α} (h : IsTurned n color ms c)
    (h' : IsTurned n color rs d) (hrs : ∀ r ∈ rs, r.IsRotation n)
    (hface : ∀ k ∈ (Inventory.full n).kinds, ∀ s < k.size,
      k.slotFace (runSlot n k ms s) = turnedFace rs (k.slotFace s)) : d = c := by
  refine h'.wellFormed.eq_of_sticker h.wellFormed fun k hk t ht => ?_
  have hon := Inventory.mem_full_iff.1 hk
  obtain ⟨s, hs, hst⟩ := exists_runSlot_eq hon ms ht
  obtain ⟨s', hs', hst'⟩ := exists_runSlot_eq hon rs ht
  have hfaces : turnedFace rs (k.slotFace s') = turnedFace rs (k.slotFace s) := by
    rw [← slotFace_runSlot hrs hon, ← hface k hk s hs, hst, hst']
  rw [← hst', h'.sticker_eq k hk s' hs', injective_turnedFace rs hfaces, hst', ← hst,
    h.sticker_eq k hk s hs]

/-- A turned cube is solved exactly if rotations of the whole cube reach it. -/
theorem isSolved_iff [DecidableEq α] (h : IsTurned n color ms c) (hcolor : Injective color)
    (hn : n ≠ 0) (hms : ∀ m ∈ ms, m.InRange n) : c.isSolved = true ↔
      ∃ rs : List Move, (∀ r ∈ rs, r.IsRotation n) ∧ (solved n color).turnAll rs = (c, none) := by
  constructor
  · intro hsolved
    by_cases hone : n = 1
    · refine ⟨ms, fun m hm => ?_, h.turnAll_eq⟩
      obtain ⟨h₁, h₂, h₃⟩ := hms m hm
      exact ⟨by omega, by omega⟩
    · have hkeeps := (h.isSolved_iff_keepsFaces hcolor).1 hsolved
      obtain ⟨rs, hrs, hface⟩ := hkeeps.exists_rotations (by omega)
      obtain ⟨d, hd⟩ := exists_isTurned color fun r hr => (hrs r hr).inRange hn
      obtain rfl := h.eq_of_turnedFace hd hrs hface
      exact ⟨rs, hrs, hd.turnAll_eq⟩
  · rintro ⟨rs, hrs, hturn⟩
    obtain ⟨d, hd⟩ := exists_isTurned color fun r hr => (hrs r hr).inRange hn
    have hdc : d = c := (Prod.mk.inj (hd.turnAll_eq.symm.trans hturn)).1
    rw [← hdc, hd.isSolved_iff_keepsFaces hcolor]
    exact keepsFaces_of_isRotation hrs

end IsTurned

/-- A new cube with six different colors has a color of its own on each face. -/
theorem exists_color_of_scheme (hn : n ≠ 0) {scheme : List α} (hlen : scheme.length = 6)
    (hnodup : scheme.Nodup) :
    ∃ color : Face → α, Injective color ∧ ofScheme n scheme = .ok (solved n color) := by
  refine ⟨_, ?_, ofScheme_eq_ok_iff.2 ⟨hn, hlen, rfl⟩⟩
  intro f g hfg
  have hindex := List.nodup_iff_injective_get.1 hnodup hfg
  exact Face.index_inj (congrArg Fin.val hindex)

/-- A cube turned from a new one with six colors is solved exactly if whole turns alone reach it. -/
theorem isSolved_iff_rotated [DecidableEq α] (hn : 1 ≤ n) {scheme : List α}
    (hlen : scheme.length = 6) (hnodup : scheme.Nodup) (hms : ∀ m ∈ ms, m.InRange n) :
    ∃ start c, ofScheme n scheme = .ok start ∧ start.turnAll ms = (c, none) ∧
      (c.isSolved = true ↔
        ∃ rs : List Move, (∀ r ∈ rs, r.first = 1 ∧ r.last = n) ∧ start.turnAll rs = (c, none)) := by
  have h0 : n ≠ 0 := Nat.ne_of_gt hn
  obtain ⟨color, hcolor, hstart⟩ := exists_color_of_scheme h0 hlen hnodup
  obtain ⟨c, hc⟩ := exists_isTurned color hms
  exact ⟨solved n color, c, hstart, hc.turnAll_eq, hc.isSolved_iff hcolor h0 hms⟩

/-- Two layers of a three-layer cube turned about the front, and the third along with them. -/
theorem isSolved_iff_rotated_three :
    1 ≤ 3 ∧ [0, 1, 2, 3, 4, 5].length = 6 ∧ [0, 1, 2, 3, 4, 5].Nodup ∧
      (∀ m ∈ [Move.mk .front 1 2 1, Move.mk .back 1 1 3], m.InRange 3) ∧
      ∃ start c, ofScheme 3 [0, 1, 2, 3, 4, 5] = .ok start ∧
        start.turnAll [⟨.front, 1, 2, 1⟩, ⟨.back, 1, 1, 3⟩] = (c, none) ∧
        (c.isSolved = true ↔ ∃ rs : List Move,
          (∀ r ∈ rs, r.first = 1 ∧ r.last = 3) ∧ start.turnAll rs = (c, none)) := by
  have hn : 1 ≤ 3 := by decide
  have hlen : [0, 1, 2, 3, 4, 5].length = 6 := rfl
  have hnodup : [0, 1, 2, 3, 4, 5].Nodup := by decide
  have hms : ∀ m ∈ [Move.mk .front 1 2 1, Move.mk .back 1 1 3], m.InRange 3 := by decide
  exact ⟨hn, hlen, hnodup, hms, isSolved_iff_rotated hn hlen hnodup hms⟩

end Cube

end Twisty
