import Twisty.Proofs.Cube.Reachable
import Twisty.Proofs.Slot.Piece

/-!
# Pieces stay together

A move takes two slots of one piece to slots of one piece, and two slots of different pieces to
slots of different pieces (`mates_turnedSlot`), since mates lie in the same layers and a layer turns
as a whole. So do several moves, one after another (`mates_runSlot`).

To follow the stickers of a cube each of them is given the name of its first slot (`labelled`).
After any moves every label is in one slot, and the labels of a piece are on one piece
(`mates_after_turns`).
-/

namespace Twisty

open SlotKind

variable {α : Type} {n s t : ℕ} {k j : SlotKind} {ms : List Move}

/-! ## Mates -/

/-- A move keeps a slot in its layer. -/
theorem Move.layer_turnedSlot (m : Move) (hk : k.OnCube n) (s : ℕ) :
    k.layer n m.face (m.turnedSlot n k s) = k.layer n m.face s := by
  unfold turnedSlot
  split_ifs
  · exact layer_iterate_carried hk m.face _ s
  · rfl

/-- A move takes mates to mates, and no other slots. -/
theorem Move.mates_turnedSlot (m : Move) (hk : k.OnCube n) (hj : j.OnCube n) (s t : ℕ) :
    Mates n (k, m.turnedSlot n k s) (j, m.turnedSlot n j t) ↔ Mates n (k, s) (j, t) := by
  by_cases hlayer : k.layer n m.face s = j.layer n m.face t
  · unfold turnedSlot
    rw [hlayer]
    split_ifs
    · exact mates_iterate_carried hk hj m.face _ s t
    · rfl
  · refine iff_of_false (fun h => hlayer ?_) fun h => hlayer (h.layer_eq hk hj m.face)
    have hturned := h.layer_eq hk hj m.face
    rwa [m.layer_turnedSlot hk, m.layer_turnedSlot hj] at hturned

namespace Cube

/-- Slots of one piece stay slots of one piece through a run of moves, and no others become so. -/
theorem mates_runSlot (hk : k.OnCube n) (hj : j.OnCube n) (ms : List Move) (s t : ℕ) :
    Mates n (k, runSlot n k ms s) (j, runSlot n j ms t) ↔ Mates n (k, s) (j, t) := by
  induction ms generalizing s t with
  | nil => rfl
  | cons m ms ih => exact (ih _ _).trans (m.mates_turnedSlot hk hj s t)

/-! ## Labels -/

/-- The cube on which each sticker is the name of its slot. -/
def labelled (n : ℕ) : Cube (SlotKind × ℕ) :=
  ofSlots n Prod.mk

/-- After moves the label of a slot is where they take the slot, and nowhere else. -/
theorem sticker?_labelled_iff {d : Cube (SlotKind × ℕ)} (hms : ∀ m ∈ ms, m.InRange n)
    (hd : (labelled n).turnAll ms = (d, none)) {x : SlotKind × ℕ} (hx : IsSlot n x)
    (z : SlotKind × ℕ) :
    d.sticker? z.1 z.2 = some x ↔ z = (x.1, runSlot n x.1 ms x.2) := by
  obtain ⟨d', hd', hwf, hrun⟩ := (wellFormed_ofSlots n Prod.mk).turnAll_eq_ok hms
  obtain rfl : d' = d := congrArg Prod.fst (hd'.symm.trans hd)
  have hlabel : ∀ {y : SlotKind × ℕ}, IsSlot n y →
      d'.sticker? y.1 (runSlot n y.1 ms y.2) = some y := fun {y} hy =>
    (hrun y.1 hy.1 y.2 hy.2).trans (sticker?_ofSlots Prod.mk hy.1 hy.2)
  constructor
  · intro hz
    obtain ⟨k, s⟩ := z
    obtain ⟨hk, hs⟩ : IsSlot n (k, s) := hwf.slot_of_sticker hz
    dsimp only at hk hs
    obtain ⟨t, ht, rfl⟩ := exists_runSlot_eq (Inventory.mem_full_iff.1 hk) ms hs
    have hkt := hlabel (y := (k, t)) ⟨hk, ht⟩
    obtain rfl : (k, t) = x := Option.some.inj (hkt.symm.trans hz)
    rfl
  · rintro rfl
    exact hlabel hx

/-- The stickers of every cube go with the labels. -/
theorem sticker?_eq_of_label {d : Cube (SlotKind × ℕ)} (hms : ∀ m ∈ ms, m.InRange n)
    (hd : (labelled n).turnAll ms = (d, none)) {c : Cube α} (hc : c.WellFormed n) :
    ∃ e, c.turnAll ms = (e, none) ∧ ∀ x, IsSlot n x → ∀ z : SlotKind × ℕ,
      d.sticker? z.1 z.2 = some x → e.sticker? z.1 z.2 = c.sticker? x.1 x.2 := by
  obtain ⟨e, he, -, hrun⟩ := hc.turnAll_eq_ok hms
  refine ⟨e, he, fun x hx z hz => ?_⟩
  obtain rfl := (sticker?_labelled_iff hms hd hx z).1 hz
  exact hrun x.1 hx.1 x.2 hx.2

/-- Moves can be followed by labels. The labels of two slots are each in one slot at the end, and
these are mates exactly if the two slots were. -/
theorem mates_after_turns (hms : ∀ m ∈ ms, m.InRange n) :
    ∃ d, (labelled n).turnAll ms = (d, none) ∧
      (∀ c : Cube α, c.Reachable n → ∃ e, c.turnAll ms = (e, none) ∧
        ∀ x, IsSlot n x → ∀ z : SlotKind × ℕ,
          d.sticker? z.1 z.2 = some x → e.sticker? z.1 z.2 = c.sticker? x.1 x.2) ∧
      ∀ x, IsSlot n x → ∀ y, IsSlot n y → ∃ x' y' : SlotKind × ℕ,
        (∀ z : SlotKind × ℕ, d.sticker? z.1 z.2 = some x ↔ z = x') ∧
          (∀ z : SlotKind × ℕ, d.sticker? z.1 z.2 = some y ↔ z = y') ∧
            (Mates n x' y' ↔ Mates n x y) := by
  obtain ⟨d, hd, -⟩ := (wellFormed_ofSlots n Prod.mk).turnAll_eq_ok hms
  refine ⟨d, hd, fun c hc => sticker?_eq_of_label hms hd hc.wellFormed, fun x hx y hy => ?_⟩
  refine ⟨_, _, sticker?_labelled_iff hms hd hx, sticker?_labelled_iff hms hd hy, ?_⟩
  exact mates_runSlot (Inventory.mem_full_iff.1 hx.1) (Inventory.mem_full_iff.1 hy.1) ms x.2 y.2

/-- Two stickers of one edge of a four-layer cube, the upper one and the one on the front face, stay
together when the right layers and then the third layer from above are turned. -/
theorem mates_after_turns_four :
    (∀ m ∈ [Move.mk .right 1 2 1, Move.mk .up 3 3 2], m.InRange 4) ∧
      (solved 4 Face.index).Reachable 4 ∧ IsSlot 4 (wing 1, 4) ∧ IsSlot 4 (wing 1, 9) ∧
      Mates 4 (wing 1, 4) (wing 1, 9) ∧
      ∃ d, (labelled 4).turnAll [⟨.right, 1, 2, 1⟩, ⟨.up, 3, 3, 2⟩] = (d, none) ∧
        (∃ e, (solved 4 Face.index).turnAll [⟨.right, 1, 2, 1⟩, ⟨.up, 3, 3, 2⟩] = (e, none) ∧
          ∀ z : SlotKind × ℕ, d.sticker? z.1 z.2 = some (wing 1, 4) →
            e.sticker? z.1 z.2 = (solved 4 Face.index).sticker? (wing 1) 4) ∧
        ∃ x' y' : SlotKind × ℕ, d.sticker? x'.1 x'.2 = some (wing 1, 4) ∧
          d.sticker? y'.1 y'.2 = some (wing 1, 9) ∧ Mates 4 x' y' := by
  have hms : ∀ m ∈ [Move.mk .right 1 2 1, Move.mk .up 3 3 2], m.InRange 4 := by decide
  have hc : (solved 4 Face.index).Reachable 4 := .solved (by decide) Face.index
  have hx : IsSlot 4 (wing 1, 4) := by decide
  have hy : IsSlot 4 (wing 1, 9) := by decide
  have hxy : Mates 4 (wing 1, 4) (wing 1, 9) := by decide
  obtain ⟨d, hd, hcolors, hmates⟩ := mates_after_turns hms
  obtain ⟨e, he, hsame⟩ := hcolors _ hc
  obtain ⟨x', y', hx', hy', hiff⟩ := hmates _ hx _ hy
  exact ⟨hms, hc, hx, hy, hxy, d, hd, ⟨e, he, hsame _ hx⟩, x', y', (hx' x').2 rfl, (hy' y').2 rfl,
    hiff.2 hxy⟩

end Cube

end Twisty
