import Twisty.Proofs.Slot.Pattern
import Twisty.Proofs.Space.Orientation

/-!
# The three stickers of a corner

A corner has a slot on each of three faces, and `OneCorner` says of three slots that they are the
slots of one corner, listed so that their faces are right-handed. They lie in the same layers, the
first or the last about each face (`layer_corner`), so a turn of a layer takes all three along or
none. Whole turns of the cube take the slots of a corner to those of another, again right-handed
(`OneCorner.carried`). Every right-handed corner of the cube has its slots (`exists_oneCorner`).
-/

namespace Twisty.SlotKind

open Function

variable {s t u n : ℕ}

/-- A slot belongs to a corner of a face. -/
def meets (s : ℕ) (f : Face) : Bool :=
  match corner.startSide f s with
  | .near | .top | .left => true
  | _ => false

/-- The slots of corners lie in the first or the last layer about each face. -/
theorem layer_corner (hn : 2 ≤ n) (f : Face) (s : ℕ) :
    corner.layer n f s = if meets s f then 0 else n - 1 := by
  have hk : corner.OnCube n := hn
  rw [layer_eq_distance hk, startCell, meets]
  cases corner.startSide f s <;> simp [Cell.distance]

/-- A whole turn of the cube takes the faces of a corner along with its slots. -/
theorem meets_carried (f g : Face) (hs : s < corner.size) :
    meets (corner.carried f s) g = meets s (f.opposite.turnFace g) := by
  revert s
  revert f g
  decide +kernel

/-- Three slots of one corner, whose faces are right-handed in this order. -/
structure OneCorner (s t u : ℕ) : Prop where
  lt_size : s < corner.size ∧ t < corner.size ∧ u < corner.size
  meets_eq : ∀ f, meets t f = meets s f ∧ meets u f = meets s f
  rightHanded : Face.RightHanded (corner.slotFace s) (corner.slotFace t) (corner.slotFace u)

/-- For faces that meet in a corner there are slots of that corner on each of them. -/
theorem exists_oneCorner {a b c : Face} (h : Face.RightHanded a b c) : ∃ s t u, OneCorner s t u ∧
    corner.slotFace s = a ∧ corner.slotFace t = b ∧ corner.slotFace u = c := by
  have key : ∀ a b c, Face.RightHanded a b c → ∃ i < 4, ∃ j < 4, ∃ k < 4, ∀ f,
      meets (corner.slotOn b j) f = meets (corner.slotOn a i) f ∧
        meets (corner.slotOn c k) f = meets (corner.slotOn a i) f := by
    decide +kernel
  obtain ⟨i, hi, j, hj, k, hk, hmeets⟩ := key a b c h
  have ha : corner.slotFace (corner.slotOn a i) = a := slotFace_slotOn hi
  have hb : corner.slotFace (corner.slotOn b j) = b := slotFace_slotOn hj
  have hc : corner.slotFace (corner.slotOn c k) = c := slotFace_slotOn hk
  have hright := h
  rw [← ha, ← hb, ← hc] at hright
  refine ⟨_, _, _, ⟨⟨?_, ?_, ?_⟩, hmeets, hright⟩, ha, hb, hc⟩
  · exact slotOn_lt_size hi
  · exact slotOn_lt_size hj
  · exact slotOn_lt_size hk

namespace OneCorner

/-- A quarter turn takes the slots of a corner to the slots of a corner. -/
theorem carried (h : OneCorner s t u) (f : Face) :
    OneCorner (corner.carried f s) (corner.carried f t) (corner.carried f u) where
  lt_size := ⟨carried_lt_size _ f s, carried_lt_size _ f t, carried_lt_size _ f u⟩
  meets_eq g := by
    obtain ⟨hs, ht, hu⟩ := h.lt_size
    rw [meets_carried f g hs, meets_carried f g ht, meets_carried f g hu]
    exact h.meets_eq _
  rightHanded := by
    rw [slotFace_carried, slotFace_carried, slotFace_carried]
    exact Face.preservesHands_turnFace f _ _ _ h.rightHanded

/-- Turns take the slots of a corner to the slots of a corner. -/
theorem iterate_carried (h : OneCorner s t u) (f : Face) (m : ℕ) :
    OneCorner ((corner.carried f)^[m] s) ((corner.carried f)^[m] t) ((corner.carried f)^[m] u) := by
  induction m generalizing s t u with
  | zero => exact h
  | succ m ih => exact ih (h.carried f)

/-- The slots of a corner are in the same layers. -/
theorem layer_eq (h : OneCorner s t u) (hn : 2 ≤ n) (f : Face) :
    corner.layer n f t = corner.layer n f s ∧ corner.layer n f u = corner.layer n f s := by
  obtain ⟨ht, hu⟩ := h.meets_eq f
  rw [layer_corner hn, layer_corner hn, layer_corner hn, ht, hu]
  exact ⟨rfl, rfl⟩

end OneCorner

end Twisty.SlotKind
