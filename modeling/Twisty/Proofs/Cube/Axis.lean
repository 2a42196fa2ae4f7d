import Twisty.Proofs.Cube.Reachable
import Mathlib.Data.Int.ModEq

/-!
# Moves about one axis

A move about a face or its opposite gives each layer a number of quarter turns, counted clockwise
about the face (`Move.layerTurns`), and several moves give a layer the sum of theirs. A turn about
the axis leaves every slot in its layer, so such moves take a slot as many quarter turns round as
they give its layer in all (`runSlot_eq_iterate`), and four quarter turns bring it back. Hence moves
that give every layer the same sum modulo 4 take every slot alike (`runSlot_congr`) and reach the
same cube (`turnAll_determined_by_layers`).
-/

namespace Twisty

open Function

variable {α : Type} {n s : ℕ} {k : SlotKind} {f : Face} {ms ms' : List Move}

/-! ## Signed quarter turns -/

namespace SlotKind

open Move (quarters)

/-- Signed quarter turns one after another add up. -/
theorem iterate_carried_quarters_add (hk : k.OnCube n) (hs : s < k.size) (f : Face) (a b : Int) :
    (k.carried f)^[quarters a] ((k.carried f)^[quarters b] s) =
      (k.carried f)^[quarters (a + b)] s := by
  have hsum : (quarters a + quarters b) % 4 = quarters (a + b) := by
    unfold quarters
    omega
  rw [← iterate_add_apply, ← iterate_carried_mod hk hs, hsum]

/-- Quarter turns about the opposite face are quarter turns back. -/
theorem iterate_carried_quarters_neg (hk : k.OnCube n) (hs : s < k.size) (f : Face) (t : ℕ) :
    (k.carried f.opposite)^[t % 4] s = (k.carried f)^[quarters (-t)] s := by
  have hle : t % 4 ≤ 4 := (Nat.mod_lt t (by decide)).le
  have hback := iterate_carried_opposite hk hs f.opposite hle
  rw [Face.opposite_opposite] at hback
  rw [← hback, Move.quarters_neg_natCast, iterate_carried_mod hk hs]

end SlotKind

/-! ## The turns of a layer -/

namespace Move

/-- A move is about a face or its opposite. -/
def About (m : Move) (f : Face) : Prop :=
  m.face = f ∨ m.face = f.opposite

instance (m : Move) (f : Face) : Decidable (m.About f) :=
  inferInstanceAs (Decidable (m.face = f ∨ m.face = f.opposite))

/-- The quarter turns, clockwise about a face, that a move about the face or its opposite gives the
layer `l` of an `n`-layer cube, counted from the face. -/
def layerTurns (m : Move) (n : ℕ) (f : Face) (l : ℕ) : Int :=
  if m.face = f ∧ m.first ≤ l ∧ l ≤ m.last then m.turns
  else if m.face = f.opposite ∧ m.first ≤ n + 1 - l ∧ n + 1 - l ≤ m.last then -m.turns
  else 0

/-- A move about an axis takes a slot round as often as it turns its layer. -/
theorem About.turnedSlot_eq {m : Move} (hm : m.About f) (hk : k.OnCube n) (hs : s < k.size) :
    m.turnedSlot n k s =
      (k.carried f)^[quarters (m.layerTurns n f (k.layer n f s + 1))] s := by
  have hne : ∀ g : Face, g ≠ g.opposite := by decide
  rcases hm with rfl | hface
  · simp only [turnedSlot, layerTurns, true_and, hne, false_and, if_false]
    split_ifs
    · rw [quarters_natCast]
    · rfl
  · have hlt := SlotKind.layer_lt hk f s
    have hlayer : n - 1 - k.layer n f s + 1 = n + 1 - (k.layer n f s + 1) := by omega
    simp only [turnedSlot, layerTurns, hface, (hne f).symm, false_and, true_and, if_false,
      SlotKind.layer_opposite hk, hlayer]
    split_ifs
    · exact SlotKind.iterate_carried_quarters_neg hk hs f m.turns
    · rfl

end Move

namespace Cube

/-- The quarter turns, clockwise about a face, that moves give the layer `l` in all. -/
def layerTurns (n : ℕ) (f : Face) (l : ℕ) (ms : List Move) : Int :=
  (ms.map (·.layerTurns n f l)).sum

/-- Moves about an axis take a slot round as often as they turn its layer in all. -/
theorem runSlot_eq_iterate (hms : ∀ m ∈ ms, m.About f) (hk : k.OnCube n) (hs : s < k.size) :
    runSlot n k ms s =
      (k.carried f)^[Move.quarters (layerTurns n f (k.layer n f s + 1) ms)] s := by
  induction ms generalizing s with
  | nil => rfl
  | cons m ms ih =>
    have hm := (hms m (by simp)).turnedSlot_eq hk hs
    have hrest := ih (fun m' hm' => hms m' (List.mem_cons_of_mem m hm')) (m.turnedSlot_lt n hs)
    rw [hm, SlotKind.layer_iterate_carried hk, SlotKind.iterate_carried_quarters_add hk hs] at hrest
    rw [layerTurns, List.map_cons, List.sum_cons, Int.add_comm, ← layerTurns, ← hrest, ← hm]
    rfl

/-- Two lists of moves turn every layer of an `n`-layer cube alike about a face, up to whole
turns. -/
def TurnAlike (n : ℕ) (f : Face) (ms ms' : List Move) : Prop :=
  ∀ l, 1 ≤ l → l ≤ n → layerTurns n f l ms ≡ layerTurns n f l ms' [ZMOD 4]

/-- Moves about one axis that turn the layers alike take each slot to the same place. -/
theorem runSlot_congr (hms : ∀ m ∈ ms, m.About f) (hms' : ∀ m ∈ ms', m.About f)
    (h : TurnAlike n f ms ms') (hk : k.OnCube n) (hs : s < k.size) :
    runSlot n k ms s = runSlot n k ms' s := by
  have hlt := SlotKind.layer_lt hk f s
  have hsum := h (k.layer n f s + 1) (Nat.le_add_left 1 _) hlt
  have hquarters := congrArg Int.toNat hsum
  rw [runSlot_eq_iterate hms hk hs, runSlot_eq_iterate hms' hk hs]
  exact congrArg (fun q => (k.carried f)^[q] s) hquarters

/-- Moves that take every slot alike reach the same cube. -/
theorem WellFormed.turnAll_eq_of_runSlot {c : Cube α} (hc : c.WellFormed n)
    (hms : ∀ m ∈ ms, m.InRange n) (hms' : ∀ m ∈ ms', m.InRange n)
    (h : ∀ k ∈ (Inventory.full n).kinds, ∀ s < k.size, runSlot n k ms s = runSlot n k ms' s) :
    ∃ d, c.turnAll ms = (d, none) ∧ c.turnAll ms' = (d, none) := by
  obtain ⟨d, hd, hwf, hrun⟩ := hc.turnAll_eq_ok hms
  obtain ⟨e, he, hwf', hrun'⟩ := hc.turnAll_eq_ok hms'
  have hde : d = e := hwf.eq_of_sticker_runSlot hwf' fun k hk s hs => by
    rw [hrun k hk s hs, h k hk s hs, hrun' k hk s hs]
  exact ⟨d, hd, hde ▸ he⟩

/-- Moves about one axis that turn the layers alike reach the same cube. -/
theorem WellFormed.turnAll_eq_of_turnAlike {c : Cube α} (hc : c.WellFormed n)
    (hms : ∀ m ∈ ms, m.InRange n ∧ m.About f) (hms' : ∀ m ∈ ms', m.InRange n ∧ m.About f)
    (h : TurnAlike n f ms ms') : ∃ d, c.turnAll ms = (d, none) ∧ c.turnAll ms' = (d, none) := by
  refine hc.turnAll_eq_of_runSlot (fun m hm => (hms m hm).1) (fun m hm => (hms' m hm).1) ?_
  intro k hk s hs
  exact runSlot_congr (fun m hm => (hms m hm).2) (fun m hm => (hms' m hm).2) h
    (Inventory.mem_full_iff.1 hk) hs

/-- Moves about one axis that turn every layer alike can all be done and reach the same cube. -/
theorem turnAll_determined_by_layers (hms : ∀ m ∈ ms, m.InRange n ∧ m.About f)
    (hms' : ∀ m ∈ ms', m.InRange n ∧ m.About f) (h : TurnAlike n f ms ms') :
    ∀ c : Cube α, c.Reachable n → ∃ d, c.turnAll ms = (d, none) ∧ c.turnAll ms' = (d, none) :=
  fun _ hc => hc.wellFormed.turnAll_eq_of_turnAlike hms hms' h

/-- On a cube of four layers whose second layer has been turned, the three layers next to the right
face turned five quarters and then two as seen from the left face are turned as by one quarter seen
from there. -/
theorem turnAll_determined_by_layers_four :
    (∀ m ∈ [Move.mk .right 1 3 5, Move.mk .left 2 4 2], m.InRange 4 ∧ m.About .right) ∧
      (∀ m ∈ [Move.mk .left 2 4 1], m.InRange 4 ∧ m.About .right) ∧
      TurnAlike 4 .right [⟨.right, 1, 3, 5⟩, ⟨.left, 2, 4, 2⟩] [⟨.left, 2, 4, 1⟩] ∧
      ∃ c : Cube ℕ, c = ((solved 4 Face.index).turnAll [⟨.up, 2, 2, 1⟩]).1 ∧ c.Reachable 4 ∧
        ∃ d, c.turnAll [⟨.right, 1, 3, 5⟩, ⟨.left, 2, 4, 2⟩] = (d, none) ∧
          c.turnAll [⟨.left, 2, 4, 1⟩] = (d, none) := by
  have hms : ∀ m ∈ [Move.mk .right 1 3 5, Move.mk .left 2 4 2], m.InRange 4 ∧ m.About .right := by
    decide
  have hms' : ∀ m ∈ [Move.mk .left 2 4 1], m.InRange 4 ∧ m.About .right := by decide
  have h : TurnAlike 4 .right [⟨.right, 1, 3, 5⟩, ⟨.left, 2, 4, 2⟩] [⟨.left, 2, 4, 1⟩] := by
    intro l h₁ h₂
    obtain rfl | rfl | rfl | rfl : l = 1 ∨ l = 2 ∨ l = 3 ∨ l = 4 := by omega
    all_goals decide
  have hc := (Reachable.solved (by decide : 4 ≠ 0) Face.index).turnAll [⟨.up, 2, 2, 1⟩]
  exact ⟨hms, hms', h, _, rfl, hc, turnAll_determined_by_layers hms hms' h _ hc⟩

end Cube

end Twisty
