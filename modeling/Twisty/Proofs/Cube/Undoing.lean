import Twisty.Proofs.Cube.Axis
import Twisty.Proofs.Cube.Following
import Twisty.Proofs.Notation.Inverse

/-!
# Undoing

A move and its inverse together turn no layer (`Move.layerTurns_inverse`), so the inverse takes
every slot back (`runSlot_inverse`). Inverses in reverse order take a slot back along a list of
moves (`runSlot_reverse_inverse`) and a cube with it (`WellFormed.turnAll_reverse_inverse`). These
are the moves of the inverse of a text, so a cube that follows a text and then its inverse is as it
was (`follow_inverseText`).
-/

namespace Twisty

variable {α : Type} {n s : ℕ} {k : SlotKind} {ms : List Move}

/-! ## The inverse of a move -/

namespace Move

/-- A number of quarter turns is kept up to whole turns. -/
theorem quarters_modEq (t : Int) : (quarters t : Int) ≡ t [ZMOD 4] := by
  unfold quarters Int.ModEq
  omega

/-- The inverse of a move turns every layer back. -/
theorem layerTurns_inverse (m : Move) (n : ℕ) (f : Face) (l : ℕ) :
    m.inverse.layerTurns n f l ≡ -m.layerTurns n f l [ZMOD 4] := by
  have hturns : (m.inverse.turns : Int) ≡ -m.turns [ZMOD 4] := quarters_modEq _
  rw [layerTurns, layerTurns, inverse_face, inverse_first, inverse_last]
  split_ifs
  · exact hturns
  · exact hturns.neg
  · rfl

end Move

namespace Cube

open Notation (readText inverseText)

/-- A move and then its inverse take each slot back. -/
theorem runSlot_inverse (m : Move) (hk : k.OnCube n) (hs : s < k.size) :
    runSlot n k [m, m.inverse] s = s := by
  have halike : TurnAlike n m.face [m, m.inverse] [] := by
    intro l _ _
    have hback := (m.layerTurns_inverse n m.face l).add_left (m.layerTurns n m.face l)
    rw [Int.add_right_neg] at hback
    simpa [layerTurns] using hback
  have hms : ∀ m' ∈ [m, m.inverse], m'.About m.face := by
    simp [Move.About]
  exact runSlot_congr hms (by simp) halike hk hs

/-! ## The inverses of moves -/

/-- Inverses in reverse order take back a slot that moves have taken along. -/
theorem runSlot_reverse_inverse (ms : List Move) (hk : k.OnCube n) (hs : s < k.size) :
    runSlot n k (ms.reverse.map Move.inverse) (runSlot n k ms s) = s := by
  induction ms generalizing s with
  | nil => rfl
  | cons m ms ih =>
    have hrest := ih (m.turnedSlot_lt n hs)
    rw [List.reverse_cons, List.map_append, runSlot, List.foldl_append]
    exact (congrArg (m.inverse.turnedSlot n k) hrest).trans (runSlot_inverse m hk hs)

/-- Inverses in reverse order take back a cube that moves have been done on. -/
theorem WellFormed.turnAll_reverse_inverse {c d : Cube α} (hc : c.WellFormed n)
    (hms : ∀ m ∈ ms, m.InRange n) (hd : c.turnAll ms = (d, none)) :
    d.turnAll (ms.reverse.map Move.inverse) = (c, none) := by
  have hback : ∀ m ∈ ms.reverse.map Move.inverse, m.InRange n := by
    intro m hm
    obtain ⟨m', hm', rfl⟩ := List.mem_map.1 hm
    exact hms m' (List.mem_reverse.1 hm')
  have hrun : ∀ k ∈ (Inventory.full n).kinds, ∀ s < k.size,
      runSlot n k (ms ++ ms.reverse.map Move.inverse) s = runSlot n k [] s := by
    intro k hk s hs
    rw [runSlot, List.foldl_append]
    exact runSlot_reverse_inverse ms (Inventory.mem_full_iff.1 hk) hs
  obtain ⟨e, hthere, hstay⟩ :=
    hc.turnAll_eq_of_runSlot (List.forall_mem_append.2 ⟨hms, hback⟩) (by simp) hrun
  obtain rfl : c = e := congrArg Prod.fst hstay
  exact (tryEach_append_of_none hd _).symm.trans hthere

/-! ## Texts -/

/-- The inverse of an accepted text is accepted, its moves are the inverse ones in reverse order,
and a cube that follows the text and then its inverse is as it was. -/
theorem follow_inverseText (hn : n ≤ maxLayer) {text : String} (h : readText n text = .ok ms) :
    readText n (inverseText text) = .ok (ms.reverse.map Move.inverse) ∧
      ∀ c : Cube α, c.Reachable n →
        ∃ d, c.follow text = (d, none) ∧ d.follow (inverseText text) = (c, none) := by
  have hinverse := Notation.readText_inverseText h
  refine ⟨hinverse, fun c hc => ?_⟩
  obtain ⟨d, hwf, hfollow, hturns⟩ := hc.wellFormed.follow_of_accepted hn h
  obtain ⟨e, -, hfollow', hturns'⟩ := hwf.follow_of_accepted hn hinverse
  have hms := (Notation.readText_eq_ok_iff.1 h).inRange hn
  obtain rfl : e = c := congrArg Prod.fst
    (hturns'.symm.trans (hc.wellFormed.turnAll_reverse_inverse hms hturns))
  exact ⟨d, hfollow, hfollow'⟩

/-- On a scrambled cube of four layers, `3L  2U2'` is undone by `2U2 3L'`. -/
theorem follow_inverseText_four :
    4 ≤ maxLayer ∧ inverseText "3L  2U2'" = "2U2 3L'" ∧
      readText 4 "3L  2U2'" = .ok [⟨.right, 2, 2, 3⟩, ⟨.up, 2, 2, 2⟩] ∧
      readText 4 (inverseText "3L  2U2'") = .ok [⟨.up, 2, 2, 2⟩, ⟨.right, 2, 2, 1⟩] ∧
      ∃ c : Cube ℕ, c = ((solved 4 Face.index).turnAll [⟨.front, 1, 2, 1⟩]).1 ∧ c.Reachable 4 ∧
        ∃ d, c.follow "3L  2U2'" = (d, none) ∧ d.follow (inverseText "3L  2U2'") = (c, none) := by
  have hn : 4 ≤ maxLayer := by decide
  have hread : readText 4 "3L  2U2'" = .ok [⟨.right, 2, 2, 3⟩, ⟨.up, 2, 2, 2⟩] := by decide
  have hc := (Reachable.solved (by decide : 4 ≠ 0) Face.index).turnAll [⟨.front, 1, 2, 1⟩]
  obtain ⟨hinverse, hfollow⟩ := follow_inverseText (α := ℕ) hn hread
  exact ⟨hn, by decide, hread, hinverse, _, rfl, hc, hfollow _ hc⟩

end Cube

end Twisty
