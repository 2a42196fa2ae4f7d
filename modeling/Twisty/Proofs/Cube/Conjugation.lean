import Twisty.Proofs.Cube.Pieces
import Twisty.Proofs.Cube.Solved
import Twisty.Proofs.Cube.Undoing

/-!
# Moves of a turned cube

A quarter turn of the whole cube takes every turn about `g` to the turn about the face where `g`
comes to lie : for points (`turnPoint_turnPoint`) since it keeps scalar and vector products, so for
slots (`carried_carried`), and since it keeps the layers too (`layer_turnFace_carried`), for moves
(`Move.carried_turnedSlot`). Several quarter turns do so one after another
(`Move.iterate_carried_turnedSlot`).

So a move between a whole turn and its inverse is the same move about another face, the one that
the whole turn takes to the face of the move (`turn_conjugated`).
-/

namespace Twisty

open Function

variable {n s : ℕ} {k : SlotKind}

/-! ## Turned points -/

namespace Face

/-- A quarter turn of space is linear. -/
theorem turnPoint_sub (f : Face) (p q : Point) :
    f.turnPoint (p - q) = f.turnPoint p - f.turnPoint q := by
  cases f <;> ext <;> simp [turnPoint, normal, Point.dot, Point.cross] <;> omega

/-- A quarter turn of space keeps dot products. -/
theorem dot_turnPoint (f : Face) (p q : Point) :
    (f.turnPoint p).dot (f.turnPoint q) = p.dot q := by
  cases f <;> simp [turnPoint, normal, Point.dot, Point.cross] <;> ring

/-- A turn of the cube takes the turn about a face to the turn about the turned face. -/
theorem turnPoint_turnPoint (f g : Face) (p : Point) :
    f.turnPoint (g.turnPoint p) = (f.turnFace g).turnPoint (f.turnPoint p) := by
  calc f.turnPoint (g.turnPoint p)
      = f.turnPoint (Point.scale (g.normal.dot p) g.normal) - f.turnPoint (g.normal.cross p) := by
        rw [turnPoint.eq_def g, turnPoint_sub]
    _ = Point.scale ((f.turnPoint g.normal).dot (f.turnPoint p)) (f.turnPoint g.normal) -
          (f.turnPoint g.normal).cross (f.turnPoint p) := by
        rw [turnPoint_scale, turnPoint_cross, dot_turnPoint]
    _ = (f.turnFace g).turnPoint (f.turnPoint p) := by
        rw [turnPoint.eq_def (f.turnFace g), normal_turnFace]

end Face

/-! ## Turned slots -/

namespace SlotKind

/-- A quarter turn of the cube takes a turn about a face to one about the face that it comes to. -/
theorem carried_carried (hk : k.OnCube n) (f g : Face) (s : ℕ) :
    k.carried f (k.carried g s) = k.carried (f.turnFace g) (k.carried f s) := by
  refine point_inj hk (carried_lt_size k _ _) (carried_lt_size k _ _) ?_
  rw [point_carried hk, point_carried hk, point_carried hk, point_carried hk,
    Face.turnPoint_turnPoint]

/-- A quarter turn of the cube takes several turns about a face to as many about the one that it
comes to. -/
theorem carried_iterate_carried (hk : k.OnCube n) (f g : Face) (j s : ℕ) :
    k.carried f ((k.carried g)^[j] s) = (k.carried (f.turnFace g))^[j] (k.carried f s) := by
  induction j generalizing s with
  | zero => rfl
  | succ j ih => rw [iterate_succ_apply, ih, carried_carried hk, ← iterate_succ_apply]

/-- A carried slot lies in the same layer from the turned face. -/
theorem layer_turnFace_carried (hk : k.OnCube n) (f g : Face) (s : ℕ) :
    k.layer n (f.turnFace g) (k.carried f s) = k.layer n g s := by
  have hturned := Cell.dot_clamped_point (f.turnFace g) (within_cell hk (k.carried f s))
  have hbefore := Cell.dot_clamped_point g (within_cell hk s)
  rw [← point, point_carried hk, ← Face.turnPoint_clamped, Face.normal_turnFace, Face.dot_turnPoint,
    point, hbefore] at hturned
  rw [layer, layer]
  omega

end SlotKind

/-! ## Turned moves -/

namespace Move

/-- The move about the face where some quarter turns of the whole cube take the face of a move. -/
def turned (f : Face) (t : ℕ) (m : Move) : Move :=
  { m with face := f.turnFace^[t] m.face }

/-- A quarter turn of the cube takes a move to the move about the face that its face comes to. -/
theorem carried_turnedSlot (m : Move) (hk : k.OnCube n) (f : Face) (s : ℕ) :
    k.carried f (m.turnedSlot n k s) = (m.turned f 1).turnedSlot n k (k.carried f s) := by
  simp only [turnedSlot, turned, iterate_one, SlotKind.layer_turnFace_carried hk]
  split_ifs
  · exact SlotKind.carried_iterate_carried hk f m.face _ s
  · rfl

/-- Whole turns take a move to the move about the turned face. -/
theorem iterate_carried_turnedSlot (m : Move) (hk : k.OnCube n) (f : Face) (t s : ℕ) :
    (k.carried f)^[t] (m.turnedSlot n k s) =
      (m.turned f t).turnedSlot n k ((k.carried f)^[t] s) := by
  induction t generalizing m s with
  | zero => rfl
  | succ t ih =>
    rw [iterate_succ_apply, carried_turnedSlot m hk, ih, iterate_succ_apply]
    rfl

end Move

namespace Cube

/-- The turned move between a whole turn and its inverse takes the slots as the move does. -/
theorem runSlot_conjugated {r : Move} (hr : r.IsRotation n) (m : Move) (hk : k.OnCube n)
    (hs : s < k.size) :
    runSlot n k [r, m.turned r.face (r.turns % 4), r.inverse] s = runSlot n k [m] s := by
  calc runSlot n k [r, m.turned r.face (r.turns % 4), r.inverse] s
      = r.inverse.turnedSlot n k
          ((m.turned r.face (r.turns % 4)).turnedSlot n k (r.turnedSlot n k s)) := rfl
    _ = r.inverse.turnedSlot n k (r.turnedSlot n k (m.turnedSlot n k s)) := by
        rw [hr.turnedSlot_eq hk, hr.turnedSlot_eq hk, m.iterate_carried_turnedSlot hk]
    _ = runSlot n k [m] s := runSlot_inverse r hk (m.turnedSlot_lt n hs)

/-- A whole turn can be done, and it takes the face of every label along. -/
theorem exists_turn_labelled {r : Move} (hr : r.IsRotation n) (hn : n ≠ 0) :
    ∃ d, (labelled n).turn r = (d, none) ∧ ∀ k s (x : SlotKind × ℕ), d.sticker? k s = some x →
      k.slotFace s = r.face.turnFace^[r.turns % 4] (x.1.slotFace x.2) := by
  obtain ⟨d, hd, hwf, hstep⟩ := (wellFormed_ofSlots n Prod.mk).turn_eq_ok (hr.inRange hn)
  refine ⟨d, hd, fun k s x hx => ?_⟩
  obtain ⟨hk, hs⟩ := hwf.slot_of_sticker hx
  have hon := Inventory.mem_full_iff.1 hk
  obtain ⟨t, ht, rfl⟩ := r.exists_turnedSlot_eq hon hs
  rw [hstep k hk t ht, sticker?_ofSlots Prod.mk hk ht] at hx
  obtain rfl := Option.some.inj hx
  exact hr.slotFace_turnedSlot hon t

/-- A move between a whole turn and its inverse is the same move about the face whose stickers the
whole turn brings to the face of the move. -/
theorem turn_conjugated (f g : Face) (t : ℕ) :
    ∃ g₂ : Face,
      (∀ n, 1 ≤ n → ∃ d, (labelled n).turn ⟨f, 1, n, t⟩ = (d, none) ∧
        ∀ k s (x : SlotKind × ℕ), d.sticker? k s = some x →
          (x.1.slotFace x.2 = g₂ ↔ k.slotFace s = g)) ∧
      ∀ n a b u, (Move.mk g a b u).InRange n → ∀ {α : Type} (c : Cube α), c.Reachable n →
        ∃ d, c.turnAll [⟨f, 1, n, t⟩, ⟨g, a, b, u⟩, (Move.mk f 1 n t).inverse] = (d, none) ∧
          c.turn ⟨g₂, a, b, u⟩ = (d, none) := by
  have hinj := (injective_turnFace f).iterate (t % 4)
  obtain ⟨g₂, hg⟩ := Finite.injective_iff_surjective.1 hinj g
  have hr : ∀ n, (Move.mk f 1 n t).IsRotation n := fun n => ⟨rfl, rfl⟩
  refine ⟨g₂, fun n hn => ?_, fun n a b u hm α c hc => ?_⟩
  · obtain ⟨d, hd, hface⟩ := exists_turn_labelled (hr n) (Nat.ne_of_gt hn)
    refine ⟨d, hd, fun k s x hx => ?_⟩
    rw [hface k s x hx, ← hg, hinj.eq_iff]
  · have hm₂ : (Move.mk g₂ a b u).InRange n := hm
    have hn : n ≠ 0 := by
      obtain ⟨h₁, h₂, h₃⟩ := hm
      omega
    have hms : ∀ m ∈ [⟨f, 1, n, t⟩, ⟨g, a, b, u⟩, (Move.mk f 1 n t).inverse], m.InRange n := by
      simpa using ⟨(hr n).inRange hn, hm, (hr n).inRange hn⟩
    have hms₂ : ∀ m ∈ [Move.mk g₂ a b u], m.InRange n := by simpa using hm₂
    have hrun : ∀ k ∈ (Inventory.full n).kinds, ∀ s < k.size,
        runSlot n k [⟨f, 1, n, t⟩, ⟨g, a, b, u⟩, (Move.mk f 1 n t).inverse] s =
          runSlot n k [⟨g₂, a, b, u⟩] s := by
      intro k hk s hs
      have hsame := runSlot_conjugated (hr n) ⟨g₂, a, b, u⟩ (Inventory.mem_full_iff.1 hk) hs
      rwa [Move.turned, hg] at hsame
    obtain ⟨d, hd, hone⟩ := hc.wellFormed.turnAll_eq_of_runSlot hms hms₂ hrun
    obtain ⟨e, he, -⟩ := hc.wellFormed.turn_eq_ok hm₂
    obtain rfl : e = d := congrArg Prod.fst ((tryEach_cons_of_none he []).symm.trans hone)
    exact ⟨e, hd, he⟩

/-- On a cube of four layers whose second layer has been turned, the inner layers turned back about
the upper face between a turn of the cube about the right face and its inverse are the inner layers
turned back about the front face. -/
theorem turn_conjugated_four :
    (Move.mk .up 2 3 3).InRange 4 ∧
      ∃ c : Cube ℕ, c = ((solved 4 Face.index).turnAll [⟨.left, 2, 2, 1⟩]).1 ∧ c.Reachable 4 ∧
        ∃ d, c.turnAll [⟨.right, 1, 4, 1⟩, ⟨.up, 2, 3, 3⟩, ⟨.right, 1, 4, 3⟩] = (d, none) ∧
          c.turn ⟨.front, 2, 3, 3⟩ = (d, none) := by
  have hm : (Move.mk .up 2 3 3).InRange 4 := by decide
  have hc := (Reachable.solved (by decide : 4 ≠ 0) Face.index).turnAll [⟨.left, 2, 2, 1⟩]
  obtain ⟨g₂, hlabels, hturns⟩ := turn_conjugated .right .up 1
  have hfront : g₂ = .front := by
    obtain ⟨d, hd, hface⟩ := hlabels 1 (by decide)
    have hlabel : ((labelled 1).turn ⟨.right, 1, 1, 1⟩).1.sticker? .exactCenter 0 =
        some (.exactCenter, 1) := by decide
    rw [hd] at hlabel
    exact ((hface .exactCenter 0 (.exactCenter, 1) hlabel).2 (by decide)).symm
  subst hfront
  exact ⟨hm, _, rfl, hc, hturns 4 2 3 3 hm _ hc⟩

end Cube

end Twisty
