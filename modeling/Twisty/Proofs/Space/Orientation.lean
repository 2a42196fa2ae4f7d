import Twisty.Proofs.Space.Turning
import Mathlib.Tactic.Ring

/-!
# Oriented corners

Three faces at a corner are right-handed (`Face.RightHanded`) if the third looks along the vector
product of the other two. Turns of the cube keep this (`preservesHands_turnFace`), and a map of the
faces that keeps it is given by the images of two adjacent faces (`PreservesHands.eq_of_up_front`).
There are as many choices for these as the cube has rotations, so each such map is made of quarter
turns (`PreservesHands.exists_turns`) : no mirror image is among them.
-/

namespace Twisty.Face

open Function

/-! ## Right-handed corners -/

/-- The third of three faces at a corner looks along the vector product of the others. -/
def RightHanded (a b c : Face) : Prop :=
  a.normal.cross b.normal = c.normal

instance (a b c : Face) : Decidable (RightHanded a b c) :=
  inferInstanceAs (Decidable (_ = _))

theorem normal_inj {a b : Face} (h : a.normal = b.normal) : a = b := by
  revert a b
  decide

/-- Two faces of a corner determine the third. -/
theorem RightHanded.unique {a b c d : Face} (h : RightHanded a b c) (h' : RightHanded a b d) :
    c = d :=
  normal_inj (h.symm.trans h')

theorem normal_turnFace (f g : Face) : (f.turnFace g).normal = f.turnPoint g.normal := by
  revert f g
  decide

/-- A turn keeps cross products. -/
theorem turnPoint_cross (f : Face) (p q : Point) :
    f.turnPoint (p.cross q) = (f.turnPoint p).cross (f.turnPoint q) := by
  cases f <;> ext <;> simp [turnPoint, normal, Point.dot, Point.cross] <;> ring

/-! ## Maps that keep hands -/

/-- A map of the faces takes right-handed corners to right-handed ones. -/
def PreservesHands (g : Face → Face) : Prop :=
  ∀ a b c, RightHanded a b c → RightHanded (g a) (g b) (g c)

namespace PreservesHands

variable {g h : Face → Face}

theorem comp (hg : PreservesHands g) (hh : PreservesHands h) : PreservesHands (g ∘ h) :=
  fun a b c habc => hg _ _ _ (hh a b c habc)

theorem iterate (hg : PreservesHands g) (k : ℕ) : PreservesHands g^[k] := by
  induction k with
  | zero => exact fun a b c habc => habc
  | succ k ih => exact ih.comp hg

/-- A map that keeps the handedness of corners is known from two faces. -/
theorem eq_of_up_front (hg : PreservesHands g) (hh : PreservesHands h) (hup : g up = h up)
    (hfront : g front = h front) : g = h := by
  have third : ∀ {a b c : Face}, RightHanded a b c → g a = h a → g b = h b → g c = h c := by
    intro a b c habc ha hb
    have hc := hg a b c habc
    rw [ha, hb] at hc
    exact hc.unique (hh a b c habc)
  have hright : g right = h right := third (a := up) (b := front) (by decide) hup hfront
  have hleft : g left = h left := third (a := front) (b := up) (by decide) hfront hup
  have hback : g back = h back := third (a := up) (b := right) (by decide) hup hright
  have hdown : g down = h down := third (a := right) (b := front) (by decide) hright hfront
  funext f
  cases f <;> assumption

end PreservesHands

/-- A turn keeps the handedness of corners. -/
theorem preservesHands_turnFace (f : Face) : PreservesHands f.turnFace := by
  intro a b c habc
  rw [RightHanded, normal_turnFace, normal_turnFace, normal_turnFace, ← turnPoint_cross]
  exact congrArg f.turnPoint habc

/-- Any two faces at a corner are where quarter turns take the upper and the front face. -/
theorem exists_turns_up_front {a b c : Face} (h : RightHanded a b c) :
    ∃ d : Face, ∃ i < 4, ∃ j < 4, up.turnFace^[j] (d.turnFace^[i] up) = a ∧
      up.turnFace^[j] (d.turnFace^[i] front) = b := by
  revert a b c
  decide

/-- A map of the faces that keeps hands is a rotation of the cube. -/
theorem PreservesHands.exists_turns {g : Face → Face} (hg : PreservesHands g) :
    ∃ d : Face, ∃ i < 4, ∃ j < 4, g = up.turnFace^[j] ∘ d.turnFace^[i] := by
  obtain ⟨d, i, hi, j, hj, hup, hfront⟩ := exists_turns_up_front (hg up front right (by decide))
  have hfirst := (preservesHands_turnFace d).iterate i
  have hturns := ((preservesHands_turnFace up).iterate j).comp hfirst
  exact ⟨d, i, hi, j, hj, hg.eq_of_up_front hturns hup.symm hfront.symm⟩

end Twisty.Face
