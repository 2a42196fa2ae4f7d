import Twisty.Slot.Kind
import Mathlib.Data.List.Basic

/-!
# Names of kinds

The name of a kind writes its ranks in decimal, with a comma between two of them, and a comma is no
digit. So the ranks can be read off the name, and different kinds have different names
(`SlotKind.name_inj`).
-/

namespace Twisty.SlotKind

theorem toDigits_inj {r s : ℕ} (h : Nat.toDigits 10 r = Nat.toDigits 10 s) : r = s := by
  have hvalue := congrArg (fun ds => Nat.ofDigitChars 10 ds 0) h
  simpa using hvalue

theorem comma_notMem_toDigits (r : ℕ) : ',' ∉ Nat.toDigits 10 r := by
  intro h
  have hdigit := Nat.isDigit_of_mem_toDigits (by decide) (by decide) h
  exact absurd hdigit (by decide)

theorem toList_name_wing (r : ℕ) : (wing r).name.toList = "wing ".toList ++ Nat.toDigits 10 r := by
  have hname : (wing r).name = "wing " ++ toString r := rfl
  rw [hname]
  simp

theorem toList_name_center (r₁ r₂ : ℕ) : (center r₁ r₂).name.toList =
    "center ".toList ++ (Nat.toDigits 10 r₁ ++ ',' :: Nat.toDigits 10 r₂) := by
  have hname : (center r₁ r₂).name = "center " ++ toString r₁ ++ "," ++ toString r₂ := rfl
  rw [hname]
  simp

/-- Different kinds have different names. -/
theorem name_inj {j k : SlotKind} (h : j.name = k.name) : j = k := by
  have hchars := congrArg String.toList h
  have hplain : corner.name.toList = "corner".toList ∧ midge.name.toList = "midge".toList ∧
      exactCenter.name.toList = "center".toList := ⟨rfl, rfl, rfl⟩
  cases j <;> cases k <;>
    simp only [hplain.1, hplain.2.1, hplain.2.2, toList_name_wing, toList_name_center] at hchars
  case wing.wing r s => rw [toDigits_inj (List.append_cancel_left hchars)]
  case center.center r₁ r₂ s₁ s₂ =>
    have hranks := (List.append_cons_inj_of_notMem (comma_notMem_toDigits r₁)
      (comma_notMem_toDigits r₂)).1 (List.append_cancel_left hchars)
    rw [toDigits_inj hranks.1, toDigits_inj hranks.2.2]
  all_goals simp_all

end Twisty.SlotKind
