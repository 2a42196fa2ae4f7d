import Twisty.Attempts
import Twisty.Space.Bounded
import Mathlib.Algebra.Order.Ring.Abs
import Mathlib.Data.List.Basic

/-!
# Steps that can leave their range

In a machine a number has so many bits, a difference without a sign cannot go below zero, and a list
has no entry past its end. The functions of this folder are named for those of the library whose
steps they do, one by one, and they give nothing where a step leaves its range. That they always
give what the library gives is then to say that no step does.

Here are the steps themselves, and what is known of several in a row if it is known of each
(`mapM_eq_some`, `collect_eq_some`, `foldlM_eq_some`, `attempt_eq_some`, `tryEach_eq_some`).
-/

namespace Twisty

variable {β γ σ ε : Type}

theorem fit?_eq_some {x : ℤ} (h : |x| ≤ 2147483647) : fit? x = some x := by
  rw [abs_le] at h
  exact if_pos ⟨by omega, h.2⟩

namespace Bounded

/-! ## Numbers -/

/-- A number, if it has 16 bits. -/
def short? (x : ℕ) : Option ℕ :=
  if x ≤ 65535 then some x else none

/-- A number, if it has 32 bits. -/
def long? (x : ℕ) : Option ℕ :=
  if x ≤ 4294967295 then some x else none

/-- A number with a sign, if it has 64 bits. -/
def signed? (x : ℤ) : Option ℤ :=
  if -9223372036854775808 ≤ x ∧ x ≤ 9223372036854775807 then some x else none

/-- The difference of two numbers, if it is not below zero. -/
def minus? (x y : ℕ) : Option ℕ :=
  if y ≤ x then some (x - y) else none

theorem short?_eq_some {x : ℕ} (h : x ≤ 65535) : short? x = some x :=
  if_pos h

theorem long?_eq_some {x : ℕ} (h : x ≤ 4294967295) : long? x = some x :=
  if_pos h

theorem signed?_eq_some {x : ℤ} (h : |x| ≤ 4294967295) : signed? x = some x := by
  rw [abs_le] at h
  exact if_pos ⟨by omega, by omega⟩

theorem minus?_eq_some {x y : ℕ} (h : y ≤ x) : minus? x y = some (x - y) :=
  if_pos h

/-! ## Several steps -/

theorem mapM_eq_some {g : β → Option γ} {h : β → γ} {xs : List β}
    (hg : ∀ x ∈ xs, g x = some (h x)) : xs.mapM g = some (xs.map h) := by
  induction xs with
  | nil => rfl
  | cons x xs ih =>
    rw [List.mapM_cons, hg x (by simp), ih fun y hy => hg y (List.mem_cons_of_mem x hy)]
    rfl

/-- Steps that stay in range as long as something holds which they keep. -/
theorem foldlM_eq_some {P : σ → Prop} {g : σ → β → Option σ} {h : σ → β → σ} {xs : List β} {s : σ}
    (hs : P s) (hg : ∀ s, P s → ∀ x ∈ xs, g s x = some (h s x) ∧ P (h s x)) :
    xs.foldlM g s = some (xs.foldl h s) := by
  induction xs generalizing s with
  | nil => rfl
  | cons x xs ih =>
    obtain ⟨hx, hP⟩ := hg s hs x (by simp)
    rw [List.foldlM_cons, hx]
    exact ih hP fun t ht y hy => hg t ht y (List.mem_cons_of_mem x hy)

/-- What is found at some of the entries of a list. -/
def collect (g : β → Option (Option γ)) (xs : List β) : Option (List γ) :=
  (xs.mapM g).map fun found => found.filterMap id

theorem collect_eq_some {g : β → Option (Option γ)} {h : β → Option γ} {xs : List β}
    (hg : ∀ x ∈ xs, g x = some (h x)) : collect g xs = some (xs.filterMap h) := by
  rw [collect, mapM_eq_some hg, Option.map_some, List.filterMap_map]
  rfl

/-- First one attempt, which can fail, and if it does not then another. -/
def attempt (r : Option (Except ε β)) (g : β → Option (Except ε γ)) : Option (Except ε γ) :=
  r.bind fun
    | .ok x => g x
    | .error e => some (.error e)

/-- A second attempt only has to stay in range if the first does not fail. -/
theorem attempt_eq_some {r : Except ε β} {g : β → Option (Except ε γ)} {h : β → Except ε γ}
    (hg : ∀ x, r = .ok x → g x = some (h x)) : attempt (some r) g = some (r >>= h) := by
  cases r with
  | error e => rfl
  | ok x => exact hg x rfl

/-- An attempt for each entry of a list, up to the first that fails. -/
def tryEach (step : σ → β → Option (σ × Option ε)) (s : σ) : List β → Option (σ × Option ε)
  | [] => some (s, none)
  | x :: xs => do
    match ← step s x with
    | (t, none) => tryEach step t xs
    | (t, some e) => return (t, some e)

/-- Attempts that stay in range as long as something holds which they keep, failed or not. -/
theorem tryEach_eq_some {P : σ → Prop} {g : σ → β → Option (σ × Option ε)}
    {h : σ → β → σ × Option ε} (hg : ∀ ⦃s⦄ x, P s → g s x = some (h s x) ∧ P (h s x).1) {s : σ}
    (hs : P s) (xs : List β) : tryEach g s xs = some (Twisty.tryEach h s xs) := by
  induction xs generalizing s with
  | nil => rfl
  | cons x xs ih =>
    obtain ⟨hx, hP⟩ := hg x hs
    rw [tryEach, hx, Option.bind_eq_bind, Option.bind_some]
    cases hr : h s x with
    | mk t r =>
      rw [hr] at hP
      cases r with
      | none =>
        rw [tryEach_cons_of_none hr]
        exact ih hP
      | some e =>
        rw [tryEach_cons_of_some hr]
        rfl

end Bounded

end Twisty
