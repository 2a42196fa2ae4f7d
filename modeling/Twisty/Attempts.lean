/-!
# Attempts

An attempt goes from one state to another and can fail on the way. It gives the state that was
reached, with the error if there was one, so that it shows what a failure leaves behind.

`tryEach` makes an attempt for each entry of a list, every one from where the one before it came to,
and stops at the first that fails. What each attempt keeps, failed or not, all of them keep
(`tryEach_kept`).
-/

namespace Twisty

variable {σ β ε : Type} {step : σ → β → σ × Option ε} {s t : σ} {x : β} {e : ε}

/-- Make an attempt for each entry of a list, up to the first that fails. -/
def tryEach (step : σ → β → σ × Option ε) (s : σ) : List β → σ × Option ε
  | [] => (s, none)
  | x :: xs =>
    match step s x with
    | (t, none) => tryEach step t xs
    | (t, some e) => (t, some e)

/-- After an attempt that does not fail the others go on from what it reached. -/
theorem tryEach_cons_of_none (h : step s x = (t, none)) (xs : List β) :
    tryEach step s (x :: xs) = tryEach step t xs := by
  rw [tryEach, h]

/-- The first attempt that fails is the last that is made. -/
theorem tryEach_cons_of_some (h : step s x = (t, some e)) (xs : List β) :
    tryEach step s (x :: xs) = (t, some e) := by
  rw [tryEach, h]

/-- If the attempts for a list do not fail, those for a second one go on from what they reached. -/
theorem tryEach_append_of_none {xs : List β} (h : tryEach step s xs = (t, none)) (ys : List β) :
    tryEach step s (xs ++ ys) = tryEach step t ys := by
  induction xs generalizing s with
  | nil =>
    cases h
    rfl
  | cons x xs ih =>
    cases hx : step s x with
    | mk u r =>
      cases r with
      | none =>
        rw [tryEach_cons_of_none hx] at h
        rw [List.cons_append, tryEach_cons_of_none hx]
        exact ih h
      | some e =>
        rw [tryEach_cons_of_some hx] at h
        cases h

/-- What each attempt keeps, failed or not, remains. -/
theorem tryEach_kept {P : σ → Prop} (hstep : ∀ ⦃s⦄ x, P s → P (step s x).1) (hs : P s)
    (xs : List β) : P (tryEach step s xs).1 := by
  induction xs generalizing s with
  | nil => exact hs
  | cons x xs ih =>
    have hx := hstep x hs
    cases hr : step s x with
    | mk u r =>
      rw [hr] at hx
      cases r with
      | none =>
        rw [tryEach_cons_of_none hr]
        exact ih hx
      | some e =>
        rw [tryEach_cons_of_some hr]
        exact hx

end Twisty
