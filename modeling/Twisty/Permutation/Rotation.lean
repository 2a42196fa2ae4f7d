/-!
# Rotating the entries of a list

`exchange i j` lets two entries of a list trade places, and `rotate` moves the entries at some
places round : each goes to the next place of the list of places, and the last to the first. The
exchanges are done from the end of the list of places, so that the rotation is defined when places
repeat. A place past the end of the list is left out.
-/

namespace Twisty

variable {α : Type u}

/-- Let the entries at two places trade places. -/
def exchange (i j : Nat) (l : List α) : List α :=
  match l[i]?, l[j]? with
  | some x, some y => (l.set i y).set j x
  | _, _ => l

/-- Move the entry at each of some places to the next, and the last to the first. -/
def rotate : List Nat → List α → List α
  | i :: j :: is, l => exchange i j (rotate (j :: is) l)
  | _, l => l

@[simp] theorem length_exchange (i j : Nat) (l : List α) : (exchange i j l).length = l.length := by
  unfold exchange
  split <;> simp

@[simp] theorem length_rotate (is : List Nat) (l : List α) : (rotate is l).length = l.length := by
  fun_induction rotate is l <;> simp_all

@[simp] theorem rotate_nil (l : List α) : rotate [] l = l := rfl

@[simp] theorem rotate_singleton (i : Nat) (l : List α) : rotate [i] l = l := rfl

theorem exchange_eq_set {i j : Nat} {l : List α} (hi : i < l.length) (hj : j < l.length) :
    exchange i j l = (l.set i l[j]).set j l[i] := by
  simp [exchange, hi, hj]

end Twisty
