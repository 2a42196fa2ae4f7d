/-!
# Cycles of a permutation

A permutation of `0, …, m - 1` is given as the list of its values. `cycles` takes it apart : each
cycle starts at its least point, the cycles come in the order of their starts, and points that stay
are left out.
-/

namespace Twisty.Permutation

/-- The value of a permutation. A number past its end stays. -/
def image (p : List Nat) (i : Nat) : Nat :=
  p.getD i i

/-- The points that a permutation goes through from `i` until it comes to `start`, at most `fuel`
of them. -/
def path (p : List Nat) (start : Nat) : Nat → Nat → List Nat
  | 0, _ => []
  | fuel + 1, i => if i = start then [] else i :: path p start fuel (image p i)

/-- The cycle of a permutation through a point. A cycle has no more points than the permutation. -/
def cycleFrom (p : List Nat) (start : Nat) : List Nat :=
  start :: path p start p.length (image p start)

/-- The cycles of a permutation, each from its least point, without the points that stay. -/
def cycles (p : List Nat) : List (List Nat) :=
  ((List.range p.length).filter fun i => image p i != i && (cycleFrom p i).all (i ≤ ·)).map
    (cycleFrom p)

/-- The identity on `m` points. -/
def identity (m : Nat) : List Nat :=
  List.range m

/-- First `p`, then `q`. -/
def followedBy (p q : List Nat) : List Nat :=
  p.map (image q)

/-- A permutation done `k` times. -/
def power (p : List Nat) : Nat → List Nat
  | 0 => identity p.length
  | k + 1 => followedBy (power p k) p

theorem image_of_length_le {p : List Nat} {i : Nat} (h : p.length ≤ i) : image p i = i := by
  simp [image, h]

@[simp] theorem length_power (p : List Nat) (k : Nat) : (power p k).length = p.length := by
  induction k with
  | zero => simp [power, identity]
  | succ k ih => simp [power, followedBy, ih]

theorem image_followedBy {p q : List Nat} {i : Nat} (h : i < p.length) :
    image (followedBy p q) i = image q (image p i) := by
  simp [image, followedBy, h]

end Twisty.Permutation
