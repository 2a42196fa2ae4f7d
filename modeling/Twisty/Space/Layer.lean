/-!
# Layers and ranks

Layers are counted from 1 at some face. The rank of a layer is its distance from the nearer outer
layer, so the outer layers have rank 0, and on an odd cube the middle layer has the largest rank.
`zone` says where a layer lies, on which side of the middle and at what depth.
-/

namespace Twisty

/-- The largest layer number there is, and so the size of the largest cube. -/
def maxLayer : Nat := 65535

/-- The layer in the middle of an `n`-layer cube, if the cube is odd. -/
def middleLayer? (n : Nat) : Option Nat :=
  if n % 2 = 1 then some (n / 2 + 1) else none

/-- The rank of the middle layer of an `n`-layer cube, if the cube is odd. -/
def middleRank? (n : Nat) : Option Nat :=
  (middleLayer? n).map (· - 1)

/-- The largest rank of a layer of an `n`-layer cube that is not the middle one. -/
def maxPairedRank (n : Nat) : Nat :=
  (n - 2) / 2

/-- The largest rank of a layer of an `n`-layer cube. -/
def maxRank (n : Nat) : Nat :=
  (n - 1) / 2

/-- Where a layer lies between the face it is counted from and the opposite one. A `depth` is a
rank. -/
inductive Zone
  | first
  | beforeMiddle (depth : Nat)
  | middle
  | afterMiddle (depth : Nat)
  | last
  deriving DecidableEq

/-- Where a layer of an `n`-layer cube lies. -/
def zone (n l : Nat) : Zone :=
  if some l = middleLayer? n then .middle
  else if l = 1 then .first
  else if l = n then .last
  else if 2 * l ≤ n then .beforeMiddle (l - 1)
  else .afterMiddle (n - l)

namespace Zone

/-- The layer lies no further than the middle. -/
def isNear : Zone → Bool
  | first => true
  | beforeMiddle _ => true
  | middle => true
  | afterMiddle _ => false
  | last => false

end Zone

/-- Where a layer lies, if it has a depth : a layer beyond the ends of the cube lies nowhere, unless
it counts as an outer or the middle one. -/
def zone? (n l : Nat) : Option Zone :=
  match zone n l with
  | .beforeMiddle d => if 1 ≤ l then some (.beforeMiddle d) else none
  | .afterMiddle d => if l ≤ n then some (.afterMiddle d) else none
  | b => some b

theorem zone?_eq_some {n l : Nat} (h₁ : 1 ≤ l) (h₂ : l ≤ n) : zone? n l = some (zone n l) := by
  unfold zone?
  split <;> simp_all

end Twisty
