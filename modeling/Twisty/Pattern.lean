import Twisty.Slot.Turn
import Twisty.Permutation.Cycles

/-!
# Patterns

How a turn of a layer permutes the slots of a kind does not depend on the size of the cube and on
the ranks themselves, only on how the layer meets the places of the kind. There are eleven such
patterns. Each is found on a reference cube that is large enough for the pattern to occur with
ranks that differ, and `Pattern.cycles` gives its cycles there.

The cycles are worked out once for every pattern, face and turn (`Pattern.table`), and
`Pattern.lookup_eq` says that looking them up gives the same.
-/

namespace Twisty

/-- A way in which a layer meets the places of a kind. -/
inductive Pattern
  /-- An outer layer and the corners. -/
  | cornerOuter
  /-- An outer layer and the middles of edges. -/
  | midgeOuter
  /-- The middle layer and the middles of edges. -/
  | midgeMiddle
  /-- The middle layer and the exact centers. -/
  | exactCenterMiddle
  /-- An outer layer and wings. -/
  | wingOuter
  /-- An inner layer and the wings of its rank. -/
  | wingInner
  /-- An outer layer and centers, which turn within their face. -/
  | centerOuter
  /-- An inner layer and the centers with its rank twice. -/
  | centerDiagonal
  /-- An inner layer and centers whose first rank it has. -/
  | centerFirst
  /-- An inner layer and centers whose second rank it has. -/
  | centerSecond
  /-- The middle layer and centers whose second rank it has. -/
  | centerMiddle
  deriving DecidableEq

namespace Pattern

/-- The number of layers of the reference cube. -/
def referenceSize : Nat := 9

/-- The kind on the reference cube that shows a pattern. -/
def kind : Pattern → SlotKind
  | cornerOuter => .corner
  | midgeOuter => .midge
  | midgeMiddle => .midge
  | exactCenterMiddle => .exactCenter
  | wingOuter => .wing 1
  | wingInner => .wing 1
  | centerOuter => .center 1 3
  | centerDiagonal => .center 2 2
  | centerFirst => .center 1 3
  | centerSecond => .center 3 1
  | centerMiddle => .center 1 4

/-- The depth of the layer of the reference cube that shows a pattern. -/
def depth : Pattern → Nat
  | cornerOuter => 0
  | midgeOuter => 0
  | midgeMiddle => 4
  | exactCenterMiddle => 4
  | wingOuter => 0
  | wingInner => 1
  | centerOuter => 0
  | centerDiagonal => 2
  | centerFirst => 1
  | centerSecond => 1
  | centerMiddle => 4

/-- Where a clockwise quarter turn about a face takes the slots of a pattern. -/
def turn (p : Pattern) (f : Face) : List Nat :=
  p.kind.turn referenceSize f p.depth

/-- The cycles of slots in some clockwise quarter turns of a pattern about a face. -/
def cycles (p : Pattern) (f : Face) (turns : Nat) : List (List Nat) :=
  Permutation.cycles (Permutation.power (p.turn f) (turns % 4))

/-! ## Cycles worked out once -/

/-- The patterns in a fixed order. -/
def all : List Pattern :=
  [cornerOuter, midgeOuter, midgeMiddle, exactCenterMiddle, wingOuter, wingInner, centerOuter,
    centerDiagonal, centerFirst, centerSecond, centerMiddle]

/-- The place of a pattern in `all`. -/
def index : Pattern → Nat
  | cornerOuter => 0
  | midgeOuter => 1
  | midgeMiddle => 2
  | exactCenterMiddle => 3
  | wingOuter => 4
  | wingInner => 5
  | centerOuter => 6
  | centerDiagonal => 7
  | centerFirst => 8
  | centerSecond => 9
  | centerMiddle => 10

/-- The cycles of every pattern, face and number of turns. -/
def table : Array (Array (Array (List (List Nat)))) :=
  (all.map fun p =>
    (Face.all.map fun f => ((List.range 4).map (p.cycles f)).toArray).toArray).toArray

/-- The cycles of slots in some clockwise quarter turns of a pattern about a face, from the
table. -/
def lookup (p : Pattern) (f : Face) (turns : Nat) : List (List Nat) :=
  (table[p.index]?.bind fun t => t[f.index]?.bind (·[turns % 4]?)).getD []

theorem getElem?_all_index (p : Pattern) : all[p.index]? = some p := by
  cases p <;> rfl

theorem lookup_eq (p : Pattern) (f : Face) (turns : Nat) : p.lookup f turns = p.cycles f turns := by
  have h : turns % 4 < 4 := Nat.mod_lt _ (by decide)
  simp [lookup, table, getElem?_all_index, h, cycles]

/-! ## The pattern of a layer and a kind -/

/-- The pattern in which a layer meets the places of a kind, if it moves any. The rank of the middle
layer is given if there is one. -/
def of? (b : Zone) (k : SlotKind) (middleRank : Option Nat) : Option Pattern :=
  match b, k with
  | .first, .corner | .last, .corner => some cornerOuter
  | .first, .midge | .last, .midge => some midgeOuter
  | .first, .exactCenter | .last, .exactCenter => none
  | .first, .wing _ | .last, .wing _ => some wingOuter
  | .first, .center _ _ | .last, .center _ _ => some centerOuter
  | .middle, .midge => some midgeMiddle
  | .middle, .exactCenter => some exactCenterMiddle
  | .middle, .center _ r₂ => if some r₂ = middleRank then some centerMiddle else none
  | .beforeMiddle d, .wing r | .afterMiddle d, .wing r =>
    if r = d then some wingInner else none
  | .beforeMiddle d, .center r₁ r₂ | .afterMiddle d, .center r₁ r₂ =>
    if r₁ = d then if r₂ = d then some centerDiagonal else some centerFirst
    else if r₂ = d then some centerSecond else none
  | _, _ => none

end Pattern

end Twisty
