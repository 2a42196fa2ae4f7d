import Twisty.Cube.Error
import Twisty.Permutation.Rotation

/-!
# Orbits and cycles

An orbit holds a sticker in each slot of its kind, and a cycle says how stickers of one kind move
round. `Cycle.check` says whether a cycle moves stickers of an orbit, or why it cannot be done, and
`Cycle.apply` moves them. Stickers are of any type, so that an orbit of labels can be followed as
well as one of colors.
-/

namespace Twisty

/-- The stickers in the slots of one kind. -/
structure Orbit (α : Type) where
  kind : SlotKind
  slots : List α
  deriving DecidableEq

/-- The sticker in each of `slots` goes to the next, and the last to the first. -/
structure Cycle where
  kind : SlotKind
  slots : List Nat
  deriving DecidableEq

variable {α : Type}

namespace Orbit

/-- An orbit in which each slot holds what a function gives it. -/
def ofFn (kind : SlotKind) (f : Nat → α) : Orbit α :=
  ⟨kind, (List.range kind.size).map f⟩

/-- Move stickers of an orbit round some slots. -/
def rotate (o : Orbit α) (slots : List Nat) : Orbit α :=
  { o with slots := Twisty.rotate slots o.slots }

@[simp] theorem kind_rotate (o : Orbit α) (slots : List Nat) : (o.rotate slots).kind = o.kind := rfl

@[simp] theorem length_slots_rotate (o : Orbit α) (slots : List Nat) :
    (o.rotate slots).slots.length = o.slots.length := by
  simp [rotate]

end Orbit

namespace Cycle

/-- Whether a cycle moves any sticker of an orbit, or why it cannot be done. A cycle of one slot
moves nothing, even where there is no orbit, and neither does a cycle of another kind. -/
def check (c : Cycle) (o : Option (Orbit α)) : Except CubeError Bool :=
  match c.slots with
  | [] => .error (.emptyCycle c.kind)
  | [_] => .ok false
  | slots =>
    match o with
    | none => .error (.missingOrbit c.kind)
    | some o =>
      if o.slots = [] then .error (.emptyOrbit c.kind)
      else if o.kind ≠ c.kind then .ok false
      else
        match slots.find? (o.slots.length ≤ ·) with
        | some s => .error (.slotOutOfRange c.kind s o.slots.length)
        | none => .ok true

/-- That an orbit has no slots is noticed before its kind is compared. -/
example :
    check ⟨.corner, [0, 1]⟩ (some (⟨.midge, []⟩ : Orbit Nat)) = .error (.emptyOrbit .corner) :=
  rfl

/-- Move the stickers of an orbit along a cycle. -/
def apply (c : Cycle) (o : Option (Orbit α)) : Except CubeError (Option (Orbit α)) :=
  (c.check o).map fun moves => if moves then o.map (·.rotate c.slots) else o

end Cycle

end Twisty
