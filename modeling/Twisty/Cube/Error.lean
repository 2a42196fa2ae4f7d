import Twisty.Slot.Kind

/-!
# Errors of a cube

What can go wrong when a cube is made or turned : a cycle without slots, a cycle for an orbit that
the cube does not have or that has no slots, a slot or a layer out of range, a cube without layers,
or a scheme that has not one color for each face.
-/

namespace Twisty

/-- Why a cube cannot be made or turned. -/
inductive CubeError
  | emptyCycle (kind : SlotKind)
  | missingOrbit (kind : SlotKind)
  | emptyOrbit (kind : SlotKind)
  | slotOutOfRange (kind : SlotKind) (slot count : Nat)
  | layersOutOfRange (first last size : Nat)
  | noLayers
  | schemeLength (length : Nat)
  deriving DecidableEq

namespace CubeError

/-- The message for an error. -/
def message : CubeError → String
  | emptyCycle k => s!"cycle for {k.name} is empty"
  | missingOrbit k => s!"puzzle has no {k.name} orbit"
  | emptyOrbit k => s!"{k.name} orbit has no slots"
  | slotOutOfRange k slot count =>
    s!"slot {slot} is out of range for {k.name} orbit with {count} slots"
  | layersOutOfRange first last size =>
    s!"layers {first}..={last} are out of range for a puzzle with {size} layers"
  | noLayers => "puzzle size must be positive"
  | schemeLength length => s!"color scheme must have 6 colors, not {length}"

end CubeError

end Twisty
