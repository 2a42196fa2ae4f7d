import Twisty.Notation.Lexeme
import Twisty.Text.Quoted

/-!
# Errors of the notation

A token can fail in two ways : its form is none of the forms a move has (`GrammarFault`), or its
form is right and a number in it does not fit the cube (`RangeFault`). An `Error` is a fault with
the token that has it.
-/

namespace Twisty.Notation

/-- The name of a cube by its number of layers. -/
def cubeName (n : Nat) : String :=
  s!"{n}x{n}x{n}"

/-- What is wrong with the form of a token. -/
inductive GrammarFault
  | unexpected (u : Unexpected)
  | decoratedRotation
  | decoratedMiddle
  | decoratedDouble
  | rangeNotWide
  deriving DecidableEq

namespace GrammarFault

/-- The words for a fault of form. -/
def reason : GrammarFault → String
  | unexpected u => u.text
  | decoratedRotation => "rotations cannot have a layer prefix or `w`"
  | decoratedMiddle => "middle slices cannot have a layer range or `w`"
  | decoratedDouble => "lowercase wide moves cannot have a layer prefix or `w`"
  | rangeNotWide => "a layer range must be followed by a wide move"

end GrammarFault

/-- Which number of a token does not fit a cube of `n` layers. -/
inductive RangeFault
  | noLayers
  | turnsTooLarge
  | layerTooLarge (k : Numeral)
  | middleDoesNotFit (count n : Nat)
  | middleNotCentered (count n : Nat)
  | tooSmallForDouble (n : Nat)
  | noOuterLayer (n : Nat)
  | wideOutOfRange (n : Nat)
  | notInner (layer n : Nat)
  deriving DecidableEq

namespace RangeFault

/-- The words for a number that does not fit. -/
def reason : RangeFault → String
  | noLayers => "puzzle size must be positive"
  | turnsTooLarge => "turn amount is too large"
  | layerTooLarge k => s!"layer number {String.ofList k.text} is too large"
  | middleDoesNotFit count n => s!"{count} middle slices do not fit on a {cubeName n} cube"
  | middleNotCentered count n =>
    s!"{count} middle slices cannot be centered on a {cubeName n} cube"
  | tooSmallForDouble n =>
    s!"lowercase wide moves need at least 3 layers, not a {cubeName n} cube"
  | noOuterLayer n => s!"a {cubeName n} cube has no outer layers"
  | wideOutOfRange n =>
    s!"a wide move must turn between 2 and {n - 1} layers on a {cubeName n} cube"
  | notInner layer n => s!"layer {layer} is not an inner layer of a {cubeName n} cube"

end RangeFault

/-- Why a token is no move. -/
inductive Fault
  | grammar (g : GrammarFault)
  | range (r : RangeFault)
  deriving DecidableEq

/-- A token that is no move, and why. -/
structure Error where
  token : String
  fault : Fault
  deriving DecidableEq

namespace Error

/-- The message for a token that is no move. -/
def message (e : Error) : String :=
  match e.fault with
  | .grammar g => s!"unrecognized move {Text.quote e.token}: {g.reason}"
  | .range r => s!"move {Text.quote e.token} is out of range: {r.reason}"

end Error

end Twisty.Notation
