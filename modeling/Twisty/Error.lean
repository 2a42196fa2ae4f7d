import Twisty.Cube.Error
import Twisty.Notation.Error

/-!
# Errors

Following written moves on a cube can fail because a token is no move or because the cube cannot do
a move.
-/

namespace Twisty

/-- Why written moves cannot be followed. -/
inductive Error
  | token (e : Notation.Error)
  | cube (e : CubeError)
  deriving DecidableEq

namespace Error

/-- The message for an error. -/
def message : Error → String
  | token e => e.message
  | cube e => e.message

end Error

end Twisty
