import Twisty.Main
import Twisty.Space.Bounded
import Twisty.Proofs.Permutation.Carrying
import Twisty.Proofs.Permutation.Decomposition
import Twisty.Proofs.Space.Turning
import Twisty.Proofs.Slot.Tiling
import Twisty.Proofs.Slot.Carrying
import Twisty.Proofs.Cube.MoveCycles
import Twisty.Proofs.Cube.Reachable
import Twisty.Proofs.Cube.Stickers
import Twisty.Proofs.Notation.Meaning
import Twisty.Proofs.Space.Orientation
import Twisty.Proofs.Slot.Corner
import Twisty.Proofs.Cube.Solved
import Twisty.Proofs.Cube.Axis
import Twisty.Proofs.Cube.Pieces
import Twisty.Proofs.Cube.Following
import Twisty.Proofs.Notation.Inverse
import Twisty.Proofs.Cube.Undoing
import Twisty.Proofs.Cube.Stock
import Twisty.Proofs.Notation.Written
import Twisty.Proofs.Command.Agreement
import Twisty.Proofs.Bounded.Steps
import Twisty.Proofs.Bounded.Notation
import Twisty.Proofs.Bounded.Turning
import Twisty.Proofs.Bounded.MoveCycles
import Twisty.Proofs.Bounded.Operations
import Twisty.Proofs.Bounded.Cube
import Twisty.Proofs.Cube.Reaching
import Twisty.Proofs.Cube.OneByOne
import Twisty.Proofs.Cube.Flipping
import Twisty.Proofs.Slot.Zone
import Twisty.Proofs.Cube.Coverage
import Twisty.Proofs.Cube.Tracking
import Twisty.Proofs.Cube.SameEffect
import Twisty.Proofs.Cube.Conjugation
import Twisty.Proofs.Cube.WholeTurn
import Twisty.Proofs.Cube.OneCycle
import Twisty.Proofs.Cube.Canonical
import Twisty.Proofs.Cube.Commutator
import Twisty.Proofs.Notation.Beginnings
import Twisty.Proofs.Notation.Backtracking
import Twisty.Proofs.Permutation.Marking
import Twisty.Proofs.Space.Centers
import Twisty.Proofs.Settings.Line
import Twisty.Proofs.Settings.Written
import Twisty.Proofs.Settings.Layers
