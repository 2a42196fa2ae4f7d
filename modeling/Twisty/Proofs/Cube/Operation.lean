import Twisty.Cube.Basic

/-!
# Operations on a cube

`Operation` lists what can be done to a cube, and `Cube.perform` gives the cube that it reaches, be
it done or failed.

Whatever an operation does, it does by applying cycles. So a property that applying cycles keeps
(`KeptByCycles`), also where it fails, is kept by every operation (`KeptByCycles.perform`) and by
every run of them (`KeptByCycles.performAll`).
-/

namespace Twisty

variable {α : Type}

/-- Something that can be done to a cube. -/
inductive Operation
  /-- One move. -/
  | move (m : Move)
  /-- Several moves. -/
  | moves (ms : List Move)
  /-- The moves written in a text. -/
  | text (t : String)
  /-- Cycles made by hand. -/
  | cycles (cs : List Cycle)
  deriving DecidableEq

namespace Cube

/-- The cube after an operation, be it done or failed. -/
def perform (c : Cube α) : Operation → Cube α
  | .move m => (c.turn m).1
  | .moves ms => (c.turnAll ms).1
  | .text t => (c.follow t).1
  | .cycles cs => (c.applyCycles cs).1

/-- The cube after some operations, each be it done or failed. -/
def performAll (c : Cube α) (ops : List Operation) : Cube α :=
  ops.foldl perform c

/-- A property of cubes that remains when cycles are applied, be they done or failed. -/
def KeptByCycles (P : Cube α → Prop) : Prop :=
  ∀ ⦃c : Cube α⦄ (cs : List Cycle), P c → P (c.applyCycles cs).1

namespace KeptByCycles

variable {P : Cube α → Prop} {c : Cube α} (hP : KeptByCycles P)

include hP

/-- What applying cycles keeps, a move keeps, since it applies its cycles or does nothing. -/
theorem turn (hc : P c) (m : Move) : P (c.turn m).1 := by
  unfold Cube.turn
  split
  · exact hP _ hc
  · exact hc

/-- What applying cycles keeps, several moves keep, also if one of them fails. -/
theorem turnAll (hc : P c) (ms : List Move) : P (c.turnAll ms).1 :=
  tryEach_kept (P := P) (fun _ m hd => hP.turn hd m) hc ms

/-- What applying cycles keeps, following a token keeps. -/
theorem followToken (hc : P c) (token : String) : P (c.followToken token).1 := by
  unfold Cube.followToken
  split
  · exact hP.turn hc _
  · exact hc

/-- What applying cycles keeps, following a text keeps, also if one of its words fails. -/
theorem follow (hc : P c) (text : String) : P (c.follow text).1 :=
  tryEach_kept (P := P) (fun _ t hd => hP.followToken hd t) hc (Text.words text)

/-- What applying cycles keeps, every operation keeps. -/
theorem perform (hc : P c) (op : Operation) : P (c.perform op) := by
  cases op with
  | move m => exact hP.turn hc m
  | moves ms => exact hP.turnAll hc ms
  | text t => exact hP.follow hc t
  | cycles cs => exact hP cs hc

/-- What applying cycles keeps, every run of operations keeps. -/
theorem performAll (hc : P c) (ops : List Operation) : P (c.performAll ops) := by
  induction ops generalizing c with
  | nil => exact hc
  | cons op ops ih => exact ih (hP.perform hc op)

end KeptByCycles

end Cube

end Twisty
