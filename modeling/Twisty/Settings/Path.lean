import Twisty.Number.Digits
import Twisty.Settings.Value

/-!
# Paths into settings

The name of a setting may be a path : names of entries with points between them, and places in lists
in brackets, such as `schemes.western[2]`. A place below zero counts from the end. A name that is
written otherwise is the name of a single entry.

`Value.assign` lays a value over what is at a path, and makes the tables and lists on the way.
-/

namespace Twisty.Settings

/-- A step of a path. -/
inductive Step
  | entry (name : String)
  | item (place : Int)
  deriving DecidableEq

namespace Step

/-- A character of a name in a path. -/
def isNameChar (c : Char) : Bool :=
  c.isAlphanum || c == '_' || c == '-'

/-- The step to an entry. -/
def ofName? (cs : List Char) : Option Step :=
  if !cs.isEmpty && cs.all isNameChar then some (entry (String.ofList cs)) else none

/-- Space inside brackets. -/
def isSpace (c : Char) : Bool :=
  c == ' ' || c == '\t'

/-- Decimal digits, perhaps after a minus, for a number of 64 bits with a sign. -/
def place? (cs : List Char) : Option Int :=
  if cs.head? = some '+' then none else Number.longValue? 10 cs

/-- The step that is written inside brackets, from what follows the opening one. -/
def ofBracket? (cs : List Char) : Option Step :=
  match cs.reverse with
  | ']' :: inside =>
    (place? ((inside.dropWhile isSpace).reverse.dropWhile isSpace)).map item
  | _ => none

/-- The step that is written after a point or a bracket. -/
def ofPart? : List Char → Option Step
  | '.' :: cs => ofName? cs
  | '[' :: cs => ofBracket? cs
  | _ => none

end Step

/-- A path into settings. -/
abbrev Path := List Step

namespace Path

/-- A text in parts, which begin at points and opening brackets. -/
def parts : List Char → List (List Char)
  | [] => [[]]
  | c :: cs =>
    match parts cs with
    | [] => [[c]]
    | p :: ps => if c = '.' ∨ c = '[' then [] :: (c :: p) :: ps else (c :: p) :: ps

/-- The path that a name is. -/
def read? (name : String) : Option Path :=
  match parts name.toList with
  | [] => none
  | p :: ps => do
    let first ← Step.ofName? p
    let rest ← ps.mapM Step.ofPart?
    return first :: rest

/-- The path that a name is, or the step to the entry of that name. -/
def ofName (name : String) : Path :=
  (read? name).getD [.entry name]

end Path

/-- The most items of a list. -/
def maxItems : Nat := 1000000

/-- A list with room for the item at a place, and where the item stands. New items are nothing. -/
def reach (place : Int) (vs : List Value) : List Value × Nat :=
  if 0 ≤ place then
    (vs ++ List.replicate (place.toNat + 1 - vs.length) .nothing, place.toNat)
  else
    let back := (-place).toNat
    (List.replicate (back - vs.length) .nothing ++ vs, vs.length - back)

namespace Value

/-- A value laid over what is at a path in another. A list that would have too many items becomes
nothing. -/
def assign (new : Value) : Path → Value → Value
  | [], old => old.overlay new
  | .entry name :: path, old =>
    table (putEntry name (new.assign path (old.entry name)) old.entries)
  | .item place :: path, old =>
    if place.natAbs ≤ maxItems then
      let (vs, i) := reach place old.items
      list (vs.set i (new.assign path (vs.getD i nothing)))
    else nothing

end Value

end Twisty.Settings
