/-!
# Documents

What is printed is first put together as a `Document`, a tree of texts, numbers, flags, lists and
records, and then written in one of the formats. The fields of a record keep their order.
-/

namespace Twisty

/-- A tree of data to be printed. -/
inductive Document
  | text (s : String)
  | number (n : Nat)
  | flag (b : Bool)
  | list (items : List Document)
  | record (fields : List (String × Document))

namespace Document

/-- A list of texts. -/
def texts (ss : List String) : Document :=
  list (ss.map text)

/-- A list of numbers. -/
def numbers (ns : List Nat) : Document :=
  list (ns.map number)

/-- The word for a flag. -/
def flagText (b : Bool) : String :=
  if b then "true" else "false"

end Document

end Twisty
