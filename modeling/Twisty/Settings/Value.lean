/-!
# Trees of settings

Settings are a tree of tables and lists with texts as leaves, and `Value` is such a tree. Tables
keep the order of their entries, and no name occurs twice in those that are built with `putEntry`.

`Value.overlay` lays one value over another : a table is merged into a table entry by entry, and
anything else takes the place of what was there.
-/

namespace Twisty.Settings

/-- A tree of settings. -/
inductive Value
  | nothing
  | text (s : String)
  | list (items : List Value)
  | table (entries : List (String × Value))

/-! ## Tables -/

/-- Entries with one more, in the place of the one of the same name or at the end. -/
def putEntry (name : String) (a : α) : List (String × α) → List (String × α)
  | [] => [(name, a)]
  | e :: es => if e.1 = name then (name, a) :: es else e :: putEntry name a es

/-- The entry of a name. -/
def valueOf? (name : String) : List (String × α) → Option α
  | [] => none
  | e :: es => if e.1 = name then some e.2 else valueOf? name es

/-- Entries in which a later one takes the place of an earlier one of the same name. -/
def ofEntries (es : List (String × α)) : List (String × α) :=
  es.foldl (fun acc e => putEntry e.1 e.2 acc) []

theorem valueOf?_putEntry (name other : String) (a : α) (es : List (String × α)) :
    valueOf? other (putEntry name a es) = if name = other then some a else valueOf? other es := by
  induction es with
  | nil => simp [putEntry, valueOf?]
  | cons e es ih =>
    by_cases he : e.1 = name
    · by_cases h : name = other <;> simp [putEntry, valueOf?, he, h]
    · by_cases h : e.1 = other
      · have hn : name ≠ other := fun hn => he (h.trans hn.symm)
        have ho : other ≠ name := hn.symm
        simp [putEntry, valueOf?, h, hn, ho]
      · simp [putEntry, valueOf?, he, h, ih]

namespace Value

/-- The entries of a value, none if it is no table. -/
def entries : Value → List (String × Value)
  | table es => es
  | _ => []

/-- The items of a value, none if it is no list. -/
def items : Value → List Value
  | list vs => vs
  | _ => []

/-- The entry of a name in a value, nothing if there is none. -/
def entry (v : Value) (name : String) : Value :=
  (valueOf? name v.entries).getD nothing

/-! ## Laying values over others -/

mutual

/-- A value laid over another. -/
def overlay (old : Value) : Value → Value
  | table es => table (overlayEntries old.entries es)
  | v => v

/-- Entries laid over others, one by one. -/
def overlayEntries (olds : List (String × Value)) : List (String × Value) → List (String × Value)
  | [] => olds
  | (name, v) :: es =>
    overlayEntries (putEntry name (overlay ((valueOf? name olds).getD nothing) v) olds) es

end

@[simp] theorem overlay_nothing (old : Value) : old.overlay nothing = nothing := by simp [overlay]

@[simp] theorem overlay_text (old : Value) (s : String) : old.overlay (text s) = text s := by
  simp [overlay]

@[simp] theorem overlay_list (old : Value) (vs : List Value) : old.overlay (list vs) = list vs := by
  simp [overlay]

end Value

end Twisty.Settings
