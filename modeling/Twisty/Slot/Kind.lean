/-!
# Kinds of orbit

Moves carry a sticker only to places of the same kind : a corner sticker to a corner, and so on.
The places of one kind are the slots of an orbit. A kind is given by how far its stickers lie from
the edges of their face, in ranks.

Kinds are ordered by `SlotKind.key`, the shapes first and then the ranks. `OnCube n` says which
kinds an `n`-layer cube has.
-/

namespace Twisty

/-- A kind of sticker place. -/
inductive SlotKind
  /-- The corners. -/
  | corner
  /-- The middles of the edges, on odd cubes. -/
  | midge
  /-- The exact centers of the faces, on odd cubes. -/
  | exactCenter
  /-- The other places on the edges, by their distance from the nearer corner. -/
  | wing (rank : Nat)
  /-- The other places inside the faces, by their distances from two edges : the first slot lies
  `r₁` below the top and `r₂` from the left. -/
  | center (r₁ r₂ : Nat)
  deriving DecidableEq, Inhabited

namespace SlotKind

/-- The numbers by which kinds are ordered. -/
def key : SlotKind → List Nat
  | corner => [0]
  | midge => [1]
  | exactCenter => [2]
  | wing r => [3, r]
  | center r₁ r₂ => [4, r₁, r₂]

instance : LT SlotKind := ⟨fun a b => a.key < b.key⟩

instance (a b : SlotKind) : Decidable (a < b) :=
  inferInstanceAs (Decidable (a.key < b.key))

/-- How many slots of a kind lie on each face. -/
def faceSize : SlotKind → Nat
  | corner => 4
  | midge => 4
  | exactCenter => 1
  | wing _ => 8
  | center _ _ => 4

/-- How many slots of a kind there are. -/
def size (k : SlotKind) : Nat :=
  6 * k.faceSize

/-- The name of a kind. -/
def name : SlotKind → String
  | corner => "corner"
  | midge => "midge"
  | exactCenter => "center"
  | wing r => s!"wing {r}"
  | center r₁ r₂ => s!"center {r₁},{r₂}"

theorem lt_iff {a b : SlotKind} : a < b ↔ a.key < b.key := Iff.rfl

theorem key_inj {a b : SlotKind} (h : a.key = b.key) : a = b := by
  cases a <;> cases b <;> simp_all [key]

theorem lt_irrefl (a : SlotKind) : ¬ a < a :=
  List.lt_irrefl a.key

theorem lt_trans {a b c : SlotKind} (h : a < b) (h' : b < c) : a < c :=
  List.lt_trans (lt_iff.1 h) (lt_iff.1 h')

theorem lt_or_eq_or_lt (a b : SlotKind) : a < b ∨ a = b ∨ b < a := by
  by_cases h : a < b
  · exact .inl h
  · by_cases h' : b < a
    · exact .inr (.inr h')
    · exact .inr (.inl (key_inj (List.le_antisymm (List.not_lt.1 h') (List.not_lt.1 h))))

theorem faceSize_pos (k : SlotKind) : 0 < k.faceSize := by
  cases k <;> simp [faceSize]

@[simp] theorem wing_lt_wing {r s : Nat} : wing r < wing s ↔ r < s := by
  simp [lt_iff, key, List.cons_lt_cons_iff]

theorem center_lt_center {r₁ r₂ s₁ s₂ : Nat} :
    center r₁ r₂ < center s₁ s₂ ↔ r₁ < s₁ ∨ r₁ = s₁ ∧ r₂ < s₂ := by
  simp [lt_iff, key, List.cons_lt_cons_iff]

end SlotKind

end Twisty
