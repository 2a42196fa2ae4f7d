import Twisty.Space.Layer
import Twisty.Slot.Kind

/-!
# Inventories

An inventory is a set of orbit kinds, listed in ascending order. `Inventory.full n` holds the kinds
that an `n`-layer cube has (`mem_full_iff`), and `Inventory.ofList` puts any kinds in order
(`mem_ofList`).
-/

namespace Twisty

/-- An `n`-layer cube has places of a kind. -/
def SlotKind.OnCube (n : Nat) : SlotKind → Prop
  | corner => 2 ≤ n
  | midge => n % 2 = 1 ∧ 3 ≤ n
  | exactCenter => n % 2 = 1
  | wing r => 1 ≤ r ∧ r ≤ maxPairedRank n
  | center r₁ r₂ => (1 ≤ r₁ ∧ r₁ ≤ maxPairedRank n) ∧ (1 ≤ r₂ ∧ r₂ ≤ maxRank n)

instance (n : Nat) : (k : SlotKind) → Decidable (k.OnCube n)
  | .corner => inferInstanceAs (Decidable (2 ≤ n))
  | .midge => inferInstanceAs (Decidable (n % 2 = 1 ∧ 3 ≤ n))
  | .exactCenter => inferInstanceAs (Decidable (n % 2 = 1))
  | .wing r => inferInstanceAs (Decidable (1 ≤ r ∧ r ≤ maxPairedRank n))
  | .center r₁ r₂ =>
    inferInstanceAs (Decidable ((1 ≤ r₁ ∧ r₁ ≤ maxPairedRank n) ∧ (1 ≤ r₂ ∧ r₂ ≤ maxRank n)))

/-- A set of orbit kinds, in ascending order. -/
structure Inventory where
  kinds : List SlotKind
  ascending : kinds.Pairwise (· < ·)
  deriving DecidableEq

namespace Inventory

/-- Put a kind into its place among ascending kinds, unless it is there. -/
def insertKind (k : SlotKind) : List SlotKind → List SlotKind
  | [] => [k]
  | j :: js => if k < j then k :: j :: js else if k = j then j :: js else j :: insertKind k js

theorem mem_insertKind {j k : SlotKind} {ks : List SlotKind} :
    j ∈ insertKind k ks ↔ j = k ∨ j ∈ ks := by
  induction ks with
  | nil => simp [insertKind]
  | cons i ks ih =>
    unfold insertKind
    split
    · simp
    · split
      · simp_all
      · simp only [List.mem_cons, ih]
        exact or_left_comm

theorem pairwise_insertKind {k : SlotKind} {ks : List SlotKind} (h : ks.Pairwise (· < ·)) :
    (insertKind k ks).Pairwise (· < ·) := by
  induction ks with
  | nil => simp [insertKind]
  | cons j ks ih =>
    rw [List.pairwise_cons] at h
    unfold insertKind
    split
    · next hk =>
      simp only [List.pairwise_cons, List.mem_cons, forall_eq_or_imp]
      exact ⟨⟨hk, fun i hi => SlotKind.lt_trans hk (h.1 i hi)⟩, h.1, h.2⟩
    · split
      · exact List.pairwise_cons.2 h
      · next hk hjk =>
        refine List.pairwise_cons.2 ⟨fun i hi => ?_, ih h.2⟩
        rcases mem_insertKind.1 hi with rfl | hi
        · rcases SlotKind.lt_or_eq_or_lt i j with h' | h' | h'
          · exact absurd h' hk
          · exact absurd h' hjk
          · exact h'
        · exact h.1 i hi

/-- The kinds of a list, each once. -/
def ofList : List SlotKind → Inventory
  | [] => ⟨[], .nil⟩
  | k :: ks => ⟨insertKind k (ofList ks).kinds, pairwise_insertKind (ofList ks).ascending⟩

theorem mem_ofList {k : SlotKind} {ks : List SlotKind} : k ∈ (ofList ks).kinds ↔ k ∈ ks := by
  induction ks with
  | nil => simp [ofList]
  | cons j ks ih => simp [ofList, mem_insertKind, ih]

/-- The kinds of an `n`-layer cube without ranks. -/
def plainKinds (n : Nat) : List SlotKind :=
  [.corner, .midge, .exactCenter].filter fun k => decide (k.OnCube n)

/-- The wings of an `n`-layer cube. -/
def wingKinds (n : Nat) : List SlotKind :=
  (List.range' 1 (maxPairedRank n)).map .wing

/-- The centers of an `n`-layer cube, the exact ones apart. -/
def centerKinds (n : Nat) : List SlotKind :=
  (List.range' 1 (maxPairedRank n)).flatMap fun r₁ =>
    (List.range' 1 (maxRank n)).map (.center r₁)

/-- All the kinds of an `n`-layer cube, listed. -/
def fullKinds (n : Nat) : List SlotKind :=
  plainKinds n ++ (wingKinds n ++ centerKinds n)

theorem mem_plainKinds {n : Nat} {k : SlotKind} :
    k ∈ plainKinds n ↔ k ∈ [.corner, .midge, .exactCenter] ∧ k.OnCube n := by
  simp [plainKinds]

theorem mem_wingKinds {n : Nat} {k : SlotKind} :
    k ∈ wingKinds n ↔ ∃ r, k = .wing r ∧ k.OnCube n := by
  simp only [wingKinds, List.mem_map, List.mem_range'_1]
  constructor
  · rintro ⟨r, hr, rfl⟩
    exact ⟨r, rfl, hr.1, by omega⟩
  · rintro ⟨r, rfl, h₁, h₂⟩
    exact ⟨r, ⟨h₁, by omega⟩, rfl⟩

theorem mem_centerKinds {n : Nat} {k : SlotKind} :
    k ∈ centerKinds n ↔ ∃ r₁ r₂, k = .center r₁ r₂ ∧ k.OnCube n := by
  simp only [centerKinds, List.mem_flatMap, List.mem_map, List.mem_range'_1]
  constructor
  · rintro ⟨r₁, h₁, r₂, h₂, rfl⟩
    exact ⟨r₁, r₂, rfl, ⟨h₁.1, by omega⟩, h₂.1, by omega⟩
  · rintro ⟨r₁, r₂, rfl, ⟨h₁, h₁'⟩, h₂, h₂'⟩
    exact ⟨r₁, ⟨h₁, by omega⟩, r₂, ⟨h₂, by omega⟩, rfl⟩

theorem mem_fullKinds {n : Nat} {k : SlotKind} : k ∈ fullKinds n ↔ k.OnCube n := by
  simp only [fullKinds, List.mem_append, mem_plainKinds, mem_wingKinds, mem_centerKinds]
  cases k <;> simp

theorem pairwise_wingKinds (n : Nat) : (wingKinds n).Pairwise (· < ·) := by
  simpa [wingKinds, List.pairwise_map] using List.pairwise_lt_range'

theorem pairwise_centerKinds (n : Nat) : (centerKinds n).Pairwise (· < ·) := by
  simp only [centerKinds, List.pairwise_flatMap, List.pairwise_map, SlotKind.center_lt_center,
    List.mem_map, forall_exists_index, and_imp, forall_apply_eq_imp_iff₂]
  exact ⟨fun _ _ => (List.pairwise_lt_range' 1).imp fun h => .inr ⟨trivial, h⟩,
    (List.pairwise_lt_range' 1).imp fun h _ _ _ _ => .inl h⟩

theorem pairwise_fullKinds (n : Nat) : (fullKinds n).Pairwise (· < ·) := by
  refine List.pairwise_append.2 ⟨?_, List.pairwise_append.2
    ⟨pairwise_wingKinds n, pairwise_centerKinds n, ?_⟩, ?_⟩
  · exact List.Pairwise.filter _ (by decide)
  · intro a ha b hb
    obtain ⟨r, rfl, -⟩ := mem_wingKinds.1 ha
    obtain ⟨r₁, r₂, rfl, -⟩ := mem_centerKinds.1 hb
    simp [SlotKind.lt_iff, SlotKind.key, List.cons_lt_cons_iff]
  · intro a ha b hb
    have ha := (mem_plainKinds.1 ha).1
    rcases List.mem_append.1 hb with hb | hb
    · obtain ⟨r, rfl, -⟩ := mem_wingKinds.1 hb
      revert ha
      cases a <;> simp [SlotKind.lt_iff, SlotKind.key, List.cons_lt_cons_iff]
    · obtain ⟨r₁, r₂, rfl, -⟩ := mem_centerKinds.1 hb
      revert ha
      cases a <;> simp [SlotKind.lt_iff, SlotKind.key, List.cons_lt_cons_iff]

/-- All the kinds of an `n`-layer cube. -/
def full (n : Nat) : Inventory :=
  ⟨fullKinds n, pairwise_fullKinds n⟩

theorem mem_full_iff {n : Nat} {k : SlotKind} : k ∈ (full n).kinds ↔ k.OnCube n :=
  mem_fullKinds

/-- How many slots all the kinds of an inventory have. -/
def size (inv : Inventory) : Nat :=
  inv.kinds.foldr (fun k total => k.size + total) 0

end Inventory

end Twisty
