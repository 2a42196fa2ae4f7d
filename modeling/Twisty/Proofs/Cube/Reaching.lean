import Twisty.Proofs.Cube.Pieces
import Twisty.Proofs.Cube.Solved

/-!
# Where moves can bring a sticker

Only the wings have two slots to a quarter of a face, and no turn takes one to the other : the slots
with even numbers and those with odd ones are of two hands (`OneHand`), which every move keeps
(`oneHand_runSlot`).

Whole turns of the cube bring a slot to any face, and turned about that face it goes through the
slots of its hand there, a quarter of the face at a time (`iterate_carried_slotOn`). So two whole
turns bring a slot to any other of its hand (`exists_rotations_runSlot`), and these are all the
slots where moves bring its sticker (`exists_brings_iff`).
-/

namespace Twisty

open Function

variable {α : Type} {n s t u i : ℕ} {k : SlotKind} {f : Face} {ms : List Move}

/-! ## Hands -/

namespace SlotKind

/-- Two slots of a kind are of one hand : the kind is no wing, or both numbers are even or both
odd. -/
def OneHand (k : SlotKind) (s t : ℕ) : Prop :=
  (∀ r, k ≠ wing r) ∨ s % 2 = t % 2

theorem OneHand.trans (h : k.OneHand s t) (h' : k.OneHand t u) : k.OneHand s u := by
  rcases h with h | h
  · exact .inl h
  · exact h'.imp_right h.trans

/-- A turn of the cube keeps the hand of a slot. -/
theorem oneHand_carried (k : SlotKind) (f : Face) (s : ℕ) : k.OneHand (k.carried f s) s := by
  cases k with
  | wing r => exact .inr (carried_wing_mod_two r f s)
  | _ => exact .inl nofun

theorem oneHand_iterate_carried (k : SlotKind) (f : Face) (m s : ℕ) :
    k.OneHand ((k.carried f)^[m] s) s := by
  induction m generalizing s with
  | zero => exact .inr rfl
  | succ m ih => exact (ih _).trans (oneHand_carried k f s)

end SlotKind

/-- A move keeps the hand of a slot. -/
theorem Move.oneHand_turnedSlot (m : Move) (n : ℕ) (k : SlotKind) (s : ℕ) :
    k.OneHand (m.turnedSlot n k s) s := by
  unfold turnedSlot
  split_ifs
  · exact k.oneHand_iterate_carried m.face _ s
  · exact .inr rfl

/-- A run of moves keeps the hand of a slot. -/
theorem Cube.oneHand_runSlot (n : ℕ) (k : SlotKind) (ms : List Move) (s : ℕ) :
    k.OneHand (runSlot n k ms s) s := by
  induction ms generalizing s with
  | nil => exact .inr rfl
  | cons m ms ih => exact (ih _).trans (m.oneHand_turnedSlot n k s)

/-! ## Turning a face about itself -/

namespace SlotKind

/-- A turn about its face takes a slot on by a quarter of the slots of the face. -/
theorem carried_slotOn (hi : i < k.faceSize) :
    k.carried f (k.slotOn f i) = k.slotOn f ((i + k.faceSize / 4) % k.faceSize) := by
  have hturn : ∀ f : Face, f.turnFace f = f ∧ f.twist f = 1 := by decide
  rw [carried, slotFace_slotOn hi, slotOn_mod hi, (hturn f).1, (hturn f).2, Nat.mul_one]

/-- A slot turned about its own face goes on by a quarter of the slots there. -/
theorem iterate_carried_slotOn (hi : i < k.faceSize) (m : ℕ) :
    (k.carried f)^[m] (k.slotOn f i) = k.slotOn f ((i + m * (k.faceSize / 4)) % k.faceSize) := by
  induction m with
  | zero => rw [Nat.zero_mul, Nat.add_zero, Nat.mod_eq_of_lt hi, iterate_zero_apply]
  | succ m ih =>
    rw [iterate_succ_apply', ih, carried_slotOn (mod_faceSize_lt k _), Nat.mod_add_mod,
      Nat.succ_mul, Nat.add_assoc]

/-- As many quarters of a face lie between two of its slots of one hand. -/
theorem OneHand.exists_quarters (h : k.OneHand s t) :
    ∃ m < 4, (s % k.faceSize + m * (k.faceSize / 4)) % k.faceSize = t % k.faceSize := by
  cases k with
  | exactCenter => exact ⟨0, by decide, by simp only [faceSize]; omega⟩
  | wing r =>
    have hpar : s % 2 = t % 2 := h.resolve_left fun hno => hno r rfl
    refine ⟨(t % 8 + 8 - s % 8) % 8 / 2, by omega, ?_⟩
    simp only [faceSize]
    omega
  | _ =>
    refine ⟨(t % 4 + 4 - s % 4) % 4, by omega, ?_⟩
    simp only [faceSize]
    omega

/-- Slots of one hand on one face come to each other by turns about the face. -/
theorem OneHand.exists_iterate_carried (h : k.OneHand s t) (hs : s < k.size) (ht : t < k.size)
    (hface : k.slotFace s = k.slotFace t) : ∃ m < 4, (k.carried (k.slotFace t))^[m] s = t := by
  obtain ⟨m, hm, hstep⟩ := h.exists_quarters
  refine ⟨m, hm, ?_⟩
  rw [← slotOn_slotFace hs, hface, iterate_carried_slotOn (mod_faceSize_lt k s), hstep,
    slotOn_slotFace ht]

end SlotKind

namespace Cube

open SlotKind

/-- Two whole turns bring a slot to any other of its hand : the first to the right face, the second
to its place there. -/
theorem exists_rotations_runSlot (hk : k.OnCube n) (hs : s < k.size) (ht : t < k.size)
    (h : k.OneHand s t) : ∃ rs : List Move, (∀ r ∈ rs, r.IsRotation n) ∧ runSlot n k rs s = t := by
  have hfaces : ∀ g g' : Face, ∃ f : Face, ∃ i < 4, f.turnFace^[i] g = g' := by decide
  obtain ⟨f, i, hi, hface⟩ := hfaces (k.slotFace s) (k.slotFace t)
  rw [← slotFace_iterate_carried k f i s] at hface
  have hhand := (k.oneHand_iterate_carried f i s).trans h
  obtain ⟨j, hj, hplace⟩ := hhand.exists_iterate_carried (iterate_carried_lt hs f i) ht hface
  have hfirst : Move.IsRotation ⟨f, 1, n, i⟩ n := ⟨rfl, rfl⟩
  have hsecond : Move.IsRotation ⟨k.slotFace t, 1, n, j⟩ n := ⟨rfl, rfl⟩
  refine ⟨[⟨f, 1, n, i⟩, ⟨k.slotFace t, 1, n, j⟩], by simp [hfirst, hsecond], ?_⟩
  rw [runSlot, List.foldl_cons, List.foldl_cons, List.foldl_nil, hfirst.turnedSlot_eq hk,
    hsecond.turnedSlot_eq hk, Nat.mod_eq_of_lt hi, Nat.mod_eq_of_lt hj, hplace]

/-! ## Bringing stickers -/

/-- Moves of an `n`-layer cube bring the sticker in one slot of a kind to another slot of the
kind. -/
def Brings (n : ℕ) (ms : List Move) (k : SlotKind) (s t : ℕ) : Prop :=
  ∃ d, (labelled n).turnAll ms = (d, none) ∧ d.sticker? k t = some (k, s)

/-- Labels show where moves take a slot. -/
theorem brings_iff (hms : ∀ m ∈ ms, m.InRange n) (hk : k ∈ (Inventory.full n).kinds)
    (hs : s < k.size) : Brings n ms k s t ↔ runSlot n k ms s = t := by
  obtain ⟨d, hd, -⟩ := (wellFormed_ofSlots n Prod.mk).turnAll_eq_ok hms
  have hlabel := sticker?_labelled_iff hms hd (x := (k, s)) ⟨hk, hs⟩ (k, t)
  rw [Prod.mk.injEq, eq_comm (a := t)] at hlabel
  constructor
  · rintro ⟨d', hd', hst⟩
    obtain rfl : d = d' := congrArg Prod.fst (hd.symm.trans hd')
    exact (hlabel.1 hst).2
  · exact fun hrun => ⟨d, hd, hlabel.2 ⟨rfl, hrun⟩⟩

/-- Moves bring the sticker of a slot where they bring its label, on every cube. -/
theorem Brings.sticker?_eq (h : Brings n ms k s t) (hms : ∀ m ∈ ms, m.InRange n)
    (hk : k ∈ (Inventory.full n).kinds) (hs : s < k.size) {c : Cube α} (hc : c.WellFormed n) :
    ∃ e, c.turnAll ms = (e, none) ∧ e.sticker? k t = c.sticker? k s := by
  obtain ⟨e, he, -, hrun⟩ := hc.turnAll_eq_ok hms
  refine ⟨e, he, ?_⟩
  rw [← (brings_iff hms hk hs).1 h, hrun k hk s hs]

/-- Some moves of a cube bring the sticker in a slot to another slot of its kind exactly if the kind
is no wing or the slots have numbers of the same parity. On every cube the moves do so : the
second slot holds afterwards what the first held before. -/
theorem exists_brings_iff (hk : k ∈ (Inventory.full n).kinds) (hs : s < k.size) (ht : t < k.size) :
    ((∃ ms : List Move, (∀ m ∈ ms, m.InRange n) ∧ Brings n ms k s t) ↔
        (∀ r, k ≠ wing r) ∨ s % 2 = t % 2) ∧
      ∀ ms : List Move, (∀ m ∈ ms, m.InRange n) → Brings n ms k s t →
        ∀ c : Cube α, c.Reachable n →
          ∃ e, c.turnAll ms = (e, none) ∧ e.sticker? k t = c.sticker? k s := by
  have hon := Inventory.mem_full_iff.1 hk
  refine ⟨⟨?_, fun hhand => ?_⟩, fun ms hms h c hc => h.sticker?_eq hms hk hs hc.wellFormed⟩
  · rintro ⟨ms, hms, h⟩
    have hhand := oneHand_runSlot n k ms s
    rw [(brings_iff hms hk hs).1 h] at hhand
    exact hhand.imp_right Eq.symm
  · have hn : n ≠ 0 := Nat.ne_of_gt ((Nat.zero_le _).trans_lt (layer_lt hon .up s))
    obtain ⟨rs, hrs, hrun⟩ := exists_rotations_runSlot hon hs ht hhand
    have hin : ∀ r ∈ rs, r.InRange n := fun r hr => (hrs r hr).inRange hn
    exact ⟨rs, hin, (brings_iff hin hk hs).2 hrun⟩

/-- On a cube of five layers some moves bring a wing sticker from the upper face to a slot of the
left face with an even number, but none bring it to the other slot of the same edge. -/
theorem exists_brings_iff_five :
    wing 1 ∈ (Inventory.full 5).kinds ∧ 0 < (wing 1).size ∧ 46 < (wing 1).size ∧
      1 < (wing 1).size ∧ (solved 5 Face.index).Reachable 5 ∧
      (∃ ms : List Move, (∀ m ∈ ms, m.InRange 5) ∧ Brings 5 ms (wing 1) 0 46 ∧
        ∃ e, (solved 5 Face.index).turnAll ms = (e, none) ∧
          e.sticker? (wing 1) 46 = (solved 5 Face.index).sticker? (wing 1) 0) ∧
      ¬∃ ms : List Move, (∀ m ∈ ms, m.InRange 5) ∧ Brings 5 ms (wing 1) 0 1 := by
  have hk : wing 1 ∈ (Inventory.full 5).kinds := by decide
  have h0 : 0 < (wing 1).size := by decide
  have h46 : 46 < (wing 1).size := by decide
  have h1 : 1 < (wing 1).size := by decide
  have hc : (solved 5 Face.index).Reachable 5 := .solved (by decide) Face.index
  obtain ⟨hreach, hsticker⟩ := exists_brings_iff (α := ℕ) hk h0 h46
  obtain ⟨ms, hms, hbrings⟩ := hreach.2 (.inr rfl)
  obtain ⟨hsame, -⟩ := exists_brings_iff (α := ℕ) hk h0 h1
  refine ⟨hk, h0, h46, h1, hc, ⟨ms, hms, hbrings, hsticker ms hms hbrings _ hc⟩, fun h => ?_⟩
  rcases hsame.1 h with hno | hpar
  · exact hno 1 rfl
  · exact absurd hpar (by decide)

end Cube

end Twisty
