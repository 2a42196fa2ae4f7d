import Twisty.Proofs.Cube.Flipping
import Twisty.Proofs.Cube.Tracking

/-!
# Moves of the same effect

The cycles of two moves have the same effect on every orbit of a cube (`Cycle.DoAlike`) exactly if
the moves take every slot alike (`Move.ActAlike`, `doAlike_iff_actAlike`). A face beside the axis
has a slot in each layer (`exists_slot_in_layer`), and these slots tell moves apart. A move takes
them off the face in its own layers and a move about that face does not, so moves of the same effect
are about one axis (`ActAlike.about`). There they turn every layer alike
(`ActAlike.quarters_layerTurns`), so they are the same move or one is the other said from the
opposite face (`cycles_doAlike_iff`).
-/

namespace Twisty

open Function

variable {n d s : ℕ} {k : SlotKind} {f g : Face} {m m' : Move} {cs ds : List Cycle}

/-! ## The slots beside an axis -/

namespace Face

/-- A face beside the axis does not come back before the fourth quarter turn. -/
theorem iterate_turnFace_inj (h : f.turnFace g ≠ g) {i j : ℕ} (hi : i < 4) (hj : j < 4)
    (hij : f.turnFace^[i] g = f.turnFace^[j] g) : i = j := by
  have key : ∀ f g : Face, f.turnFace g ≠ g → ∀ i < 4, ∀ j < 4,
      f.turnFace^[i] g = f.turnFace^[j] g → i = j := by
    decide
  exact key f g h i hi j hj hij

/-- A turn about a face moves some other face. -/
theorem exists_beside (f : Face) : ∃ g, f.turnFace g ≠ g := by
  revert f
  decide

end Face

/-- A face beside the axis has a cell in each layer. -/
theorem Cell.exists_in_layer (h : f.turnFace g ≠ g) (hd : d < n) :
    ∃ c : Cell, c.face = g ∧ c.Within n ∧ c.layer f (n - 1) = d := by
  have hsides : ∀ f g : Face, f.turnFace g ≠ g → f.side g ≠ .near ∧ f.side g ≠ .far := by decide
  obtain ⟨hnear, hfar⟩ := hsides f g h
  have hpos : 0 < n := Nat.zero_lt_of_lt hd
  have hback : n - 1 - d < n := by omega
  have hdist : n - 1 - (n - 1 - d) = d := by omega
  suffices hcell : ∃ row < n, ∃ col < n, (Cell.mk g row col).distance (n - 1) (f.side g) = d by
    obtain ⟨row, hrow, col, hcol, hlayer⟩ := hcell
    exact ⟨⟨g, row, col⟩, rfl, ⟨hrow, hcol⟩, hlayer⟩
  cases hside : f.side g with
  | near => exact absurd hside hnear
  | far => exact absurd hside hfar
  | top => exact ⟨d, hd, 0, hpos, rfl⟩
  | left => exact ⟨0, hpos, d, hd, rfl⟩
  | right => exact ⟨0, hpos, n - 1 - d, hback, hdist⟩
  | bottom => exact ⟨n - 1 - d, hback, 0, hpos, hdist⟩

namespace SlotKind

/-- A face beside the axis has a slot in each layer. -/
theorem exists_slot_in_layer (h : f.turnFace g ≠ g) (hd : d < n) :
    ∃ k : SlotKind, k.OnCube n ∧ ∃ s < k.size, k.slotFace s = g ∧ k.layer n f s = d := by
  obtain ⟨c, rfl, hc, rfl⟩ := Cell.exists_in_layer h hd
  obtain ⟨k, hk, s, hs, rfl⟩ := exists_cell_eq hc
  exact ⟨k, hk, s, hs, (cell_face k s n).symm, rfl⟩

end SlotKind

/-! ## Moves that take every slot alike -/

namespace Move

/-- Two moves take every slot of an `n`-layer cube alike. -/
def ActAlike (n : ℕ) (m m' : Move) : Prop :=
  ∀ k : SlotKind, k.OnCube n → ∀ s < k.size, m.turnedSlot n k s = m'.turnedSlot n k s

/-- Two moves that act like a third act alike. -/
theorem ActAlike.trans {m'' : Move} (h : ActAlike n m m') (h' : ActAlike n m' m'') :
    ActAlike n m m'' :=
  fun k hk s hs => (h k hk s hs).trans (h' k hk s hs)

/-- Said from the opposite face a move takes every slot as before. -/
theorem actAlike_flipped (hn : n ≤ maxLayer) (hm : m.InRange n) : ActAlike n m (m.flipped n) := by
  intro k hk s hs
  obtain ⟨h₁, h₂, h₃⟩ := hm
  have hlt := SlotKind.layer_lt hk m.face s
  have hturns : m.turns % 4 ≤ 4 := (Nat.mod_lt _ (by decide)).le
  simp only [turnedSlot, flipped, reflectLayer_eq hn h₁ (h₂.trans h₃),
    reflectLayer_eq hn (h₁.trans h₂) h₃, SlotKind.layer_opposite hk, quarters_neg_natCast,
    Nat.mod_mod, SlotKind.iterate_carried_mod hk hs,
    SlotKind.iterate_carried_opposite hk hs m.face hturns]
  exact if_congr (by omega) rfl rfl

/-- Where a move takes the face of a slot of one of its layers. -/
theorem slotFace_turnedSlot_of_layer
    (h : m.first ≤ k.layer n m.face s + 1 ∧ k.layer n m.face s + 1 ≤ m.last) :
    k.slotFace (m.turnedSlot n k s) = m.face.turnFace^[m.turns % 4] (k.slotFace s) := by
  rw [turnedSlot, if_pos h, slotFace_iterate_carried]

/-- A move leaves the slots of its own face on it. -/
theorem slotFace_turnedSlot_self (h : k.slotFace s = m.face) :
    k.slotFace (m.turnedSlot n k s) = m.face := by
  have hfix : IsFixedPt m.face.turnFace m.face := Face.turnFace_eq_self_iff.2 (.inl rfl)
  unfold turnedSlot
  split_ifs
  · rw [slotFace_iterate_carried, h, hfix.iterate]
  · exact h

/-- Moves that take every slot alike are about one axis. -/
theorem ActAlike.about (h : ActAlike n m m') (hm : m.InRange n)
    (ht : 1 ≤ m.turns ∧ m.turns ≤ 3) : m'.About m.face := by
  refine Face.turnFace_eq_self_iff.1 (by_contra fun hface => ?_)
  obtain ⟨h₁, h₂, h₃⟩ := hm
  obtain ⟨k, hk, s, hs, hslot, hlayer⟩ :=
    SlotKind.exists_slot_in_layer hface (d := m.first - 1) (n := n) (by omega)
  have hmoved := slotFace_turnedSlot_of_layer (m := m) (n := n) (k := k) (s := s) (by omega)
  rw [h k hk s hs, slotFace_turnedSlot_self hslot, hslot] at hmoved
  have hzero := Face.iterate_turnFace_inj hface (i := 0) (by decide) (Nat.mod_lt _ (by decide))
    hmoved
  omega

/-- Moves about one axis that take every slot alike turn every layer alike. -/
theorem ActAlike.quarters_layerTurns (h : ActAlike n m m') (hm : m.About f) (hm' : m'.About f)
    {l : ℕ} (h₁ : 1 ≤ l) (h₂ : l ≤ n) :
    quarters (m.layerTurns n f l) = quarters (m'.layerTurns n f l) := by
  obtain ⟨g, hg⟩ := f.exists_beside
  obtain ⟨k, hk, s, hs, rfl, hlayer⟩ :=
    SlotKind.exists_slot_in_layer hg (d := l - 1) (n := n) (by omega)
  have hslot := congrArg k.slotFace (h k hk s hs)
  rw [hm.turnedSlot_eq hk hs, hm'.turnedSlot_eq hk hs, slotFace_iterate_carried,
    slotFace_iterate_carried, hlayer, Nat.sub_add_cancel h₁] at hslot
  exact Face.iterate_turnFace_inj hg (quarters_lt _) (quarters_lt _) hslot

/-- Moves about one face that take every slot alike turn the same layers, as often. -/
theorem ActAlike.layer_iff (h : ActAlike n m m') (hface : m'.face = m.face)
    (ht : 1 ≤ m.turns ∧ m.turns ≤ 3) (ht' : 1 ≤ m'.turns ∧ m'.turns ≤ 3) {l : ℕ} (h₁ : 1 ≤ l)
    (h₂ : l ≤ n) :
    (m.first ≤ l ∧ l ≤ m.last ↔ m'.first ≤ l ∧ l ≤ m'.last) ∧
      (m.first ≤ l ∧ l ≤ m.last → m.turns = m'.turns) := by
  have hne : ∀ g : Face, g ≠ g.opposite := by decide
  have hsame := h.quarters_layerTurns (.inl rfl) (.inl hface) h₁ h₂
  simp only [layerTurns, hface, true_and, hne, false_and, if_false, quarters] at hsame
  split_ifs at hsame <;> omega

/-- Moves about one face that take every slot alike are the same. -/
theorem ActAlike.eq_of_face (h : ActAlike n m m') (hface : m'.face = m.face) (hm : m.InRange n)
    (hm' : m'.InRange n) (ht : 1 ≤ m.turns ∧ m.turns ≤ 3) (ht' : 1 ≤ m'.turns ∧ m'.turns ≤ 3) :
    m' = m := by
  obtain ⟨h₁, h₂, h₃⟩ := hm
  obtain ⟨h₁', h₂', h₃'⟩ := hm'
  obtain ⟨hfirst, hturns⟩ := h.layer_iff hface ht ht' h₁ (h₂.trans h₃)
  obtain ⟨hlast, -⟩ := h.layer_iff hface ht ht' (h₁.trans h₂) h₃
  obtain ⟨hfirst', -⟩ := h.layer_iff hface ht ht' h₁' (h₂'.trans h₃')
  obtain ⟨hlast', -⟩ := h.layer_iff hface ht ht' (h₁'.trans h₂') h₃'
  have hturns := hturns ⟨le_rfl, h₂⟩
  have hfirsts : m'.first = m.first := by omega
  have hlasts : m'.last = m.last := by omega
  obtain ⟨face, first, last, turns⟩ := m
  exact Move.mk.injEq .. ▸ ⟨hface, hfirsts, hlasts, hturns.symm⟩

/-- Moves that turn some layers take every slot alike only if they are the same move, said from one
face or from the opposite one. -/
theorem actAlike_iff (hn : n ≤ maxLayer) (hm : m.InRange n) (hm' : m'.InRange n)
    (ht : 1 ≤ m.turns ∧ m.turns ≤ 3) (ht' : 1 ≤ m'.turns ∧ m'.turns ≤ 3) :
    ActAlike n m m' ↔ m' = m ∨ m' = m.flipped n := by
  constructor
  · intro h
    rcases h.about hm ht with hface | hface
    · exact .inl (h.eq_of_face hface hm hm' ht ht')
    · have hback := h.trans (actAlike_flipped hn hm')
      have hturns : (m'.flipped n).turns = (4 - m'.turns % 4) % 4 := quarters_neg_natCast _
      have heq : m'.flipped n = m := by
        refine hback.eq_of_face ?_ hm (inRange_flipped hn hm') ht (by omega)
        exact (congrArg Face.opposite hface).trans (Face.opposite_opposite _)
      rw [← heq, flipped_flipped hn hm' (by omega)]
      exact .inr rfl
  · rintro (rfl | rfl)
    · exact fun k _ s _ => rfl
    · exact actAlike_flipped hn hm

end Move

/-! ## Cycles that have the same effect -/

/-- Two lists of cycles have the same effect on an `n`-layer cube : both can be done on every orbit
of its kinds, whatever the stickers are, and they make the same orbit of it. -/
def Cycle.DoAlike (n : ℕ) (cs ds : List Cycle) : Prop :=
  ∀ (α : Type) (o : Orbit α), o.kind ∈ (Inventory.full n).kinds → o.slots.length = o.kind.size →
    ∃ o', applyEach cs (some o) = .ok (some o') ∧ applyEach ds (some o) = .ok (some o')

namespace Move

/-- The cycles of two moves have the same effect exactly if the moves take every slot alike. -/
theorem doAlike_iff_actAlike (hm : m.InRange n) (hm' : m'.InRange n)
    (hcs : m.cycles n (.full n) = .ok cs) (hds : m'.cycles n (.full n) = .ok ds) :
    Cycle.DoAlike n cs ds ↔ ActAlike n m m' := by
  constructor
  · intro h k hk s hs
    have hkind : k ∈ (Inventory.full n).kinds := Inventory.mem_full_iff.2 hk
    have hlen : (Orbit.labelled k).slots.length = k.size := List.length_range
    obtain ⟨o', ho', ho''⟩ := h ℕ (.labelled k) hkind hlen
    rw [applyEach_cycles hcs hlen, Except.ok.injEq, Option.some.injEq] at ho'
    rw [applyEach_cycles hds hlen, Except.ok.injEq, Option.some.injEq] at ho''
    have hcarry := carries_cycles_of_kind hm hkind hk hcs (o := .labelled k) rfl hlen
    have hcarry' := carries_cycles_of_kind hm' hkind hk hds (o := .labelled k) rfl hlen
    have hnodup := ((Orbit.labelled k).perm_rotateEach cs).nodup_iff.2 List.nodup_range
    rw [ho'', ← ho'] at hcarry'
    exact hcarry.eq_of_nodup hcarry' hnodup s (hlen ▸ hs)
  · intro h α o hk ho
    have hon := Inventory.mem_full_iff.1 hk
    have hcarry := carries_cycles_of_kind hm hk hon hcs rfl ho
    have hcarry' := carries_cycles_of_kind hm' hk hon hds rfl ho
    refine ⟨_, applyEach_cycles hcs ho, ?_⟩
    have hslots : (o.rotateEach ds).slots = (o.rotateEach cs).slots := by
      refine (hcarry'.congr fun s hs => (h _ hon s (ho ▸ hs)).symm).unique hcarry fun s hs => ?_
      obtain ⟨t, ht, hts⟩ := m.exists_turnedSlot_eq hon (ho ▸ hs)
      exact ⟨t, ho ▸ ht, hts⟩
    have horbit : o.rotateEach ds = o.rotateEach cs := by
      rw [Orbit.rotateEach_eq, Orbit.rotateEach_eq] at hslots ⊢
      exact congrArg (Orbit.mk o.kind) hslots
    rw [applyEach_cycles hds ho, horbit]

/-- The cycles of two moves that turn some layers have the same effect exactly if the moves are the
same, said from one face or from the opposite one. Of these only the moves of centered layers are
canonical both ways. -/
theorem cycles_doAlike_iff (hn : n ≤ maxLayer) (hm : m.InRange n) (hm' : m'.InRange n)
    (ht : 1 ≤ m.turns ∧ m.turns ≤ 3) (ht' : 1 ≤ m'.turns ∧ m'.turns ≤ 3) :
    ∃ cs ds, m.cycles n (.full n) = .ok cs ∧ m'.cycles n (.full n) = .ok ds ∧
      (Cycle.DoAlike n cs ds ↔ m' = m ∨ m' = m.flipped n) ∧
      (Cycle.DoAlike n cs ds → m.first + m.last ≤ n + 1 → m'.first + m'.last ≤ n + 1 →
        m' = m ∨ m.first + m.last = n + 1 ∧ m'.first = m.first ∧ m'.last = m.last) := by
  obtain ⟨cs, hcs⟩ : ∃ cs, m.cycles n (.full n) = .ok cs := ⟨_, cycles_eq_ok hm⟩
  obtain ⟨ds, hds⟩ : ∃ ds, m'.cycles n (.full n) = .ok ds := ⟨_, cycles_eq_ok hm'⟩
  have hiff := (doAlike_iff_actAlike hm hm' hcs hds).trans (actAlike_iff hn hm hm' ht ht')
  refine ⟨cs, ds, hcs, hds, hiff, fun halike hcanon hcanon' => ?_⟩
  refine (hiff.1 halike).imp_right fun hflip => ?_
  obtain ⟨h₁, h₂, h₃⟩ := hm
  have hfirst : m'.first = n + 1 - m.last := by
    rw [hflip, flipped, reflectLayer_eq hn (h₁.trans h₂) h₃]
  have hlast : m'.last = n + 1 - m.first := by
    rw [hflip, flipped, reflectLayer_eq hn h₁ (h₂.trans h₃)]
  omega

/-- On a cube of five layers a half turn of the three inner layers is the same from the right and
from the left face, and both moves are canonical. On a cube of one layer a half turn about the right
face is none about the upper one. -/
theorem cycles_doAlike_iff_five :
    (1 ≤ 2 ∧ 2 ≤ 3) ∧
      5 ≤ maxLayer ∧ (Move.mk .right 2 4 2).InRange 5 ∧ (Move.mk .left 2 4 2).InRange 5 ∧
      (∃ cs ds, Move.cycles ⟨.right, 2, 4, 2⟩ 5 (.full 5) = .ok cs ∧
        Move.cycles ⟨.left, 2, 4, 2⟩ 5 (.full 5) = .ok ds ∧ Cycle.DoAlike 5 cs ds) ∧
      1 ≤ maxLayer ∧ (Move.mk .right 1 1 2).InRange 1 ∧ (Move.mk .up 1 1 2).InRange 1 ∧
      ∃ cs ds, Move.cycles ⟨.right, 1, 1, 2⟩ 1 (.full 1) = .ok cs ∧
        Move.cycles ⟨.up, 1, 1, 2⟩ 1 (.full 1) = .ok ds ∧ ¬Cycle.DoAlike 1 cs ds := by
  have hn : 5 ≤ maxLayer := by decide
  have hm : (Move.mk .right 2 4 2).InRange 5 := by decide
  have hm' : (Move.mk .left 2 4 2).InRange 5 := by decide
  have hone : 1 ≤ maxLayer := by decide
  have hright : (Move.mk .right 1 1 2).InRange 1 := by decide
  have hup : (Move.mk .up 1 1 2).InRange 1 := by decide
  have hturns : 1 ≤ 2 ∧ 2 ≤ 3 := by decide
  obtain ⟨cs, ds, hcs, hds, hiff, -⟩ := cycles_doAlike_iff hn hm hm' hturns hturns
  obtain ⟨cs', ds', hcs', hds', hiff', -⟩ := cycles_doAlike_iff hone hright hup hturns hturns
  exact ⟨hturns, hn, hm, hm', ⟨cs, ds, hcs, hds, hiff.2 (by decide)⟩, hone, hright, hup, cs', ds',
    hcs', hds', fun h => absurd (hiff'.1 h) (by decide)⟩

end Move

end Twisty
