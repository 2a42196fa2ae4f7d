import Twisty.Proofs.Cube.Flipping

/-!
# Canonical moves

A move that a cube can do (`Move.IsProper`) can be said from either of two opposite faces. Flipping
it twice gives it back (`flipped_flipped`), and flipping and inverting can be done in either order
(`flipped_inverse`). The layer numbers of a move and of its flipped move add up to those of two
whole cubes (`first_add_last_flipped`), so at most one of the two starts further from its face than
it ends from the other, and `Move.canonical` takes the one that does not (`canonical_near`).

Both ways to say a move have the same canonical move, unless its layers are exactly centered : then
each is its own (`canonical_flipped_eq_iff`). `flip_inverse_canonical_laws` puts it all together.
-/

namespace Twisty.Move

variable {n : ℕ} {m : Move}

/-- A move turns layers that an `n`-layer cube has, by at most three quarter turns. -/
structure IsProper (n : ℕ) (m : Move) : Prop where
  inRange : m.InRange n
  turns_le : m.turns ≤ 3

/-! ## Flipping and inverting -/

/-- A move about the opposite face is as proper as the move itself. -/
theorem IsProper.flipped (hn : n ≤ maxLayer) (h : m.IsProper n) : (m.flipped n).IsProper n :=
  ⟨inRange_flipped hn h.inRange, Nat.le_of_lt_succ (quarters_lt _)⟩

/-- The inverse of a move is as proper as the move itself. -/
theorem IsProper.inverse (h : m.IsProper n) : m.inverse.IsProper n :=
  ⟨h.inRange, Nat.le_of_lt_succ (quarters_lt _)⟩

/-- A move that is flipped twice is as it was. -/
theorem IsProper.flipped_flipped (hn : n ≤ maxLayer) (h : m.IsProper n) :
    (m.flipped n).flipped n = m :=
  Move.flipped_flipped hn h.inRange (Nat.lt_succ_of_le h.turns_le)

/-- The inverse of the inverse is the move. -/
theorem IsProper.inverse_inverse (h : m.IsProper n) : m.inverse.inverse = m := by
  obtain ⟨face, first, last, turns⟩ := m
  have hturns : turns < 4 := Nat.lt_succ_of_le h.turns_le
  simp only [Move.inverse, quarters_neg_quarters, Int.neg_neg, quarters_natCast,
    Nat.mod_eq_of_lt hturns]

/-- The inverse is said from the opposite face as the move is. -/
theorem flipped_inverse (m : Move) (n : ℕ) : m.inverse.flipped n = (m.flipped n).inverse :=
  rfl

/-- A flipped move is about another face. -/
theorem flipped_ne (m : Move) (n : ℕ) : m.flipped n ≠ m := by
  have hface : ∀ f : Face, f.opposite ≠ f := by decide
  exact fun h => hface m.face (congrArg Move.face h)

theorem first_flipped (hn : n ≤ maxLayer) (hm : m.InRange n) :
    (m.flipped n).first = n + 1 - m.last :=
  reflectLayer_eq hn (hm.1.trans hm.2.1) hm.2.2

theorem last_flipped (hn : n ≤ maxLayer) (hm : m.InRange n) :
    (m.flipped n).last = n + 1 - m.first :=
  reflectLayer_eq hn hm.1 (hm.2.1.trans hm.2.2)

/-- What a move lies too far from its face, the flipped move lies too near to the other. -/
theorem first_add_last_flipped (hn : n ≤ maxLayer) (hm : m.InRange n) :
    (m.flipped n).first + (m.flipped n).last + (m.first + m.last) = 2 * (n + 1) := by
  obtain ⟨h₁, h₂, h₃⟩ := id hm
  rw [first_flipped hn hm, last_flipped hn hm]
  omega

/-! ## The canonical one of the two -/

/-- A move that is nearer to its face is its own normal form. -/
theorem canonical_of_near (h : m.first + m.last ≤ n + 1) : m.canonical n = m :=
  if_neg (Nat.not_lt.2 h)

/-- A move that is nearer to the opposite face is flipped. -/
theorem canonical_of_far (h : n + 1 < m.first + m.last) : m.canonical n = m.flipped n :=
  if_pos h

theorem canonical_eq_or (m : Move) (n : ℕ) : m.canonical n = m ∨ m.canonical n = m.flipped n := by
  rcases Nat.lt_or_ge (n + 1) (m.first + m.last) with hfar | hnear
  · exact .inr (canonical_of_far hfar)
  · exact .inl (canonical_of_near hnear)

/-- A normal form is never nearer to the opposite face. -/
theorem canonical_near (hn : n ≤ maxLayer) (hm : m.InRange n) :
    (m.canonical n).first + (m.canonical n).last ≤ n + 1 := by
  rcases Nat.lt_or_ge (n + 1) (m.first + m.last) with hfar | hnear
  · have hsum := first_add_last_flipped hn hm
    rw [canonical_of_far hfar]
    omega
  · rwa [canonical_of_near hnear]

/-- Of the two ways to say a move, the canonical one starts nearer to its face. -/
theorem first_canonical (hn : n ≤ maxLayer) (hm : m.InRange n) :
    (m.canonical n).first = min m.first (m.flipped n).first := by
  have hfirst := first_flipped hn hm
  rcases Nat.lt_or_ge (n + 1) (m.first + m.last) with hfar | hnear
  · rw [canonical_of_far hfar, Nat.min_eq_right (by omega)]
  · rw [canonical_of_near hnear, Nat.min_eq_left (by omega)]

/-- Only exactly centered layers are said in two canonical ways. -/
theorem canonical_flipped_eq_iff (hn : n ≤ maxLayer) (h : m.IsProper n) :
    (m.flipped n).canonical n = m.canonical n ↔ m.first + m.last ≠ n + 1 := by
  have hsum := first_add_last_flipped hn h.inRange
  rcases Nat.lt_trichotomy (m.first + m.last) (n + 1) with hnear | hcentered | hfar
  · rw [canonical_of_near hnear.le, canonical_of_far (by omega), h.flipped_flipped hn]
    exact iff_of_true rfl hnear.ne
  · rw [canonical_of_near hcentered.le, canonical_of_near (by omega)]
    exact iff_of_false (m.flipped_ne n) (not_not.2 hcentered)
  · rw [canonical_of_far hfar, canonical_of_near (by omega)]
    exact iff_of_true rfl hfar.ne'

/-- How the ways to say a move go together on an `n`-layer cube. Flipping and inverting take proper
moves to proper moves, each is undone by doing it again, and they can be done in either order. The
canonical move is the move or the flipped move, whichever starts nearer to its face, and it is its
own canonical move and goes along with the inverse. A move and its flipped move have the same
canonical move unless the layers are exactly centered. -/
theorem flip_inverse_canonical_laws (hn : n ≤ maxLayer) (h : m.IsProper n) :
    ((m.flipped n).IsProper n ∧ (m.flipped n).flipped n = m) ∧
      (m.inverse.IsProper n ∧ m.inverse.inverse = m ∧
        m.inverse.flipped n = (m.flipped n).inverse ∧
        m.inverse.canonical n = (m.canonical n).inverse) ∧
      ((m.canonical n = m ∨ m.canonical n = m.flipped n) ∧
        (m.canonical n).canonical n = m.canonical n ∧
        (m.canonical n).first + (m.canonical n).last ≤ n + 1 ∧
        (m.canonical n).first = min m.first (m.flipped n).first) ∧
      (m.canonical n = (m.flipped n).canonical n ↔ m.first + m.last ≠ n + 1) := by
  have hnear := canonical_near hn h.inRange
  refine ⟨⟨h.flipped hn, h.flipped_flipped hn⟩,
    ⟨h.inverse, h.inverse_inverse, m.flipped_inverse n, (m.inverse_canonical n).symm⟩,
    ⟨m.canonical_eq_or n, canonical_of_near hnear, hnear, first_canonical hn h.inRange⟩, ?_⟩
  rw [eq_comm]
  exact canonical_flipped_eq_iff hn h

/-- On the largest cube all layers but the first, turned back : said from the opposite face they are
all but the last, and this is the canonical way. -/
theorem flip_inverse_canonical_laws_largest :
    maxLayer ≤ maxLayer ∧ (Move.mk .up 2 maxLayer 3).IsProper maxLayer ∧
      ((Move.mk .up 2 maxLayer 3).flipped maxLayer).flipped maxLayer = ⟨.up, 2, maxLayer, 3⟩ ∧
      ((Move.mk .up 2 maxLayer 3).canonical maxLayer).first = 1 ∧
      (Move.mk .up 2 maxLayer 3).canonical maxLayer =
        ((Move.mk .up 2 maxLayer 3).flipped maxLayer).canonical maxLayer := by
  have hn : maxLayer ≤ maxLayer := Nat.le_refl _
  have h : (Move.mk .up 2 maxLayer 3).IsProper maxLayer := ⟨by decide, by decide⟩
  obtain ⟨⟨-, hback⟩, -, ⟨-, -, -, hfirst⟩, hsame⟩ := flip_inverse_canonical_laws hn h
  exact ⟨hn, h, hback, hfirst, hsame.2 (by decide)⟩

end Twisty.Move
