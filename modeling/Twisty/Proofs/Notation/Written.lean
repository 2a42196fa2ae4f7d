import Twisty.Proofs.Notation.Accepted

/-!
# Which moves can be written

`Move.Normal` says in which form the moves come that tokens write : the layers are no nearer to the
opposite face, the turns are from none to three, and the whole cube is turned about the up, the
right or the front face only. Every accepted token writes such a move (`normal_of_readToken`).

On the other hand every number has a numeral (`Numeral.ofNat`), and every range of layers in normal
form has a written form, as a turn of the whole cube, of the face, of the layers next to it, or of
inner layers (`exists_fitsOn`). So the moves in normal form are exactly the moves that tokens write
(`exists_readToken_iff`).
-/

namespace Twisty

variable {n : ℕ} {m : Move}

/-- A move of an `n`-layer cube is said as the notation says it. -/
structure Move.Normal (n : ℕ) (m : Move) : Prop where
  one_le_first : 1 ≤ m.first
  first_le_last : m.first ≤ m.last
  near : m.first + m.last ≤ n + 1
  turns_le : m.turns ≤ 3
  face_of_all : m.first = 1 → m.last = n → m.face = .up ∨ m.face = .front ∨ m.face = .right

namespace Notation

/-! ## Every number has a numeral -/

namespace Numeral

theorem value_single (d : Fin 10) : (single d).value = d := by
  simp [single, value]

/-- The numeral of a number, without leading zeros. -/
def ofNat (v : ℕ) : Numeral :=
  if h : v < 10 then single ⟨v, h⟩ else (ofNat (v / 10)).push ⟨v % 10, Nat.mod_lt v (by decide)⟩

/-- The decimal numeral of a number has its value. -/
@[simp] theorem value_ofNat (v : ℕ) : (ofNat v).value = v := by
  fun_induction ofNat v with
  | case1 v h => exact value_single _
  | case2 v h ih =>
    rw [value_push, ih]
    exact Nat.div_add_mod v 10

end Numeral

/-! ## The moves of tokens -/

/-- Only a turn of the whole cube has all the layers. -/
theorem Spans.face_of_all {f : Family} {ls : LayerNumbers} {w : Bool} {first last : ℕ}
    (h : Spans n f ls w first last) (hfirst : first = 1) (hlast : last = n) :
    f.face = .up ∨ f.face = .front ∨ f.face = .right := by
  cases h with
  | rotation e => cases e <;> simp [Family.face, Axis.rotationFace]
  | middle => omega
  | double => split_ifs at hlast <;> omega
  | outer => omega
  | wide => omega
  | inner => omega
  | range => omega

/-- What is read is in normal form. -/
theorem normal_of_readToken (hn : n ≤ maxLayer) {t : String} (h : readToken n t = .ok m) :
    m.Normal n := by
  obtain ⟨h0, l, -, hm⟩ := readToken_eq_ok_iff.1 h
  obtain ⟨-, first, last, hfit, rfl⟩ := Lexeme.move_eq_ok_iff.1 hm
  obtain ⟨hfirst, hle, hlast⟩ := hfit.2.bounds h0
  have hturns := fun t => Nat.le_of_lt_succ (Move.quarters_lt t)
  rw [canonical_between hn _ _ hfirst hle hlast]
  split_ifs with hfar
  · refine ⟨?_, ?_, ?_, hturns _, fun hone hall => ?_⟩ <;> dsimp only at * <;> omega
  · refine ⟨hfirst, hle, Nat.not_lt.1 hfar, hturns _, fun hone hall => ?_⟩
    exact hfit.2.face_of_all hone hall

/-! ## The tokens of moves -/

/-- The layers of a move in normal form are those of a written form. -/
theorem exists_fitsOn (hn : n ≤ maxLayer) (h : m.Normal n) (amount : Option Numeral) :
    ∃ l : Lexeme, l.family.face = m.face ∧ l.FitsOn n m.first m.last ∧ l.amount = amount ∧
      l.primed = false := by
  obtain ⟨f, first, last, turns⟩ := m
  obtain ⟨hfirst, hle, hnear, -, hall⟩ := h
  dsimp only at hfirst hle hnear hall ⊢
  by_cases hone : first = 1
  · subst hone
    by_cases hwhole : last = n
    · obtain ⟨e, he⟩ : ∃ e : Axis, e.rotationFace = f := by
        rcases hall rfl hwhole with rfl | rfl | rfl
        · exact ⟨.y, rfl⟩
        · exact ⟨.z, rfl⟩
        · exact ⟨.x, rfl⟩
      subst hwhole
      exact ⟨⟨.absent, .rotation e, false, amount, false⟩, he, ⟨trivial, .rotation e⟩, rfl, rfl⟩
    by_cases hface : last = 1
    · subst hface
      exact ⟨⟨.absent, .outer f, false, amount, false⟩, rfl, ⟨trivial, .outer f (by omega)⟩, rfl,
        rfl⟩
    · have hspan : Spans n (.outer f) (.single (.ofNat last)) true 1 (Numeral.ofNat last).value :=
        .wide f (.single _) (by simp; omega) (by simp; omega)
      rw [Numeral.value_ofNat] at hspan
      exact ⟨⟨.single (.ofNat last), .outer f, true, amount, false⟩, rfl,
        ⟨by simp [LayerNumbers.Fits]; omega, hspan⟩, rfl, rfl⟩
  · have hspan := Spans.range f (n := n) (a := .ofNat first) (b := .ofNat last) (by simp; omega)
      (by simp; omega)
    rw [Numeral.value_ofNat, Numeral.value_ofNat, Nat.min_eq_left hle, Nat.max_eq_right hle]
      at hspan
    exact ⟨⟨.range (.ofNat first) (.ofNat last), .outer f, true, amount, false⟩, rfl,
      ⟨by simp [LayerNumbers.Fits]; omega, hspan⟩, rfl, rfl⟩

/-- A form with the face, the layers and the turns of a normal move is read as that move. -/
theorem Lexeme.move_eq_ok_of_normal (h : m.Normal n) {l : Lexeme} (hface : l.family.face = m.face)
    (hfit : l.FitsOn n m.first m.last) (hamount : l.amount = some (.ofNat m.turns))
    (hprimed : l.primed = false) : l.move n = .ok m := by
  obtain ⟨f, first, last, turns⟩ := m
  have hsigned : l.signedTurns = (turns : Int) := by
    simp [signedTurns, turnAmount, hamount, hprimed]
  have hle : l.turnAmount ≤ maxTurns := by
    have hturns : turns ≤ 3 := h.turns_le
    simp only [turnAmount, hamount, Option.elim_some, Numeral.value_ofNat, maxTurns]
    omega
  refine move_eq_ok_iff.2 ⟨hle, first, last, hfit, ?_⟩
  rw [Move.canonical, Move.between, Nat.min_eq_left h.first_le_last,
    Nat.max_eq_right h.first_le_last, if_neg (Nat.not_lt.2 h.near), hsigned, Move.quarters_natCast,
    Nat.mod_eq_of_lt (Nat.lt_succ_of_le h.turns_le), hface]

/-- The moves that tokens write on an `n`-layer cube are the moves in normal form. -/
theorem exists_readToken_iff (hn : n ≤ maxLayer) (h0 : 1 ≤ n) (m : Move) :
    (∃ t, readToken n t = .ok m) ↔ m.Normal n := by
  refine ⟨fun ⟨t, ht⟩ => normal_of_readToken hn ht, fun hm => ?_⟩
  obtain ⟨l, hface, hfit, hamount, hprimed⟩ := exists_fitsOn hn hm (some (.ofNat m.turns))
  refine ⟨String.ofList l.text, readToken_eq_ok_iff.2 ⟨by omega, l, String.toList_ofList, ?_⟩⟩
  exact Lexeme.move_eq_ok_of_normal hm hface hfit hamount hprimed

/-- On the largest cube some token turns all the inner layers about the back, but none turns the
whole cube about the back. -/
theorem exists_readToken_iff_largest :
    maxLayer ≤ maxLayer ∧ 1 ≤ maxLayer ∧
      (∃ t, readToken maxLayer t = .ok ⟨.back, 2, maxLayer - 1, 2⟩) ∧
      ¬∃ t, readToken maxLayer t = .ok ⟨.back, 1, maxLayer, 2⟩ := by
  have h0 : 1 ≤ maxLayer := by decide
  refine ⟨Nat.le_refl _, h0, (exists_readToken_iff (Nat.le_refl _) h0 _).2 ?_, fun h => ?_⟩
  · exact ⟨by decide, by decide, by decide, by decide, fun h => absurd h (by decide)⟩
  · have hface := ((exists_readToken_iff (Nat.le_refl _) h0 _).1 h).face_of_all rfl rfl
    revert hface
    decide

end Notation

end Twisty
