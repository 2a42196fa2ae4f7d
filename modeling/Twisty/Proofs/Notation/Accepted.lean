import Twisty.Cube.MoveCycles
import Twisty.Proofs.Notation.Meaning
import Mathlib.Data.List.Forall2

/-!
# Accepted texts

A token is accepted if it is written as a move whose amount and layers fit the cube
(`readToken_eq_ok_iff`, `Lexeme.move_eq_ok_iff`), and the move is then one that the cube has the
layers for (`inRange_of_readToken`). A text is accepted if all its words are (`readText_eq_ok_iff`),
and otherwise it is refused with the error of its first word that is not
(`exists_of_readText_eq_error`).
-/

namespace Twisty.Notation

variable {n : ℕ} {m : Move} {t text : String}

/-! ## Tokens -/

/-- The moves of a written form : its turn amount is not too large, its layers fit, and the move is
the one they say, from the nearer face. -/
theorem Lexeme.move_eq_ok_iff {l : Lexeme} : l.move n = .ok m ↔ l.turnAmount ≤ maxTurns ∧
    ∃ first last, l.FitsOn n first last ∧
      (Move.between l.family.face first last l.signedTurns).canonical n = m := by
  rw [move, bind_eq_ok_iff, turns_eq]
  constructor
  · rintro ⟨turns, hturns, h⟩
    obtain ⟨⟨first, last⟩, hspan, hm⟩ := bind_eq_ok_iff.1 h
    split_ifs at hturns with hle
    cases hturns
    exact ⟨hle, first, last, span_eq_ok_iff.1 hspan, Except.ok.inj hm⟩
  · rintro ⟨hle, first, last, hfit, rfl⟩
    refine ⟨l.signedTurns, if_pos hle, bind_eq_ok_iff.2 ⟨(first, last), hfit.span_eq_ok, rfl⟩⟩

/-- The characters of a move are those of a written form with that move. -/
theorem readChars_eq_ok_iff {cs : List Char} : readChars n cs = .ok m ↔
    n ≠ 0 ∧ ∃ l : Lexeme, cs = l.text ∧ l.move n = .ok m := by
  by_cases hn : n = 0
  · simp [readChars, hn]
  constructor
  · intro h
    by_cases hcs : ∃ l : Lexeme, cs = l.text
    · obtain ⟨l, rfl⟩ := hcs
      exact ⟨hn, l, rfl, readChars_text hn l ▸ h⟩
    · obtain ⟨g, hg⟩ := readChars_unwritten hn fun l hl => hcs ⟨l, hl⟩
      cases hg.symm.trans h
  · rintro ⟨-, l, rfl, h⟩
    rw [readChars_text hn l, h]

theorem readToken_eq_ok_iff : readToken n t = .ok m ↔
    n ≠ 0 ∧ ∃ l : Lexeme, t.toList = l.text ∧ l.move n = .ok m := by
  rw [← readChars_eq_ok_iff, readToken]
  cases readChars n t.toList <;> simp [Except.mapError]

/-- An error names the token that has it. -/
theorem token_of_readToken {e : Error} (h : readToken n t = .error e) : e.token = t := by
  rw [readToken] at h
  cases hread : readChars n t.toList with
  | ok m => rw [hread] at h; cases h
  | error f => rw [hread] at h; cases h; rfl

/-- A token that is accepted turns layers that the cube has. -/
theorem inRange_of_readToken (hn : n ≤ maxLayer) (h : readToken n t = .ok m) : m.InRange n := by
  obtain ⟨h0, l, -, hm⟩ := readToken_eq_ok_iff.1 h
  obtain ⟨-, first, last, hfit, rfl⟩ := Lexeme.move_eq_ok_iff.1 hm
  obtain ⟨hfirst, hle, hlast⟩ := hfit.2.bounds h0
  rw [canonical_between hn _ _ hfirst hle hlast]
  split_ifs
  · simp only [Move.InRange]
    omega
  · exact ⟨hfirst, hle, hlast⟩

/-! ## Texts -/

/-- A function that can fail gives a list of results if it gives each of them. -/
theorem mapM_eq_ok_iff {ε β γ : Type} {g : β → Except ε γ} {xs : List β} {ys : List γ} :
    xs.mapM g = .ok ys ↔ List.Forall₂ (fun x y => g x = .ok y) xs ys := by
  induction xs generalizing ys with
  | nil =>
    rw [List.mapM_nil, List.forall₂_nil_left_iff]
    exact ⟨fun h => (Except.ok.inj h).symm, fun h => h ▸ rfl⟩
  | cons x xs ih =>
    simp only [List.mapM_cons, bind_eq_ok_iff, List.forall₂_cons_left_iff, ih]
    constructor
    · rintro ⟨y, hy, ys, hys, h⟩
      exact ⟨y, ys, hy, hys, (Except.ok.inj h).symm⟩
    · rintro ⟨y, ys, hy, hys, rfl⟩
      exact ⟨y, hy, ys, hys, rfl⟩

/-- A list that fails has a first item that fails, with that error, and results for the items before
it. -/
theorem exists_of_mapM_eq_error {ε β γ : Type} {g : β → Except ε γ} {xs : List β} {e : ε}
    (h : xs.mapM g = .error e) : ∃ pre x post ys, xs = pre ++ x :: post ∧
      List.Forall₂ (fun x y => g x = .ok y) pre ys ∧ g x = .error e := by
  induction xs with
  | nil => cases h
  | cons x xs ih =>
    rw [List.mapM_cons] at h
    cases hx : g x with
    | error e' =>
      rw [hx] at h
      cases h
      exact ⟨[], x, xs, [], rfl, .nil, hx⟩
    | ok y =>
      cases hxs : xs.mapM g with
      | ok ys =>
        rw [hx, hxs] at h
        cases h
      | error e' =>
        rw [hx, hxs] at h
        cases h
        obtain ⟨pre, z, post, ys, rfl, hpre, hz⟩ := ih hxs
        exact ⟨x :: pre, z, post, y :: ys, rfl, .cons hx hpre, hz⟩

/-- Tokens are read one by one as some moves. -/
def Reads (n : ℕ) : List String → List Move → Prop :=
  List.Forall₂ fun t m => readToken n t = .ok m

/-- The moves of a text are those of its words, one for each. -/
theorem readText_eq_ok_iff {ms : List Move} :
    readText n text = .ok ms ↔ Reads n (Text.words text) ms :=
  mapM_eq_ok_iff

/-- A text that is refused has a first word that is refused, with the same error. -/
theorem exists_of_readText_eq_error {e : Error} (h : readText n text = .error e) :
    ∃ pre post ms, Text.words text = pre ++ e.token :: post ∧ Reads n pre ms ∧
      readToken n e.token = .error e := by
  obtain ⟨pre, t, post, ms, hwords, hpre, ht⟩ := exists_of_mapM_eq_error h
  obtain rfl := token_of_readToken ht
  exact ⟨pre, post, ms, hwords, hpre, ht⟩

/-- Moves that were read are in range. -/
theorem Reads.inRange {ts : List String} {ms : List Move} (h : Reads n ts ms) (hn : n ≤ maxLayer) :
    ∀ m ∈ ms, m.InRange n := by
  induction h with
  | nil => simp
  | cons hm _ ih =>
    rintro m' (_ | ⟨_, hm'⟩)
    · exact inRange_of_readToken hn hm
    · exact ih m' hm'

end Twisty.Notation
