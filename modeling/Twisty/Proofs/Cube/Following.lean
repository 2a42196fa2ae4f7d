import Twisty.Proofs.Cube.Reachable
import Twisty.Proofs.Notation.Accepted

/-!
# Following a text

A cube that follows a text reads a word and turns, then reads the next. An accepted word writes a
move that the cube can do, so following accepted words is to read them all and then turn
(`WellFormed.followTokens_append`). A word that is refused stops the cube with the error of the word
(`WellFormed.followTokens_of_refused`). So to follow a text and to read it first come to the same,
and no move fails on the way (`follow_eq_of_readText`).
-/

namespace Twisty.Cube

open Notation

variable {α : Type} {n : ℕ} {c : Cube α} {ts : List String} {ms : List Move}

namespace WellFormed

/-- An accepted word is followed as the move that it writes is done. -/
theorem followToken_eq_ok (h : c.WellFormed n) (hn : n ≤ maxLayer) {t : String} {m : Move}
    (ht : readToken n t = .ok m) :
    ∃ d, c.turn m = (d, none) ∧ c.followToken t = (d, none) ∧ d.WellFormed n := by
  obtain ⟨d, hd, hwf, -⟩ := h.turn_eq_ok (inRange_of_readToken hn ht)
  refine ⟨d, hd, ?_, hwf⟩
  rw [followToken, h.size_eq, ht]
  exact congrArg (Prod.map id (Option.map Error.cube)) hd

/-- Accepted words are followed as the moves that they write are done. -/
theorem followTokens_append (h : c.WellFormed n) (hn : n ≤ maxLayer) (hts : Reads n ts ms) :
    ∃ d, c.turnAll ms = (d, none) ∧ d.WellFormed n ∧
      ∀ rest, c.followTokens (ts ++ rest) = d.followTokens rest := by
  induction hts generalizing c with
  | nil => exact ⟨c, rfl, h, fun _ => rfl⟩
  | cons ht _ ih =>
    obtain ⟨d, hturn, hfollow, hwf⟩ := h.followToken_eq_ok hn ht
    obtain ⟨e, hturns, hwf', hfollows⟩ := ih hwf
    refine ⟨e, ?_, hwf', fun rest => ?_⟩
    · exact (tryEach_cons_of_none hturn _).trans hturns
    · exact (tryEach_cons_of_none hfollow _).trans (hfollows rest)

/-- A word that is refused stops the cube where it is. -/
theorem followTokens_of_refused (h : c.WellFormed n) {t : String} {e : Notation.Error}
    (ht : readToken n t = .error e) (rest : List String) :
    c.followTokens (t :: rest) = (c, some (.token e)) := by
  have hfollow : c.followToken t = (c, some (.token e)) := by
    rw [followToken, h.size_eq, ht]
  exact tryEach_cons_of_some hfollow rest

/-- An accepted text is followed as its moves are done. -/
theorem follow_of_accepted (h : c.WellFormed n) (hn : n ≤ maxLayer) {text : String}
    (hms : readText n text = .ok ms) :
    ∃ d, d.WellFormed n ∧ c.follow text = (d, none) ∧ c.turnAll ms = (d, none) := by
  obtain ⟨d, hturns, hwf, hfollows⟩ := h.followTokens_append hn (readText_eq_ok_iff.1 hms)
  have hall := hfollows []
  rw [List.append_nil] at hall
  exact ⟨d, hwf, hall, hturns⟩

/-- A text that is refused is followed up to its first word that is. -/
theorem follow_of_refused (h : c.WellFormed n) (hn : n ≤ maxLayer) {text : String}
    {e : Notation.Error} (he : readText n text = .error e) :
    ∃ pre post ms d, Text.words text = pre ++ e.token :: post ∧ Reads n pre ms ∧
      readToken n e.token = .error e ∧ c.turnAll ms = (d, none) ∧
      c.follow text = (d, some (.token e)) := by
  obtain ⟨pre, post, ms, hwords, hpre, ht⟩ := exists_of_readText_eq_error he
  obtain ⟨d, hturns, hwf, hfollows⟩ := h.followTokens_append hn hpre
  refine ⟨pre, post, ms, d, hwords, hpre, ht, hturns, ?_⟩
  rw [follow, hwords, hfollows, hwf.followTokens_of_refused ht]

end WellFormed

/-- To follow a text is to read it and then do its moves. If it is refused, the error is that of its
first word that is, and the moves of the words before are done. No move fails. -/
theorem follow_eq_of_readText (hn : n ≤ maxLayer) (hc : c.Reachable n) (text : String) :
    (∀ ms, readText n text = .ok ms →
      ∃ d, c.follow text = (d, none) ∧ c.turnAll ms = (d, none)) ∧
    (∀ e, readText n text = .error e →
      ∃ pre post ms d, Text.words text = pre ++ e.token :: post ∧ Reads n pre ms ∧
        readToken n e.token = .error e ∧ c.turnAll ms = (d, none) ∧
        c.follow text = (d, some (.token e))) ∧
    ∀ e, (c.follow text).2 ≠ some (.cube e) := by
  have h := hc.wellFormed
  refine ⟨fun ms hms => (h.follow_of_accepted hn hms).imp fun d hd => hd.2, fun e he =>
    h.follow_of_refused hn he, fun e => ?_⟩
  cases hread : readText n text with
  | ok ms =>
    obtain ⟨d, -, hfollow, -⟩ := h.follow_of_accepted hn hread
    simp [hfollow]
  | error e' =>
    obtain ⟨pre, post, ms, d, -, -, -, -, hfollow⟩ := h.follow_of_refused hn hread
    simp [hfollow]

/-- A scrambled cube of three layers follows `R U` as the two moves, and `R U Q F` as far as `Q`. -/
theorem follow_eq_of_readText_three :
    3 ≤ maxLayer ∧ ∃ c : Cube ℕ, c = ((solved 3 Face.index).turnAll [⟨.front, 1, 2, 1⟩]).1 ∧
      c.Reachable 3 ∧
      readText 3 "R U" = .ok [⟨.right, 1, 1, 1⟩, ⟨.up, 1, 1, 1⟩] ∧
      (∃ d, c.follow "R U" = (d, none) ∧
        c.turnAll [⟨.right, 1, 1, 1⟩, ⟨.up, 1, 1, 1⟩] = (d, none)) ∧
      ∃ e, e.token = "Q" ∧ readText 3 "R U Q F" = .error e ∧
        ∃ pre post ms d, Text.words "R U Q F" = pre ++ e.token :: post ∧ Reads 3 pre ms ∧
          readToken 3 e.token = .error e ∧ c.turnAll ms = (d, none) ∧
          c.follow "R U Q F" = (d, some (.token e)) := by
  have hn : 3 ≤ maxLayer := by decide
  have hc := (Reachable.solved (by decide : 3 ≠ 0) Face.index).turnAll [⟨.front, 1, 2, 1⟩]
  have hok : readText 3 "R U" = .ok [⟨.right, 1, 1, 1⟩, ⟨.up, 1, 1, 1⟩] := by decide
  have herror : readText 3 "R U Q F" =
      .error ⟨"Q", .grammar (.unexpected ⟨some 'Q', [.layerNumbers, .family]⟩)⟩ := by decide
  exact ⟨hn, _, rfl, hc, hok, (follow_eq_of_readText hn hc _).1 _ hok, _, rfl, herror,
    (follow_eq_of_readText hn hc _).2.1 _ herror⟩

end Twisty.Cube
