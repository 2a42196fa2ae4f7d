import Twisty.Proofs.Notation.Accepted

/-!
# The inverse of a text

The inverse of a token is the token without the apostrophe at its end, or with one if it has none
(`inverseToken`). The inverse of a text has the inverses of its words in reverse order
(`inverseText`).

No written move ends in an apostrophe but for the one that turns it around, so the inverse of a
written move is the one that differs in this part (`Lexeme.inverseChars_text`), and it means the
inverse move (`Lexeme.move_inverse`). Hence the inverse of an accepted text is accepted, and its
moves are the inverse ones in reverse order (`readText_inverseText`).
-/

namespace Twisty.Notation

variable {n : ℕ} {m : Move} {t : String}

/-- Characters without the apostrophe at their end, or with one if there is none. -/
def inverseChars (cs : List Char) : List Char :=
  if cs.getLast? = some apostrophe then cs.dropLast else cs ++ [apostrophe]

/-- A token with its apostrophe taken away, or given one. -/
def inverseToken (t : String) : String :=
  String.ofList (inverseChars t.toList)

/-- The inverses of the words of a text in reverse order, with one space between each two. -/
def inverseText (text : String) : String :=
  Text.joinWords ((Text.words text).reverse.map inverseToken)

/-! ## Written moves -/

theorem letter_ne_apostrophe (f : Family) : f.letter ≠ apostrophe := by
  intro h
  have hnone : Family.ofLetter? apostrophe = none := by decide
  have hsome := Family.ofLetter?_letter f
  rw [h, hnone] at hsome
  cases hsome

namespace Lexeme

/-- The written move that turns the other way. -/
def inverse (l : Lexeme) : Lexeme :=
  { l with primed := !l.primed }

/-- A primed form ends in an apostrophe after the text of the form without it. -/
theorem text_primed (layers : LayerNumbers) (family : Family) (wide : Bool)
    (amount : Option Numeral) : text ⟨layers, family, wide, amount, true⟩ =
      text ⟨layers, family, wide, amount, false⟩ ++ [apostrophe] := by
  simp [text]

theorem getLast?_text_unprimed (layers : LayerNumbers) (family : Family) (wide : Bool)
    (amount : Option Numeral) :
    (text ⟨layers, family, wide, amount, false⟩).getLast? ≠ some apostrophe := by
  rw [text, List.getLast?_append_cons]
  intro hlast
  rcases List.mem_cons.1 (List.mem_of_getLast? hlast) with hletter | hmem
  · exact letter_ne_apostrophe family hletter.symm
  rcases List.mem_append.1 hmem with hwide | hmem
  · cases wide with
    | false => cases hwide
    | true => exact absurd (List.mem_singleton.1 hwide) (by decide)
  · cases amount with
    | none => cases hmem
    | some k =>
      obtain ⟨d, -, hd⟩ := List.mem_map.1 (by simpa [Numeral.text] using hmem)
      exact (Draft.digitChar_ne d).1 hd

/-- The inverse of a written move is written with its apostrophe turned. -/
theorem inverseChars_text (l : Lexeme) : inverseChars l.text = l.inverse.text := by
  obtain ⟨layers, family, wide, amount, primed⟩ := l
  cases primed with
  | false =>
    rw [inverseChars, if_neg (getLast?_text_unprimed layers family wide amount)]
    exact (text_primed layers family wide amount).symm
  | true =>
    rw [inverseChars, text_primed, if_pos List.getLast?_concat, List.dropLast_concat]
    rfl

/-- The inverse form turns as far the other way. -/
theorem signedTurns_inverse (l : Lexeme) : l.inverse.signedTurns = -l.signedTurns := by
  obtain ⟨layers, family, wide, amount, primed⟩ := l
  cases primed with
  | false => rfl
  | true => exact (Int.neg_neg _).symm

/-- The inverse form is read as the inverse move. -/
theorem move_inverse {l : Lexeme} (h : l.move n = .ok m) : l.inverse.move n = .ok m.inverse := by
  obtain ⟨hle, first, last, hfit, rfl⟩ := move_eq_ok_iff.1 h
  refine move_eq_ok_iff.2 ⟨hle, first, last, hfit, ?_⟩
  rw [Move.inverse_canonical, Move.inverse_between, signedTurns_inverse]
  rfl

end Lexeme

/-! ## Tokens -/

/-- The inverse of an accepted token is accepted as the inverse move. -/
theorem readToken_inverseToken (h : readToken n t = .ok m) :
    readToken n (inverseToken t) = .ok m.inverse := by
  obtain ⟨h0, l, hl, hm⟩ := readToken_eq_ok_iff.1 h
  refine readToken_eq_ok_iff.2 ⟨h0, l.inverse, ?_, Lexeme.move_inverse hm⟩
  rw [inverseToken, String.toList_ofList, hl, l.inverseChars_text]

theorem mem_of_mem_inverseChars {cs : List Char} {c : Char} (h : c ∈ inverseChars cs) :
    c ∈ cs ∨ c = apostrophe := by
  unfold inverseChars at h
  split_ifs at h
  · exact .inl (List.dropLast_subset _ h)
  · exact (List.mem_append.1 h).imp_right List.mem_singleton.1

/-- The inverse of an accepted word is a word. -/
theorem isWord_inverseToken (ht : Text.IsWord t) (h : readToken n t = .ok m) :
    Text.IsWord (inverseToken t) := by
  obtain ⟨-, l, hl, -⟩ := readToken_eq_ok_iff.1 h
  rw [Text.IsWord, inverseToken, String.toList_ofList]
  constructor
  · rw [hl, l.inverseChars_text, Lexeme.text]
    simp
  · intro c hc
    rcases mem_of_mem_inverseChars hc with hmem | rfl
    · exact ht.2 c hmem
    · decide

/-! ## Texts -/

theorem Reads.exists_move {ts : List String} {ms : List Move} (h : Reads n ts ms) :
    ∀ t ∈ ts, ∃ m, readToken n t = .ok m := by
  induction h with
  | nil => simp
  | cons hm _ ih => exact List.forall_mem_cons.2 ⟨⟨_, hm⟩, ih⟩

/-- The inverse tokens in reverse order are read as the inverse moves in reverse order. -/
theorem Reads.inverse {ts : List String} {ms : List Move} (h : Reads n ts ms) :
    Reads n (ts.reverse.map inverseToken) (ms.reverse.map Move.inverse) := by
  have hrev := List.forall₂_reverse_iff.2 h
  rw [Reads, List.forall₂_map_left_iff, List.forall₂_map_right_iff]
  exact hrev.imp fun _ _ => readToken_inverseToken

/-- The inverse of an accepted text is accepted, and its moves are the inverse ones in reverse
order. -/
theorem readText_inverseText {text : String} {ms : List Move} (h : readText n text = .ok ms) :
    readText n (inverseText text) = .ok (ms.reverse.map Move.inverse) := by
  have hreads := readText_eq_ok_iff.1 h
  have hwords : ∀ w ∈ (Text.words text).reverse.map inverseToken, Text.IsWord w := by
    intro w hw
    obtain ⟨t, ht, rfl⟩ := List.mem_map.1 hw
    obtain ⟨m, hm⟩ := hreads.exists_move t (List.mem_reverse.1 ht)
    exact isWord_inverseToken (Text.isWord_of_mem_words (List.mem_reverse.1 ht)) hm
  rw [readText_eq_ok_iff, inverseText, Text.words_joinWords hwords]
  exact hreads.inverse

end Twisty.Notation
