import Twisty.Text.Ranges

/-!
# Words

A text is split into words at its blanks, where a blank is any character with the Unicode property
"white space". Blanks before, after and between words may be repeated and are dropped
(`splitWords_blank_cons`), so that no word is empty or holds a blank (`isWord_of_mem_words`). Texts
joined by spaces have the words of each (`words_joinWords_eq_flatMap`), and so words that are joined
are found again (`words_joinWords`).
-/

namespace Twisty.Text

/-- The code points with the property "white space". -/
def blanks : Ranges :=
  [(0x09, 0x0d), (0x20, 0x20), (0x85, 0x85), (0xa0, 0xa0), (0x1680, 0x1680), (0x2000, 0x200a),
   (0x2028, 0x2029), (0x202f, 0x202f), (0x205f, 0x205f), (0x3000, 0x3000)]

/-- A character separates words. -/
def isBlank (c : Char) : Bool :=
  blanks.contains c

/-- A word under construction, with the words after it. -/
structure WordSplit where
  current : List Char := []
  later : List (List Char) := []

namespace WordSplit

/-- All the words, the one under construction included. -/
def close (s : WordSplit) : List (List Char) :=
  if s.current.isEmpty then s.later else s.current :: s.later

/-- Take in the character before. -/
def push (c : Char) (s : WordSplit) : WordSplit :=
  if isBlank c then { later := s.close } else { s with current := c :: s.current }

end WordSplit

/-- The words of a text, as lists of characters. -/
def splitWords (cs : List Char) : List (List Char) :=
  (cs.foldr WordSplit.push {}).close

/-- The words of a text. -/
def words (s : String) : List String :=
  (splitWords s.toList).map String.ofList

/-- Words with one space between each two. -/
def joinWords (ws : List String) : String :=
  String.ofList (List.intercalate [' '] (ws.map String.toList))

theorem splitWords_blank_cons {c : Char} (h : isBlank c = true) (cs : List Char) :
    splitWords (c :: cs) = splitWords cs := by
  simp [splitWords, WordSplit.push, WordSplit.close, h]

/-- A word can be found again : it has a character, and none is blank. -/
def IsWord (w : String) : Prop :=
  w.toList ≠ [] ∧ ∀ c ∈ w.toList, isBlank c = false

/-- What has been split so far holds words only. -/
def WordSplit.Sound (s : WordSplit) : Prop :=
  (∀ c ∈ s.current, isBlank c = false) ∧ ∀ w ∈ s.later, w ≠ [] ∧ ∀ c ∈ w, isBlank c = false

theorem WordSplit.Sound.close {s : WordSplit} (h : s.Sound) :
    ∀ w ∈ s.close, w ≠ [] ∧ ∀ c ∈ w, isBlank c = false := by
  unfold WordSplit.close
  split
  · exact h.2
  · next hcurrent =>
    intro w hw
    rcases List.mem_cons.1 hw with rfl | hw
    · exact ⟨by simpa using hcurrent, h.1⟩
    · exact h.2 w hw

theorem WordSplit.Sound.push {s : WordSplit} (h : s.Sound) (c : Char) : (s.push c).Sound := by
  unfold WordSplit.push
  split
  · exact ⟨by simp, h.close⟩
  · next hc => exact ⟨by simpa [hc] using h.1, h.2⟩

theorem mem_splitWords {cs w : List Char} (h : w ∈ splitWords cs) :
    w ≠ [] ∧ ∀ c ∈ w, isBlank c = false := by
  have sound : ∀ cs : List Char, (cs.foldr WordSplit.push {}).Sound := by
    intro cs
    induction cs with
    | nil => exact ⟨by simp, by simp⟩
    | cons c cs ih => exact ih.push c
  exact (sound cs).close w h

theorem isWord_of_mem_words {s w : String} (h : w ∈ words s) : IsWord w := by
  obtain ⟨cs, hcs, rfl⟩ := List.mem_map.1 h
  rw [IsWord, String.toList_ofList]
  exact mem_splitWords hcs

theorem foldr_push_of_isBlank_false {w : List Char} (h : ∀ c ∈ w, isBlank c = false)
    (s : WordSplit) : w.foldr WordSplit.push s = { s with current := w ++ s.current } := by
  induction w with
  | nil => rfl
  | cons c w ih =>
    simp only [List.mem_cons, forall_eq_or_imp] at h
    simp [ih h.2, WordSplit.push, h.1]

theorem splitWords_of_isBlank_false {w : List Char} (h₀ : w ≠ []) (h : ∀ c ∈ w, isBlank c = false) :
    splitWords w = [w] := by
  rw [splitWords, foldr_push_of_isBlank_false h]
  simp [WordSplit.close, h₀]

theorem foldr_push_later (cs : List Char) (later : List (List Char)) :
    cs.foldr WordSplit.push { later := later } =
      { cs.foldr WordSplit.push {} with later := (cs.foldr WordSplit.push {}).later ++ later } := by
  induction cs with
  | nil => rfl
  | cons c cs ih =>
    simp only [List.foldr_cons, ih, WordSplit.push, WordSplit.close]
    split
    · split <;> rfl
    · rfl

/-- A blank parts a text into two that are split each for itself. -/
theorem splitWords_append_blank {b : Char} (hb : isBlank b = true) (cs ds : List Char) :
    splitWords (cs ++ b :: ds) = splitWords cs ++ splitWords ds := by
  simp only [splitWords, List.foldr_append, List.foldr_cons]
  rw [WordSplit.push, if_pos hb, foldr_push_later]
  simp only [WordSplit.close]
  split <;> simp

/-- Texts joined by spaces have the words of each, one text after another. -/
theorem words_joinWords_eq_flatMap (ss : List String) :
    words (joinWords ss) = ss.flatMap words := by
  have key : ∀ ss : List String, splitWords (List.intercalate [' '] (ss.map String.toList)) =
      ss.flatMap fun s => splitWords s.toList := by
    intro ss
    induction ss with
    | nil => rfl
    | cons s ss ih =>
      cases ss with
      | nil => simp
      | cons t ts =>
        have hb : isBlank ' ' = true := by decide
        have hcons : List.intercalate [' '] ((s :: t :: ts).map String.toList) =
            s.toList ++ ' ' :: List.intercalate [' '] ((t :: ts).map String.toList) := by
          simp [List.intercalate]
        rw [hcons, splitWords_append_blank hb, ih]
        rfl
  rw [words, joinWords, String.toList_ofList, key ss, List.map_flatMap]
  rfl

theorem words_of_isWord {w : String} (h : IsWord w) : words w = [w] := by
  simp [words, splitWords_of_isBlank_false h.1 h.2]

theorem words_joinWords {ws : List String} (h : ∀ w ∈ ws, IsWord w) :
    words (joinWords ws) = ws := by
  rw [words_joinWords_eq_flatMap]
  induction ws with
  | nil => rfl
  | cons w ws ih =>
    simp only [List.mem_cons, forall_eq_or_imp] at h
    rw [List.flatMap_cons, words_of_isWord h.1, ih h.2]
    rfl

end Twisty.Text
