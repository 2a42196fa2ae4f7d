import Twisty.Notation.Numeral
import Twisty.Notation.Family

/-!
# The written form of a move

A move is written as layer numbers, a family letter, a `w`, a turn amount and an apostrophe, of
which all but the letter may be absent : `R`, `3Rw2`, `2-4Rw'`. A `Lexeme` holds the parts,
`Lexeme.text` writes them out, and `Lexeme.read` reads them back, so that the texts it accepts are
exactly the written forms, and no text is written from two lexemes (`read_eq_ok_iff`).

Reading keeps a `Draft` of the characters so far (`text_push?`). A text that is no written form is
refused at the first character that no draft can take, with a list of what could have followed
(`Draft.expected`).
-/

namespace Twisty.Notation

/-- The layer numbers before the family letter. -/
inductive LayerNumbers
  | absent
  | single (k : Numeral)
  | range (a b : Numeral)
  deriving DecidableEq

namespace LayerNumbers

/-- The characters of the layer numbers. -/
def text : LayerNumbers → List Char
  | absent => []
  | single k => k.text
  | range a b => a.text ++ '-' :: b.text

end LayerNumbers

/-- The character that turns a move around. -/
def apostrophe : Char := '\x27'

/-- The parts of a written move. -/
structure Lexeme where
  layers : LayerNumbers
  family : Family
  wide : Bool := false
  amount : Option Numeral := none
  primed : Bool := false
  deriving DecidableEq

/-- A character between apostrophes. -/
def quoteChar (c : Char) : String :=
  String.ofList [apostrophe, c, apostrophe]

/-- Something that could have stood where a text went wrong. -/
inductive Expectation
  | char (c : Char)
  | layerNumbers
  | family
  | endOfInput
  deriving DecidableEq

namespace Expectation

/-- The words for an expectation. -/
def text : Expectation → String
  | char c => quoteChar c
  | layerNumbers => "layer prefix"
  | family => "move family"
  | endOfInput => "end of input"

/-- The ten digits. -/
def digits : List Expectation :=
  (List.finRange 10).map (char ∘ digitChar)

/-- Several expectations in words : separated by commas, with an "or" before the last. -/
def listing : List Expectation → String
  | [] => ""
  | [e] => e.text
  | [e, f] => e.text ++ ", or " ++ f.text
  | e :: es => e.text ++ ", " ++ listing es

end Expectation

/-- Where a text goes wrong : the character found there, or none at the end of the text, and what
could have stood there instead. -/
structure Unexpected where
  found : Option Char
  expected : List Expectation
  deriving DecidableEq

namespace Unexpected

/-- The words for an unexpected character. -/
def text (u : Unexpected) : String :=
  let found := match u.found with
    | some c => quoteChar c
    | none => "end of input"
  s!"found {found} expected {Expectation.listing u.expected}"

end Unexpected

namespace Lexeme

/-- The characters of a written move. -/
def text (l : Lexeme) : List Char :=
  l.layers.text ++ l.family.letter :: ((if l.wide then ['w'] else []) ++
    (l.amount.elim [] Numeral.text ++ if l.primed then [apostrophe] else []))

/-- The turn amount with one more digit. -/
def pushDigit (l : Lexeme) (d : Fin 10) : Lexeme :=
  { l with amount := some ((l.amount.elim (.single d) (·.push d))) }

/-- The `w` follows the letter at once. -/
def takesWide (l : Lexeme) : Bool :=
  !l.wide && l.amount.isNone && !l.primed

/-- A written move with one more character, if it can take it. -/
def push? (l : Lexeme) (c : Char) : Option Lexeme :=
  if l.primed then none
  else if c = apostrophe then some { l with primed := true }
  else if c = 'w' then if l.takesWide then some { l with wide := true } else none
  else (digit? c).map l.pushDigit

/-- What can follow a written move. -/
def expected (l : Lexeme) : List Expectation :=
  if l.primed then [.endOfInput]
  else (if l.takesWide then [.char 'w'] else []) ++
    (Expectation.digits ++ [.char apostrophe, .endOfInput])

end Lexeme

/-- The beginning of a written move, up to some character. -/
inductive Draft
  | start
  | first (a : Numeral)
  | dash (a : Numeral)
  | second (a b : Numeral)
  | lettered (l : Lexeme)
  deriving DecidableEq

namespace Draft

/-- The characters of a draft. -/
def text : Draft → List Char
  | start => []
  | first a => a.text
  | dash a => a.text ++ ['-']
  | second a b => a.text ++ '-' :: b.text
  | lettered l => l.text

/-- The draft in which a family letter follows some layer numbers. -/
def letter? (ls : LayerNumbers) (c : Char) : Option Draft :=
  (Family.ofLetter? c).map fun f => lettered { layers := ls, family := f }

/-- A draft with one more character, if it can take it. -/
def push? : Draft → Char → Option Draft
  | start, c =>
    match digit? c with
    | some d => some (first (.single d))
    | none => letter? .absent c
  | first a, c =>
    match digit? c with
    | some d => some (first (a.push d))
    | none => if c = '-' then some (dash a) else letter? (.single a) c
  | dash a, c => (digit? c).map fun d => second a (.single d)
  | second a b, c =>
    match digit? c with
    | some d => some (second a (b.push d))
    | none => letter? (.range a b) c
  | lettered l, c => (l.push? c).map lettered

/-- What can follow a draft. -/
def expected : Draft → List Expectation
  | start => [.layerNumbers, .family]
  | first _ => Expectation.digits ++ [.char '-', .family]
  | dash _ => Expectation.digits
  | second _ _ => Expectation.digits ++ [.family]
  | lettered l => l.expected

/-- Read the rest of a written move after a draft of it. -/
def read (d : Draft) : List Char → Except Unexpected Lexeme
  | [] =>
    match d with
    | lettered l => .ok l
    | _ => .error ⟨none, d.expected⟩
  | c :: cs =>
    match d.push? c with
    | some e => e.read cs
    | none => .error ⟨some c, d.expected⟩

end Draft

/-- Read a written move. -/
def Lexeme.read (cs : List Char) : Except Unexpected Lexeme :=
  Draft.start.read cs

/-! ## A draft holds what was read -/

theorem Lexeme.text_push? {l m : Lexeme} {c : Char} (h : l.push? c = some m) :
    m.text = l.text ++ [c] := by
  obtain ⟨ls, f, w, a, p⟩ := l
  unfold Lexeme.push? at h
  cases p with
  | true => simp at h
  | false =>
    split at h
    · simp at h
    · split at h
      · simp_all [Lexeme.text]
        subst h
        simp
      · split at h
        · split at h
          · cases w <;> cases a <;> simp_all [Lexeme.text, Lexeme.takesWide]
            subst h
            simp
          · simp at h
        · obtain ⟨d, hd, rfl⟩ := Option.map_eq_some_iff.1 h
          rw [digit?_eq_some_iff] at hd
          subst hd
          cases w <;> cases a <;> simp [Lexeme.text, Lexeme.pushDigit]

namespace Draft

theorem text_letter? {ls : LayerNumbers} {c : Char} {e : Draft} (h : letter? ls c = some e) :
    e.text = ls.text ++ [c] := by
  obtain ⟨f, hf, rfl⟩ := Option.map_eq_some_iff.1 h
  rw [Family.ofLetter?_eq_some_iff] at hf
  simp [text, Lexeme.text, hf]

theorem text_push? {d e : Draft} {c : Char} (h : d.push? c = some e) :
    e.text = d.text ++ [c] := by
  cases d with
  | start =>
    simp only [push?] at h
    split at h
    · next k hk =>
      cases h
      simp [text, digit?_eq_some_iff.1 hk]
    · exact text_letter? h
  | first a =>
    simp only [push?] at h
    split at h
    · next k hk =>
      cases h
      simp [text, digit?_eq_some_iff.1 hk]
    · split at h
      · next hc =>
        cases h
        simp [text, hc]
      · exact text_letter? h
  | dash a =>
    obtain ⟨k, hk, rfl⟩ := Option.map_eq_some_iff.1 h
    simp [text, digit?_eq_some_iff.1 hk]
  | second a b =>
    simp only [push?] at h
    split at h
    · next k hk =>
      cases h
      simp [text, digit?_eq_some_iff.1 hk]
    · exact text_letter? h
  | lettered l =>
    obtain ⟨m, hm, rfl⟩ := Option.map_eq_some_iff.1 h
    exact Lexeme.text_push? hm

theorem eq_text_of_read {cs : List Char} {d : Draft} {l : Lexeme} (h : d.read cs = .ok l) :
    d.text ++ cs = l.text := by
  induction cs generalizing d with
  | nil =>
    cases d <;> simp_all [read, text]
  | cons c cs ih =>
    rw [read] at h
    split at h
    · next e he =>
      rw [← ih h, text_push? he]
      simp
    · simp at h

/-! ## A written form is read back -/

theorem read_digits (next : Numeral → Draft)
    (h : ∀ k d, (next k).push? (digitChar d) = some (next (k.push d))) (k : Numeral)
    (ds : List (Fin 10)) (cs : List Char) :
    (next k).read (ds.map digitChar ++ cs) =
      (next ⟨k.digits ++ ds, by simp [k.nonempty]⟩).read cs := by
  induction ds generalizing k with
  | nil => simp
  | cons d ds ih => simp [read, h, ih, Numeral.push]

theorem read_numeral {d : Draft} (next : Numeral → Draft)
    (h₀ : ∀ k, d.push? (digitChar k) = some (next (.single k)))
    (h : ∀ k d, (next k).push? (digitChar d) = some (next (k.push d))) (k : Numeral)
    (cs : List Char) : d.read (k.text ++ cs) = (next k).read cs := by
  obtain ⟨_ | ⟨x, xs⟩, hk⟩ := k
  · exact absurd rfl hk
  · simp only [Numeral.text, List.map_cons, List.cons_append, read, h₀]
    rw [read_digits next h]
    rfl

theorem letter?_letter (ls : LayerNumbers) (f : Family) :
    letter? ls f.letter = some (lettered { layers := ls, family := f }) := by
  simp [letter?]

theorem digit?_letter (f : Family) : digit? f.letter = none := by
  rcases f with f | f | a | a
  · cases f <;> rfl
  · cases f <;> rfl
  · cases a <;> rfl
  · cases a <;> rfl

theorem letter_ne_dash (f : Family) : f.letter ≠ '-' := by
  rcases f with f | f | a | a
  · cases f <;> decide
  · cases f <;> decide
  · cases a <;> decide
  · cases a <;> decide

theorem read_layers_letter (ls : LayerNumbers) (f : Family) (cs : List Char) :
    start.read (ls.text ++ f.letter :: cs) =
      (lettered { layers := ls, family := f }).read cs := by
  cases ls with
  | absent => simp [LayerNumbers.text, read, push?, digit?_letter, letter?_letter]
  | single k =>
    rw [LayerNumbers.text, read_numeral first (by simp [push?]) (by simp [push?])]
    simp [read, push?, digit?_letter, letter_ne_dash, letter?_letter]
  | range a b =>
    rw [LayerNumbers.text, List.append_assoc,
      read_numeral first (by simp [push?]) (by simp [push?])]
    have hd : digit? '-' = none := rfl
    simp only [List.cons_append, read, push?, hd, if_true]
    rw [read_numeral (second a) (by simp [push?]) (by simp [push?])]
    simp [read, push?, digit?_letter, letter?_letter]

theorem digitChar_ne (d : Fin 10) : digitChar d ≠ apostrophe ∧ digitChar d ≠ 'w' := by
  revert d
  decide

theorem read_wide (ls : LayerNumbers) (f : Family) (w : Bool) (cs : List Char) :
    (lettered { layers := ls, family := f }).read ((if w then ['w'] else []) ++ cs) =
      (lettered { layers := ls, family := f, wide := w }).read cs := by
  cases w with
  | false => rfl
  | true =>
    have hw : 'w' ≠ apostrophe := by decide
    simp [read, push?, Lexeme.push?, Lexeme.takesWide, hw]

theorem read_amount (ls : LayerNumbers) (f : Family) (w : Bool) (a : Option Numeral)
    (cs : List Char) :
    (lettered { layers := ls, family := f, wide := w }).read (a.elim [] Numeral.text ++ cs) =
      (lettered { layers := ls, family := f, wide := w, amount := a }).read cs := by
  cases a with
  | none => rfl
  | some k =>
    exact read_numeral
      (fun k => lettered { layers := ls, family := f, wide := w, amount := some k })
      (by simp [push?, Lexeme.push?, digitChar_ne, Lexeme.pushDigit])
      (by simp [push?, Lexeme.push?, digitChar_ne, Lexeme.pushDigit]) k cs

theorem read_primed (ls : LayerNumbers) (f : Family) (w : Bool) (a : Option Numeral) (p : Bool) :
    (lettered { layers := ls, family := f, wide := w, amount := a }).read
      (if p then [apostrophe] else []) = .ok ⟨ls, f, w, a, p⟩ := by
  cases p <;> simp [read, push?, Lexeme.push?]

end Draft

/-- A text is read as a lexeme exactly if it is its written form. -/
theorem Lexeme.read_eq_ok_iff {cs : List Char} {l : Lexeme} : read cs = .ok l ↔ cs = l.text := by
  constructor
  · exact Draft.eq_text_of_read
  · rintro rfl
    rw [read, text, Draft.read_layers_letter, Draft.read_wide, Draft.read_amount, Draft.read_primed]

end Twisty.Notation
