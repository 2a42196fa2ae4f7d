import Twisty.Notation.Lexeme
import Mathlib.Tactic.Common

/-!
# Beginnings of written moves

The characters of a text are `Viable` if some written move begins with them, and `CanFollow` says
which character can come next, or that a written move can end there. `Longest` splits a text after
its longest viable beginning.

A `Draft` is a viable beginning (`Draft.viable_text`), and it takes the characters that can follow
(`Draft.viable_append_iff`). So what `Draft.expected` lists for it is exactly what can follow
(`Draft.canFollow_iff`), and a text that is no written move is refused after its longest viable
beginning (`Lexeme.exists_longest_of_read`).
-/

namespace Twisty.Notation

/-- Some written move begins with these characters. -/
def Viable (p : List Char) : Prop :=
  ∃ l : Lexeme, p <+: l.text

/-- What comes after a beginning of a written move : some character, or if there is none the end. -/
def CanFollow (p : List Char) : Option Char → Prop
  | some c => Viable (p ++ [c])
  | none => ∃ l : Lexeme, p = l.text

/-- A text is split after its longest beginning that is viable. -/
structure Longest (cs p rest : List Char) : Prop where
  eq_append : cs = p ++ rest
  viable : Viable p
  longest : ∀ q, q <+: cs → Viable q → q <+: p

variable {c : Char} {next : Option Char} {cs p q : List Char} {es fs : List Expectation}

theorem Numeral.text_ne_nil (k : Numeral) : k.text ≠ [] := fun h =>
  k.nonempty (List.map_eq_nil_iff.1 h)

theorem Viable.of_isPrefix (h : Viable q) (hp : p <+: q) : Viable p := by
  obtain ⟨l, hl⟩ := h
  exact ⟨l, hp.trans hl⟩

/-! ## Drafts are viable -/

namespace Draft

theorem read_cons_of_some {d e : Draft} (h : d.push? c = some e) :
    d.read (c :: cs) = e.read cs := by
  rw [read, h]

theorem read_cons_of_none {d : Draft} (h : d.push? c = none) :
    d.read (c :: cs) = .error ⟨some c, d.expected⟩ := by
  rw [read, h]

/-- Some layer numbers, a letter and nothing more. -/
theorem viable_layers (ls : LayerNumbers) (f : Family) : Viable (ls.text ++ [f.letter]) :=
  ⟨{ layers := ls, family := f }, by simp [Lexeme.text]⟩

/-- What has been written of a draft can be completed. -/
theorem viable_text (d : Draft) : Viable d.text := by
  cases d with
  | start => exact (viable_layers .absent (.outer .up)).of_isPrefix (by simp [text])
  | first a =>
    exact (viable_layers (.single a) (.outer .up)).of_isPrefix (by simp [text, LayerNumbers.text])
  | dash a =>
    exact (viable_layers (.range a a) (.outer .up)).of_isPrefix (by simp [text, LayerNumbers.text])
  | second a b =>
    exact (viable_layers (.range a b) (.outer .up)).of_isPrefix (by simp [text, LayerNumbers.text])
  | lettered l => exact ⟨l, List.prefix_refl _⟩

/-- The text of a draft is read up to the draft. -/
theorem start_read_text (d : Draft) (cs : List Char) : start.read (d.text ++ cs) = d.read cs := by
  have hfirst : ∀ a cs, start.read (Numeral.text a ++ cs) = (first a).read cs :=
    read_numeral first (by simp [push?]) (by simp [push?])
  have hdash : ∀ a cs, start.read (Numeral.text a ++ '-' :: cs) = (dash a).read cs := by
    intro a cs
    rw [hfirst]
    exact read_cons_of_some rfl
  cases d with
  | start => rfl
  | first a => exact hfirst a cs
  | dash a => simpa [text] using hdash a cs
  | second a b =>
    rw [text, List.append_assoc, List.cons_append, hdash]
    exact read_numeral (second a) (by simp [push?]) (by simp [push?]) b cs
  | lettered l =>
    obtain ⟨ls, f, w, a, p⟩ := l
    rw [text, Lexeme.text]
    simp only [List.append_assoc, List.cons_append]
    rw [read_layers_letter, read_wide, read_amount]
    cases p with
    | false => rfl
    | true => exact read_cons_of_some rfl

/-- A draft takes every character with which it is still viable. -/
theorem isSome_push?_of_viable {d : Draft} (h : Viable (d.text ++ [c])) : (d.push? c).isSome := by
  obtain ⟨l, rest, hl⟩ := h
  have hread : d.read (c :: rest) = .ok l := by
    rw [← start_read_text, List.append_cons, hl]
    exact Lexeme.read_eq_ok_iff.2 rfl
  cases hpush : d.push? c with
  | some e => rfl
  | none =>
    rw [read_cons_of_none hpush] at hread
    cases hread

/-- A draft takes a character exactly if the two are viable. -/
theorem viable_append_iff (d : Draft) (c : Char) : Viable (d.text ++ [c]) ↔ (d.push? c).isSome := by
  refine ⟨isSome_push?_of_viable, fun h => ?_⟩
  obtain ⟨e, he⟩ := Option.isSome_iff_exists.1 h
  rw [← text_push? he]
  exact e.viable_text

/-- A written move ends in a draft exactly if the draft has its letter. -/
theorem exists_eq_text_iff (d : Draft) :
    (∃ l : Lexeme, d.text = l.text) ↔ ∃ l, d = lettered l := by
  constructor
  · rintro ⟨l, hl⟩
    have hread : d.read [] = .ok l := by
      rw [← start_read_text, List.append_nil, hl]
      exact Lexeme.read_eq_ok_iff.2 rfl
    cases d with
    | lettered l => exact ⟨l, rfl⟩
    | _ => cases hread
  · rintro ⟨l, rfl⟩
    exact ⟨l, rfl⟩

theorem text_eq_nil_iff (d : Draft) : d.text = [] ↔ d = start := by
  cases d with
  | start => simp [text]
  | first a => simpa [text] using a.text_ne_nil
  | _ => simp [text, Lexeme.text]

end Draft

/-! ## What is expected after a draft -/

namespace Expectation

/-- The next character, or that there is none, is something that an expectation means. -/
def Covers : Expectation → Option Char → Prop
  | char c, next => next = some c
  | layerNumbers, next => ∃ d, next = some (digitChar d)
  | family, next => ∃ f : Family, next = some f.letter
  | endOfInput, next => next = none

@[simp] theorem covers_char : (char c).Covers next ↔ next = some c := Iff.rfl

@[simp] theorem covers_endOfInput : endOfInput.Covers next ↔ next = none := Iff.rfl

@[simp] theorem covers_layerNumbers : layerNumbers.Covers next ↔ (next.bind digit?).isSome := by
  cases next <;> simp [Covers, Option.isSome_iff_exists, digit?_eq_some_iff]

@[simp] theorem covers_family : family.Covers next ↔ (next.bind Family.ofLetter?).isSome := by
  cases next <;> simp [Covers, Option.isSome_iff_exists, Family.ofLetter?_eq_some_iff]

/-- What comes next is something that a list of expectations means. -/
def Listed (es : List Expectation) (next : Option Char) : Prop :=
  ∃ e ∈ es, e.Covers next

@[simp] theorem not_listed_nil : ¬Listed [] next := by
  simp [Listed]

@[simp] theorem listed_cons {e : Expectation} :
    Listed (e :: es) next ↔ e.Covers next ∨ Listed es next := by
  simp [Listed]

@[simp] theorem listed_append : Listed (es ++ fs) next ↔ Listed es next ∨ Listed fs next := by
  simp [Listed, or_and_right, exists_or]

@[simp] theorem listed_digits : Listed digits next ↔ (next.bind digit?).isSome := by
  cases next <;> simp [Listed, digits, Option.isSome_iff_exists, digit?_eq_some_iff]

end Expectation

open Expectation (Listed)

/-- A list of expectations says what can follow a beginning of a written move, and each thing once.
Only at the very start it has layer numbers as a whole. -/
structure Describes (es : List Expectation) (p : List Char) : Prop where
  listed_iff : ∀ next, Listed es next ↔ CanFollow p next
  nodup : es.Nodup
  layerNumbers_mem_iff : .layerNumbers ∈ es ↔ p = []
  at_start : p = [] → es = [.layerNumbers, .family]

/-- A written form expects the characters that it takes. -/
theorem Lexeme.listed_some_iff (l : Lexeme) (c : Char) :
    Listed l.expected (some c) ↔ (l.push? c).isSome := by
  have hw : digit? 'w' = none := by decide
  rw [Lexeme.expected, Lexeme.push?]
  cases l.primed with
  | true => simp
  | false =>
    by_cases hc : c = apostrophe
    · simp [hc]
    by_cases hcw : c = 'w'
    · subst hcw
      cases l.takesWide <;> simp [hc, hw]
    · cases l.takesWide <;> simp [hc, hcw]

namespace Draft

/-- A draft expects the characters that it takes. -/
theorem listed_some_iff (d : Draft) (c : Char) :
    Listed d.expected (some c) ↔ (d.push? c).isSome := by
  cases d with
  | start => cases hd : digit? c <;> simp [expected, push?, letter?, hd]
  | first a =>
    by_cases hc : c = '-'
    · have hdash : digit? '-' = none := by decide
      simp [expected, push?, hc, hdash]
    · cases hd : digit? c <;> simp [expected, push?, letter?, hd, hc]
  | dash a => simp [expected, push?]
  | second a b => cases hd : digit? c <;> simp [expected, push?, letter?, hd]
  | lettered l => simpa [expected, push?] using l.listed_some_iff c

/-- A draft expects the end of the text if it has its letter. -/
theorem listed_none_iff (d : Draft) : Listed d.expected none ↔ ∃ l, d = lettered l := by
  cases d with
  | lettered l =>
    rw [expected, Lexeme.expected]
    cases l.primed <;> simp
  | _ => simp [expected]

/-- What a draft expects is what can follow it. -/
theorem canFollow_iff (d : Draft) (next : Option Char) :
    CanFollow d.text next ↔ Listed d.expected next := by
  cases next with
  | none => exact d.exists_eq_text_iff.trans d.listed_none_iff.symm
  | some c => exact (d.viable_append_iff c).trans (d.listed_some_iff c).symm

/-- Nothing is expected twice. -/
theorem nodup_expected (d : Draft) : d.expected.Nodup := by
  cases d with
  | lettered l =>
    rw [expected, Lexeme.expected]
    cases l.primed <;> cases l.takesWide <;> decide
  | _ =>
    rw [expected]
    decide

/-- Layer numbers are expected as a whole only at the very beginning. -/
theorem layerNumbers_mem_expected_iff (d : Draft) : .layerNumbers ∈ d.expected ↔ d = start := by
  cases d with
  | lettered l =>
    simp only [expected, Lexeme.expected]
    cases l.primed <;> cases l.takesWide <;> simp [Expectation.digits]
  | _ => simp [expected, Expectation.digits]

/-- What a draft expects describes what can follow its text. -/
theorem describes_expected (d : Draft) : Describes d.expected d.text where
  listed_iff next := (d.canFollow_iff next).symm
  nodup := d.nodup_expected
  layerNumbers_mem_iff := by rw [d.layerNumbers_mem_expected_iff, d.text_eq_nil_iff]
  at_start hd := by
    rw [d.text_eq_nil_iff.1 hd]
    rfl

/-! ## Where a text is refused -/

/-- A text is refused after a draft that cannot take the next character. -/
theorem exists_of_read_eq_error {d : Draft} {u : Unexpected} (h : d.read cs = .error u) :
    ∃ (e : Draft) (rest : List Char), d.text ++ cs = e.text ++ rest ∧
      u = ⟨rest.head?, e.expected⟩ ∧ ∀ c ∈ rest.head?, e.push? c = none := by
  induction cs generalizing d with
  | nil =>
    refine ⟨d, [], rfl, ?_, by simp⟩
    cases d <;> cases h <;> rfl
  | cons c cs ih =>
    cases hpush : d.push? c with
    | none =>
      rw [read_cons_of_none hpush] at h
      cases h
      exact ⟨d, c :: cs, rfl, rfl, by simpa using hpush⟩
    | some e =>
      rw [read_cons_of_some hpush] at h
      obtain ⟨e', rest, htext, hu, hstop⟩ := ih h
      refine ⟨e', rest, ?_, hu, hstop⟩
      rw [← htext, text_push? hpush, List.append_cons]

/-- When the next character is not taken the text of the draft is the longest viable beginning. -/
theorem longest_of_push?_eq_none {d : Draft} {rest : List Char}
    (h : ∀ c ∈ rest.head?, d.push? c = none) : Longest (d.text ++ rest) d.text rest := by
  refine ⟨rfl, d.viable_text, fun q hq hviable => ?_⟩
  obtain hle | ⟨q', rfl⟩ := List.prefix_or_prefix_of_prefix hq (List.prefix_append _ _)
  · exact hle
  cases q' with
  | nil => simp
  | cons c q' =>
    obtain ⟨cs, rfl⟩ := (List.prefix_append_right_inj _).1 hq
    have hsome := isSome_push?_of_viable (hviable.of_isPrefix (p := d.text ++ [c]) ⟨q', by simp⟩)
    rw [h c rfl] at hsome
    cases hsome

end Draft

/-- A text that is no written move is refused after its longest viable beginning, and that is a
draft. -/
theorem Lexeme.exists_longest_of_read {u : Unexpected} (h : read cs = .error u) :
    ∃ (d : Draft) (rest : List Char), Longest cs d.text rest ∧ u = ⟨rest.head?, d.expected⟩ := by
  obtain ⟨d, rest, htext, hu, hstop⟩ := Draft.exists_of_read_eq_error h
  have hlongest := Draft.longest_of_push?_eq_none hstop
  rw [← htext] at hlongest
  exact ⟨d, rest, hlongest, hu⟩

end Twisty.Notation
