import Twisty.Proofs.Notation.Beginnings
import Twisty.Notation.Reading
import Mathlib.Data.List.Nodup

/-!
# Reading with backtracking

A `Reader` takes a part off the beginning of a text or fails. When one of two readers has failed the
other starts again at the same place (`Reader.orElse`), so a text can fail at many places. Only the
furthest failure is kept, with all that was expected there (`Failure.join`), and a failure at the
first character of a part may go by a name for the whole part (`Reader.labelled`).

`Reader.token` reads a written move part by part : layer numbers are tried as a range and then as
one number, and every part but the letter is tried and skipped if it fails. It reads what
`Lexeme.read` reads character by character, and fails as that does (`Reader.run_token`). The proof
goes over the parts from the last to the first. At each the expectations that have failed so far
(`Expects`) are those of the draft before it.

So a token that is no written move is refused at the first character after its longest viable
beginning, with what can follow there (`exists_longest_of_unwritten`).
-/

namespace Twisty.Notation

/-! ## Failures -/

/-- A place where a text could not be read on : the characters left there, and what was expected. -/
structure Failure where
  rest : List Char
  expected : List Expectation
  deriving DecidableEq

namespace Failure

/-- Of two failures in a text the one further on, or if they are at the same place both. -/
def join (e f : Failure) : Failure :=
  if f.rest.length < e.rest.length then f
  else if e.rest.length < f.rest.length then e
  else ⟨e.rest, e.expected ++ f.expected.filter (· ∉ e.expected)⟩

/-- A failure of a reader that started at `cs`, which goes by a name if it is still there. -/
def label (cs : List Char) (name : Expectation) (f : Failure) : Failure :=
  if f.rest.length = cs.length then ⟨cs, [name]⟩ else f

/-- What a failure says of the text. -/
def unexpected (f : Failure) : Unexpected :=
  ⟨f.rest.head?, f.expected⟩

end Failure

/-- The furthest failure after one more. -/
def note (m : Option Failure) (f : Failure) : Option Failure :=
  some (m.elim f (·.join f))

/-! ## Readers -/

/-- How far a text has been read : the characters left, and the furthest failure on the way. -/
structure Progress where
  rest : List Char
  furthest : Option Failure

/-- A reader of parts of texts. -/
def Reader (β : Type) :=
  Progress → Option β × Progress

namespace Reader

variable {β γ : Type}

instance : Monad Reader where
  pure x s := (some x, s)
  bind r g s :=
    match r s with
    | (some x, t) => g x t
    | (none, t) => (none, t)

/-- One character of a kind. -/
def one (p : Char → Option β) (es : List Expectation) : Reader β := fun s =>
  match s.rest.head?.bind p with
  | some x => (some x, { s with rest := s.rest.tail })
  | none => (none, { s with furthest := note s.furthest ⟨s.rest, es⟩ })

/-- The characters of a kind at the beginning of a text, and the text after them. -/
def splitWhile (p : Char → Option β) : List Char → List β × List Char
  | [] => ([], [])
  | c :: cs =>
    match p c with
    | some x => (x :: (splitWhile p cs).1, (splitWhile p cs).2)
    | none => ([], c :: cs)

/-- Characters of a kind, as many as there are, until it fails to find another. -/
def many (p : Char → Option β) (es : List Expectation) : Reader (List β) := fun s =>
  let (xs, cs) := splitWhile p s.rest
  (some xs, ⟨cs, note s.furthest ⟨cs, es⟩⟩)

/-- A certain character. -/
def char (c : Char) : Reader Unit :=
  one (fun d => if d = c then some () else none) [.char c]

/-- The end of a text. -/
def atEnd : Reader Unit := fun s =>
  if s.rest = [] then (some (), s)
  else (none, { s with furthest := note s.furthest ⟨s.rest, [.endOfInput]⟩ })

/-- The first reader, or if it fails the second from the same place. -/
def orElse (r r' : Reader β) : Reader β := fun s =>
  match r s with
  | (some x, t) => (some x, t)
  | (none, t) => r' { t with rest := s.rest }

/-- A part that may be absent. -/
def optional (r : Reader β) : Reader (Option β) :=
  orElse (some <$> r) (pure none)

/-- A reader whose failure at its first character goes by a name. -/
def labelled (name : Expectation) (r : Reader β) : Reader β := fun s =>
  let (x, t) := r { s with furthest := none }
  (x, ⟨t.rest, t.furthest.elim s.furthest fun f => note s.furthest (f.label s.rest name)⟩)

/-- What comes of reading. -/
def outcome : Option β × Progress → Except Unexpected β
  | (some x, _) => .ok x
  | (none, s) => .error (s.furthest.elim ⟨s.rest.head?, []⟩ Failure.unexpected)

/-- Read a text from its beginning. -/
def run (r : Reader β) (cs : List Char) : Except Unexpected β :=
  outcome (r ⟨cs, none⟩)

/-! ## The parts of a written move -/

/-- One or more digits. -/
def numeral : Reader Numeral := do
  let d ← one digit? Expectation.digits
  let ds ← many digit? Expectation.digits
  return ⟨d :: ds, by simp⟩

/-- Two layer numbers. -/
def layerRange : Reader LayerNumbers := do
  let a ← numeral
  char '-'
  let b ← numeral
  return .range a b

/-- Two layer numbers or one. -/
def layerNumbers : Reader LayerNumbers :=
  labelled .layerNumbers (orElse layerRange (.single <$> numeral))

/-- A family letter. -/
def family : Reader Family :=
  labelled .family (one Family.ofLetter? [])

/-- A written move. -/
def token : Reader Lexeme := do
  let layers ← optional layerNumbers
  let family ← family
  let wide ← optional (char 'w')
  let amount ← optional numeral
  let primed ← optional (char apostrophe)
  atEnd
  return ⟨layers.getD .absent, family, wide.isSome, amount, primed.isSome⟩

/-! ## What has failed so far -/

variable {m : Option Failure} {c : Char} {cs ds : List Char} {es : List Expectation}

/-- The furthest failure is not past the rest `cs` of a text, and there it has the expectations
`es`. -/
inductive Expects : Option Failure → List Char → List Expectation → Prop
  | fresh (cs : List Char) : Expects none cs []
  | behind {f : Failure} {cs : List Char} (h : cs.length < f.rest.length) : Expects (some f) cs []
  | here (cs : List Char) (es : List Expectation) : Expects (some ⟨cs, es⟩) cs es

namespace Expects

/-- What fails here is added to what failed here before. -/
theorem note_eq {fs : List Expectation} (h : Expects m cs es) (hnodup : (es ++ fs).Nodup) :
    note m ⟨cs, fs⟩ = some ⟨cs, es ++ fs⟩ := by
  cases h with
  | fresh => rfl
  | behind h => simp [note, Failure.join, h]
  | here =>
    have hdisjoint := List.disjoint_of_nodup_append hnodup
    simpa [note, Failure.join] using fun e he he' => hdisjoint he' he

/-- Further on nothing has failed yet. -/
theorem of_lt (h : Expects m cs es) (hlt : ds.length < cs.length) : Expects m ds [] := by
  cases h with
  | fresh => exact fresh ds
  | behind h => exact behind (Nat.lt_trans hlt h)
  | here => exact behind hlt

end Expects

/-- A failure stays when the new one is behind it. -/
theorem note_of_lt {f g : Failure} (h : f.rest.length < g.rest.length) :
    note (some f) g = some f := by
  simp [note, Failure.join, h, Nat.not_lt_of_gt h]

/-- A new failure that is further on takes the place of the old one. -/
theorem note_of_gt {f g : Failure} (h : g.rest.length < f.rest.length) :
    note (some f) g = some g := by
  simp [note, Failure.join, h]

theorem note_of_subset {fs : List Expectation} (h : fs ⊆ es) :
    note (some ⟨cs, es⟩) ⟨cs, fs⟩ = some ⟨cs, es⟩ := by
  simpa [note, Failure.join] using fun e he => h he

/-! ## What the readers do -/

section Combining

variable {r r' : Reader β} {g : β → Reader γ} {x : β} {o : Option β} {s t : Progress}

theorem bind_of_some (h : r s = (some x, t)) : (r >>= g) s = g x t := by
  change (match r s with | (some x, t) => g x t | (none, t) => (none, t)) = _
  rw [h]

theorem bind_of_none (h : r s = (none, t)) : (r >>= g) s = (none, t) := by
  change (match r s with | (some x, t) => g x t | (none, t) => (none, t)) = _
  rw [h]

theorem orElse_of_some (h : r s = (some x, t)) : orElse r r' s = (some x, t) := by
  rw [orElse, h]

theorem orElse_of_none (h : r s = (none, t)) : orElse r r' s = r' { t with rest := s.rest } := by
  rw [orElse, h]

theorem optional_of_some (h : r s = (some x, t)) : optional r s = (some (some x), t) :=
  orElse_of_some (bind_of_some h)

theorem optional_of_none (h : r s = (none, t)) :
    optional r s = (some none, { t with rest := s.rest }) :=
  orElse_of_none (bind_of_none h)

theorem labelled_of_lt {name : Expectation} {f : Failure}
    (h : r ⟨cs, none⟩ = (o, ⟨ds, some f⟩)) (hlt : f.rest.length < cs.length) :
    labelled name r ⟨cs, none⟩ = (o, ⟨ds, some f⟩) := by
  simp [labelled, h, Failure.label, Nat.ne_of_lt hlt, note]

end Combining

theorem char_cons : char c ⟨c :: cs, m⟩ = (some (), ⟨cs, m⟩) := by
  simp [char, one]

theorem char_of_ne (h : cs.head? ≠ some c) :
    char c ⟨cs, m⟩ = (none, ⟨cs, note m ⟨cs, [.char c]⟩⟩) := by
  cases cs with
  | nil => rfl
  | cons d cs =>
    have hne : d ≠ c := by simpa using h
    simp [char, one, hne]

theorem family_letter (f : Family) : family ⟨f.letter :: cs, m⟩ = (some f, ⟨cs, m⟩) := by
  simp [family, labelled, one]

theorem family_of_none (h : cs.head?.bind Family.ofLetter? = none) :
    family ⟨cs, m⟩ = (none, ⟨cs, note m ⟨cs, [.family]⟩⟩) := by
  simp [family, labelled, one, h, note, Failure.label]

/-- A text does not begin with a digit. -/
def NoDigit (cs : List Char) : Prop :=
  cs.head?.bind digit? = none

theorem NoDigit.digit?_eq_none (h : NoDigit cs) (hc : c ∈ cs.head?) : digit? c = none := by
  rwa [NoDigit, Option.mem_def.1 hc] at h

theorem noDigit_dash (cs : List Char) : NoDigit ('-' :: cs) :=
  rfl

/-- A text may begin with a numeral, of all the digits there are. -/
theorem noDigit_or_exists_numeral (cs : List Char) :
    NoDigit cs ∨ ∃ k ds, cs = Numeral.text k ++ ds ∧ NoDigit ds := by
  induction cs with
  | nil => exact .inl rfl
  | cons c cs ih =>
    cases hc : digit? c with
    | none => exact .inl hc
    | some d =>
      rw [digit?_eq_some_iff] at hc
      subst hc
      obtain h | ⟨k, ds, rfl, hds⟩ := ih
      · exact .inr ⟨.single d, cs, rfl, h⟩
      · exact .inr ⟨⟨d :: k.digits, by simp⟩, ds, rfl, hds⟩

/-- Digits are read up to the first character that is none. -/
theorem splitWhile_digits (ks : List (Fin 10)) (h : NoDigit cs) :
    splitWhile digit? (ks.map digitChar ++ cs) = (ks, cs) := by
  induction ks with
  | nil =>
    cases cs with
    | nil => rfl
    | cons c cs => simp [splitWhile, h.digit?_eq_none rfl]
  | cons k ks ih => simp [splitWhile, ih]

/-- A numeral is read up to the first character that is no digit. Another digit was expected
there. -/
theorem numeral_text (k : Numeral) (h : NoDigit cs) :
    numeral ⟨k.text ++ cs, m⟩ = (some k, ⟨cs, note m ⟨cs, Expectation.digits⟩⟩) := by
  obtain ⟨_ | ⟨d, ks⟩, hk⟩ := k
  · exact absurd rfl hk
  · have hfirst : one digit? Expectation.digits ⟨Numeral.text ⟨d :: ks, hk⟩ ++ cs, m⟩ =
        (some d, ⟨ks.map digitChar ++ cs, m⟩) := by
      simp [one, Numeral.text]
    have hmany : many digit? Expectation.digits ⟨ks.map digitChar ++ cs, m⟩ =
        (some ks, ⟨cs, note m ⟨cs, Expectation.digits⟩⟩) := by
      simp [many, splitWhile_digits ks h]
    exact (bind_of_some hfirst).trans (bind_of_some hmany)

/-- Where no digit is, one was expected. -/
theorem numeral_of_noDigit (h : NoDigit cs) :
    numeral ⟨cs, m⟩ = (none, ⟨cs, note m ⟨cs, Expectation.digits⟩⟩) := by
  have hfirst : one digit? Expectation.digits ⟨cs, m⟩ =
      (none, ⟨cs, note m ⟨cs, Expectation.digits⟩⟩) := by
    rw [NoDigit] at h
    simp [one, h]
  exact bind_of_none hfirst

/-! ## From the letter to the end -/

/-- What is left to read of a written move after the turn amount. -/
def afterAmount (l : Lexeme) : Reader Lexeme := do
  let primed ← optional (char apostrophe)
  atEnd
  return { l with primed := primed.isSome }

/-- What is left to read of a written move after the `w`. -/
def afterWide (l : Lexeme) : Reader Lexeme := do
  let amount ← optional numeral
  afterAmount { l with amount }

/-- What is left to read of a written move after the letter. -/
def afterLetter (layers : LayerNumbers) (family : Family) : Reader Lexeme := do
  let wide ← optional (char 'w')
  afterWide { layers, family, wide := wide.isSome }

/-- What is left to read of a written move after the layer numbers. -/
def afterLayers (layers : LayerNumbers) : Reader Lexeme :=
  family >>= afterLetter layers

theorem token_eq : token = optional layerNumbers >>= fun ls => afterLayers (ls.getD .absent) :=
  rfl

/-- At the end of the text the form is accepted. Before it the end was expected, with all that
failed at the same place. -/
theorem outcome_atEnd (hm : Expects m cs es) (hnodup : (es ++ [Expectation.endOfInput]).Nodup)
    (l : Lexeme) : outcome ((atEnd >>= fun _ => pure l) ⟨cs, m⟩) =
      if cs = [] then .ok l else .error ⟨cs.head?, es ++ [.endOfInput]⟩ := by
  by_cases hcs : cs = []
  · subst hcs
    rfl
  · have hend : atEnd ⟨cs, m⟩ = (none, ⟨cs, some ⟨cs, es ++ [.endOfInput]⟩⟩) := by
      rw [atEnd, if_neg hcs, hm.note_eq hnodup]
    rw [bind_of_none hend, if_neg hcs]
    rfl

theorem push?_eq_none {l : Lexeme} (happ : c ≠ apostrophe) (hw : l.takesWide → c ≠ 'w')
    (hdigit : digit? c = none) : l.push? c = none := by
  rw [Lexeme.push?, if_neg happ, hdigit]
  split_ifs with _ hcw hwide
  · rfl
  · exact absurd hcw (hw hwide)
  · rfl
  · rfl

/-- After its turn amount a form is read as the draft of it is read on. -/
theorem outcome_afterAmount {l : Lexeme} (hprimed : l.primed = false) (hm : Expects m cs es)
    (hes : l.expected = es ++ [.char apostrophe, .endOfInput])
    (hw : l.takesWide → cs.head? ≠ some 'w') (hdigit : NoDigit cs) :
    outcome (afterAmount l ⟨cs, m⟩) = (Draft.lettered l).read cs := by
  by_cases hcs : cs.head? = some apostrophe
  · obtain ⟨ds, rfl⟩ := List.head?_eq_some_iff.1 hcs
    have hread : (Draft.lettered l).read (apostrophe :: ds) =
        (Draft.lettered { l with primed := true }).read ds :=
      Draft.read_cons_of_some (by simp [Draft.push?, Lexeme.push?, hprimed])
    rw [hread, afterAmount, bind_of_some (optional_of_some char_cons),
      outcome_atEnd (hm.of_lt (by simp)) (by simp)]
    cases ds with
    | nil => rfl
    | cons d ds => rfl
  · have hnodup : ((es ++ [Expectation.char apostrophe]) ++ [Expectation.endOfInput]).Nodup := by
      rw [List.append_assoc]
      exact hes ▸ (Draft.lettered l).nodup_expected
    rw [afterAmount, bind_of_some (optional_of_none (char_of_ne hcs)),
      hm.note_eq (List.Nodup.of_append_left hnodup), outcome_atEnd (.here _ _) hnodup]
    cases cs with
    | nil => simp [Draft.read, ← hprimed]
    | cons c cs =>
      have hc : l.push? c = none :=
        push?_eq_none (by simpa using hcs) (by simpa using hw) (hdigit.digit?_eq_none rfl)
      rw [Draft.read_cons_of_none (by simp [Draft.push?, hc]), Draft.expected, hes]
      simp

/-- After the mark for wide moves a form is read as the draft of it is read on. -/
theorem outcome_afterWide {ls : LayerNumbers} {f : Family} {w : Bool} (hm : Expects m cs es)
    (hes : (Lexeme.mk ls f w none false).expected =
      (es ++ Expectation.digits) ++ [.char apostrophe, .endOfInput])
    (hw : w = false → cs.head? ≠ some 'w') :
    outcome (afterWide { layers := ls, family := f, wide := w } ⟨cs, m⟩) =
      (Draft.lettered { layers := ls, family := f, wide := w }).read cs := by
  obtain hcs | ⟨k, ds, rfl, hds⟩ := noDigit_or_exists_numeral cs
  · have hnodup := (Draft.lettered ⟨ls, f, w, none, false⟩).nodup_expected
    rw [Draft.expected, hes] at hnodup
    rw [afterWide, bind_of_some (optional_of_none (numeral_of_noDigit hcs)),
      hm.note_eq (List.Nodup.of_append_left hnodup)]
    exact outcome_afterAmount rfl (.here _ _) hes (by simpa [Lexeme.takesWide] using hw) hcs
  · have hlt : ds.length < (k.text ++ ds).length := by
      simpa using List.length_pos_iff.2 k.text_ne_nil
    rw [afterWide, bind_of_some (optional_of_some (numeral_text k hds)),
      (hm.of_lt hlt).note_eq (by decide)]
    refine (outcome_afterAmount rfl (.here _ _) (by simp [Lexeme.expected, Lexeme.takesWide])
      (by simp [Lexeme.takesWide]) hds).trans ?_
    exact (Draft.read_amount ls f w (some k) ds).symm

/-- After its letter a form is read as the draft of it is read on. -/
theorem outcome_afterLetter (ls : LayerNumbers) (f : Family) (hm : Expects m cs []) :
    outcome (afterLetter ls f ⟨cs, m⟩) =
      (Draft.lettered { layers := ls, family := f }).read cs := by
  by_cases hcs : cs.head? = some 'w'
  · obtain ⟨ds, rfl⟩ := List.head?_eq_some_iff.1 hcs
    rw [afterLetter, bind_of_some (optional_of_some char_cons)]
    refine (outcome_afterWide (w := true) (hm.of_lt (by simp)) rfl (by simp)).trans ?_
    exact (Draft.read_wide ls f true ds).symm
  · rw [afterLetter, bind_of_some (optional_of_none (char_of_ne hcs)), hm.note_eq (by simp)]
    exact outcome_afterWide (.here _ _) rfl fun _ => hcs

/-- After layer numbers a letter comes next, as after a draft that takes nothing else here. -/
theorem outcome_afterLayers {d : Draft} {ls : LayerNumbers} (hm : Expects m cs es)
    (hes : d.expected = es ++ [.family]) (hnil : d.read [] = .error ⟨none, d.expected⟩)
    (hpush : ∀ c ∈ cs.head?, d.push? c = Draft.letter? ls c) :
    outcome (afterLayers ls ⟨cs, m⟩) = d.read cs := by
  cases hf : cs.head?.bind Family.ofLetter? with
  | none =>
    rw [afterLayers, bind_of_none (family_of_none hf), hm.note_eq (hes ▸ d.nodup_expected), ← hes]
    cases cs with
    | nil => exact hnil.symm
    | cons c cs =>
      have hc : d.push? c = none := by
        rw [hpush c rfl, Draft.letter?]
        simpa using hf
      rw [Draft.read_cons_of_none hc]
      rfl
  | some f =>
    obtain ⟨c, hc, hfc⟩ := Option.bind_eq_some_iff.1 hf
    obtain ⟨ds, rfl⟩ := List.head?_eq_some_iff.1 hc
    rw [Family.ofLetter?_eq_some_iff] at hfc
    subst hfc
    have hc' := (hpush f.letter rfl).trans (Draft.letter?_letter ls f)
    rw [afterLayers, bind_of_some (family_letter f), outcome_afterLetter ls f (hm.of_lt (by simp)),
      Draft.read_cons_of_some hc']

/-! ## Layer numbers -/

theorem layerRange_of_ne (k : Numeral) (hds : NoDigit ds) (hdash : ds.head? ≠ some '-') :
    layerRange ⟨k.text ++ ds, none⟩ =
      (none, ⟨ds, some ⟨ds, Expectation.digits ++ [.char '-']⟩⟩) := by
  have hnote : note (some ⟨ds, Expectation.digits⟩) ⟨ds, [.char '-']⟩ =
      some ⟨ds, Expectation.digits ++ [.char '-']⟩ := (Expects.here ds _).note_eq (by decide)
  rw [← hnote]
  exact (bind_of_some (numeral_text k hds)).trans (bind_of_none (char_of_ne hdash))

theorem layerRange_dash (k : Numeral) (cs : List Char) : layerRange ⟨k.text ++ '-' :: cs, none⟩ =
    (LayerNumbers.range k <$> numeral) ⟨cs, some ⟨'-' :: cs, Expectation.digits⟩⟩ :=
  (bind_of_some (numeral_text k (noDigit_dash cs))).trans (bind_of_some char_cons)

theorem layerRange_dash_of_noDigit (k : Numeral) (h : NoDigit cs) :
    layerRange ⟨k.text ++ '-' :: cs, none⟩ = (none, ⟨cs, some ⟨cs, Expectation.digits⟩⟩) := by
  have hnote : note (some ⟨'-' :: cs, Expectation.digits⟩) ⟨cs, Expectation.digits⟩ =
      some ⟨cs, Expectation.digits⟩ := note_of_gt (by simp)
  rw [layerRange_dash, ← hnote]
  exact bind_of_none (numeral_of_noDigit h)

theorem layerRange_text (a b : Numeral) (h : NoDigit cs) :
    layerRange ⟨a.text ++ '-' :: (b.text ++ cs), none⟩ =
      (some (.range a b), ⟨cs, some ⟨cs, Expectation.digits⟩⟩) := by
  have hlt : cs.length < ('-' :: (b.text ++ cs)).length := by
    rw [List.length_cons, List.length_append]
    omega
  have hnote : note (some ⟨'-' :: (b.text ++ cs), Expectation.digits⟩) ⟨cs, Expectation.digits⟩ =
      some ⟨cs, Expectation.digits⟩ := note_of_gt hlt
  rw [layerRange_dash, ← hnote]
  exact bind_of_some (numeral_text b h)

/-- Two numbers with a dash between them are the layer numbers. -/
theorem layerNumbers_range (a b : Numeral) (h : NoDigit cs) :
    optional layerNumbers ⟨a.text ++ '-' :: (b.text ++ cs), none⟩ =
      (some (some (.range a b)), ⟨cs, some ⟨cs, Expectation.digits⟩⟩) := by
  refine optional_of_some (labelled_of_lt (orElse_of_some (layerRange_text a b h)) ?_)
  simp only [List.length_append, List.length_cons]
  omega

/-- One number is taken where a range has failed, and the failure is that of the range. -/
theorem layerNumbers_single {k : Numeral} {f : Failure} (hds : NoDigit ds)
    (hrange : layerRange ⟨k.text ++ ds, none⟩ = (none, ⟨cs, some f⟩))
    (hnote : note (some f) ⟨ds, Expectation.digits⟩ = some f) (hle : f.rest.length ≤ ds.length) :
    optional layerNumbers ⟨k.text ++ ds, none⟩ = (some (some (.single k)), ⟨ds, some f⟩) := by
  have hsingle : orElse layerRange (LayerNumbers.single <$> numeral) ⟨k.text ++ ds, none⟩ =
      (some (.single k), ⟨ds, some f⟩) := by
    refine (orElse_of_none hrange).trans ((bind_of_some (numeral_text k hds)).trans ?_)
    rw [hnote]
    rfl
  refine optional_of_some (labelled_of_lt hsingle ?_)
  have hpos := List.length_pos_iff.2 k.text_ne_nil
  rw [List.length_append]
  omega

/-- A text with no digit at its beginning has no layer numbers. -/
theorem layerNumbers_of_noDigit (h : NoDigit cs) :
    optional layerNumbers ⟨cs, none⟩ = (some none, ⟨cs, some ⟨cs, [.layerNumbers]⟩⟩) := by
  have hnumbers : orElse layerRange (LayerNumbers.single <$> numeral) ⟨cs, none⟩ =
      (none, ⟨cs, some ⟨cs, Expectation.digits⟩⟩) := by
    rw [← note_of_subset (List.Subset.refl Expectation.digits)]
    exact (orElse_of_none (bind_of_none (numeral_of_noDigit h))).trans
      (bind_of_none (numeral_of_noDigit h))
  have hlabel : layerNumbers ⟨cs, none⟩ = (none, ⟨cs, some ⟨cs, [.layerNumbers]⟩⟩) := by
    simp [layerNumbers, labelled, hnumbers, Failure.label, note]
  exact optional_of_none hlabel

/-! ## A whole written move -/

/-- A token without layer numbers is read as the empty draft is read on. -/
theorem outcome_token_of_noDigit (h : NoDigit cs) :
    outcome (token ⟨cs, none⟩) = Draft.start.read cs := by
  rw [token_eq, bind_of_some (layerNumbers_of_noDigit h)]
  refine outcome_afterLayers (.here _ _) rfl rfl fun c hc => ?_
  simp [Draft.push?, h.digit?_eq_none hc]

/-- A token with one layer number is read as the draft with that number is read on. -/
theorem outcome_token_first (k : Numeral) (h : NoDigit cs) (hdash : cs.head? ≠ some '-') :
    outcome (token ⟨k.text ++ cs, none⟩) = (Draft.first k).read cs := by
  rw [token_eq, bind_of_some (layerNumbers_single h (layerRange_of_ne k h hdash)
    (note_of_subset (by simp)) (Nat.le_refl _))]
  refine outcome_afterLayers (.here _ _) rfl rfl fun c hc => ?_
  have hne : c ≠ '-' := by
    rintro rfl
    exact hdash hc
  simp [Draft.push?, h.digit?_eq_none hc, hne]

/-- Without a second number the first is taken alone, and then there is no letter. But the range
has failed further on, after the dash. -/
theorem outcome_token_dash (k : Numeral) (h : NoDigit cs) :
    outcome (token ⟨k.text ++ '-' :: cs, none⟩) = (Draft.dash k).read cs := by
  have hnote : ∀ es, note (some ⟨cs, Expectation.digits⟩) ⟨'-' :: cs, es⟩ =
      some ⟨cs, Expectation.digits⟩ := fun es => note_of_lt (by simp)
  rw [token_eq, bind_of_some (layerNumbers_single (noDigit_dash cs)
    (layerRange_dash_of_noDigit k h) (hnote _) (by simp)), Option.getD_some, afterLayers,
    bind_of_none (family_of_none rfl), hnote]
  cases cs with
  | nil => rfl
  | cons c cs =>
    rw [Draft.read_cons_of_none (by simp [Draft.push?, h.digit?_eq_none rfl])]
    rfl

/-- A token with two layer numbers is read as the draft with both is read on. -/
theorem outcome_token_second (a b : Numeral) (h : NoDigit cs) :
    outcome (token ⟨a.text ++ '-' :: (b.text ++ cs), none⟩) = (Draft.second a b).read cs := by
  rw [token_eq, bind_of_some (layerNumbers_range a b h)]
  refine outcome_afterLayers (.here _ _) rfl rfl fun c hc => ?_
  simp [Draft.push?, h.digit?_eq_none hc]

/-- Reading a written move with backtracking is reading it character by character. -/
theorem run_token (cs : List Char) : run token cs = Lexeme.read cs := by
  obtain hcs | ⟨k, ds, rfl, hds⟩ := noDigit_or_exists_numeral cs
  · exact outcome_token_of_noDigit hcs
  by_cases hdash : ds.head? = some '-'
  · obtain ⟨cs, rfl⟩ := List.head?_eq_some_iff.1 hdash
    obtain hcs | ⟨b, cs, rfl, hcs⟩ := noDigit_or_exists_numeral cs
    · refine (outcome_token_dash k hcs).trans ?_
      simpa [Lexeme.read, Draft.text] using (Draft.start_read_text (.dash k) cs).symm
    · refine (outcome_token_second k b hcs).trans ?_
      simpa [Lexeme.read, Draft.text] using (Draft.start_read_text (.second k b) cs).symm
  · exact (outcome_token_first k hds hdash).trans (Draft.start_read_text (.first k) ds).symm

end Reader

/-- A token that is no written move is refused at the first character after its longest viable
beginning, with what can follow there. -/
theorem exists_longest_of_unwritten {n : ℕ} (hn : 1 ≤ n) {t : String}
    (ht : ∀ l : Lexeme, t.toList ≠ l.text) :
    ∃ p rest expected, Longest t.toList p rest ∧ Describes expected p ∧
      readToken n t = .error ⟨t, .grammar (.unexpected ⟨rest.head?, expected⟩)⟩ ∧
      Reader.run Reader.token t.toList = .error ⟨rest.head?, expected⟩ := by
  cases hread : Lexeme.read t.toList with
  | ok l => exact absurd (Lexeme.read_eq_ok_iff.1 hread) (ht l)
  | error u =>
    obtain ⟨d, rest, hlongest, rfl⟩ := Lexeme.exists_longest_of_read hread
    refine ⟨d.text, rest, d.expected, hlongest, d.describes_expected, ?_,
      (Reader.run_token _).trans hread⟩
    rw [readToken, readChars, if_neg (Nat.ne_of_gt hn), hread]
    rfl

/-- A range without its second number. The `2` alone would be a layer number, but the token is
viable up to the dash. -/
theorem exists_longest_of_unwritten_range :
    1 ≤ 5 ∧ (∀ l : Lexeme, "2-R".toList ≠ l.text) ∧
      ∃ p rest, Longest "2-R".toList p rest ∧ rest.head? = some 'R' ∧
        Describes Expectation.digits p ∧ readToken 5 "2-R" =
          .error ⟨"2-R", .grammar (.unexpected ⟨some 'R', Expectation.digits⟩)⟩ := by
  have hn : 1 ≤ 5 := by decide
  have hread : Lexeme.read "2-R".toList = .error ⟨some 'R', Expectation.digits⟩ := by decide
  have ht : ∀ l : Lexeme, "2-R".toList ≠ l.text := by
    intro l hl
    rw [Lexeme.read_eq_ok_iff.2 hl] at hread
    cases hread
  obtain ⟨p, rest, expected, hlongest, hdescribes, htoken, hrun⟩ :=
    exists_longest_of_unwritten hn ht
  rw [Reader.run_token, hread] at hrun
  obtain ⟨hhead, rfl⟩ := Unexpected.mk.inj (Except.error.inj hrun)
  rw [← hhead] at htoken
  exact ⟨hn, ht, p, rest, hlongest, hhead.symm, hdescribes, htoken⟩

end Twisty.Notation
