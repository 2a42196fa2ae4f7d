import Twisty.Settings.File
import Mathlib.Data.List.Basic

/-!
# The lines of a settings file

A line of a settings file is written with a word, a colon, and a word or a list of words, or
nothing. A word stands between apostrophes or double quotes and means itself, or is bare and means
what `Scalar.ofBare` says, and a bare word must not hold what would end it (`IsBare`). There may be
spaces between the parts and at the end, and a comment after them. No line begins with the mark of a
document.

What is written so is read back : words (`word?_written`), lists (`items?_written`), values
(`value?_written`) and whole lines (`line?_written`).
-/

namespace Twisty.Settings.File

variable {inList : Bool} {x : Scalar} {v : Value} {w cs rest : List Char}

/-! ## Words -/

/-- Some spaces. -/
def spaces (n : ℕ) : List Char :=
  List.replicate n ' '

/-- A text between apostrophes. -/
def quoted (cs : List Char) : List Char :=
  '\x27' :: cs.flatMap (fun c => if c = '\x27' then ['\x27', '\x27'] else [c]) ++ ['\x27']

/-- A text between double quotes. -/
def doubleQuoted (cs : List Char) : List Char :=
  '\x22' :: cs ++ ['\x22']

/-- A bare word can start with these characters. -/
def canStart : List Char → Bool
  | [] => false
  | c :: cs =>
    !isBracket c && !isSpace c && !("#&*!\x27\"%@\x60".toList.contains c) &&
      (c != '|' && c != '>') && (!("-?:".toList.contains c) || cs.head?.any (!isSpace ·))

/-- A character of a bare word does not end it, with what comes after it in the word. -/
def goesOn (inList : Bool) (c : Char) (next : Option Char) : Bool :=
  !(inList && isBracket c) &&
    (c != ':' || next.any fun d => !isSpace d && !(inList && isBracket d)) &&
    (!isSpace c || next.any (· != '#'))

/-- No character ends a bare word. -/
def holdsTogether (inList : Bool) : List Char → Bool
  | [] => true
  | c :: cs => goesOn inList c cs.head? && holdsTogether inList cs

/-- A bare word can be read back. In a list it must not end in a dash that stands alone. -/
structure IsBare (inList : Bool) (cs : List Char) : Prop where
  canStart : canStart cs = true
  holdsTogether : holdsTogether inList cs = true
  not_dash : inList = true → endsInDash cs = false

instance (inList : Bool) (cs : List Char) : Decidable (IsBare inList cs) :=
  decidable_of_iff (File.canStart cs = true ∧ File.holdsTogether inList cs = true ∧
      (inList = true → endsInDash cs = false))
    ⟨fun h => ⟨h.1, h.2.1, h.2.2⟩, fun h => ⟨h.1, h.2, h.3⟩⟩

/-- A word is bare or stands between apostrophes, or between double quotes if it holds neither
these nor a backslash. -/
inductive WrittenWord (inList : Bool) : Scalar → List Char → Prop
  | bare (s : String) (h : IsBare inList s.toList) : WrittenWord inList (.ofBare s) s.toList
  | quoted (s : String) : WrittenWord inList (.text s) (quoted s.toList)
  | doubleQuoted (s : String) (hquote : '\x22' ∉ s.toList) (hslash : '\x5c' ∉ s.toList) :
    WrittenWord inList (.text s) (doubleQuoted s.toList)

/-- No bare word goes on here. -/
def Stops (inList : Bool) (cs : List Char) : Prop :=
  bare inList cs = ([], cs)

theorem stops_nil (inList : Bool) : Stops inList [] := rfl

theorem stops_iff {c : Char} : Stops inList (c :: cs) ↔
    endsBare inList (c :: cs) = true ∨ isSpace c = true ∧ cs.head? = some '#' := by
  simp only [Stops, bare]
  split_ifs with h <;> simp_all

theorem Stops.head?_ne (h : Stops inList cs) {c : Char} (hc : c = '#' ∨ c = '\x27') :
    cs.head? ≠ some c := by
  cases cs with
  | nil => exact nofun
  | cons d cs =>
    rintro ⟨⟩
    rw [stops_iff] at h
    rcases hc with rfl | rfl <;> simp [endsBare, isBracket, isSpace] at h

theorem dropSpace_spaces (n : ℕ) (cs : List Char) : dropSpace (spaces n ++ cs) = dropSpace cs := by
  induction n with
  | zero => rfl
  | succ n ih => exact ih

/-- A text between single quotes, its own quotes doubled, is read back. -/
theorem quoted?_written (cs : List Char) (h : rest.head? ≠ some '\x27') :
    quoted? (cs.flatMap (fun c => if c = '\x27' then ['\x27', '\x27'] else [c]) ++ '\x27' :: rest) =
      some (cs, rest) := by
  induction cs with
  | nil =>
    cases rest with
    | nil => rfl
    | cons d rest =>
      have hd : d ≠ '\x27' := fun hd => h (congrArg some hd)
      simp [quoted?, hd]
  | cons c cs ih =>
    by_cases hc : c = '\x27'
    · simp [hc, quoted?, ih]
    · simp [hc, quoted?, ih]

/-- A text between double quotes is read back if it has no double quote and no backslash. -/
theorem doubleQuoted?_written (hquote : '\x22' ∉ cs) (hslash : '\x5c' ∉ cs) (rest : List Char) :
    doubleQuoted? (cs ++ '\x22' :: rest) = some (cs, rest) := by
  induction cs with
  | nil => rfl
  | cons c cs ih =>
    obtain ⟨hc, hquotes⟩ := List.ne_and_not_mem_of_not_mem_cons hquote
    obtain ⟨hc', hslashes⟩ := List.ne_and_not_mem_of_not_mem_cons hslash
    simp [doubleQuoted?, hc.symm, hc'.symm, ih hquotes hslashes]

/-- A word goes on with a character that does not end it. -/
theorem bare_cons {c : Char} (hend : endsBare inList (c :: cs) = false)
    (hcomment : isSpace c = true → cs.head? ≠ some '#') :
    bare inList (c :: cs) = (c :: (bare inList cs).1, (bare inList cs).2) := by
  rw [bare, hend]
  by_cases hc : isSpace c = true
  · simp [hcomment hc]
  · simp [hc]

theorem bare_spaces (n : ℕ) (h : Stops inList rest) :
    bare inList (spaces n ++ rest) = (spaces n, rest) := by
  induction n with
  | zero => exact h
  | succ n ih =>
    have hend : endsBare inList (' ' :: (spaces n ++ rest)) = false := by
      simp [endsBare, isBracket]
    have hcomment : (spaces n ++ rest).head? ≠ some '#' := by
      cases n with
      | zero => exact h.head?_ne (.inl rfl)
      | succ n => simp [spaces, List.replicate_succ]
    refine (bare_cons hend fun _ => hcomment).trans ?_
    rw [ih]
    rfl

theorem endsBare_of_goesOn {c : Char} {tail : List Char}
    (h : goesOn inList c (cs.head?) = true) : endsBare inList (c :: (cs ++ tail)) = false := by
  simp only [goesOn, Bool.and_eq_true, Bool.or_eq_true, Bool.not_eq_true', bne_iff_ne] at h
  obtain ⟨⟨hbracket, hcolon⟩, -⟩ := h
  by_cases hc : c = ':'
  · subst hc
    cases cs with
    | nil => simp at hcolon
    | cons d cs => cases inList <;> simpa [endsBare] using hcolon
  · simpa [endsBare, hc] using hbracket

theorem head?_ne_of_goesOn {c : Char} {tail : List Char} (h : goesOn inList c (cs.head?) = true)
    (hc : isSpace c = true) : (cs ++ tail).head? ≠ some '#' := by
  cases cs with
  | nil => simp [goesOn, hc] at h
  | cons d cs =>
    simp [goesOn, hc] at h
    simpa using h.2

/-- A bare word is read up to its end, with the spaces after it. -/
theorem bare_written (n : ℕ) (hw : holdsTogether inList w = true) (h : Stops inList rest) :
    bare inList (w ++ (spaces n ++ rest)) = (w ++ spaces n, rest) := by
  induction w with
  | nil => exact bare_spaces n h
  | cons c w ih =>
    rw [holdsTogether, Bool.and_eq_true] at hw
    refine (bare_cons (endsBare_of_goesOn hw.1) (head?_ne_of_goesOn hw.1)).trans ?_
    rw [ih hw.2]
    rfl

theorem startsBare_of_canStart (hw : canStart w = true) (ht : holdsTogether inList w = true)
    (tail : List Char) : startsBare inList (w ++ tail) = true := by
  cases w with
  | nil => cases hw
  | cons c w =>
    rw [holdsTogether, Bool.and_eq_true] at ht
    have hend : endsBare inList (c :: (w ++ tail)) = false := endsBare_of_goesOn ht.1
    simp only [canStart, Bool.and_eq_true, Bool.or_eq_true] at hw
    obtain ⟨⟨⟨⟨hbracket, hspace⟩, hindicator⟩, hbar, hgreater⟩, hdash⟩ := hw
    have hsecond : ("-?:".toList.contains c && (w ++ tail).head?.elim true isSpace) = false := by
      rw [Bool.and_eq_false_iff]
      refine hdash.imp (by simp) fun hd => ?_
      cases w with
      | nil => cases hd
      | cons d w => simpa using hd
    simp only [List.cons_append, startsBare, hbracket, hspace, hindicator, hbar, hgreater, hsecond,
      hend, Bool.and_self, Bool.or_true, Bool.not_false]

theorem isSpace_getLast? (hw : holdsTogether inList w = true) : w.getLast?.all (!isSpace ·) := by
  induction w with
  | nil => rfl
  | cons c w ih =>
    rw [holdsTogether, Bool.and_eq_true] at hw
    cases w with
    | nil =>
      have hc := hw.1
      simp only [goesOn, List.head?_nil, Option.any_none, Bool.or_false, Bool.and_eq_true] at hc
      exact hc.2
    | cons d w => exact ih hw.2

theorem reverse_spaces (n : ℕ) : (spaces n).reverse = spaces n :=
  List.reverse_replicate

theorem dropSpaceAtEnd_spaces (hw : holdsTogether inList w = true) (n : ℕ) :
    dropSpaceAtEnd (w ++ spaces n) = w := by
  have hlast := isSpace_getLast? hw
  have hdrop : dropSpace w.reverse = w.reverse := by
    rw [← List.head?_reverse] at hlast
    cases hrev : w.reverse with
    | nil => rfl
    | cons c cs =>
      rw [hrev, List.head?_cons, Option.all_some, Bool.not_eq_true'] at hlast
      rw [dropSpace, List.dropWhile_cons, hlast]
      rfl
  rw [dropSpaceAtEnd, List.reverse_append, reverse_spaces, ← dropSpace, dropSpace_spaces, hdrop,
    List.reverse_reverse]

theorem endsInDash_spaces (h : endsInDash w = false) (n : ℕ) :
    endsInDash (w ++ spaces n) = false := by
  cases n with
  | zero => simpa [spaces] using h
  | succ n =>
    rw [endsInDash, List.reverse_append, reverse_spaces]
    rfl

theorem head?_spaces_ne (h : Stops inList rest) (n : ℕ) :
    (spaces n ++ rest).head? ≠ some '\x27' := by
  cases n with
  | zero => exact h.head?_ne (.inr rfl)
  | succ n => simp [spaces, List.replicate_succ]

/-- A word is read, and perhaps the spaces after it. -/
theorem word?_written (hw : WrittenWord inList x w) (n : ℕ) (h : Stops inList rest) :
    ∃ m, word? inList (w ++ (spaces n ++ rest)) = some (x, spaces m ++ rest) := by
  cases hw with
  | quoted s =>
    refine ⟨n, ?_⟩
    have hread := quoted?_written s.toList (head?_spaces_ne h n)
    simp [word?, quoted, hread]
  | doubleQuoted s hquote hslash =>
    refine ⟨n, ?_⟩
    have hread := doubleQuoted?_written hquote hslash (spaces n ++ rest)
    simp [word?, doubleQuoted, hread]
  | bare s hbare =>
    refine ⟨0, ?_⟩
    change _ = some (_, rest)
    have hstarts := startsBare_of_canStart hbare.canStart hbare.holdsTogether (spaces n ++ rest)
    have hread := bare_written n hbare.holdsTogether h
    have hdash : (inList && endsInDash (s.toList ++ spaces n)) = false := by
      cases inList with
      | false => rfl
      | true => exact endsInDash_spaces (hbare.not_dash rfl) n
    unfold word?
    split
    · next heq => simp [heq, startsBare] at hstarts
    · next heq => simp [heq, startsBare] at hstarts
    · rw [hstarts, hread]
      simp [hdash, dropSpaceAtEnd_spaces hbare.holdsTogether]

/-! ## Lists -/

/-- The items of a list, from after its opening bracket to its closing one. -/
inductive WrittenItems : List Value → List Char → Prop
  | nil (m : ℕ) : WrittenItems [] (spaces m ++ [']'])
  | last (m n : ℕ) {x : Scalar} {v : Value} {w : List Char} (hw : WrittenWord true x w)
    (hv : wordValue? x = some v) : WrittenItems [v] (spaces m ++ (w ++ (spaces n ++ [']'])))
  | cons (m n : ℕ) {x : Scalar} {v : Value} {vs : List Value} {w cs : List Char}
    (hw : WrittenWord true x w) (hv : wordValue? x = some v) (hvs : WrittenItems vs cs) :
    WrittenItems (v :: vs) (spaces m ++ (w ++ (spaces n ++ ',' :: cs)))

theorem stops_bracket {c : Char} (hc : isBracket c = true) (cs : List Char) :
    Stops true (c :: cs) := by
  have hcolon : c ≠ ':' := by
    rintro rfl
    exact absurd hc (by decide)
  exact stops_iff.2 (.inl (by simp [endsBare, hc]))

/-- A word begins like nothing else. -/
theorem WrittenWord.exists_cons (hw : WrittenWord inList x w) :
    ∃ c w', w = c :: w' ∧ isSpace c = false ∧ isBracket c = false ∧ c ≠ '#' := by
  cases hw with
  | quoted s => exact ⟨_, _, rfl, by decide, by decide, by decide⟩
  | doubleQuoted s => exact ⟨_, _, rfl, by decide, by decide, by decide⟩
  | bare s hbare =>
    have hstart := hbare.canStart
    cases hs : s.toList with
    | nil => simp [hs, File.canStart] at hstart
    | cons c w' =>
      refine ⟨c, w', rfl, ?_⟩
      rw [hs, File.canStart] at hstart
      simp at hstart
      simp [hstart]

theorem WrittenWord.append_ne (hw : WrittenWord inList x w) {c : Char} (hc : isBracket c = true)
    {tail : List Char} : w ++ tail ≠ c :: cs := by
  obtain ⟨d, w', rfl, -, hbracket, -⟩ := hw.exists_cons
  intro heq
  rw [← (List.cons.inj heq).1, hbracket] at hc
  cases hc

theorem dropSpace_written (hw : WrittenWord inList x w) (m : ℕ) (tail : List Char) :
    dropSpace (spaces m ++ (w ++ tail)) = w ++ tail := by
  obtain ⟨c, w', rfl, hspace, -⟩ := hw.exists_cons
  rw [dropSpace_spaces, List.cons_append, dropSpace, List.dropWhile_cons, hspace]
  rfl

/-- An item is read, and then what follows it. -/
theorem items?_word (hw : WrittenWord true x w) (hv : wordValue? x = some v) (m n fuel : ℕ)
    (h : Stops true rest) :
    items? (fuel + 1) (spaces m ++ (w ++ (spaces n ++ rest))) =
      match dropSpace rest with
      | ',' :: rest => (items? fuel rest).map fun r => (v :: r.1, r.2)
      | ']' :: rest => some ([v], rest)
      | _ => none := by
  obtain ⟨m', hword⟩ := word?_written hw n h
  rw [items?, dropSpace_written hw]
  split
  · next heq => exact absurd heq (hw.append_ne rfl)
  · rw [hword, ← dropSpace_spaces m' rest]
    change (wordValue? x).bind _ = _
    rw [hv]
    rfl

/-- The items of a list are read back in order. -/
theorem items?_written {vs : List Value} (h : WrittenItems vs cs) (rest : List Char) {fuel : ℕ}
    (hfuel : vs.length < fuel) : items? fuel (cs ++ rest) = some (vs, rest) := by
  obtain ⟨fuel, rfl⟩ := Nat.exists_eq_add_one_of_ne_zero (Nat.ne_zero_of_lt hfuel)
  induction h generalizing fuel with
  | nil m =>
    rw [List.append_assoc, items?, dropSpace_spaces]
    rfl
  | last m n hw hv =>
    simp only [List.append_assoc]
    exact items?_word hw hv m n fuel (stops_bracket (by decide) _)
  | cons m n hw hv _ ih =>
    rw [List.length_cons, Nat.succ_lt_succ_iff] at hfuel
    obtain ⟨fuel, rfl⟩ := Nat.exists_eq_add_one_of_ne_zero (Nat.ne_zero_of_lt hfuel)
    have hcomma : ∀ cs, dropSpace (',' :: cs) = ',' :: cs := fun _ => rfl
    simp only [List.append_assoc, List.cons_append]
    rw [items?_word hw hv m n _ (stops_bracket (by decide) _), hcomma]
    simp [ih fuel hfuel]

/-- Words that are written alike, with a comma and a space after each but the last, are a list of
texts. -/
theorem writtenItems_of_words {write : String → List Char} {ss : List String} (hne : ss ≠ [])
    (h : ∀ s ∈ ss, ∃ x, WrittenWord true x (write s) ∧ wordValue? x = some (.text s)) (m : ℕ) :
    WrittenItems (ss.map .text) (spaces m ++ ([',', ' '].intercalate (ss.map write) ++ [']'])) := by
  induction ss generalizing m with
  | nil => exact absurd rfl hne
  | cons s ss ih =>
    obtain ⟨x, hw, hv⟩ := h s (by simp)
    cases ss with
    | nil => simpa [spaces] using WrittenItems.last m 0 hw hv
    | cons t ts =>
      have hrest := ih (by simp) (fun u hu => h u (List.mem_cons_of_mem s hu)) 1
      simpa [spaces] using WrittenItems.cons m 0 hw hv hrest

/-! ## Values -/

/-- The end of a line : spaces, and perhaps a comment. -/
inductive WrittenEnd : List Char → Prop
  | blank (n : ℕ) : WrittenEnd (spaces n)
  | comment (n : ℕ) (cs : List Char) : WrittenEnd (spaces (n + 1) ++ '#' :: cs)

/-- What follows a colon on its line, which is a value or nothing. -/
inductive WrittenValue : Option Value → List Char → Prop
  | none {cs : List Char} (h : WrittenEnd cs) : WrittenValue none cs
  | word (n : ℕ) {x : Scalar} {v : Value} {w cs : List Char} (hw : WrittenWord false x w)
    (hv : wordValue? x = some v) (h : WrittenEnd cs) :
    WrittenValue (some v) (spaces (n + 1) ++ (w ++ cs))
  | list (n : ℕ) {vs : List Value} {w cs : List Char} (hw : WrittenItems vs w) (h : WrittenEnd cs) :
    WrittenValue (some (.list vs)) (spaces (n + 1) ++ '[' :: (w ++ cs))

theorem isBlankLine_word (hw : WrittenWord inList x w) (m : ℕ) (tail : List Char) :
    isBlankLine (spaces m ++ (w ++ tail)) = false := by
  rw [isBlankLine, dropSpace_written hw]
  obtain ⟨c, w', rfl, -, -, hc⟩ := hw.exists_cons
  simpa using hc

theorem endsLine_of_isBlankLine_eq_false (h : isBlankLine cs = false) : endsLine cs = false := by
  cases cs with
  | nil => cases h
  | cons c cs => rw [endsLine, List.head?_cons, Option.elim_some, h, Bool.and_false]

theorem endsLine_spaces (n : ℕ) (h : endsLine rest = true) :
    endsLine (spaces n ++ rest) = true := by
  cases n with
  | zero => exact h
  | succ n =>
    have hblank : isBlankLine rest = true := by
      cases rest with
      | nil => rfl
      | cons c rest =>
        rw [endsLine, List.head?_cons, Option.elim_some, Bool.and_eq_true] at h
        exact h.2
    have hall : isBlankLine (spaces (n + 1) ++ rest) = true := by
      rwa [isBlankLine, dropSpace_spaces]
    rw [endsLine, hall]
    rfl

/-- A line ends where no bare word goes on, perhaps after some spaces. -/
theorem WrittenEnd.exists_stops (h : WrittenEnd cs) :
    ∃ n rest, cs = spaces n ++ rest ∧ Stops false rest ∧ endsLine rest = true := by
  cases h with
  | blank n => exact ⟨n, [], (List.append_nil _).symm, stops_nil _, rfl⟩
  | comment n cs =>
    refine ⟨n, ' ' :: '#' :: cs, ?_, stops_iff.2 (.inr ⟨rfl, rfl⟩), rfl⟩
    rw [spaces, List.replicate_succ', List.append_assoc]
    rfl

theorem WrittenEnd.endsLine_eq (h : WrittenEnd cs) : endsLine cs = true := by
  obtain ⟨n, rest, rfl, -, hrest⟩ := h.exists_stops
  exact endsLine_spaces n hrest

theorem partsWord_spaces (n : ℕ) (cs : List Char) : partsWord (spaces (n + 1) ++ cs) = true := by
  simp [partsWord, spaces, List.replicate_succ, isSpace]

theorem WrittenItems.length_le {vs : List Value} (h : WrittenItems vs cs) :
    vs.length ≤ cs.length := by
  induction h with
  | nil => exact Nat.zero_le _
  | last => simp; omega
  | cons _ _ _ _ _ ih => simp; omega

/-- A written value is read back. -/
theorem value?_written {v : Option Value} (h : WrittenValue v cs) : value? cs = some v := by
  cases h with
  | none h => rw [value?, if_pos h.endsLine_eq]
  | @word n x v w e hw hv h =>
    have hends := endsLine_of_isBlankLine_eq_false (isBlankLine_word hw (n + 1) e)
    obtain ⟨m, rest, rfl, hstop, hrest⟩ := h.exists_stops
    obtain ⟨m', hword⟩ := word?_written hw m hstop
    rw [value?, hends, partsWord_spaces, dropSpace_written hw]
    simp only [Bool.false_eq_true, Bool.not_true, if_false]
    split
    · next heq => exact absurd heq (hw.append_ne rfl)
    · rw [hword]
      simp [endsLine_spaces m' hrest, hv]
  | @list n vs w e hw h =>
    have hblank : isBlankLine (spaces (n + 1) ++ '[' :: (w ++ e)) = false := by
      rw [isBlankLine, dropSpace_spaces]
      rfl
    have hfuel : vs.length < (w ++ e).length + 1 := by
      have hle := hw.length_le
      rw [List.length_append]
      omega
    have hdrop : dropSpace ('[' :: (w ++ e)) = '[' :: (w ++ e) := rfl
    rw [value?, endsLine_of_isBlankLine_eq_false hblank, partsWord_spaces, dropSpace_spaces, hdrop]
    simp only [Bool.false_eq_true, Bool.not_true, if_false]
    rw [items?_written hw e hfuel]
    simp [h.endsLine_eq]

theorem WrittenValue.head?_isSpace {v : Option Value} (h : WrittenValue v cs) :
    cs.head?.elim true isSpace = true := by
  have hend : ∀ {cs}, WrittenEnd cs → cs.head?.elim true isSpace = true := by
    rintro _ (n | ⟨n, cs⟩)
    · cases n <;> rfl
    · rfl
  cases h with
  | none h => exact hend h
  | word n _ _ _ => rfl
  | list n _ _ => rfl

/-! ## Entries -/

/-- A line with an entry. -/
inductive WrittenLine : Line → List Char → Prop
  | mk (indent n : ℕ) {name : Scalar} {v : Option Value} {w cs : List Char}
    (hw : WrittenWord false name w) (hlength : w.length + n ≤ maxNameLength)
    (hv : WrittenValue v cs)
    (hmark : isDocumentMark (spaces indent ++ (w ++ (spaces n ++ ':' :: cs))) = false) :
    WrittenLine ⟨indent, name, v⟩ (spaces indent ++ (w ++ (spaces n ++ ':' :: cs)))

/-- A line without an entry, which is empty or a comment. -/
inductive WrittenBlank : List Char → Prop
  | blank (n : ℕ) : WrittenBlank (spaces n)
  | comment (n : ℕ) (cs : List Char) : WrittenBlank (spaces n ++ '#' :: cs)

/-- A written name is read back up to its colon. -/
theorem name?_written (hw : WrittenWord false x w) {n : ℕ} (hlength : w.length + n ≤ maxNameLength)
    (hrest : rest.head?.elim true isSpace = true) :
    name? (w ++ (spaces n ++ ':' :: rest)) = some (x, rest) := by
  have hstop : Stops false (':' :: rest) := stops_iff.2 (.inl (by simpa [endsBare] using hrest))
  have hcolon : dropSpace (':' :: rest) = ':' :: rest := rfl
  obtain ⟨m, hword⟩ := word?_written hw n hstop
  have hle : (w ++ (spaces n ++ ':' :: rest)).length ≤ maxNameLength + 1 + rest.length := by
    simp only [spaces, List.length_append, List.length_replicate, List.length_cons]
    omega
  rw [name?, hword]
  simp only [Option.bind_eq_bind, Option.bind_some, dropSpace_spaces, hcolon, hrest,
    decide_eq_true hle, Bool.and_self, if_true]

theorem indent_written (hw : WrittenWord inList x w) (m : ℕ) (tail : List Char) :
    ((spaces m ++ (w ++ tail)).takeWhile (· == ' ')).length = m := by
  obtain ⟨c, w', rfl, hspace, -⟩ := hw.exists_cons
  have hc : c ≠ ' ' := by
    rintro rfl
    exact absurd hspace (by decide)
  rw [List.takeWhile_append_of_pos fun a ha => by simp [List.eq_of_mem_replicate ha]]
  simp [spaces, hc]

/-- A written line is read back. -/
theorem line?_written {l : Line} (h : WrittenLine l cs) : line? cs = some l := by
  obtain ⟨m, n, hw, hlength, hv, hmark⟩ := h
  have hdrop : ∀ tail, (spaces m ++ tail).drop m = tail := fun tail =>
    List.drop_left' List.length_replicate
  rw [line?, hmark, if_neg Bool.false_ne_true, indent_written hw]
  simp [hdrop, name?_written hw hlength hv.head?_isSpace, value?_written hv]

theorem isBlankLine_line {l : Line} (h : WrittenLine l cs) : isBlankLine cs = false := by
  obtain ⟨m, n, hw, -, -, -⟩ := h
  exact isBlankLine_word hw m _

theorem isBlankLine_blank (h : WrittenBlank cs) : isBlankLine cs = true := by
  cases h with
  | blank n =>
    rw [isBlankLine, ← List.append_nil (spaces n), dropSpace_spaces]
    rfl
  | comment n cs =>
    rw [isBlankLine, dropSpace_spaces]
    rfl

end Twisty.Settings.File
