import Twisty.Proofs.Settings.Line
import Twisty.Settings.Basic
import Mathlib.Data.List.Nodup

/-!
# Written settings files

A settings file has an entry on each line, with empty lines and comments between them. The entries
of a table stand on lines of their own, which are indented by the same number of spaces, after the
line with its name. The names of a table are different here even where they were written as numbers
or flags (`IsTable`). `Written entries text` says that a text is a file of these entries, and then
they are what is read (`readFile?_written`). The built-in text is such a file, and its entries are
those of the built-in settings (`written_builtin`).

The blocks of a file are put together from its last line to its first. A line with a value joins the
block below it (`addLine?_value`), and one without takes it as its table (`addLine?_table`).
-/

namespace Twisty.Settings

/-! ## Tables -/

/-- An entry of a new name comes last. -/
theorem putEntry_of_notMem {α : Type} {es : List (String × α)} {name : String}
    (h : name ∉ es.map Prod.fst) (a : α) : putEntry name a es = es ++ [(name, a)] := by
  induction es with
  | nil => rfl
  | cons e es ih =>
    rw [List.map_cons, List.mem_cons, not_or] at h
    rw [putEntry, if_neg (Ne.symm h.1), ih h.2]
    rfl

/-- Entries of different names stay as they are. -/
theorem ofEntries_eq_self {α : Type} {es : List (String × α)} (h : (es.map Prod.fst).Nodup) :
    ofEntries es = es := by
  have key : ∀ acc : List (String × α), (acc.map Prod.fst ++ es.map Prod.fst).Nodup →
      es.foldl (fun acc e => putEntry e.1 e.2 acc) acc = acc ++ es := by
    clear h
    induction es with
    | nil => simp
    | cons e es ih =>
      intro acc hacc
      rw [List.map_cons, List.nodup_append] at hacc
      have hnew : e.1 ∉ acc.map Prod.fst := fun hmem => hacc.2.2 _ hmem _ (by simp) rfl
      rw [List.foldl_cons, putEntry_of_notMem hnew, ih]
      · simp
      · simp only [List.map_append, List.append_assoc]
        rw [List.nodup_append]
        exact hacc
  exact key [] h

namespace File

variable {es : List (String × Value)} {rs : List (Scalar × Value)} {bs : List Block} {k : ℕ}

/-! ## Lines -/

/-- The lines of a file, in which each entry is on one. -/
inductive WrittenLines : List Line → List (List Char) → Prop
  | nil : WrittenLines [] []
  | blank {ls : List Line} {cs : List Char} {css : List (List Char)} (hcs : WrittenBlank cs)
    (hcss : WrittenLines ls css) : WrittenLines ls (cs :: css)
  | cons {l : Line} {ls : List Line} {cs : List Char} {css : List (List Char)}
    (hcs : WrittenLine l cs) (hcss : WrittenLines ls css) : WrittenLines (l :: ls) (cs :: css)

/-- Lines with line feeds between them. -/
def joinLines (css : List (List Char)) : List Char :=
  ['\n'].intercalate css

/-- Written lines are read back in order, the blank ones between them left out. -/
theorem mapM_line?_written {ls : List Line} {css : List (List Char)} (h : WrittenLines ls css) :
    (css.filter fun l => !isBlankLine l).mapM line? = some ls := by
  induction h with
  | nil => rfl
  | blank hcs _ ih => rwa [List.filter_cons, isBlankLine_blank hcs]
  | cons hcs _ ih =>
    rw [List.filter_cons, isBlankLine_line hcs, Bool.not_false, if_pos rfl, List.mapM_cons,
      line?_written hcs, ih]
    rfl

theorem splitLines_append {cs : List Char} (h : '\n' ∉ cs ∧ '\r' ∉ cs) {l : List Char}
    {ls : List (List Char)} {rest : List Char} (hrest : splitLines rest = l :: ls) :
    splitLines (cs ++ rest) = (cs ++ l) :: ls := by
  induction cs with
  | nil => exact hrest
  | cons c cs ih =>
    obtain ⟨⟨hfeed, hfeeds⟩, hreturn, hreturns⟩ :=
      h.imp List.ne_and_not_mem_of_not_mem_cons List.ne_and_not_mem_of_not_mem_cons
    rw [List.cons_append, splitLines, ih ⟨hfeeds, hreturns⟩]
    simp [hfeed.symm, hreturn.symm]

/-- Lines without line breaks in them are what a text is split into. -/
theorem splitLines_joinLines {css : List (List Char)} (hne : css ≠ [])
    (h : ∀ cs ∈ css, '\n' ∉ cs ∧ '\r' ∉ cs) : splitLines (joinLines css) = css := by
  induction css with
  | nil => exact absurd rfl hne
  | cons cs css ih =>
    have hcs := h cs (by simp)
    cases css with
    | nil =>
      have hlast : splitLines (cs ++ []) = [cs ++ []] := splitLines_append hcs rfl
      simpa [joinLines] using hlast
    | cons ds css =>
      have hrest := ih (by simp) fun es hes => h es (List.mem_cons_of_mem cs hes)
      have hbreak : splitLines ('\n' :: joinLines (ds :: css)) = [] :: ds :: css := by
        rw [splitLines, hrest]
        simp
      have hline := splitLines_append hcs hbreak
      simpa [joinLines] using hline

/-! ## Blocks -/

/-- The block of some entries, none if there are no entries. -/
def block (indent : ℕ) (rs : List (Scalar × Value)) : List Block :=
  if rs = [] then [] else [⟨indent, rs⟩]

theorem indent_block {b : Block} (h : b ∈ (block k rs).head?) : b.indent = k := by
  unfold block at h
  split_ifs at h
  · cases h
  · cases h
    rfl

/-- Words with values are the entries of a table, and no two have the same name. -/
structure IsTable (rs : List (Scalar × Value)) (es : List (String × Value)) : Prop where
  names_eq : List.Forall₂ (fun r e => r.1.name? = some e.1 ∧ r.2 = e.2) rs es
  nodup : (es.map Prod.fst).Nodup

/-- A word that writes a number names its entry in the spelling that all numbers have. -/
example : (Scalar.ofBare "007").name? = some "7" ∧ (Scalar.ofBare "+5").name? = some "5" ∧
    (Scalar.ofBare "0x1F").name? = some "31" := by decide +kernel

/-- Words with different names are read as a table. -/
theorem IsTable.table?_eq_some (h : IsTable rs es) : table? rs = some es := by
  have hnames : (rs.map Prod.fst).map Scalar.name? = (es.map Prod.fst).map some := by
    rw [List.map_map, List.map_map, ← List.forall₂_eq_eq_eq, List.forall₂_map_left_iff,
      List.forall₂_map_right_iff]
    exact h.names_eq.imp fun _ _ he => he.1
  have hnodup : (rs.map Prod.fst).Nodup := by
    refine List.Nodup.of_map Scalar.name? ?_
    rw [hnames]
    exact h.nodup.map fun _ _ => Option.some.inj
  have hread : rs.mapM (fun r => r.1.name?.map fun name => (name, r.2)) = some es := by
    have hes := h.names_eq
    clear h hnames hnodup
    induction hes with
    | nil => rfl
    | cons he _ ih =>
      obtain ⟨hname, hvalue⟩ := he
      rw [List.mapM_cons, hname, ih, hvalue]
      rfl
  rw [table?, if_pos hnodup, hread, Option.map_some, ofEntries_eq_self h.nodup]

/-- A line with a value joins the block below it, before any that are indented less. -/
theorem addLine?_value (name : Scalar) (v : Value) (hbs : ∀ b ∈ bs.head?, b.indent < k) :
    addLine? ⟨k, name, some v⟩ (block k rs ++ bs) = some (block k ((name, v) :: rs) ++ bs) := by
  cases rs with
  | nil =>
    cases bs with
    | nil => rfl
    | cons b bs =>
      have hb : b.indent < k := hbs b rfl
      have hnot : ¬k < b.indent := Nat.not_lt.2 (Nat.le_of_lt hb)
      simp [addLine?, takeBlock?, block, hb, hnot]
  | cons r rs => simp [addLine?, takeBlock?, block]

/-- A line without a value takes the block below it for its table. -/
theorem addLine?_table (name : Scalar) {inner : List (Scalar × Value)} (hinner : inner ≠ [])
    (htable : IsTable inner es) (hk : 0 < k) :
    addLine? ⟨0, name, none⟩ (block k inner ++ block 0 rs) =
      some (block 0 ((name, .table es) :: rs)) := by
  have hread := htable.table?_eq_some
  by_cases hrs : rs = [] <;> simp [addLine?, takeBlock?, block, hinner, hk, hread, hrs]

/-- The lines of an entry of a file. -/
inductive EntryLines : Scalar × Value → List Line → Prop
  | value (name : Scalar) (v : Value) : EntryLines (name, v) [⟨0, name, some v⟩]
  | table (name : Scalar) {inner : List (Scalar × Value)} {es : List (String × Value)}
    (hinner : inner ≠ []) (htable : IsTable inner es) {k : ℕ} (hk : 0 < k) :
    EntryLines (name, .table es)
      (⟨0, name, none⟩ :: inner.map fun r => ⟨k, r.1, some r.2⟩)

/-- The lines of an inner table are one block when the block after them is further out. -/
theorem blocks?_inner {ls : List Line} (hbs : blocks? ls = some bs)
    (hindent : ∀ b ∈ bs.head?, b.indent < k) (inner : List (Scalar × Value)) :
    blocks? (inner.map (fun r => ⟨k, r.1, some r.2⟩) ++ ls) = some (block k inner ++ bs) := by
  induction inner with
  | nil => exact hbs
  | cons r inner ih =>
    rw [List.map_cons, List.cons_append, blocks?, ih, Option.bind_some]
    exact addLine?_value r.1 r.2 hindent

/-- The lines of the entries of a file become those entries. -/
theorem blocks?_written {lss : List (List Line)} (h : List.Forall₂ EntryLines rs lss) :
    blocks? lss.flatten = some (block 0 rs) := by
  induction h with
  | nil => rfl
  | @cons r ls rs lss hentry _ ih =>
    cases hentry with
    | value name v =>
      rw [List.flatten_cons, List.singleton_append, blocks?, ih, Option.bind_some]
      have hadd : addLine? ⟨0, name, some v⟩ (block 0 rs ++ []) =
        some (block 0 ((name, v) :: rs) ++ []) := addLine?_value name v nofun
      simpa using hadd
    | @table name inner es hinner htable k hk =>
      have hindent : ∀ b ∈ (block 0 rs).head?, b.indent < k := fun b hb =>
        (indent_block hb).symm ▸ hk
      rw [List.flatten_cons, List.cons_append, blocks?, blocks?_inner ih hindent, Option.bind_some]
      exact addLine?_table name hinner htable hk

end File

open File

/-- A text is a settings file of some entries. It has no zero character. -/
inductive Written (es : List (String × Value)) (text : String) : Prop
  | mk {rs : List (Scalar × Value)} {lss : List (List Line)} {css : List (List Char)}
    (htable : IsTable rs es) (hrs : List.Forall₂ EntryLines rs lss)
    (hcss : WrittenLines lss.flatten css) (hne : css ≠ [])
    (hbreaks : ∀ cs ∈ css, '\n' ∉ cs ∧ '\r' ∉ cs) (htext : text.toList = joinLines css)
    (hmark : text.toList.head? ≠ some '\ufeff') (hzero : '\x00' ∉ text.toList)

/-- What is written in a settings file is read. -/
theorem readFile?_written {es : List (String × Value)} {text : String} (h : Written es text) :
    readFile? text = some es := by
  obtain @⟨rs, lss, css, htable, hrs, hcss, hne, hbreaks, htext, hmark, hzero⟩ := h
  have hlines : ((splitLines text.toList).filter fun l => !isBlankLine l).mapM line? =
      some lss.flatten := by
    rw [htext, splitLines_joinLines hne hbreaks]
    exact mapM_line?_written hcss
  rw [readFile?, if_neg (by simpa using hzero)]
  split
  · next heq => exact absurd (congrArg List.head? heq) hmark
  · simp only [hlines, Option.bind_eq_bind, Option.bind_some, blocks?_written hrs]
    unfold block
    split_ifs with hempty
    · subst hempty
      rw [List.forall₂_nil_left_iff.1 htable.names_eq]
    · exact htable.table?_eq_some

/-- Bare words that mean themselves. -/
theorem exists_bare {ss : List String}
    (h : ∀ s ∈ ss, IsBare true s.toList ∧ Scalar.ofBare s = .text s) :
    ∀ s ∈ ss, ∃ x, WrittenWord true x s.toList ∧ wordValue? x = some (.text s) := by
  intro s hs
  obtain ⟨hbare, htext⟩ := h s hs
  refine ⟨_, .bare s hbare, ?_⟩
  rw [htext]
  rfl

/-- Words between double quotes, which mean themselves. -/
theorem exists_doubleQuoted {ss : List String}
    (h : ∀ s ∈ ss, '\x22' ∉ s.toList ∧ '\x5c' ∉ s.toList) :
    ∀ s ∈ ss, ∃ x, WrittenWord true x (doubleQuoted s.toList) ∧ wordValue? x = some (.text s) :=
  fun s hs => ⟨.text s, .doubleQuoted s (h s hs).1 (h s hs).2, rfl⟩

/-- The line of a default scheme that is named by a bare word. -/
theorem writtenLine_default (name : String) (hname : IsBare false name.toList)
    (htext : Scalar.ofBare name = .text name) :
    WrittenLine ⟨0, .ofBare "default_scheme", some (.text name)⟩
      (spaces 0 ++ ("default_scheme".toList ++ (spaces 0 ++ ':' ::
        (spaces 1 ++ (name.toList ++ spaces 0))))) :=
  .mk 0 0 (.bare "default_scheme" (by decide)) (by decide)
    (.word 0 (.bare name hname) (congrArg wordValue? htext) (.blank 0)) rfl

/-- The line before those of the schemes. -/
theorem writtenLine_schemes : WrittenLine ⟨0, .ofBare "schemes", none⟩
    (spaces 0 ++ ("schemes".toList ++ (spaces 0 ++ ':' :: spaces 0))) :=
  .mk 0 0 (.bare "schemes" (by decide)) (by decide) (.none (.blank 0)) rfl

/-- The line of a scheme whose colors are all written alike. -/
theorem writtenLine_scheme (name : String) (hname : IsBare false name.toList)
    (hlength : name.toList.length ≤ maxNameLength) {write : String → List Char} {ss : List String}
    (hne : ss ≠ [])
    (h : ∀ s ∈ ss, ∃ x, WrittenWord true x (write s) ∧ wordValue? x = some (.text s)) :
    WrittenLine ⟨2, .ofBare name, some (.list (ss.map .text))⟩
      (spaces 2 ++ (name.toList ++ (spaces 0 ++ ':' :: (spaces 1 ++ '[' ::
        (spaces 0 ++ ([',', ' '].intercalate (ss.map write) ++ [']']) ++ spaces 0))))) :=
  .mk 2 0 (.bare name hname) hlength (.list 0 (writtenItems_of_words hne h 0) (.blank 0)) rfl

/-- The built-in text is a settings file of the built-in settings. -/
theorem written_builtin : Written builtin.value.entries builtinText := by
  have hdefault := writtenLine_default "western" (by decide) rfl
  have hwestern := writtenLine_scheme "western" (by decide) (by decide)
    (List.cons_ne_nil "white" ["green", "red", "yellow", "blue", "orange"])
    (exists_bare (by decide +kernel))
  have hjapanese := writtenLine_scheme "japanese" (by decide) (by decide)
    (List.cons_ne_nil "white" ["green", "red", "blue", "yellow", "orange"])
    (exists_bare (by decide +kernel))
  have hgrayscale := writtenLine_scheme "grayscale" (by decide) (by decide)
    (List.cons_ne_nil "#ffffff" ["#bbbbbb", "#888888", "#000000", "#444444", "#dddddd"])
    (exists_doubleQuoted (by decide +kernel))
  have hinner : IsTable ((builtin.schemes.map schemeEntry).map fun e => (.ofBare e.1, e.2))
      (builtin.schemes.map schemeEntry) :=
    ⟨.cons ⟨rfl, rfl⟩ (.cons ⟨rfl, rfl⟩ (.cons ⟨rfl, rfl⟩ .nil)), by decide⟩
  have hlines := WrittenLines.blank
    (.comment 0 " Color scheme used when `--scheme` is not given.".toList)
    (.cons hdefault <| .blank (.blank 0) <|
      .blank (.comment 0 " Face colors in the order U, F, R, D, B, L.".toList) <|
      .cons writtenLine_schemes <| .cons hwestern <| .cons hjapanese <| .cons hgrayscale <|
      .blank (.blank 0) .nil)
  have htext : builtinText.toList = joinLines _ := String.toList_intercalate
  refine .mk ⟨.cons ⟨rfl, rfl⟩ (.cons ⟨rfl, rfl⟩ .nil), by decide⟩
    (.cons (.value (.ofBare "default_scheme") _)
      (.cons (.table (.ofBare "schemes") (List.cons_ne_nil _ _) hinner Nat.two_pos) .nil))
    hlines (List.cons_ne_nil _ _) ?_ ?_ ?_ ?_
  · decide +kernel
  · rw [htext]
    exact congrArg joinLines (by decide +kernel)
  · rw [htext]
    decide +kernel
  · rw [htext]
    decide +kernel

/-- A file with a default scheme, a new scheme and one in the place of a built-in one. -/
theorem written_neon :
    Written
      [("default_scheme", .text "neon"), ("schemes", .table [("neon", .list [.text "red",
        .text "sky blue"]), ("western", .list [.text "a", .text "b"])])]
      "default_scheme: neon\nschemes:\n  neon: [red, 'sky blue']\n  western: [a,b] # two\n" := by
  have hdefault := writtenLine_default "neon" (by decide) rfl
  have hneon := WrittenLine.mk 2 0 (.bare "neon" (by decide)) (by decide)
    (.list 0 (.cons 0 0 (.bare "red" (by decide)) rfl (.last 1 0 (.quoted "sky blue") rfl))
      (.blank 0)) (by decide)
  have hwestern := WrittenLine.mk 2 0 (.bare "western" (by decide)) (by decide)
    (.list 0 (.cons 0 0 (.bare "a" (by decide)) rfl (.last 0 0 (.bare "b" (by decide)) rfl))
      (.comment 0 " two".toList)) (by decide)
  have hinner : IsTable
      [(.ofBare "neon", .list [.text "red", .text "sky blue"]),
        (.ofBare "western", .list [.text "a", .text "b"])]
      [("neon", .list [.text "red", .text "sky blue"]),
        ("western", .list [.text "a", .text "b"])] :=
    ⟨.cons ⟨rfl, rfl⟩ (.cons ⟨rfl, rfl⟩ .nil), by decide⟩
  refine .mk ⟨.cons ⟨rfl, rfl⟩ (.cons ⟨rfl, rfl⟩ .nil), by decide⟩
    (.cons (.value (.ofBare "default_scheme") _)
      (.cons (.table (.ofBare "schemes") (List.cons_ne_nil _ _) hinner Nat.two_pos) .nil))
    (.cons hdefault <| .cons writtenLine_schemes <| .cons hneon <| .cons hwestern <|
      .blank (.blank 0) .nil)
    (List.cons_ne_nil _ _) ?_ ?_ ?_ ?_ <;> decide +kernel

end Twisty.Settings
