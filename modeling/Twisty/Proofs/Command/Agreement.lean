import Twisty.Command.Run
import Twisty.Proofs.Cube.Following
import Twisty.Proofs.Cube.Stickers
import Twisty.Proofs.Slot.Name
import Mathlib.Order.Interval.Finset.Nat

/-!
# The reports of moves and of the cube after them

One action lists moves with their cycles, the other turns a cube and shows it. Both go through the
same words, and stop at the same first word that is no move (`report_of_refused`).

Moves turn a cube as their cycles do (`Cube.WellFormed.turnAll_eq_rotate`), and it does not matter
how the cycles are grouped (`Cube.WellFormed.tryEach_applyCycles`). The cycles can be read off what
is printed, since a kind is known by its name (`Cycle.printed_inj`). So from the list of the moves
one gets the cube that the other action shows (`report_of_accepted`), and the rows shown are those
of its faces (`flatten_rows`). `parse_agrees_with_state` puts it all together.
-/

namespace Twisty

open Notation

variable {α : Type} {n : ℕ}

/-! ## Rows -/

/-- If a list fills its rows, none is cut short. -/
theorem rows_of_full {l : List α} {m : ℕ} (hn : 0 < n) (hl : l.length = m * n) :
    rows n l = (List.range m).map fun i => (l.drop (i * n)).take n := by
  have hlast : m * n + n - 1 < (m + 1) * n := by
    rw [Nat.succ_mul]
    omega
  rw [rows, hl, Nat.div_eq_of_lt_le (by omega) hlast]

/-- A list that fills `m` rows has `m` of them. -/
theorem length_rows {l : List α} {m : ℕ} (hn : 0 < n) (hl : l.length = m * n) :
    (rows n l).length = m := by
  rw [rows_of_full hn hl, List.length_map, List.length_range]

/-- All the rows of such a list have the same length. -/
theorem length_of_mem_rows {l row : List α} {m : ℕ} (hn : 0 < n) (hl : l.length = m * n)
    (h : row ∈ rows n l) : row.length = n := by
  rw [rows_of_full hn hl] at h
  obtain ⟨i, hi, rfl⟩ := List.mem_map.1 h
  have hfit : (i + 1) * n ≤ m * n := Nat.mul_le_mul_right n (List.mem_range.1 hi)
  rw [Nat.succ_mul] at hfit
  rw [List.length_take, List.length_drop]
  omega

/-- The rows of a list are the list, cut up. -/
theorem flatten_rows (hn : 0 < n) (l : List α) : (rows n l).flatten = l := by
  have htake : ∀ j, ((List.range j).map fun i => (l.drop (i * n)).take n).flatten =
      l.take (j * n) := by
    intro j
    induction j with
    | zero => simp
    | succ j ih =>
      rw [List.range_succ, List.map_append, List.flatten_append, ih, Nat.succ_mul, List.take_add]
      simp
  have hall : l.length ≤ (l.length + n - 1) / n * n := by
    have hdiv := Nat.div_add_mod (l.length + n - 1) n
    have hmod := Nat.mod_lt (l.length + n - 1) hn
    rw [Nat.mul_comm] at hdiv
    omega
  rw [rows, htake, List.take_of_length_le hall]

/-- A row that is not full is the last. -/
example : rows 2 [5, 6, 7] = [[5, 6], [7]] := rfl

/-! ## The cycles of several moves -/

/-- The cycles of moves are proper and of kinds that the cube has. -/
theorem Move.isProper_of_mem_flatten {ms : List Move} {css : List (List Cycle)}
    (hcss : List.Forall₂ (fun m cs => m.cycles n (.full n) = .ok cs) ms css) :
    ∀ x ∈ css.flatten, x.IsProper ∧ x.kind ∈ (Inventory.full n).kinds := by
  induction hcss with
  | nil => exact nofun
  | cons hcs _ ih =>
    intro x hx
    rw [List.flatten_cons] at hx
    exact (List.mem_append.1 hx).elim (Move.isProper_of_mem_cycles hcs) (ih x)

namespace Cube

variable {c : Cube α}

namespace WellFormed

/-- Proper cycles of kinds that the cube has can be done in groups or all at once. -/
theorem tryEach_applyCycles (h : c.WellFormed n) {groups : List (List Cycle)}
    (hcs : ∀ x ∈ groups.flatten, x.IsProper ∧ x.kind ∈ (Inventory.full n).kinds) :
    tryEach Cube.applyCycles c groups = (c.rotate groups.flatten, none) := by
  induction groups generalizing c with
  | nil => rfl
  | cons cs groups ih =>
    rw [List.flatten_cons] at hcs ⊢
    have hfirst := h.applyCycles_of_isProper fun x hx => hcs x (List.mem_append_left _ hx)
    rw [tryEach_cons_of_none hfirst, rotate_append]
    exact ih (h.rotate cs) fun x hx => hcs x (List.mem_append_right _ hx)

/-- Moves turn a cube as their cycles do, one move after another. -/
theorem turnAll_eq_rotate (h : c.WellFormed n) {ms : List Move} {css : List (List Cycle)}
    (hcss : List.Forall₂ (fun m cs => m.cycles n (.full n) = .ok cs) ms css) :
    c.turnAll ms = (c.rotate css.flatten, none) := by
  induction hcss generalizing c with
  | nil => rfl
  | @cons m cs ms css hcs _ ih =>
    rw [List.flatten_cons, rotate_append]
    exact (tryEach_cons_of_none (h.turn_eq_rotate hcs) ms).trans (ih (h.rotate cs))

end WellFormed

end Cube

/-! ## The report of moves -/

/-- A cycle as it is printed, with its kind by name. -/
def Cycle.printed (x : Cycle) : String × List ℕ :=
  (x.kind.name, x.slots)

/-- A cycle can be told from what is printed of it. -/
theorem Cycle.printed_inj {x y : Cycle} (h : x.printed = y.printed) : x = y := by
  obtain ⟨hname, hslots⟩ := Prod.mk.inj h
  exact Cycle.mk.injEq .. ▸ ⟨SlotKind.name_inj hname, hslots⟩

/-- What is printed about a move. -/
structure PrintedMove where
  token : String
  move : Move
  cycles : List (String × List ℕ)

namespace PrintedMove

/-- What is printed about a move, as a document. -/
def document (l : PrintedMove) : Document :=
  .record
    [("token", .text l.token), ("face", .text l.move.face.name),
      ("slice_begin", .number l.move.first), ("slice_end", .number l.move.last),
      ("layer_count", .number (Finset.Icc l.move.first l.move.last).card),
      ("turn_count", .number l.move.turns),
      ("cycles", .list (l.cycles.map fun x =>
        .record [("orbit", .text x.1), ("indices", .numbers x.2)]))]

/-- What is printed about a move is its report with its cycles. -/
theorem document_eq (t : String) (m : Move) (cs : List Cycle) :
    (PrintedMove.mk t m (cs.map Cycle.printed)).document =
      (MoveReport.mk t m (some cs)).document := by
  simp [document, MoveReport.document, Move.thickness, Cycle.printed, MoveReport.cycleDocument,
    Function.comp_def]

end PrintedMove

namespace MoveReport

/-- A token that is read is reported with its move and the cycles of the move. -/
theorem ofToken_eq_ok {t : String} {m : Move} (ht : readToken n t = .ok m) {cs : List Cycle}
    (hcs : m.cycles n (.full n) = .ok cs) : ofToken n true t = .ok ⟨t, m, some cs⟩ := by
  simp only [ofToken, ht, hcs, Except.mapError, bind, Except.bind, if_true, pure, Except.pure]

/-- A token that is refused is reported as refused. -/
theorem ofToken_eq_error {t : String} {e : Notation.Error} (ht : readToken n t = .error e) :
    ofToken n true t = .error (.token e) := by
  rw [ofToken, ht]
  rfl

/-- Tokens that are read are reported in order, each with its move and the cycles of the move. -/
theorem exists_mapM_ofToken (hn : n ≤ maxLayer) {ts : List String} {ms : List Move}
    (hts : Reads n ts ms) : ∃ (rs : List MoveReport) (css : List (List Cycle))
      (lines : List PrintedMove),
      List.Forall₂ (fun t r => ofToken n true t = .ok r) ts rs ∧
      List.Forall₂ (fun m cs => m.cycles n (.full n) = .ok cs) ms css ∧
      rs.map document = lines.map PrintedMove.document ∧ lines.map PrintedMove.token = ts ∧
      lines.map PrintedMove.move = ms ∧
      lines.map PrintedMove.cycles = css.map (List.map Cycle.printed) := by
  induction hts with
  | nil => exact ⟨[], [], [], .nil, .nil, rfl, rfl, rfl, rfl⟩
  | @cons t m ts ms ht _ ih =>
    obtain ⟨rs, css, lines, hrs, hcss, hdocs, htokens, hmoves, hcycles⟩ := ih
    obtain ⟨cs, hcs⟩ : ∃ cs, m.cycles n (.full n) = .ok cs :=
      ⟨_, Move.cycles_eq_ok (inRange_of_readToken hn ht)⟩
    refine ⟨⟨t, m, some cs⟩ :: rs, cs :: css, ⟨t, m, cs.map Cycle.printed⟩ :: lines,
      .cons (ofToken_eq_ok ht hcs) hrs, .cons hcs hcss, ?_, ?_, ?_, ?_⟩
    · rw [List.map_cons, List.map_cons, hdocs, PrintedMove.document_eq]
    · rw [List.map_cons, htokens]
    · rw [List.map_cons, hmoves]
    · rw [List.map_cons, List.map_cons, hcycles]

end MoveReport

/-! ## The report of a cube -/

namespace CubeReport

/-- What is printed about a cube, as a document. -/
def printed (n : ℕ) (isSolved : Bool) (rows : Face → List (List String)) : Document :=
  .record
    [("size", .number n), ("solved", .flag isSolved),
      ("faces", .record (Face.all.map fun f => (f.name, .list ((rows f).map .texts))))]

/-- What is printed about a well-formed cube is its size, whether it is solved, and its rows. -/
theorem document_ofCube {c : Cube String} (h : c.WellFormed n) :
    (ofCube c).document = printed n c.isSolved fun f => rows n (c.stickers f) := by
  rw [document, ofCube, h.size_eq, List.map_map]
  rfl

end CubeReport

/-! ## Both reports -/

namespace Command

variable {s : Settings} {scheme : Option String} {colors : List String} {args : List String}

/-- Words that are refused stop both actions with the error of the first of them. -/
theorem report_of_refused (hn : n ≤ maxLayer) (h0 : 1 ≤ n)
    (hcolors : Command.colors s scheme = .ok colors) (hsix : colors.length = 6)
    {e : Notation.Error} (he : readText n (Text.joinWords args) = .error e) :
    report s (.parse n args true) = .error (.cube (.token e)) ∧
      report s (.state n args scheme) = .error (.cube (.token e)) := by
  constructor
  · obtain ⟨pre, post, ms, hwords, hpre, ht⟩ := exists_of_readText_eq_error he
    obtain ⟨rs, -, -, hrs, -⟩ := MoveReport.exists_mapM_ofToken hn hpre
    have herror : MoveReport.ofText n true (Text.joinWords args) = .error (.token e) := by
      rw [MoveReport.ofText, hwords, List.mapM_append, mapM_eq_ok_iff.2 hrs, List.mapM_cons,
        MoveReport.ofToken_eq_error ht]
      rfl
    rw [report, herror]
    rfl
  · obtain ⟨c, hc, hwf⟩ := Cube.exists_ofScheme h0 hsix
    obtain ⟨-, -, -, d, -, -, -, -, hfollow⟩ := hwf.follow_of_refused hn he
    have herror : CubeReport.ofText n colors (Text.joinWords args) = .error (.token e) := by
      rw [CubeReport.ofText, hc]
      simp only [Except.mapError, bind, Except.bind, hfollow]
      rfl
    rw [report, hcolors]
    simp only [bind, Except.bind, herror]
    rfl

/-- Words that are accepted are reported one by one, and the cycles of all their moves turn a new
cube to the one that is shown. -/
theorem report_of_accepted (hn : n ≤ maxLayer) (h0 : 1 ≤ n)
    (hcolors : Command.colors s scheme = .ok colors) (hsix : colors.length = 6)
    {ms : List Move} (hms : readText n (Text.joinWords args) = .ok ms) :
    ∃ (lines : List PrintedMove) (cs : List Cycle) (c d : Cube String),
      report s (.parse n args true) = .ok (.list (lines.map PrintedMove.document)) ∧
      lines.map PrintedMove.token = Text.words (Text.joinWords args) ∧
      lines.map PrintedMove.move = ms ∧
      cs.map Cycle.printed = lines.flatMap PrintedMove.cycles ∧
      Cube.ofScheme n colors = .ok c ∧
      (∀ groups : List (List Cycle), groups.flatten = cs →
        tryEach Cube.applyCycles c groups = (d, none)) ∧
      d.WellFormed n ∧
      report s (.state n args scheme) =
        .ok (CubeReport.printed n d.isSolved fun f => rows n (d.stickers f)) := by
  obtain ⟨rs, css, lines, hrs, hcss, hdocs, htokens, hmoves, hcycles⟩ :=
    MoveReport.exists_mapM_ofToken hn (readText_eq_ok_iff.1 hms)
  obtain ⟨c, hc, hwf⟩ := Cube.exists_ofScheme h0 hsix
  obtain ⟨d, hd, hfollow, hturns⟩ := hwf.follow_of_accepted hn hms
  obtain rfl : d = c.rotate css.flatten :=
    congrArg Prod.fst (hturns.symm.trans (hwf.turnAll_eq_rotate hcss))
  refine ⟨lines, css.flatten, c, _, ?_, htokens, hmoves, ?_, hc, fun groups hgroups => ?_, hd, ?_⟩
  · have hok : MoveReport.ofText n true (Text.joinWords args) = .ok rs := mapM_eq_ok_iff.2 hrs
    rw [report, hok, ← hdocs]
    rfl
  · rw [List.map_flatten, ← hcycles]
    rfl
  · rw [← hgroups]
    exact hwf.tryEach_applyCycles (hgroups ▸ Move.isProper_of_mem_flatten hcss)
  · have hok : CubeReport.ofText n colors (Text.joinWords args) =
        .ok (CubeReport.ofCube (c.rotate css.flatten)) := by
      rw [CubeReport.ofText, hc]
      simp only [Except.mapError, bind, Except.bind, hfollow]
      rfl
    rw [report, hcolors, ← CubeReport.document_ofCube hd]
    simp only [bind, Except.bind, hok]
    rfl

/-- The two actions agree. On a cube that there is, with a scheme of six colors, both fail for the
same words and with the same error, which is that of the first word that is no move. Otherwise one
lists all the words in order, each with its move, the number of its layers and the cycles, and the
kinds of the cycles are known by their names. Done in that order on a new cube, in any groups, the
cycles come to the cube that the other shows, row by row. How the words are spread over the
arguments does not matter. -/
theorem parse_agrees_with_state (hn : n ≤ maxLayer) (h0 : 1 ≤ n)
    (hcolors : Command.colors s scheme = .ok colors) (hsix : colors.length = 6)
    (args : List String) :
    (∀ failure, report s (.parse n args true) = .error failure ↔
      report s (.state n args scheme) = .error failure) ∧
    (∀ failure, report s (.parse n args true) = .error failure →
      ∃ pre e post ms, args.flatMap Text.words = pre ++ e.token :: post ∧ Reads n pre ms ∧
        readToken n e.token = .error e ∧ failure = .cube (.token e)) ∧
    (∀ doc, report s (.parse n args true) = .ok doc →
      ∃ (lines : List PrintedMove) (cs : List Cycle) (c d : Cube String)
        (rows : Face → List (List String)),
        doc = .list (lines.map PrintedMove.document) ∧
        lines.map PrintedMove.token = args.flatMap Text.words ∧
        Reads n (args.flatMap Text.words) (lines.map PrintedMove.move) ∧
        (∀ cs', cs'.map Cycle.printed = lines.flatMap PrintedMove.cycles ↔ cs' = cs) ∧
        Cube.ofScheme n colors = .ok c ∧
        (∀ groups : List (List Cycle), groups.flatten = cs →
          tryEach Cube.applyCycles c groups = (d, none)) ∧
        report s (.state n args scheme) = .ok (CubeReport.printed n d.isSolved rows) ∧
        ∀ f, (rows f).length = n ∧ (∀ row ∈ rows f, row.length = n) ∧
          (rows f).flatten = d.stickers f) ∧
    ∀ args' : List String, args'.flatMap Text.words = args.flatMap Text.words →
      report s (.parse n args' true) = report s (.parse n args true) ∧
        report s (.state n args' scheme) = report s (.state n args scheme) := by
  have hwords := Text.words_joinWords_eq_flatMap args
  refine ⟨fun failure => ?_, fun failure hfailure => ?_, fun doc hdoc => ?_, fun args' hargs => ?_⟩
  · cases hread : readText n (Text.joinWords args) with
    | error e =>
      obtain ⟨hparse, hstate⟩ := report_of_refused hn h0 hcolors hsix hread
      rw [hparse, hstate]
    | ok ms =>
      obtain ⟨_, _, _, _, hparse, -, -, -, -, -, -, hstate⟩ :=
        report_of_accepted hn h0 hcolors hsix hread
      rw [hparse, hstate]
      constructor <;> exact nofun
  · cases hread : readText n (Text.joinWords args) with
    | error e =>
      obtain ⟨pre, post, ms, hsplit, hpre, ht⟩ := exists_of_readText_eq_error hread
      rw [(report_of_refused hn h0 hcolors hsix hread).1] at hfailure
      exact ⟨pre, e, post, ms, hwords ▸ hsplit, hpre, ht, (Except.error.inj hfailure).symm⟩
    | ok ms =>
      obtain ⟨_, _, _, _, hparse, -⟩ := report_of_accepted hn h0 hcolors hsix hread
      cases hparse.symm.trans hfailure
  · cases hread : readText n (Text.joinWords args) with
    | error e => cases (report_of_refused hn h0 hcolors hsix hread).1.symm.trans hdoc
    | ok ms =>
      obtain ⟨lines, cs, c, d, hparse, htokens, rfl, hcs, hc, hgroups, hd, hstate⟩ :=
        report_of_accepted hn h0 hcolors hsix hread
      refine ⟨lines, cs, c, d, _, Except.ok.inj (hdoc.symm.trans hparse), hwords ▸ htokens,
        hwords ▸ readText_eq_ok_iff.1 hread, fun cs' => ?_, hc, hgroups, hstate, fun f => ?_⟩
      · rw [← hcs]
        exact (List.map_injective_iff.2 fun x y => Cycle.printed_inj).eq_iff
      · have hfull := hd.length_stickers f
        exact ⟨length_rows h0 hfull, fun row => length_of_mem_rows h0 hfull, flatten_rows h0 _⟩
  · rw [← hwords, ← Text.words_joinWords_eq_flatMap args'] at hargs
    simp only [report, MoveReport.ofText, CubeReport.ofText, Cube.follow, hargs, and_self]

/-- With the settings that are built in, on a cube of three layers : three words in two arguments,
cut in two ways, and a word that is no move. -/
theorem parse_agrees_with_state_western :
    3 ≤ maxLayer ∧ 1 ≤ 3 ∧
      Command.colors .builtin none = .ok ["white", "green", "red", "yellow", "blue", "orange"] ∧
      ["white", "green", "red", "yellow", "blue", "orange"].length = 6 ∧
      report .builtin (.state 3 ["R", "U' M2"] none) =
        report .builtin (.state 3 ["R U'", "M2"] none) ∧
      (∃ d : Cube String, ∃ rows, report .builtin (.state 3 ["R U'", "M2"] none) =
        .ok (CubeReport.printed 3 d.isSolved rows) ∧ (rows .back).length = 3) ∧
      ∃ e, e.token = "Q" ∧
        report .builtin (.parse 3 ["R Q", "M2"] true) = .error (.cube (.token e)) ∧
        report .builtin (.state 3 ["R Q", "M2"] none) = .error (.cube (.token e)) := by
  have hn : 3 ≤ maxLayer := by decide
  have h0 : 1 ≤ 3 := by decide
  have hcolors : Command.colors .builtin none =
      .ok ["white", "green", "red", "yellow", "blue", "orange"] := by
    simp [Command.colors, Settings.scheme?, Settings.sameName, Settings.builtin]
  have hsix : ["white", "green", "red", "yellow", "blue", "orange"].length = 6 := rfl
  have hok : readText 3 (Text.joinWords ["R U'", "M2"]) =
      .ok [⟨.right, 1, 1, 1⟩, ⟨.up, 1, 1, 3⟩, ⟨.left, 2, 2, 2⟩] := by decide
  have herror : readText 3 (Text.joinWords ["R Q", "M2"]) =
      .error ⟨"Q", .grammar (.unexpected ⟨some 'Q', [.layerNumbers, .family]⟩)⟩ := by decide
  have hmixed := parse_agrees_with_state hn h0 hcolors hsix ["R U'", "M2"]
  have hrefused := (report_of_refused hn h0 hcolors hsix herror).1
  obtain ⟨_, _, _, _, hparse, -⟩ := report_of_accepted hn h0 hcolors hsix hok
  obtain ⟨_, _, _, d, rows, -, -, -, -, -, -, hstate, hrows⟩ := hmixed.2.2.1 _ hparse
  exact ⟨hn, h0, hcolors, hsix, (hmixed.2.2.2 ["R", "U' M2"] (by decide)).2,
    ⟨d, rows, hstate, (hrows .back).1⟩, _, rfl, hrefused,
    ((parse_agrees_with_state hn h0 hcolors hsix ["R Q", "M2"]).1 _).1 hrefused⟩

end Command

end Twisty
