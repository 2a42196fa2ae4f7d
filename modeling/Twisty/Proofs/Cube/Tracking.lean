import Twisty.Proofs.Cube.Following
import Twisty.Proofs.Cube.Solved
import Twisty.Proofs.Cube.Stock

/-!
# One orbit by itself

The cycles of moves can be done on a single orbit, apart from any cube (`Orbit.track`). Cycles of
other kinds do nothing there, so the moves permute its stickers along the slots if the cube has the
kind and leave it alone if not (`IsTracked`), and no check fails (`exists_track`).

So an orbit of labels says where the stickers of every cube of that size go. On a new cube that
follows a text, each slot has the color that was given to the slot of its label
(`labels_predict_stickers`).
-/

namespace Twisty

variable {α : Type} {n : ℕ} {k : SlotKind} {m : Move} {ms ms' : List Move} {cs : List Cycle}

/-- The cycles of a move can be done on every orbit of its size, of whatever kind. -/
theorem Move.applyEach_cycles (hcs : m.cycles n (.full n) = .ok cs) {o : Orbit α}
    (ho : o.slots.length = o.kind.size) :
    Cycle.applyEach cs (some o) = .ok (some (o.rotateEach cs)) :=
  Cycle.applyEach_eq_ok (fun _ hc => (isProper_of_mem_cycles hcs hc).1) ho

namespace Orbit

/-- The orbit in which each slot holds its own number. -/
def labelled (k : SlotKind) : Orbit ℕ :=
  ⟨k, List.range k.size⟩

/-- An orbit after moves of an `n`-layer cube : the cycles of each move, of whatever kinds, are done
on it one after another, each checked before it is done. -/
def track (n : ℕ) (ms : List Move) (o : Option (Orbit α)) : Except CubeError (Option (Orbit α)) :=
  ms.foldlM (fun o m => do Cycle.applyEach (← m.cycles n (.full n)) o) o

variable {o o' o'' : Orbit α}

/-- Cycles of other kinds leave an orbit alone. -/
theorem rotateEach_of_other_kinds (h : ∀ c ∈ cs, c.kind ≠ o.kind) : o.rotateEach cs = o := by
  have hnone : cs.filter (·.kind = o.kind) = [] := by simpa [List.filter_eq_nil_iff] using h
  rw [rotateEach, hnone, List.foldl_nil]

/-- What moves of an `n`-layer cube do to an orbit : they permute its stickers, along the slots if
the cube has the kind, and leave it as it is if not. -/
structure IsTracked (n : ℕ) (ms : List Move) (o o' : Orbit α) : Prop where
  kind_eq : o'.kind = o.kind
  perm : o'.slots.Perm o.slots
  carries : o.kind ∈ (Inventory.full n).kinds →
    Carries (Cube.runSlot n o.kind ms) o.slots o'.slots
  stays : o.kind ∉ (Inventory.full n).kinds → o' = o

namespace IsTracked

theorem refl (n : ℕ) (o : Orbit α) : IsTracked n [] o o :=
  ⟨rfl, .refl _, fun _ => Carries.refl _, fun _ => rfl⟩

theorem trans (h : IsTracked n ms o o') (h' : IsTracked n ms' o' o'') :
    IsTracked n (ms ++ ms') o o'' := by
  refine ⟨h'.kind_eq.trans h.kind_eq, h'.perm.trans h.perm, fun hk => ?_, fun hk => ?_⟩
  · have hcarry := h'.carries (h.kind_eq ▸ hk)
    rw [h.kind_eq] at hcarry
    refine ((h.carries hk).trans hcarry).congr fun s _ => ?_
    rw [Cube.runSlot, List.foldl_append]
    rfl
  · rw [h'.stays (h.kind_eq ▸ hk), h.stays hk]

/-- The cycles of a move permute the stickers of an orbit as the move takes its slots. -/
theorem of_cycles (hm : m.InRange n) (hcs : m.cycles n (.full n) = .ok cs)
    (ho : o.slots.length = o.kind.size) : IsTracked n [m] o (o.rotateEach cs) := by
  refine ⟨o.kind_rotateEach cs, o.perm_rotateEach cs, fun hk => ?_, fun hk => ?_⟩
  · exact Move.carries_cycles_of_kind hm hk (Inventory.mem_full_iff.1 hk) hcs rfl ho
  · refine rotateEach_of_other_kinds fun c hc hkind => hk ?_
    rw [← hkind]
    exact (Move.isProper_of_mem_cycles hcs hc).2

end IsTracked

/-- Moves can be done on an orbit by itself. -/
theorem exists_track (hms : ∀ m ∈ ms, m.InRange n) (ho : o.slots.length = o.kind.size) :
    ∃ o', track n ms (some o) = .ok (some o') ∧ IsTracked n ms o o' := by
  induction ms generalizing o with
  | nil => exact ⟨o, rfl, .refl n o⟩
  | cons m ms ih =>
    have hm := hms m (by simp)
    obtain ⟨cs, hcs⟩ : ∃ cs, m.cycles n (.full n) = .ok cs := ⟨_, Move.cycles_eq_ok hm⟩
    obtain ⟨o', ho', htracked⟩ := ih (o := o.rotateEach cs)
      (fun m' hm' => hms m' (List.mem_cons_of_mem m hm')) (by simpa using ho)
    have hmove : (do Cycle.applyEach (← m.cycles n (.full n)) (some o)) =
        .ok (some (o.rotateEach cs)) := by
      rw [hcs]
      exact Move.applyEach_cycles hcs ho
    refine ⟨o', ?_, (IsTracked.of_cycles hm hcs ho).trans htracked⟩
    rw [track, List.foldlM_cons, hmove]
    exact ho'

end Orbit

namespace Cube

open Notation (readText)

/-- After moves a slot has the color of the face where the slot of its label is. -/
theorem IsTurned.sticker?_of_label {color : Face → α} {c : Cube α} {labels : List ℕ} {i : ℕ}
    (h : IsTurned n color ms c) (hlabels : Orbit.IsTracked n ms (.labelled k) ⟨k, labels⟩)
    (hk : k ∈ (Inventory.full n).kinds) (hi : i < k.size) :
    ∃ j < k.size, labels[i]? = some j ∧ c.sticker? k i = some (color (k.slotFace j)) := by
  obtain ⟨j, hj, rfl⟩ := exists_runSlot_eq (Inventory.mem_full_iff.1 hk) ms hi
  have hlabel := (hlabels.carries hk).getElem?_eq j (by simpa [Orbit.labelled] using hj)
  exact ⟨j, hj, by simpa [Orbit.labelled, hj] using hlabel, h.sticker_eq k hk j hj⟩

/-- The moves of an accepted text can be done on an orbit of labels by itself, and they permute the
labels. If the cube has the kind, then on a new cube that follows the text each slot has the color
that the scheme gives to the slot of its label. If not, no label moves. -/
theorem labels_predict_stickers (hn : 1 ≤ n) (hmax : n ≤ maxLayer) {text : String}
    (htext : readText n text = .ok ms) {scheme : List α} (hscheme : scheme.length = 6)
    (k : SlotKind) :
    ∃ labels : List ℕ, Orbit.track n ms (some (.labelled k)) = .ok (some ⟨k, labels⟩) ∧
      labels.Perm (List.range k.size) ∧
      (k ∈ (Inventory.full n).kinds → ∃ start c o, ofScheme n scheme = .ok start ∧
        start.follow text = (c, none) ∧ c.orbit? k = some o ∧ o.slots.length = k.size ∧
          ∀ i < k.size, ∃ j x, labels[i]? = some j ∧ scheme[j / k.faceSize]? = some x ∧
            o.slots[i]? = some x) ∧
      (k ∉ (Inventory.full n).kinds → labels = List.range k.size) := by
  have hms := (Notation.readText_eq_ok_iff.1 htext).inRange hmax
  have hlen : (Orbit.labelled k).slots.length = (Orbit.labelled k).kind.size := List.length_range
  obtain ⟨⟨kind, labels⟩, htrack, hlabels⟩ := Orbit.exists_track hms hlen
  obtain rfl : kind = k := hlabels.kind_eq
  refine ⟨labels, htrack, hlabels.perm, fun hk => ?_, fun hk => ?_⟩
  · obtain ⟨c, hc⟩ :=
      exists_isTurned (fun f => scheme.get ⟨f.index, hscheme ▸ f.index_lt⟩) hms
    obtain ⟨d, -, hfollow, hturns⟩ := (wellFormed_solved n _).follow_of_accepted hmax htext
    obtain rfl : d = c := congrArg Prod.fst (hturns.symm.trans hc.turnAll_eq)
    obtain ⟨o, ho, rfl⟩ := hc.wellFormed.exists_orbit hk
    refine ⟨_, d, o, ofScheme_eq_ok_iff.2 ⟨Nat.ne_of_gt hn, hscheme, rfl⟩, hfollow,
      hc.wellFormed.orbit?_kind ho, hc.wellFormed.length_slots o ho, fun i hi => ?_⟩
    obtain ⟨j, hj, hlabel, hcolor⟩ := hc.sticker?_of_label hlabels hk hi
    rw [hc.wellFormed.sticker?_kind ho] at hcolor
    exact ⟨j, _, hlabel, getElem?_scheme hscheme hj, hcolor⟩
  · exact congrArg Orbit.slots (hlabels.stays hk)

/-- On a cube of four layers `Rw U'` moves the labels of the wings as it moves their colors. There
are no middles of edges, and their labels stay. -/
theorem labels_predict_stickers_four :
    1 ≤ 4 ∧ 4 ≤ maxLayer ∧ [0, 1, 2, 3, 4, 4].length = 6 ∧
      readText 4 "Rw U'" = .ok [⟨.right, 1, 2, 1⟩, ⟨.up, 1, 1, 3⟩] ∧
      (∃ labels : List ℕ, labels.Perm (List.range 48) ∧
        Orbit.track 4 [⟨.right, 1, 2, 1⟩, ⟨.up, 1, 1, 3⟩] (some (.labelled (.wing 1))) =
          .ok (some ⟨.wing 1, labels⟩) ∧
        ∃ start c o, ofScheme 4 [0, 1, 2, 3, 4, 4] = .ok start ∧
          start.follow "Rw U'" = (c, none) ∧ c.orbit? (.wing 1) = some o ∧
          ∀ i < 48, ∃ j x, labels[i]? = some j ∧ [0, 1, 2, 3, 4, 4][j / 8]? = some x ∧
            o.slots[i]? = some x) ∧
      Orbit.track 4 [⟨.right, 1, 2, 1⟩, ⟨.up, 1, 1, 3⟩] (some (.labelled .midge)) =
        .ok (some (.labelled .midge)) := by
  have hn : 1 ≤ 4 := by decide
  have hmax : 4 ≤ maxLayer := by decide
  have hscheme : [0, 1, 2, 3, 4, 4].length = 6 := rfl
  have htext : readText 4 "Rw U'" = .ok [⟨.right, 1, 2, 1⟩, ⟨.up, 1, 1, 3⟩] := by decide
  obtain ⟨labels, htrack, hperm, hcolors, -⟩ :=
    labels_predict_stickers hn hmax htext hscheme (.wing 1)
  obtain ⟨labels', htrack', -, -, hstay⟩ := labels_predict_stickers hn hmax htext hscheme .midge
  obtain ⟨start, c, o, hstart, hfollow, horbit, -, hslots⟩ := hcolors (by decide)
  rw [hstay (by decide)] at htrack'
  exact ⟨hn, hmax, hscheme, htext, ⟨labels, hperm, htrack, start, c, o, hstart, hfollow, horbit,
    hslots⟩, htrack'⟩

end Cube

end Twisty
