import Twisty.Notation.Reading
import Mathlib.Tactic.Common

/-!
# What a token means

`Spans` is the table of the forms of a move : for each form, the layers that it turns on an
`n`-layer cube and the bounds that its numbers must keep. `Lexeme.Decorated` says which written
moves have no form. `Means` puts the checks of a token in their order, from the size of the cube to
the layers, each with what becomes of a token that first fails there.

A span is read off a form exactly as the table has it (`span_eq_ok_iff`), and only decorated moves
have a fault of form (`rangeOnly_span`). So what `readToken` makes of a token is what the token
means (`means_iff_verdict`).
-/

namespace Twisty.Notation

/-! ## The forms of a move -/

namespace LayerNumbers

/-- Every layer number is one that a cube can have. -/
def Fits : LayerNumbers → Prop
  | absent => True
  | single k => k.value ≤ maxLayer
  | range a b => a.value ≤ maxLayer ∧ b.value ≤ maxLayer

/-- There are two layer numbers. -/
def IsRange (ls : LayerNumbers) : Prop :=
  ∃ a b, ls = range a b

/-- At most one layer number, which stands for `d` where it is absent. -/
inductive Counts (d : ℕ) : LayerNumbers → ℕ → Prop
  | absent : Counts d absent d
  | single (k : Numeral) : Counts d (single k) k.value

end LayerNumbers

/-- The first and last layer that a form turns on an `n`-layer cube, counted from the face of its
family, if its numbers are within bounds. -/
inductive Spans (n : ℕ) : Family → LayerNumbers → Bool → ℕ → ℕ → Prop
  | rotation (e : Axis) : Spans n (.rotation e) .absent false 1 n
  | middle (e : Axis) {ls : LayerNumbers} {k first last : ℕ} (hk : ls.Counts 1 k) (hpos : 0 < k)
      (hlt : k < n) (hparity : k % 2 = n % 2) (hcentered : first + last = n + 1)
      (hcount : last + 1 = first + k) : Spans n (.middle e) ls false first last
  | double (f : Face) (hn : 3 ≤ n) : Spans n (.double f) .absent false 1 (if n = 3 then 1 else 2)
  | outer (f : Face) (hn : 2 ≤ n) : Spans n (.outer f) .absent false 1 1
  | wide (f : Face) {ls : LayerNumbers} {k : ℕ} (hk : ls.Counts 2 k) (hge : 2 ≤ k)
      (hle : k ≤ n - 1) : Spans n (.outer f) ls true 1 k
  | inner (f : Face) {r : Numeral} (hge : 2 ≤ r.value) (hle : r.value ≤ n - 1) :
      Spans n (.outer f) (.single r) false r.value r.value
  | range (f : Face) {a b : Numeral} (ha : 2 ≤ a.value ∧ a.value ≤ n - 1)
      (hb : 2 ≤ b.value ∧ b.value ≤ n - 1) :
      Spans n (.outer f) (.range a b) true (min a.value b.value) (max a.value b.value)

namespace Lexeme

/-- The written move has a part that its family does not take, or a range without a `w`. -/
def Decorated (l : Lexeme) : Prop :=
  match l.family with
  | .rotation _ => l.layers ≠ .absent ∨ l.wide
  | .middle _ => l.layers.IsRange ∨ l.wide
  | .double _ => l.layers ≠ .absent ∨ l.wide
  | .outer _ => l.layers.IsRange ∧ ¬ l.wide

/-- The written turn amount. Where there is none it is one. -/
def turnAmount (l : Lexeme) : ℕ :=
  l.amount.elim 1 Numeral.value

/-- The turn amount, with a sign for its direction. -/
def signedTurns (l : Lexeme) : Int :=
  if l.primed then -(l.turnAmount : Int) else l.turnAmount

/-- The layers of the form fit an `n`-layer cube, and these are the first and the last of them. -/
def FitsOn (l : Lexeme) (n first last : ℕ) : Prop :=
  l.layers.Fits ∧ Spans n l.family l.layers l.wide first last

end Lexeme

/-- What can become of a token. -/
inductive Verdict
  | move (m : Move)
  | grammar
  | range
  deriving DecidableEq

/-- What became of a token. -/
def verdict : Except Error Move → Verdict
  | .ok m => .move m
  | .error ⟨_, .grammar _⟩ => .grammar
  | .error ⟨_, .range _⟩ => .range

/-- What the characters of a token mean on an `n`-layer cube. Of several things that are wrong the
first in this order counts. A move is said from the face that its layers are nearer to. -/
inductive Means (n : ℕ) (cs : List Char) : Verdict → Prop
  | noLayers (hn : n = 0) : Means n cs .range
  | unwritten (hn : n ≠ 0) (hcs : ∀ l : Lexeme, cs ≠ l.text) : Means n cs .grammar
  | tooFar (hn : n ≠ 0) {l : Lexeme} (hcs : cs = l.text) (ht : maxTurns < l.turnAmount) :
      Means n cs .range
  | decorated (hn : n ≠ 0) {l : Lexeme} (hcs : cs = l.text) (ht : l.turnAmount ≤ maxTurns)
      (hd : l.Decorated) : Means n cs .grammar
  | misfit (hn : n ≠ 0) {l : Lexeme} (hcs : cs = l.text) (ht : l.turnAmount ≤ maxTurns)
      (hd : ¬ l.Decorated) (hfit : ∀ first last, ¬ l.FitsOn n first last) : Means n cs .range
  | near (hn : n ≠ 0) {l : Lexeme} (hcs : cs = l.text) (ht : l.turnAmount ≤ maxTurns)
      {first last : ℕ} (hfit : l.FitsOn n first last) (hnear : first + last ≤ n + 1) :
      Means n cs (.move ⟨l.family.face, first, last, Move.quarters l.signedTurns⟩)
  | far (hn : n ≠ 0) {l : Lexeme} (hcs : cs = l.text) (ht : l.turnAmount ≤ maxTurns)
      {first last : ℕ} (hfit : l.FitsOn n first last) (hfar : n + 1 < first + last) :
      Means n cs (.move ⟨l.family.face.opposite, n + 1 - last, n + 1 - first,
        Move.quarters (-l.signedTurns)⟩)

/-! ## The bounds of the forms -/

variable {n k a b : ℕ}

/-- The `k` layers in the middle exist if `k` is below `n` and of its parity. -/
theorem centeredSpan_eq_ok_iff : centeredSpan k n = .ok (a, b) ↔
    0 < k ∧ k < n ∧ k % 2 = n % 2 ∧ a + b = n + 1 ∧ b + 1 = a + k := by
  unfold centeredSpan
  split_ifs with hfit hparity
  · simp only [false_iff]
    omega
  · simp only [false_iff]
    omega
  · simp only [Except.ok.injEq, Prod.mk.injEq]
    omega

/-- The first two layers exist on a cube of three layers or more. On three layers only the first is
meant. -/
theorem doubleSpan_eq_ok_iff : doubleSpan n = .ok (a, b) ↔
    3 ≤ n ∧ a = 1 ∧ b = if n = 3 then 1 else 2 := by
  unfold doubleSpan
  by_cases hsmall : n ≤ 2
  · rw [if_pos hsmall]
    simp only [reduceCtorEq, false_iff]
    omega
  · by_cases hthree : n = 3
    · rw [if_neg hsmall, if_pos hthree, if_pos hthree]
      simp only [Except.ok.injEq, Prod.mk.injEq]
      omega
    · rw [if_neg hsmall, if_neg hthree, if_neg hthree]
      simp only [Except.ok.injEq, Prod.mk.injEq]
      omega

theorem outerSpan_eq_ok_iff : outerSpan n = .ok (a, b) ↔ 2 ≤ n ∧ a = 1 ∧ b = 1 := by
  unfold outerSpan
  split_ifs with hsmall
  · simp only [false_iff]
    omega
  · simp only [Except.ok.injEq, Prod.mk.injEq]
    omega

/-- A wide move has two layers or more and leaves at least one. -/
theorem wideSpan_eq_ok_iff : wideSpan k n = .ok (a, b) ↔
    2 ≤ k ∧ k ≤ n - 1 ∧ a = 1 ∧ b = k := by
  unfold wideSpan
  split_ifs with hout
  · simp only [false_iff]
    omega
  · simp only [Except.ok.injEq, Prod.mk.injEq]
    omega

/-- An inner layer is neither the first nor the last. -/
theorem innerLayer_eq_ok_iff {l : ℕ} : innerLayer l n = .ok a ↔ 2 ≤ l ∧ l ≤ n - 1 ∧ a = l := by
  unfold innerLayer
  split_ifs with hin
  · simp only [Except.ok.injEq]
    omega
  · simp only [false_iff]
    omega

theorem bind_eq_ok_iff {ε β γ : Type} {r : Except ε β} {g : β → Except ε γ} {y : γ} :
    (r >>= g) = .ok y ↔ ∃ x, r = .ok x ∧ g x = .ok y := by
  cases r with
  | error e => simp [bind, Except.bind]
  | ok x => simp [bind, Except.bind]

theorem innerSpan_eq_ok_iff {l : ℕ} : innerSpan l n = .ok (a, b) ↔
    2 ≤ l ∧ l ≤ n - 1 ∧ a = l ∧ b = l := by
  simp only [innerSpan, bind_eq_ok_iff, innerLayer_eq_ok_iff, pure, Except.pure, Except.ok.injEq,
    Prod.mk.injEq]
  constructor
  · rintro ⟨x, ⟨h₁, h₂, rfl⟩, rfl, rfl⟩
    exact ⟨h₁, h₂, rfl, rfl⟩
  · rintro ⟨h₁, h₂, rfl, rfl⟩
    exact ⟨_, ⟨h₁, h₂, rfl⟩, rfl, rfl⟩

/-- A range is between two inner layers, written in either order. -/
theorem rangeSpan_eq_ok_iff {i j : ℕ} : rangeSpan i j n = .ok (a, b) ↔
    (2 ≤ i ∧ i ≤ n - 1) ∧ (2 ≤ j ∧ j ≤ n - 1) ∧ a = min i j ∧ b = max i j := by
  simp only [rangeSpan, bind_eq_ok_iff, innerLayer_eq_ok_iff, pure, Except.pure, Except.ok.injEq,
    Prod.mk.injEq]
  constructor
  · rintro ⟨x, ⟨h₁, h₂, rfl⟩, y, ⟨h₃, h₄, rfl⟩, rfl, rfl⟩
    exact ⟨⟨h₁, h₂⟩, ⟨h₃, h₄⟩, rfl, rfl⟩
  · rintro ⟨⟨h₁, h₂⟩, ⟨h₃, h₄⟩, rfl, rfl⟩
    exact ⟨_, ⟨h₁, h₂, rfl⟩, _, ⟨h₃, h₄, rfl⟩, rfl, rfl⟩

/-- A layer number is at most the largest cube size. -/
theorem Numeral.layer_eq_ok_iff {k : Numeral} :
    k.layer = .ok a ↔ k.value ≤ maxLayer ∧ a = k.value := by
  unfold Numeral.layer
  split_ifs with hk
  · simp [hk, eq_comm]
  · simp [hk]

/-! ## The layers of a written move -/

namespace Lexeme

variable {l : Lexeme}

/-- A form that fits has its layers. -/
theorem FitsOn.span_eq_ok (h : l.FitsOn n a b) : l.span n = .ok (a, b) := by
  obtain ⟨layers, family, wide, amount, primed⟩ := l
  obtain ⟨hfit, hspan⟩ := h
  unfold span
  cases hspan with
  | rotation e => rfl
  | middle e hk hpos hlt hparity hcentered hcount =>
    have hspan := centeredSpan_eq_ok_iff.2 ⟨hpos, hlt, hparity, hcentered, hcount⟩
    cases hk with
    | absent => exact hspan
    | single k => exact bind_eq_ok_iff.2 ⟨_, Numeral.layer_eq_ok_iff.2 ⟨hfit, rfl⟩, hspan⟩
  | double f hn => exact doubleSpan_eq_ok_iff.2 ⟨hn, rfl, rfl⟩
  | outer f hn => exact outerSpan_eq_ok_iff.2 ⟨hn, rfl, rfl⟩
  | wide f hk hge hle =>
    have hspan := wideSpan_eq_ok_iff.2 ⟨hge, hle, rfl, rfl⟩
    cases hk with
    | absent => exact hspan
    | single k => exact bind_eq_ok_iff.2 ⟨_, Numeral.layer_eq_ok_iff.2 ⟨hfit, rfl⟩, hspan⟩
  | inner f hge hle =>
    have hspan := innerSpan_eq_ok_iff.2 ⟨hge, hle, rfl, rfl⟩
    exact bind_eq_ok_iff.2 ⟨_, Numeral.layer_eq_ok_iff.2 ⟨hfit, rfl⟩, hspan⟩
  | range f ha hb =>
    have hspan := rangeSpan_eq_ok_iff.2 ⟨ha, hb, rfl, rfl⟩
    refine bind_eq_ok_iff.2 ⟨_, Numeral.layer_eq_ok_iff.2 ⟨hfit.1, rfl⟩, ?_⟩
    exact bind_eq_ok_iff.2 ⟨_, Numeral.layer_eq_ok_iff.2 ⟨hfit.2, rfl⟩, hspan⟩

/-- A form that has layers fits with them. -/
theorem fitsOn_of_span_eq_ok (h : l.span n = .ok (a, b)) : l.FitsOn n a b := by
  obtain ⟨layers, family, wide, amount, primed⟩ := l
  unfold span at h
  dsimp only at h
  split at h
  · obtain ⟨rfl, rfl⟩ := Prod.mk.inj (Except.ok.inj h)
    exact ⟨trivial, .rotation _⟩
  · cases h
  · obtain ⟨hpos, hlt, hparity, hcentered, hcount⟩ := centeredSpan_eq_ok_iff.1 h
    exact ⟨trivial, .middle _ .absent hpos hlt hparity hcentered hcount⟩
  · obtain ⟨_, hk, h⟩ := bind_eq_ok_iff.1 h
    obtain ⟨hfit, rfl⟩ := Numeral.layer_eq_ok_iff.1 hk
    obtain ⟨hpos, hlt, hparity, hcentered, hcount⟩ := centeredSpan_eq_ok_iff.1 h
    exact ⟨hfit, .middle _ (.single _) hpos hlt hparity hcentered hcount⟩
  · cases h
  · obtain ⟨hn, rfl, rfl⟩ := doubleSpan_eq_ok_iff.1 h
    exact ⟨trivial, .double _ hn⟩
  · cases h
  · obtain ⟨hn, rfl, rfl⟩ := outerSpan_eq_ok_iff.1 h
    exact ⟨trivial, .outer _ hn⟩
  · obtain ⟨hge, hle, rfl, rfl⟩ := wideSpan_eq_ok_iff.1 h
    exact ⟨trivial, .wide _ .absent hge hle⟩
  · obtain ⟨_, hk, h⟩ := bind_eq_ok_iff.1 h
    obtain ⟨hfit, rfl⟩ := Numeral.layer_eq_ok_iff.1 hk
    obtain ⟨hge, hle, rfl, rfl⟩ := wideSpan_eq_ok_iff.1 h
    exact ⟨hfit, .wide _ (.single _) hge hle⟩
  · obtain ⟨_, hk, h⟩ := bind_eq_ok_iff.1 h
    obtain ⟨hfit, rfl⟩ := Numeral.layer_eq_ok_iff.1 hk
    obtain ⟨hge, hle, rfl, rfl⟩ := innerSpan_eq_ok_iff.1 h
    exact ⟨hfit, .inner _ hge hle⟩
  · obtain ⟨_, ha, h⟩ := bind_eq_ok_iff.1 h
    obtain ⟨_, hb, h⟩ := bind_eq_ok_iff.1 h
    obtain ⟨hfit, rfl⟩ := Numeral.layer_eq_ok_iff.1 ha
    obtain ⟨hfit', rfl⟩ := Numeral.layer_eq_ok_iff.1 hb
    obtain ⟨ha, hb, rfl, rfl⟩ := rangeSpan_eq_ok_iff.1 h
    exact ⟨⟨hfit, hfit'⟩, .range _ ha hb⟩
  · cases h

/-- The layers of a written move are read off its form. -/
theorem span_eq_ok_iff : l.span n = .ok (a, b) ↔ l.FitsOn n a b :=
  ⟨fitsOn_of_span_eq_ok, FitsOn.span_eq_ok⟩

/-- A form with a number or mark that its family does not take is refused for its grammar. -/
theorem Decorated.span_eq_error (hd : l.Decorated) (n : ℕ) :
    ∃ g, l.span n = .error (.grammar g) := by
  obtain ⟨layers, family, wide, amount, primed⟩ := l
  unfold Decorated LayerNumbers.IsRange at hd
  unfold span
  cases family <;> cases layers <;> cases wide <;>
    first | exact ⟨_, rfl⟩ | simp at hd

end Lexeme

/-! ## Faults of form and of range -/

/-- A reading that does not fail with a fault of form. -/
def RangeOnly {β : Type} (r : Except Fault β) : Prop :=
  ∀ g, r ≠ .error (.grammar g)

namespace RangeOnly

variable {β γ : Type}

theorem ok (x : β) : RangeOnly (.ok x) := by
  rintro g ⟨⟩

theorem error (r : RangeFault) : RangeOnly (.error (.range r) : Except Fault β) := by
  rintro g ⟨⟩

theorem bind {r : Except Fault β} {g : β → Except Fault γ} (hr : RangeOnly r)
    (hg : ∀ x, RangeOnly (g x)) : RangeOnly (r >>= g) := by
  cases r with
  | error e =>
    intro f hf
    exact hr f (congrArg Except.error (Except.error.inj hf))
  | ok x => exact hg x

end RangeOnly

theorem rangeOnly_layer (k : Numeral) : RangeOnly k.layer := by
  unfold Numeral.layer
  split_ifs
  · exact .ok _
  · exact .error _

theorem rangeOnly_centeredSpan (k n : ℕ) : RangeOnly (centeredSpan k n) := by
  unfold centeredSpan
  split_ifs
  · exact .error _
  · exact .error _
  · exact .ok _

theorem rangeOnly_doubleSpan (n : ℕ) : RangeOnly (doubleSpan n) := by
  unfold doubleSpan
  split_ifs
  · exact .error _
  · exact .ok _
  · exact .ok _

theorem rangeOnly_outerSpan (n : ℕ) : RangeOnly (outerSpan n) := by
  unfold outerSpan
  split_ifs
  · exact .error _
  · exact .ok _

theorem rangeOnly_wideSpan (k n : ℕ) : RangeOnly (wideSpan k n) := by
  unfold wideSpan
  split_ifs
  · exact .error _
  · exact .ok _

theorem rangeOnly_innerLayer (l n : ℕ) : RangeOnly (innerLayer l n) := by
  unfold innerLayer
  split_ifs
  · exact .ok _
  · exact .error _

/-- A form with no number or mark too many can only be refused for its range. -/
theorem Lexeme.rangeOnly_span {l : Lexeme} (hd : ¬ l.Decorated) (n : ℕ) : RangeOnly (l.span n) := by
  obtain ⟨layers, family, wide, amount, primed⟩ := l
  unfold span
  dsimp only
  split
  · exact .ok _
  · next h =>
    obtain ⟨habsent, hwide⟩ := not_or.1 hd
    exact (h (not_not.1 habsent) (Bool.eq_false_iff.2 hwide)).elim
  · exact rangeOnly_centeredSpan 1 n
  · exact (rangeOnly_layer _).bind fun k => rangeOnly_centeredSpan k n
  · next habsent hsingle =>
    obtain ⟨hrange, hwide⟩ := not_or.1 hd
    have hwide := Bool.eq_false_iff.2 hwide
    cases layers with
    | absent => exact (habsent rfl hwide).elim
    | single k => exact (hsingle k rfl hwide).elim
    | range i j => exact (hrange ⟨i, j, rfl⟩).elim
  · exact rangeOnly_doubleSpan n
  · next h =>
    obtain ⟨habsent, hwide⟩ := not_or.1 hd
    exact (h (not_not.1 habsent) (Bool.eq_false_iff.2 hwide)).elim
  · exact rangeOnly_outerSpan n
  · exact rangeOnly_wideSpan 2 n
  · exact (rangeOnly_layer _).bind fun k => rangeOnly_wideSpan k n
  · exact (rangeOnly_layer _).bind fun k => (rangeOnly_innerLayer k n).bind fun _ => .ok _
  · exact (rangeOnly_layer _).bind fun i => (rangeOnly_layer _).bind fun j =>
      (rangeOnly_innerLayer i n).bind fun _ => (rangeOnly_innerLayer j n).bind fun _ => .ok _
  · exact absurd ⟨⟨_, _, rfl⟩, by simp⟩ hd

/-! ## What becomes of a token -/

/-- The layers of a form are layers of the cube, the first of them not after the last. -/
theorem Spans.bounds {f : Family} {ls : LayerNumbers} {w : Bool} (h : Spans n f ls w a b)
    (hn : n ≠ 0) : 1 ≤ a ∧ a ≤ b ∧ b ≤ n := by
  cases h with
  | rotation => omega
  | middle => omega
  | double => split_ifs <;> omega
  | outer => omega
  | wide => omega
  | inner => omega
  | range => omega

/-- The move of some layers is said from the face that they are nearer to. -/
theorem canonical_between (hn : n ≤ maxLayer) (f : Face) (t : Int) (ha : 1 ≤ a) (hab : a ≤ b)
    (hb : b ≤ n) : (Move.between f a b t).canonical n =
      if n + 1 < a + b then ⟨f.opposite, n + 1 - b, n + 1 - a, Move.quarters (-t)⟩
      else ⟨f, a, b, Move.quarters t⟩ := by
  rw [Move.between, Nat.min_eq_left hab, Nat.max_eq_right hab, Move.canonical]
  refine if_congr Iff.rfl ?_ rfl
  rw [Move.flipped, Move.quarters_neg_quarters]
  dsimp only
  rw [Move.reflectLayer_eq hn (Nat.le_trans ha hab) hb,
    Move.reflectLayer_eq hn ha (Nat.le_trans hab hb)]

theorem Lexeme.turns_eq (l : Lexeme) : l.turns =
    if l.turnAmount ≤ maxTurns then .ok l.signedTurns else .error (.range .turnsTooLarge) :=
  rfl

theorem readChars_text (hn : n ≠ 0) (l : Lexeme) : readChars n l.text = l.move n := by
  rw [readChars, if_neg hn, Lexeme.read_eq_ok_iff.2 rfl]

/-- What is not the text of a form is refused for its grammar. -/
theorem readChars_unwritten (hn : n ≠ 0) {cs : List Char} (h : ∀ l : Lexeme, cs ≠ l.text) :
    ∃ g, readChars n cs = .error (.grammar g) := by
  rw [readChars, if_neg hn]
  cases hread : Lexeme.read cs with
  | ok l => exact absurd (Lexeme.read_eq_ok_iff.1 hread) (h l)
  | error u => exact ⟨_, rfl⟩

/-- A form that fits is read as a move from the face that its layers are nearer to. -/
theorem Lexeme.move_eq_ok (hn : n ≤ maxLayer) (h0 : n ≠ 0) {l : Lexeme}
    (ht : l.turnAmount ≤ maxTurns) (hfit : l.FitsOn n a b) : l.move n = .ok
      (if n + 1 < a + b then
        ⟨l.family.face.opposite, n + 1 - b, n + 1 - a, Move.quarters (-l.signedTurns)⟩
      else ⟨l.family.face, a, b, Move.quarters l.signedTurns⟩) := by
  obtain ⟨ha, hab, hb⟩ := hfit.2.bounds h0
  rw [← canonical_between hn _ _ ha hab hb, move, turns_eq, if_pos ht, hfit.span_eq_ok]
  rfl

theorem Lexeme.move_eq_error {l : Lexeme} (ht : l.turnAmount ≤ maxTurns) {e : Fault}
    (h : l.span n = .error e) : l.move n = .error e := by
  rw [move, turns_eq, if_pos ht, h]
  rfl

/-- A token is read as what it means. -/
theorem Means.verdict_eq (hn : n ≤ maxLayer) {t : String} {v : Verdict} (h : Means n t.toList v) :
    verdict (readToken n t) = v := by
  rw [readToken]
  cases h with
  | noLayers h0 =>
    rw [readChars, if_pos h0]
    rfl
  | unwritten h0 hcs =>
    obtain ⟨g, hg⟩ := readChars_unwritten h0 hcs
    rw [hg]
    rfl
  | @tooFar h0 l hcs ht =>
    rw [hcs, readChars_text h0, Lexeme.move, l.turns_eq, if_neg (Nat.not_le.2 ht)]
    rfl
  | decorated h0 hcs ht hd =>
    obtain ⟨g, hg⟩ := hd.span_eq_error n
    rw [hcs, readChars_text h0, Lexeme.move_eq_error ht hg]
    rfl
  | @misfit h0 l hcs ht hd hfit =>
    rw [hcs, readChars_text h0]
    cases hspan : l.span n with
    | ok x => exact absurd (Lexeme.span_eq_ok_iff.1 hspan) (hfit x.1 x.2)
    | error e =>
      rw [Lexeme.move_eq_error ht hspan]
      cases e with
      | grammar g => exact absurd hspan (Lexeme.rangeOnly_span hd n g)
      | range r => rfl
  | near h0 hcs ht hfit hnear =>
    rw [hcs, readChars_text h0, Lexeme.move_eq_ok hn h0 ht hfit, if_neg (Nat.not_lt.2 hnear)]
    rfl
  | far h0 hcs ht hfit hfar =>
    rw [hcs, readChars_text h0, Lexeme.move_eq_ok hn h0 ht hfit, if_pos hfar]
    rfl

/-- Every token means something. -/
theorem exists_means (n : ℕ) (cs : List Char) : ∃ v, Means n cs v := by
  by_cases hn : n = 0
  · exact ⟨_, .noLayers hn⟩
  by_cases hcs : ∃ l : Lexeme, cs = l.text
  · obtain ⟨l, rfl⟩ := hcs
    by_cases ht : l.turnAmount ≤ maxTurns
    · by_cases hd : l.Decorated
      · exact ⟨_, .decorated hn rfl ht hd⟩
      · by_cases hfit : ∃ first last, l.FitsOn n first last
        · obtain ⟨first, last, hfit⟩ := hfit
          by_cases hfar : n + 1 < first + last
          · exact ⟨_, .far hn rfl ht hfit hfar⟩
          · exact ⟨_, .near hn rfl ht hfit (Nat.not_lt.1 hfar)⟩
        · exact ⟨_, .misfit hn rfl ht hd fun first last h => hfit ⟨first, last, h⟩⟩
    · exact ⟨_, .tooFar hn rfl (Nat.not_le.1 ht)⟩
  · exact ⟨_, .unwritten hn fun l h => hcs ⟨l, h⟩⟩

/-- What `readToken` makes of a token is what the token means. -/
theorem means_iff_verdict (hn : n ≤ maxLayer) (t : String) (v : Verdict) :
    Means n t.toList v ↔ verdict (readToken n t) = v := by
  refine ⟨Means.verdict_eq hn, fun hv => ?_⟩
  obtain ⟨w, hw⟩ := exists_means n t.toList
  have heq : w = v := (hw.verdict_eq hn).symm.trans hv
  exact heq ▸ hw

/-- On a cube of five layers `4R` is the second layer from the left, the other way round. -/
theorem means_iff_verdict_five :
    5 ≤ maxLayer ∧ Means 5 "4R".toList (.move ⟨.left, 2, 2, 3⟩) := by
  have hn : 5 ≤ maxLayer := by decide
  have hread : verdict (readToken 5 "4R") = .move ⟨.left, 2, 2, 3⟩ := by decide
  exact ⟨hn, (means_iff_verdict hn "4R" _).2 hread⟩

end Twisty.Notation
