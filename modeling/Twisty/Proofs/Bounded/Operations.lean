import Twisty.Proofs.Bounded.MoveCycles
import Twisty.Proofs.Bounded.Notation
import Twisty.Proofs.Cube.Reachable

/-!
# Operations in range

Cycles are checked before any sticker moves, and a cycle that passed its check to move stickers
names slots of its kind only (`Cube.WellFormed.lt_of_check`), so each exchange finds both its
entries (`applyCycles_eq_some`). With the tokens and the cycles of moves in range this goes for
every operation, be it done or failed (`perform_eq_some`), and for every run of them
(`performAll_eq_some`), since operations keep a cube well formed.
-/

namespace Twisty

variable {α : Type} {n : ℕ}

/-! ## Checked cycles -/

/-- A cycle that moves stickers of an orbit has its slots in the orbit. -/
theorem Cycle.lt_of_check {x : Cycle} {r : Option (Orbit α)} (h : x.check r = .ok true) :
    ∃ o, r = some o ∧ ∀ s ∈ x.slots, s < o.slots.length := by
  unfold Cycle.check at h
  split at h
  · cases h
  · cases h
  · cases r with
    | none => cases h
    | some o =>
      dsimp only at h
      split_ifs at h
      · cases h
      · split at h
        · cases h
        · next hnone => exact ⟨o, rfl, by simpa using hnone⟩

/-- A cycle that moves stickers of a cube has slots of its kind only. -/
theorem Cube.WellFormed.lt_of_check {c : Cube α} (h : c.WellFormed n) {x : Cycle}
    (hx : x.check (c.orbit? x.kind) = .ok true) : ∀ s ∈ x.slots, s < x.kind.size := by
  obtain ⟨o, ho, hlt⟩ := Cycle.lt_of_check hx
  have hkind : o.kind = x.kind := by simpa using List.find?_some ho
  intro s hs
  rw [← hkind, ← h.length_slots o (List.mem_of_find?_eq_some ho)]
  exact hlt s hs

namespace Bounded

/-! ## Moving stickers -/

/-- Let the entries at two places trade places. -/
def exchange (i j : ℕ) (l : List α) : Option (List α) := do
  let x ← l[i]?
  let y ← l[j]?
  return (l.set i y).set j x

/-- Move the entry at each of some places to the next, and the last to the first. -/
def rotate : List ℕ → List α → Option (List α)
  | i :: j :: is, l => do exchange i j (← rotate (j :: is) l)
  | _, l => some l

/-- Move the stickers of a cube along a cycle, within the orbit of its kind. -/
def rotateCycle (c : Cube α) (x : Cycle) : Option (Cube α) := do
  let orbits ← c.orbits.mapM fun o =>
    if o.kind = x.kind then (rotate x.slots o.slots).map (Orbit.mk o.kind) else some o
  return ⟨c.size, orbits⟩

/-- Move the stickers of a cube along cycles, if they can all be done. -/
def applyCycles (c : Cube α) (cs : List Cycle) : Option (Cube α × Option CubeError) :=
  match Twisty.tryEach Cube.checkCycle (c, #[]) cs with
  | ((d, moving), none) => (moving.toList.foldlM rotateCycle d).map (·, none)
  | ((d, _), some e) => some (d, some e)

/-- Two places of a list have entries to exchange. -/
theorem exchange_eq_some {i j : ℕ} {l : List α} (hi : i < l.length) (hj : j < l.length) :
    exchange i j l = some (Twisty.exchange i j l) := by
  rw [exchange, List.getElem?_eq_getElem hi, List.getElem?_eq_getElem hj, exchange_eq_set hi hj]
  rfl

/-- Places of a list have entries to move round. -/
theorem rotate_eq_some {is : List ℕ} {l : List α} (h : ∀ i ∈ is, i < l.length) :
    rotate is l = some (Twisty.rotate is l) := by
  induction is with
  | nil => rfl
  | cons i is ih =>
    cases is with
    | nil => rfl
    | cons j is =>
      rw [rotate, ih fun k hk => h k (List.mem_cons_of_mem i hk), Option.bind_eq_bind,
        Option.bind_some, Twisty.rotate]
      exact exchange_eq_some (by simpa using h i (by simp)) (by simpa using h j (by simp))

/-- A place past the end is noticed, whatever the other places are. -/
example : rotate [0, 1, 2] [7, 8] = none := rfl

variable {c : Cube α}

/-- A cycle of slots of its kind only exchanges stickers that are there. -/
theorem rotateCycle_eq_some (h : c.WellFormed n) {x : Cycle}
    (hx : ∀ s ∈ x.slots, s < x.kind.size) : rotateCycle c x = some (c.rotateCycle x) := by
  have horbits : c.orbits.mapM (fun o =>
        if o.kind = x.kind then (rotate x.slots o.slots).map (Orbit.mk o.kind) else some o) =
      some (c.orbits.map fun o => if o.kind = x.kind then o.rotate x.slots else o) := by
    refine mapM_eq_some fun o ho => ?_
    split_ifs with hk
    · rw [← hk, ← h.length_slots o ho] at hx
      rw [rotate_eq_some hx]
      rfl
    · rfl
  rw [rotateCycle, horbits]
  rfl

/-- The first loop passes on cycles of slots of their kinds only, so the second stays in range. -/
theorem applyCycles_eq_some (h : c.WellFormed n) (cs : List Cycle) :
    applyCycles c cs = some (c.applyCycles cs) := by
  have hkept := Cube.fst_tryEach_checkCycle c #[] cs
  have hmoving := Cube.check_of_mem_tryEach c cs
  rw [applyCycles, Cube.applyCycles]
  cases hchecks : Twisty.tryEach Cube.checkCycle (c, #[]) cs with
  | mk s r =>
    obtain ⟨d, moving⟩ := s
    rw [hchecks] at hkept hmoving
    obtain rfl : d = c := hkept
    cases r with
    | none =>
      have hrotate : moving.toList.foldlM rotateCycle d = some (d.rotate moving.toList) :=
        foldlM_eq_some h fun d' hd' x hx =>
          ⟨rotateCycle_eq_some hd' (h.lt_of_check (hmoving x (Array.mem_toList_iff.1 hx))),
            hd'.rotate [x]⟩
      exact congrArg (Option.map (·, none)) hrotate
    | some e => rfl

/-! ## New cubes -/

/-- The cube whose faces have the colors of a scheme, each looked up by the number of the face. -/
def ofScheme (n : ℕ) (scheme : List α) : Option (Except CubeError (Cube α)) :=
  if n = 0 then some (.error .noLayers)
  else if scheme.length = 6 then do
    let orbits ← (Inventory.full n).kinds.mapM fun k => do
      let slots ← (List.range k.size).mapM fun s => scheme[s / k.faceSize]?
      return Orbit.mk k slots
    return .ok ⟨n, orbits⟩
  else some (.error (.schemeLength scheme.length))

/-- A scheme of six colors has one for each slot of a new cube. -/
theorem ofScheme_eq_some (n : ℕ) (scheme : List α) :
    ofScheme n scheme = some (Cube.ofScheme n scheme) := by
  unfold ofScheme Cube.ofScheme
  split_ifs with hn hlen
  · rfl
  · have hslots : ∀ k ∈ (Inventory.full n).kinds,
        (do
          let slots ← (List.range k.size).mapM fun s => scheme[s / k.faceSize]?
          return Orbit.mk k slots) =
        some (Orbit.ofFn k fun s => scheme.get ⟨(k.slotFace s).index, hlen ▸ Face.index_lt _⟩) := by
      intro k _
      rw [mapM_eq_some fun s hs => Cube.getElem?_scheme hlen (List.mem_range.1 hs)]
      rfl
    rw [mapM_eq_some hslots]
    rfl
  · rfl

/-! ## Operations -/

/-- A cube after a move. -/
def turn (c : Cube α) (m : Move) : Option (Cube α × Option CubeError) := do
  match ← moveCycles m c.size (.full c.size) with
  | .ok cs => applyCycles c cs
  | .error e => return (c, some e)

/-- A cube after moves, up to the first that cannot be done. -/
def turnAll (c : Cube α) (ms : List Move) : Option (Cube α × Option CubeError) :=
  tryEach turn c ms

/-- A cube after the move that a token writes. -/
def followToken (c : Cube α) (token : String) : Option (Cube α × Option Error) := do
  match ← readToken c.size token with
  | .ok m => (turn c m).map (Prod.map id (Option.map .cube))
  | .error e => return (c, some (.token e))

/-- A cube after the moves that tokens write, up to the first that fails. -/
def followTokens (c : Cube α) (tokens : List String) : Option (Cube α × Option Error) :=
  tryEach followToken c tokens

/-- The cube after an operation, be it done or failed. -/
def perform (c : Cube α) : Operation → Option (Cube α)
  | .move m => (turn c m).map Prod.fst
  | .moves ms => (turnAll c ms).map Prod.fst
  | .text t => (followTokens c (Text.words t)).map Prod.fst
  | .cycles cs => (applyCycles c cs).map Prod.fst

/-- The cube after some operations, each be it done or failed. -/
def performAll (c : Cube α) (ops : List Operation) : Option (Cube α) :=
  ops.foldlM perform c

/-- A move of a well-formed cube stays in range, be it done or refused. -/
theorem turn_eq_some (h : c.WellFormed n) (hn : n ≤ maxLayer) (m : Move) :
    turn c m = some (c.turn m) := by
  rw [turn, Cube.turn, Cube.moveCycles, h.size_eq, moveCycles_eq_some hn, Option.bind_eq_bind,
    Option.bind_some]
  cases m.cycles n (.full n) with
  | ok cs => exact applyCycles_eq_some h cs
  | error e => rfl

/-- Several moves of a well-formed cube stay in range, up to the first that is refused. -/
theorem turnAll_eq_some (h : c.WellFormed n) (hn : n ≤ maxLayer) (ms : List Move) :
    turnAll c ms = some (c.turnAll ms) :=
  tryEach_eq_some (P := Cube.WellFormed n)
    (fun _ m hd => ⟨turn_eq_some hd hn m, Cube.WellFormed.keptByCycles.turn hd m⟩) h ms

/-- To read a token and do its move stays in range. -/
theorem followToken_eq_some (h : c.WellFormed n) (hn : n ≤ maxLayer) (t : String) :
    followToken c t = some (c.followToken t) := by
  rw [followToken, Cube.followToken, h.size_eq, readToken_eq_some hn, Option.bind_eq_bind,
    Option.bind_some]
  cases Notation.readToken n t with
  | ok m => exact congrArg (Option.map (Prod.map id (Option.map Error.cube))) (turn_eq_some h hn m)
  | error e => rfl

/-- To follow several tokens stays in range, up to the first that fails. -/
theorem followTokens_eq_some (h : c.WellFormed n) (hn : n ≤ maxLayer) (ts : List String) :
    followTokens c ts = some (c.followTokens ts) :=
  tryEach_eq_some (P := Cube.WellFormed n) (fun _ t hd =>
    ⟨followToken_eq_some hd hn t, Cube.WellFormed.keptByCycles.followToken hd t⟩) h ts

/-- Every operation on a well-formed cube stays in range. -/
theorem perform_eq_some (h : c.WellFormed n) (hn : n ≤ maxLayer) (op : Operation) :
    perform c op = some (c.perform op) := by
  cases op with
  | move m => rw [perform, turn_eq_some h hn]; rfl
  | moves ms => rw [perform, turnAll_eq_some h hn]; rfl
  | text t => rw [perform, followTokens_eq_some h hn]; rfl
  | cycles cs => rw [perform, applyCycles_eq_some h]; rfl

/-- Every run of operations stays in range, whatever fails on the way. -/
theorem performAll_eq_some (h : c.WellFormed n) (hn : n ≤ maxLayer) (ops : List Operation) :
    performAll c ops = some (c.performAll ops) :=
  foldlM_eq_some h fun _ hd op _ =>
    ⟨perform_eq_some hd hn op, Cube.WellFormed.keptByCycles.perform hd op⟩

end Bounded

end Twisty
