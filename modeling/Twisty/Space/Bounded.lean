import Twisty.Space.Point

/-!
# Points in a bounded space

The whole numbers of 32 bits with a sign hold the coordinates of every cube there can be, but not
those of every point there can be. `Face.turnPoint?` and `Face.depth?` do the steps of
`Face.turnPoint` and `Face.depth` one by one and give nothing if a step leaves the range. The point
that is given is the turned one (`turnPoint_of_turnPoint?`).
-/

namespace Twisty

/-- A number, if it has 32 bits with a sign. -/
def fit? (x : Int) : Option Int :=
  if -2147483648 ≤ x ∧ x ≤ 2147483647 then some x else none

theorem eq_of_fit? {x y : Int} (h : fit? x = some y) : x = y := by
  unfold fit? at h
  split at h <;> simp_all

namespace Point

/-- The scalar product, each step within the range. -/
def dot? (p q : Point) : Option Int := do
  let x ← fit? (p.x * q.x)
  let y ← fit? (p.y * q.y)
  let xy ← fit? (x + y)
  let z ← fit? (p.z * q.z)
  fit? (xy + z)

/-- The difference of two products, each step within the range. -/
def minor? (a b c d : Int) : Option Int := do
  let ab ← fit? (a * b)
  let cd ← fit? (c * d)
  fit? (ab - cd)

/-- The vector product, each step within the range. -/
def cross? (p q : Point) : Option Point := do
  let x ← minor? p.y q.z p.z q.y
  let y ← minor? p.z q.x p.x q.z
  let z ← minor? p.x q.y p.y q.x
  return ⟨x, y, z⟩

theorem dot_of_dot? {p q : Point} {c : Int} (h : p.dot? q = some c) : p.dot q = c := by
  simp only [dot?, Option.bind_eq_bind, Option.bind_eq_some_iff] at h
  obtain ⟨x, hx, y, hy, xy, hxy, z, hz, hc⟩ := h
  rw [dot, eq_of_fit? hx, eq_of_fit? hy, eq_of_fit? hxy, eq_of_fit? hz, eq_of_fit? hc]

theorem eq_of_minor? {a b c d x : Int} (h : minor? a b c d = some x) : a * b - c * d = x := by
  simp only [minor?, Option.bind_eq_bind, Option.bind_eq_some_iff] at h
  obtain ⟨ab, hab, cd, hcd, hx⟩ := h
  rw [eq_of_fit? hab, eq_of_fit? hcd, eq_of_fit? hx]

theorem cross_of_cross? {p q r : Point} (h : p.cross? q = some r) : p.cross q = r := by
  simp only [cross?, Option.bind_eq_bind, Option.bind_eq_some_iff, Option.pure_def,
    Option.some.injEq] at h
  obtain ⟨x, hx, y, hy, z, hz, rfl⟩ := h
  rw [cross, eq_of_minor? hx, eq_of_minor? hy, eq_of_minor? hz]

end Point

namespace Face

/-- A point turned a clockwise quarter about a face, each step within the range. -/
def turnPoint? (f : Face) (p : Point) : Option Point := do
  let along ← f.normal.dot? p
  let across ← f.normal.cross? p
  let x ← Point.minor? f.normal.x along 1 across.x
  let y ← Point.minor? f.normal.y along 1 across.y
  let z ← Point.minor? f.normal.z along 1 across.z
  return ⟨x, y, z⟩

/-- The layer of an `n`-layer cube in which a point lies, each step within the range. -/
def depth? (f : Face) (p : Point) (n : Nat) : Option Nat := do
  let c ← f.normal.dot? p
  if c = n ∨ c = -n then return f.depth p n
  else
    let _ ← fit? (n - 1 - c)
    return f.depth p n

theorem turnPoint_of_turnPoint? {f : Face} {p q : Point} (h : f.turnPoint? p = some q) :
    f.turnPoint p = q := by
  simp only [turnPoint?, Option.bind_eq_bind, Option.bind_eq_some_iff, Option.pure_def,
    Option.some.injEq] at h
  obtain ⟨along, ha, across, hc, x, hx, y, hy, z, hz, rfl⟩ := h
  have hx := Point.eq_of_minor? hx
  have hy := Point.eq_of_minor? hy
  have hz := Point.eq_of_minor? hz
  rw [turnPoint, Point.dot_of_dot? ha, Point.cross_of_cross? hc]
  ext <;> simp [Int.mul_comm along, ← hx, ← hy, ← hz]

end Face

end Twisty
