import Twisty.Permutation.Rotation
import Mathlib.GroupTheory.Perm.List

/-!
# Where a rotation carries the entries of a list

`Carries σ l m` says that the entry of `l` at each place is the entry of `m` at the place that `σ`
gives. Carrying can be done in steps (`Carries.trans`).

`rotate is` carries by the permutation that `List.formPerm` makes of the places `is`, also when
places repeat (`carries_rotate`), and several rotations carry by the product of theirs
(`carries_foldl_rotate`).
-/

namespace Twisty

variable {α : Type*}

/-- The entry at each place of `l` is at the place `σ` gives in `m`, a list of the same length. -/
structure Carries (σ : ℕ → ℕ) (l m : List α) : Prop where
  length_eq : m.length = l.length
  getElem?_eq : ∀ i < l.length, m[σ i]? = l[i]?

namespace Carries

variable {σ τ : ℕ → ℕ} {l m k : List α}

theorem lt_length (h : Carries σ l m) {i : ℕ} (hi : i < l.length) : σ i < m.length := by
  have he := h.getElem?_eq i hi
  rw [List.getElem?_eq_getElem hi] at he
  exact (List.getElem?_eq_some_iff.1 he).1

theorem refl (l : List α) : Carries id l l :=
  ⟨rfl, fun _ _ => rfl⟩

/-- Carrying along one map and then along another is carrying along both. -/
theorem trans (h : Carries σ l m) (h' : Carries τ m k) : Carries (τ ∘ σ) l k := by
  refine ⟨h'.length_eq.trans h.length_eq, fun i hi => ?_⟩
  rw [Function.comp_apply, h'.getElem?_eq _ (h.lt_length hi), h.getElem?_eq i hi]

theorem congr (h : Carries σ l m) (he : ∀ i < l.length, σ i = τ i) : Carries τ l m :=
  ⟨h.length_eq, fun i hi => he i hi ▸ h.getElem?_eq i hi⟩

/-- Carrying to every place leaves no choice where the entries go. -/
theorem unique (h : Carries σ l m) (h' : Carries σ l k)
    (honto : ∀ i < l.length, ∃ j < l.length, σ j = i) : m = k := by
  refine List.ext_getElem? fun i => ?_
  by_cases hi : i < l.length
  · obtain ⟨j, hj, rfl⟩ := honto i hi
    rw [h.getElem?_eq j hj, h'.getElem?_eq j hj]
  · have hout := Nat.not_lt.1 hi
    rw [List.getElem?_eq_none (h.length_eq.trans_le hout),
      List.getElem?_eq_none (h'.length_eq.trans_le hout)]

/-- Different entries show where each place goes. -/
theorem eq_of_nodup (h : Carries σ l m) (h' : Carries τ l m) (hm : m.Nodup) :
    ∀ i < l.length, σ i = τ i := by
  intro i hi
  refine (List.getElem?_inj (h.lt_length hi) hm).1 ?_
  rw [h.getElem?_eq i hi, h'.getElem?_eq i hi]

end Carries

/-! ## Rotations -/

/-- Exchanging two entries carries each to the place of the other. -/
theorem carries_exchange {i j : ℕ} {l : List α} (hi : i < l.length) (hj : j < l.length) :
    Carries (Equiv.swap i j) l (exchange i j l) := by
  refine ⟨length_exchange i j l, fun x hx => ?_⟩
  rw [exchange_eq_set hi hj, List.getElem?_set, List.getElem?_set, Equiv.swap_apply_def]
  split_ifs <;> simp_all

/-- A rotation carries by the permutation made of its places. -/
theorem carries_rotate {is : List ℕ} {l : List α} (h : ∀ i ∈ is, i < l.length) :
    Carries is.formPerm l (rotate is l) := by
  induction is with
  | nil => exact Carries.refl l
  | cons i is ih =>
    cases is with
    | nil => exact Carries.refl l
    | cons j is =>
      have hr := ih fun x hx => h x (List.mem_cons_of_mem i hx)
      have he : Carries (Equiv.swap i j) (rotate (j :: is) l) (rotate (i :: j :: is) l) :=
        carries_exchange (by simpa using h i (by simp)) (by simpa using h j (by simp))
      exact hr.trans he

/-- The permutation of rotations done one after another. -/
def rotationsPerm (cs : List (List ℕ)) : Equiv.Perm ℕ :=
  cs.foldl (fun π c => c.formPerm * π) 1

/-- The permutation of two lists of cycles is that of the second after that of the first. -/
theorem rotationsPerm_append (cs ds : List (List ℕ)) :
    rotationsPerm (cs ++ ds) = rotationsPerm ds * rotationsPerm cs := by
  have key : ∀ (cs : List (List ℕ)) (π : Equiv.Perm ℕ),
      cs.foldl (fun π c => c.formPerm * π) π = rotationsPerm cs * π := by
    intro cs
    induction cs with
    | nil => intro π; rfl
    | cons c cs ih =>
      intro π
      rw [rotationsPerm, List.foldl_cons, List.foldl_cons, ih, ih, mul_one, mul_assoc]
  rw [rotationsPerm, List.foldl_append, key]
  rfl

theorem rotationsPerm_cons (c : List ℕ) (cs : List (List ℕ)) :
    rotationsPerm (c :: cs) = rotationsPerm cs * c.formPerm :=
  rotationsPerm_append [c] cs

/-- Rotations one after another carry by the product of their permutations. -/
theorem carries_foldl_rotate {cs : List (List ℕ)} {l : List α}
    (h : ∀ c ∈ cs, ∀ i ∈ c, i < l.length) :
    Carries (rotationsPerm cs) l (cs.foldl (fun l c => rotate c l) l) := by
  induction cs generalizing l with
  | nil => exact Carries.refl l
  | cons c cs ih =>
    have hc := carries_rotate (h c (by simp))
    have hs := ih (l := rotate c l) fun d hd i hi => by
      simpa using h d (List.mem_cons_of_mem c hd) i hi
    rw [rotationsPerm_cons, Equiv.Perm.coe_mul]
    exact hc.trans hs

end Twisty
