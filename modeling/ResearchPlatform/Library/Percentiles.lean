import Mathlib.Algebra.Order.Floor.Semiring
import Mathlib.Algebra.Order.Field.Basic
import Mathlib.Data.List.GetD
import Mathlib.Data.List.Sort
import Mathlib.Tactic.Linarith

/-!
# Percentiles by linear interpolation

A sequence read at positions between its indices, and how many entries of a sorted
list lie below such a reading.
-/

namespace Percentiles

/-! ## Between two indices -/

section Interpolation
variable {K : Type*} [Field K] [LinearOrder K] [IsStrictOrderedRing K] [FloorSemiring K]
  {x : ℕ → K} {j k : K}

/-- The sequence at `k`, on the line between the two indices around it. -/
def interpolate (x : ℕ → K) (k : K) : K := x ⌊k⌋₊ + (k - ⌊k⌋₊) * (x (⌊k⌋₊ + 1) - x ⌊k⌋₊)

theorem floor_le_interpolate (mono : Monotone x) (h : 0 ≤ k) : x ⌊k⌋₊ ≤ interpolate x k := by
  have fraction : 0 ≤ k - ⌊k⌋₊ := sub_nonneg.mpr (Nat.floor_le h)
  have rise : 0 ≤ x (⌊k⌋₊ + 1) - x ⌊k⌋₊ := sub_nonneg.mpr (mono (Nat.le_succ _))
  exact le_add_of_nonneg_right (mul_nonneg fraction rise)

theorem interpolate_le_succ (mono : Monotone x) : interpolate x k ≤ x (⌊k⌋₊ + 1) := by
  have fraction : k - ⌊k⌋₊ ≤ 1 := sub_le_iff_le_add'.mpr (Nat.lt_floor_add_one k).le
  have rise : 0 ≤ x (⌊k⌋₊ + 1) - x ⌊k⌋₊ := sub_nonneg.mpr (mono (Nat.le_succ _))
  have part := mul_le_of_le_one_left rise fraction
  rw [interpolate]
  linarith

/-- A monotone sequence stays monotone between its indices. -/
theorem interpolate_mono (mono : Monotone x) (hj : 0 ≤ j) (h : j ≤ k) :
    interpolate x j ≤ interpolate x k := by
  rcases (Nat.floor_mono h).eq_or_lt with same | before
  · -- on one line
    have rise : 0 ≤ x (⌊k⌋₊ + 1) - x ⌊k⌋₊ := sub_nonneg.mpr (mono (Nat.le_succ _))
    rw [interpolate, interpolate, same]
    gcongr
  · calc interpolate x j ≤ x (⌊j⌋₊ + 1) := interpolate_le_succ mono
      _ ≤ x ⌊k⌋₊ := mono before
      _ ≤ interpolate x k := floor_le_interpolate mono (hj.trans h)

/-- The reading is above the last index before it only where the sequence rises there. -/
theorem lt_interpolate_iff (h : 0 < k) :
    x (⌈k⌉₊ - 1) < interpolate x k ↔ x (⌈k⌉₊ - 1) < x ⌈k⌉₊ := by
  rcases (Nat.floor_le_ceil k).eq_or_lt with whole | before
  · have exact_ : k - ⌊k⌋₊ = 0 :=
      le_antisymm (sub_nonpos.mpr (whole ▸ Nat.le_ceil k)) (sub_nonneg.mpr (Nat.floor_le h.le))
    rw [interpolate, exact_, zero_mul, add_zero, whole]
  · have next : ⌈k⌉₊ = ⌊k⌋₊ + 1 := le_antisymm (Nat.ceil_le_floor_add_one k) before
    have fraction : 0 < k - ⌊k⌋₊ := sub_pos.mpr (Nat.lt_ceil.mp before)
    rw [interpolate, next, Nat.add_sub_cancel, lt_add_iff_pos_right, mul_pos_iff_of_pos_left fraction,
      sub_pos]

end Interpolation

/-! ## Sorted lists -/

section Sorted
variable {K : Type*} {xs : List K} {t : K}

/-- The list as a sequence that stays at its last entry. -/
def held (xs : List K) (default : K) (i : ℕ) : K := xs.getD (min i (xs.length - 1)) default

theorem held_of_le (default : K) {i : ℕ} (hi : i ≤ xs.length - 1) :
    held xs default i = xs.getD i default := by
  rw [held, min_eq_left hi]

theorem held_of_lt (default : K) {i : ℕ} (hi : i < xs.length) : held xs default i = xs[i] := by
  rw [held_of_le default (Nat.le_sub_one_of_lt hi), List.getD_eq_getElem _ _ hi]

theorem held_mem (some_ : xs ≠ []) (default : K) (i : ℕ) : held xs default i ∈ xs := by
  have bound : min i (xs.length - 1) < xs.length := by
    have positive := List.length_pos_iff.mpr some_
    omega
  rw [held, List.getD_eq_getElem _ _ bound]
  exact List.getElem_mem bound

variable [LinearOrder K]

theorem held_mono (sorted : xs.Pairwise (· ≤ ·)) (default : K) : Monotone (held xs default) := by
  intro i j h
  rcases xs.length.eq_zero_or_pos with none | some_
  · rw [held, held, List.length_eq_zero_iff.mp none]
    rfl
  · have bound (i : ℕ) : min i (xs.length - 1) < xs.length := by omega
    rw [held, held, List.getD_eq_getElem _ _ (bound i), List.getD_eq_getElem _ _ (bound j)]
    exact sorted.sortedLE.getElem_le_getElem_of_le (min_le_min_right _ h)

/-- In a sorted list the entries below a bound come first. -/
theorem lt_countP_iff (sorted : xs.Pairwise (· ≤ ·)) {i : ℕ} (hi : i < xs.length) :
    i < xs.countP (· < t) ↔ xs[i] < t := by
  induction xs generalizing i with
  | nil => exact absurd hi (Nat.not_lt_zero i)
  | cons x xs ih =>
    obtain ⟨least, sorted⟩ := List.pairwise_cons.mp sorted
    by_cases below : x < t
    · rw [List.countP_cons_of_pos (by simpa using below)]
      cases i with
      | zero => simp [below]
      | succ i => simpa using ih sorted (Nat.lt_of_succ_lt_succ hi)
    · have none_ : xs.countP (· < t) = 0 :=
        List.countP_eq_zero.mpr fun y mem => by simpa using (not_lt.mp below).trans (least y mem)
      rw [List.countP_cons_of_neg (by simpa using below), none_]
      refine iff_of_false (Nat.not_lt_zero i) (not_lt.mpr ((not_lt.mp below).trans ?_))
      cases i with
      | zero => exact le_rfl
      | succ i => exact least _ (List.getElem_mem _)

/-- At least `n` entries are below the bound when the one of that rank is. -/
theorem le_countP_iff (sorted : xs.Pairwise (· ≤ ·)) {n : ℕ} (hn : n ≤ xs.length) (default : K) :
    n ≤ xs.countP (· < t) ↔ n = 0 ∨ held xs default (n - 1) < t := by
  cases n with
  | zero => simp
  | succ n =>
    rw [Nat.succ_le_iff, lt_countP_iff sorted hn, Nat.add_sub_cancel, held_of_lt default hn]
    simp

theorem countP_le_add (t : K) (xs : List K) :
    xs.countP (t ≤ ·) + xs.countP (· < t) = xs.length := by
  rw [List.length_eq_countP_add_countP (t ≤ ·), Nat.add_left_cancel_iff]
  simp only [← not_le, Bool.not_eq_true, decide_eq_false_iff_not, decide_not]

end Sorted

end Percentiles
