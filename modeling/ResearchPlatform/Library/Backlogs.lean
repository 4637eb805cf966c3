import Mathlib.Data.List.Nodup
import Mathlib.Data.List.Sort

/-!
# Backlogs of rows that are served in order

Rows stand in the order of a key, and each has so many turns left. The backlog lists the
turns: all of the first row, then all of the next. Serving the first row that has turns
left takes the head off the backlog.
-/

namespace Backlogs

universe u v w
variable {ρ : Type u} {κ : Type v} {ν : Type w} [LinearOrder κ] {key : ρ → κ} {name : ρ → ν}
  {rest rest' : ρ → ℕ} {rows : List ρ}

theorem filter_orderedInsert (p : ρ → Bool) (a : ρ) {sorted : List ρ}
    (ordered : sorted.Pairwise fun x y => key x ≤ key y) :
    (sorted.orderedInsert (fun x y => key x ≤ key y) a).filter p =
      if p a then (sorted.filter p).orderedInsert (fun x y => key x ≤ key y) a else sorted.filter p := by
  induction sorted with
  | nil => by_cases hit : p a <;> simp [hit]
  | cons b sorted ih =>
    obtain ⟨least, ordered⟩ := List.pairwise_cons.mp ordered
    by_cases before : key a ≤ key b
    · rw [List.orderedInsert_cons_of_le (fun x y => key x ≤ key y) sorted before]
      by_cases hit : p a
      · -- whatever of the rest passes the filter comes after `b`
        have first : ∀ x ∈ (b :: sorted).filter p, key a ≤ key x := by
          intro x mem
          rcases List.mem_cons.mp (List.mem_filter.mp mem).1 with rfl | mem
          · exact before
          · exact before.trans (least x mem)
        have head : ((b :: sorted).filter p).orderedInsert (fun x y => key x ≤ key y) a =
            a :: (b :: sorted).filter p := by
          cases rest : (b :: sorted).filter p with
          | nil => rfl
          | cons x xs =>
            exact List.orderedInsert_cons_of_le (fun x y => key x ≤ key y) xs
              (first x (rest ▸ List.mem_cons_self))
        rw [if_pos hit, head, List.filter_cons_of_pos hit]
      · rw [if_neg hit, List.filter_cons_of_neg hit]
    · rw [List.orderedInsert_of_not_le (fun x y => key x ≤ key y) sorted before, List.filter_cons, List.filter_cons, ih ordered]
      by_cases hit : p a <;> by_cases hitb : p b <;> simp [hit, hitb, before]

/-- The sort is stable: it keeps the rows of a filter in their order. -/
theorem filter_insertionSort (p : ρ → Bool) (rows : List ρ) :
    (rows.insertionSort fun x y => key x ≤ key y).filter p =
      (rows.filter p).insertionSort fun x y => key x ≤ key y := by
  induction rows with
  | nil => rfl
  | cons a rows ih =>
    rw [List.insertionSort_cons, filter_orderedInsert p a (List.pairwise_insertionSort _ rows), ih]
    by_cases hit : p a <;> simp [hit]

theorem head?_insertionSort_filter (p : ρ → Bool) (rows : List ρ) :
    ((rows.filter p).insertionSort fun x y => key x ≤ key y).head? =
      (rows.insertionSort fun x y => key x ≤ key y).find? p := by
  rw [← filter_insertionSort, List.head?_filter]

/-- The turns that are left, in order. -/
def backlog (key : ρ → κ) (name : ρ → ν) (rest : ρ → ℕ) (rows : List ρ) : List ν :=
  (rows.insertionSort fun x y => key x ≤ key y).flatMap fun r => List.replicate (rest r) (name r)

end Backlogs
