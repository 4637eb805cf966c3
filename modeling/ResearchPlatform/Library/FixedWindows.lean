import Mathlib.Algebra.Order.Monoid.Defs
import Mathlib.Data.List.Induction
import Mathlib.Order.Basic

/-!
# Counting in fixed windows

Arrivals grouped in windows of one length that start one after the other, each at
least a window's length behind the one before. An interval of that length meets at
most two of them.
-/

namespace FixedWindows

variable {T α : Type*} [LinearOrder T] {time : α → T} {p : α → Bool} {a b : T}

/-- The arrivals of kind `p` in an interval. -/
def hits (time : α → T) (p : α → Bool) (a b : T) (xs : List α) : Nat :=
  xs.countP fun x => p x && decide (a ≤ time x) && decide (time x ≤ b)

theorem hits_append (xs ys : List α) :
    hits time p a b (xs ++ ys) = hits time p a b xs + hits time p a b ys :=
  List.countP_append

theorem hits_le_countP (xs : List α) : hits time p a b xs ≤ xs.countP p :=
  List.countP_mono_left fun x _ hit => by simp_all

theorem hits_eq_zero {xs : List α} (h : ∀ x ∈ xs, ¬ (a ≤ time x ∧ time x ≤ b)) :
    hits time p a b xs = 0 :=
  List.countP_eq_zero.mpr fun x mem hit => h x mem (by simp_all)

theorem exists_of_hits {xs : List α} (h : hits time p a b xs ≠ 0) :
    ∃ x ∈ xs, a ≤ time x ∧ time x ≤ b := by
  by_contra none_
  exact h (hits_eq_zero fun x mem inside => none_ ⟨x, mem, inside⟩)

section Windows
variable [AddCommMonoid T] {w : T} {spans : List (T × List α)} {k : Nat}

/-- Windows with their starts, in order; the arrivals of each lie in it. -/
structure Tiled (time : α → T) (w : T) (spans : List (T × List α)) : Prop where
  inside : ∀ s ∈ spans, ∀ x ∈ s.2, s.1 ≤ time x ∧ time x < s.1 + w
  apart : spans.Pairwise fun s s' => s.1 + w ≤ s'.1

theorem Tiled.nil : Tiled time w [] where
  inside _ mem := nomatch mem
  apart := List.Pairwise.nil

theorem Tiled.tail {s : T × List α} (h : Tiled time w (s :: spans)) : Tiled time w spans :=
  ⟨fun s' mem => h.inside s' (List.mem_cons_of_mem s mem), (List.pairwise_cons.mp h.apart).2⟩

/-- A window is added behind the last one. -/
theorem Tiled.concat {s : T × List α} (h : Tiled time w spans)
    (inside : ∀ x ∈ s.2, s.1 ≤ time x ∧ time x < s.1 + w) (after : ∀ s' ∈ spans, s'.1 + w ≤ s.1) :
    Tiled time w (spans ++ [s]) where
  inside s' mem := by
    rcases List.mem_append.mp mem with mem | mem
    · exact h.inside s' mem
    · exact List.mem_singleton.mp mem ▸ inside
  apart := List.pairwise_append.mpr ⟨h.apart, List.pairwise_singleton _ _,
    fun s' mem s'' mem' => List.mem_singleton.mp mem' ▸ after s' mem⟩

/-- An arrival is added to the last window. -/
theorem Tiled.arrive {start : T} {xs : List α} {x : α} (h : Tiled time w (spans ++ [(start, xs)]))
    (inside : start ≤ time x ∧ time x < start + w) : Tiled time w (spans ++ [(start, xs ++ [x])]) := by
  have before : Tiled time w spans :=
    ⟨fun s mem => h.inside s (List.mem_append_left _ mem), (List.pairwise_append.mp h.apart).1⟩
  refine before.concat (fun y mem => ?_) fun s mem => ?_
  · rcases List.mem_append.mp mem with mem | mem
    · exact h.inside (start, xs) (List.mem_append_right _ (List.mem_singleton_self _)) y mem
    · exact List.mem_singleton.mp mem ▸ inside
  · exact (List.pairwise_append.mp h.apart).2.2 s mem (start, xs) (List.mem_singleton_self _)

/-- Windows that start behind the interval have no arrival in it. -/
theorem Tiled.hits_beyond (h : Tiled time w spans) (beyond : ∀ s ∈ spans, b < s.1) :
    hits time p a b (spans.flatMap Prod.snd) = 0 := by
  refine hits_eq_zero fun x mem inside => ?_
  obtain ⟨s, hs, hx⟩ := List.mem_flatMap.mp mem
  exact absurd (inside.2.trans_lt (beyond s hs)) (not_lt.mpr (h.inside s hs x hx).1)

variable [IsOrderedCancelAddMonoid T]

/-- Of the windows that start inside the interval, it meets one. -/
theorem Tiled.hits_after (h : Tiled time w spans) (bounded : ∀ s ∈ spans, s.2.countP p ≤ k)
    (after : ∀ s ∈ spans, a < s.1) : hits time p a (a + w) (spans.flatMap Prod.snd) ≤ k := by
  cases spans with
  | nil => exact Nat.zero_le k
  | cons s spans =>
    have later := (List.pairwise_cons.mp h.apart).1
    have rest : hits time p a (a + w) (spans.flatMap Prod.snd) = 0 := by
      refine h.tail.hits_beyond fun s' mem => ?_
      exact lt_of_lt_of_le (add_lt_add_left (after s List.mem_cons_self) w) (later s' mem)
    rw [List.flatMap_cons, hits_append, rest]
    exact (hits_le_countP s.2).trans (bounded s List.mem_cons_self)

/-- An interval of a window's length has at most twice what one window may have. -/
theorem Tiled.hits_le (h : Tiled time w spans) (bounded : ∀ s ∈ spans, s.2.countP p ≤ k) (a : T) :
    hits time p a (a + w) (spans.flatMap Prod.snd) ≤ 2 * k := by
  induction spans with
  | nil => exact Nat.zero_le _
  | cons s spans ih =>
    have bounded' : ∀ s' ∈ spans, s'.2.countP p ≤ k :=
      fun s' mem => bounded s' (List.mem_cons_of_mem s mem)
    rw [List.flatMap_cons, hits_append]
    by_cases missed : hits time p a (a + w) s.2 = 0
    · rw [missed, Nat.zero_add]
      exact ih h.tail bounded'
    · obtain ⟨x, hx, low, _⟩ := exists_of_hits missed
      have after : ∀ s' ∈ spans, a < s'.1 := fun s' mem =>
        lt_of_lt_of_le (low.trans_lt (h.inside s List.mem_cons_self x hx).2)
          ((List.pairwise_cons.mp h.apart).1 s' mem)
      have first : hits time p a (a + w) s.2 ≤ k :=
        (hits_le_countP s.2).trans (bounded s List.mem_cons_self)
      have rest := h.tail.hits_after bounded' after
      omega

end Windows

end FixedWindows
