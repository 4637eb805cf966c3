import Mathlib.Data.List.Perm.Basic
import Mathlib.Data.List.Sort
import Mathlib.Order.Basic

/-!
# Pages by the last key

Rows are read in falling order of a key, a page at a time, and each page continues
from the key of the last row of the one before, strictly below it. Rows that share a
key are left out where a page ends between them, and nowhere else.
-/

namespace KeysetPages

variable {α K : Type*}

/-- No page ends between two equal keys. -/
def TieFree (limit : Nat) (keys : List K) : Prop :=
  ∀ k, 0 < k → k * limit < keys.length → keys[k * limit - 1]? ≠ keys[k * limit]?

theorem tieFree_of_length_le {limit : Nat} {keys : List K} (h : keys.length ≤ limit) :
    TieFree limit keys := by
  intro k positive inside
  have := Nat.le_mul_of_pos_left limit positive
  omega

theorem tieFree_of_nodup {limit : Nat} {keys : List K} (positive : 0 < limit) (distinct : keys.Nodup) :
    TieFree limit keys := by
  intro k hk inside same
  have := Nat.mul_pos hk positive
  rw [List.getElem?_eq_getElem inside, List.getElem?_eq_getElem (by omega), Option.some.injEq,
    distinct.getElem_inj_iff] at same
  omega

theorem tieFree_drop {limit : Nat} {keys : List K} (positive : 0 < limit) (more : limit < keys.length) :
    TieFree limit keys ↔ keys[limit - 1]? ≠ keys[limit]? ∧ TieFree limit (keys.drop limit) := by
  have shift : ∀ k, 0 < k → (keys.drop limit)[k * limit - 1]? = keys[(k + 1) * limit - 1]? ∧
      (keys.drop limit)[k * limit]? = keys[(k + 1) * limit]? := by
    intro k hk
    have inside := Nat.le_mul_of_pos_left limit hk
    rw [List.getElem?_drop, List.getElem?_drop, Nat.succ_mul]
    constructor
    · congr 1
      omega
    · congr 1
      omega
  constructor
  · intro free
    refine ⟨by simpa using free 1 Nat.one_pos (by omega), fun k hk inside => ?_⟩
    obtain ⟨before, behind⟩ := shift k hk
    rw [List.length_drop] at inside
    rw [before, behind]
    exact free (k + 1) (Nat.succ_pos k) (by rw [Nat.succ_mul]; omega)
  · rintro ⟨first, free⟩ k hk inside
    match k with
    | 1 => simpa using first
    | k + 2 =>
      obtain ⟨before, behind⟩ := shift (k + 1) (Nat.succ_pos k)
      rw [← before, ← behind]
      refine free (k + 1) (Nat.succ_pos k) ?_
      rw [List.length_drop]
      rw [show k + 2 = k + 1 + 1 from rfl, Nat.succ_mul] at inside
      omega

variable [LinearOrder K] {key : α → K}

/-- A way to put rows in falling order of their keys. -/
structure Sorts (key : α → K) (order : List α → List α) : Prop where
  perm : ∀ rows, (order rows).Perm rows
  falling : ∀ rows, (order rows).Pairwise fun x y => key y ≤ key x

/-- What the pages of a list of rows yield, one behind the other. -/
inductive Pages (key : α → K) (order : List α → List α) (limit : Nat) : List α → List α → Prop
  | last {rows : List α} (fits : (order rows).length ≤ limit) : Pages key order limit rows (order rows)
  | next {rows items : List α} {b : α} (more : limit < (order rows).length)
      (bound : b ∈ ((order rows).take limit).getLast?)
      (rest : Pages key order limit (rows.filter fun x => key x < key b) items) :
      Pages key order limit rows ((order rows).take limit ++ items)

section Order
variable {order : List α → List α} {rows : List α} {limit : Nat}

theorem Sorts.keys_eq (h : Sorts key order) {xs : List α} (same : rows.Perm xs)
    (falling : xs.Pairwise fun x y => key y ≤ key x) : (order rows).map key = xs.map key := by
  refine List.Perm.eq_of_pairwise' (r := (· ≥ ·)) ?_ ?_ (((h.perm rows).trans same).map key)
  · exact List.pairwise_map.mpr (h.falling rows)
  · exact List.pairwise_map.mpr falling

/-- The rows of a page have keys from the bound on, the rows behind it up to the bound. -/
theorem Sorts.around (h : Sorts key order) {b : α} (bound : b ∈ ((order rows).take limit).getLast?) :
    (∀ x ∈ (order rows).take limit, key b ≤ key x) ∧ ∀ x ∈ (order rows).drop limit, key x ≤ key b := by
  have falling := h.falling rows
  rw [← List.take_append_drop limit (order rows)] at falling
  obtain ⟨page, _, across⟩ := List.pairwise_append.mp falling
  obtain ⟨init, hinit⟩ := List.getLast?_eq_some_iff.mp bound
  refine ⟨fun x mem => ?_, fun x mem => across b (List.mem_of_getLast? bound) x mem⟩
  rw [hinit] at page mem
  rcases List.mem_append.mp mem with mem | mem
  · exact (List.pairwise_append.mp page).2.2 x mem b (List.mem_singleton_self b)
  · exact List.mem_singleton.mp mem ▸ le_rfl

/-- What is left below the bound are rows behind the page. -/
theorem Sorts.below (h : Sorts key order) {b : α} (bound : b ∈ ((order rows).take limit).getLast?) :
    (rows.filter fun x => key x < key b).Perm
      (((order rows).drop limit).filter fun x => key x < key b) := by
  have page : ((order rows).take limit).filter (fun x => key x < key b) = [] :=
    List.filter_eq_nil_iff.mpr fun x mem below =>
      absurd (of_decide_eq_true below) (not_lt.mpr ((h.around bound).1 x mem))
  have whole := (h.perm rows).symm.filter fun x => key x < key b
  rwa [← List.take_append_drop limit (order rows), List.filter_append, page, List.nil_append] at whole

theorem Sorts.mem_of_bound (h : Sorts key order) {b : α} (bound : b ∈ ((order rows).take limit).getLast?) :
    b ∈ rows :=
  (h.perm rows).mem_iff.mp (List.mem_of_mem_take (List.mem_of_getLast? bound))

theorem Sorts.fewer (h : Sorts key order) {b : α} (bound : b ∈ ((order rows).take limit).getLast?) :
    (rows.filter fun x => key x < key b).length < rows.length :=
  List.length_filter_lt_length_iff_exists.mpr ⟨b, h.mem_of_bound bound, by simp⟩

/-- A page that is not the last one has a last row. -/
theorem exists_bound (positive : 0 < limit) (more : limit < rows.length) :
    ∃ b, b ∈ (rows.take limit).getLast? := by
  have some_ : rows.take limit ≠ [] := by
    rw [← List.length_pos_iff, List.length_take]
    omega
  exact ⟨_, List.getLast?_eq_some_getLast some_⟩

/-- There is always a last page. -/
theorem Sorts.exists_pages (h : Sorts key order) (positive : 0 < limit) (rows : List α) :
    ∃ items, Pages key order limit rows items := by
  induction hn : rows.length using Nat.strong_induction_on generalizing rows with
  | h n ih =>
    subst hn
    by_cases fits : (order rows).length ≤ limit
    · exact ⟨_, .last fits⟩
    · have more : limit < (order rows).length := Nat.not_le.mp fits
      obtain ⟨b, bound⟩ := exists_bound positive more
      obtain ⟨items, rest⟩ := ih _ (h.fewer bound) _ rfl
      exact ⟨_, .next more bound rest⟩

theorem Pages.mem {items : List α} (h : Sorts key order) (pages : Pages key order limit rows items) :
    ∀ x ∈ items, x ∈ rows := by
  induction pages with
  | last fits => exact fun x mem => (h.perm _).mem_iff.mp mem
  | next more bound rest ih =>
    intro x mem
    rcases List.mem_append.mp mem with mem | mem
    · exact (h.perm _).mem_iff.mp (List.mem_of_mem_take mem)
    · exact (List.mem_filter.mp (ih x mem)).1

/-- The pages come in falling order. -/
theorem Pages.falling {items : List α} (h : Sorts key order) (pages : Pages key order limit rows items) :
    items.Pairwise fun x y => key y ≤ key x := by
  induction pages with
  | last fits => exact h.falling _
  | @next rows items b more bound rest ih =>
    refine List.pairwise_append.mpr ⟨(h.falling rows).sublist (List.take_sublist _ _), ih, ?_⟩
    intro x page y mem
    have low : key y < key b := of_decide_eq_true (List.mem_filter.mp (rest.mem h y mem)).2
    exact low.le.trans ((h.around bound).1 x page)

theorem Pages.length_le {items : List α} (h : Sorts key order) (pages : Pages key order limit rows items) :
    items.length ≤ rows.length := by
  induction pages with
  | last fits => exact (h.perm _).length_eq.le
  | @next rows items b more bound rest ih =>
    have left := (h.below bound).length_eq.le.trans (List.length_filter_le _ _)
    have whole := (h.perm rows).length_eq
    rw [List.length_append, List.length_take]
    rw [List.length_drop] at left
    omega

/-- Nothing is left out behind a page exactly when the next row has another key. -/
theorem Sorts.complete_iff (h : Sorts key order) (positive : 0 < limit) {b : α}
    (more : limit < (order rows).length) (bound : b ∈ ((order rows).take limit).getLast?) :
    ((order rows).drop limit).filter (fun x => key x < key b) = (order rows).drop limit ↔
      ((order rows).map key)[limit - 1]? ≠ ((order rows).map key)[limit]? := by
  have last : (order rows)[limit - 1]? = some b := by
    rw [List.getLast?_eq_getElem?, List.length_take, min_eq_left more.le, List.getElem?_take,
      if_pos (by omega)] at bound
    exact bound
  have first : (order rows)[limit]? = some (order rows)[limit] := List.getElem?_eq_getElem more
  have behind : (order rows)[limit] ∈ (order rows).drop limit := by
    rw [List.drop_eq_getElem_cons more]
    exact List.mem_cons_self
  rw [List.getElem?_map, List.getElem?_map, last, first, List.filter_eq_self]
  simp only [Option.map_some, ne_eq, Option.some.injEq, decide_eq_true_eq]
  constructor
  · exact fun below same => absurd (below _ behind) (same ▸ lt_irrefl _)
  · intro differ x mem
    have falling := (h.falling rows).sublist (List.drop_sublist limit (order rows))
    rw [List.drop_eq_getElem_cons more] at falling mem
    have low : key (order rows)[limit] < key b :=
      lt_of_le_of_ne ((h.around bound).2 _ behind) (Ne.symm differ)
    rcases List.mem_cons.mp mem with rfl | mem
    · exact low
    · exact lt_of_le_of_lt ((List.pairwise_cons.mp falling).1 x mem) low

/-- The pages yield every row once exactly when no page ends between equal keys. -/
theorem Pages.perm_iff {items : List α} (h : Sorts key order) (positive : 0 < limit)
    (pages : Pages key order limit rows items) :
    items.Perm rows ↔ TieFree limit ((order rows).map key) := by
  induction pages with
  | @last rows fits =>
    exact iff_of_true (h.perm rows) (tieFree_of_length_le (by rwa [List.length_map]))
  | @next rows items b more bound rest ih =>
    have split : ((order rows).take limit ++ items).Perm rows ↔ items.Perm ((order rows).drop limit) := by
      have whole := (h.perm rows).symm
      nth_rewrite 1 [← List.take_append_drop limit (order rows)] at whole
      exact ⟨fun same => (List.perm_append_left_iff _).mp (same.trans whole),
        fun same => ((List.perm_append_left_iff _).mpr same).trans whole.symm⟩
    rw [split, tieFree_drop positive (by rwa [List.length_map]), ← h.complete_iff positive more bound,
      ← List.map_drop]
    constructor
    · intro same
      have few := rest.length_le h
      have kept : ((order rows).drop limit).filter (fun x => key x < key b) = (order rows).drop limit := by
        refine List.filter_eq_self.mpr (List.length_filter_eq_length_iff.mp ?_)
        have most := List.length_filter_le (fun x => decide (key x < key b)) ((order rows).drop limit)
        have := (h.below bound).length_eq
        have := same.length_eq
        omega
      have left : (rows.filter fun x => key x < key b).Perm ((order rows).drop limit) :=
        kept ▸ h.below bound
      refine ⟨kept, ?_⟩
      rw [← h.keys_eq left ((h.falling rows).sublist (List.drop_sublist _ _))]
      exact ih.mp (same.trans left.symm)
    · rintro ⟨kept, free⟩
      have left : (rows.filter fun x => key x < key b).Perm ((order rows).drop limit) :=
        kept ▸ h.below bound
      rw [← h.keys_eq left ((h.falling rows).sublist (List.drop_sublist _ _))] at free
      exact (ih.mpr free).trans left

end Order

end KeysetPages
