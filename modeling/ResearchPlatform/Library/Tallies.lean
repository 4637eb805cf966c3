import Mathlib.Algebra.BigOperators.Group.List.Basic
import Mathlib.Data.List.Nodup
import Mathlib.Data.List.Sort

/-!
# Tallies that keep the order of insertion, and rankings by score

A tally is a list of keys with what each has gained. Gains are added one by one, and a
key stands where it was first seen. A ranking is stable: equal scores keep their order.
-/

namespace Tallies

/-! ## Adding up -/

section Gains
universe u v
variable {κ : Type u} {ρ : Type v} [DecidableEq κ] [AddCommMonoid ρ] {tally gains : List (κ × ρ)}
  {key k : κ} {gain r : ρ}

/-- One gain; a new key comes last. -/
def add (tally : List (κ × ρ)) (key : κ) (gain : ρ) : List (κ × ρ) :=
  if tally.any fun x => x.1 = key then
    tally.map fun x => if x.1 = key then (x.1, x.2 + gain) else x
  else tally ++ [(key, gain)]

def addAll (tally gains : List (κ × ρ)) : List (κ × ρ) :=
  gains.foldl (fun acc g => add acc g.1 g.2) tally

/-- What a key gains altogether. -/
def total (gains : List (κ × ρ)) (key : κ) : ρ := ((gains.filter fun g => g.1 = key).map Prod.snd).sum

theorem add_known (h : key ∈ tally.map Prod.fst) :
    add tally key gain = tally.map fun x => if x.1 = key then (x.1, x.2 + gain) else x :=
  if_pos (by simpa using h)

theorem add_new (h : key ∉ tally.map Prod.fst) : add tally key gain = tally ++ [(key, gain)] :=
  if_neg (by simpa using h)

theorem keys_add_known (h : key ∈ tally.map Prod.fst) :
    (add tally key gain).map Prod.fst = tally.map Prod.fst := by
  rw [add_known h, List.map_map]
  refine List.map_congr_left fun x _ => ?_
  by_cases same : x.1 = key <;> simp [same]

theorem keys_add_new (h : key ∉ tally.map Prod.fst) :
    (add tally key gain).map Prod.fst = tally.map Prod.fst ++ [key] := by
  rw [add_new h, List.map_append, List.map_singleton]

theorem nodup_add (nodup : (tally.map Prod.fst).Nodup) (key : κ) (gain : ρ) :
    ((add tally key gain).map Prod.fst).Nodup := by
  by_cases known : key ∈ tally.map Prod.fst
  · rwa [keys_add_known known]
  · rw [keys_add_new known]
    exact nodup.append (List.nodup_singleton key) (by simpa using known)

@[simp] theorem total_nil : total ([] : List (κ × ρ)) k = 0 := rfl

@[simp] theorem total_append (xs ys : List (κ × ρ)) : total (xs ++ ys) k = total xs k + total ys k := by
  simp [total]

theorem total_cons (x : κ × ρ) (xs : List (κ × ρ)) :
    total (x :: xs) k = (if x.1 = k then x.2 else 0) + total xs k := by
  by_cases same : x.1 = k <;> simp [total, same]

theorem total_of_not_mem (h : k ∉ tally.map Prod.fst) : total tally k = 0 := by
  induction tally with
  | nil => rfl
  | cons x rest ih =>
    rw [List.map_cons, List.mem_cons, not_or] at h
    rw [total_cons, if_neg (Ne.symm h.1), ih h.2, zero_add]

theorem total_of_mem (nodup : (tally.map Prod.fst).Nodup) (h : (k, r) ∈ tally) : total tally k = r := by
  induction tally with
  | nil => cases h
  | cons x rest ih =>
    rw [List.map_cons, List.nodup_cons] at nodup
    rw [total_cons]
    rcases List.mem_cons.mp h with rfl | h
    · rw [if_pos rfl, total_of_not_mem nodup.1, add_zero]
    · have other : x.1 ≠ k := fun same => nodup.1 (same ▸ List.mem_map_of_mem h)
      rw [if_neg other, ih nodup.2 h, zero_add]

theorem total_add (nodup : (tally.map Prod.fst).Nodup) (k key : κ) (gain : ρ) :
    total (add tally key gain) k = total tally k + if key = k then gain else 0 := by
  by_cases known : key ∈ tally.map Prod.fst
  · rw [add_known known]
    induction tally with
    | nil => cases known
    | cons x rest ih =>
      rw [List.map_cons, List.nodup_cons] at nodup
      rw [List.map_cons, total_cons, total_cons]
      by_cases here : x.1 = key
      · have other (y : κ × ρ) (mem : y ∈ rest) : y.1 ≠ key := fun same =>
          nodup.1 (here.trans same.symm ▸ List.mem_map_of_mem mem)
        have others : rest.map (fun y => if y.1 = key then (y.1, y.2 + gain) else y) = rest :=
          (List.map_congr_left fun y mem => if_neg (other y mem)).trans (List.map_id rest)
        rw [others, if_pos here, ← here]
        by_cases asked : x.1 = k <;> simp [asked, add_right_comm]
      · have later := (List.mem_cons.mp known).resolve_left (Ne.symm here)
        rw [if_neg here, ih nodup.2 later, add_assoc]
  · rw [add_new known, total_append, total_cons, total_nil, add_zero]

theorem nodup_addAll (nodup : (tally.map Prod.fst).Nodup) (gains : List (κ × ρ)) :
    ((addAll tally gains).map Prod.fst).Nodup := by
  induction gains generalizing tally with
  | nil => exact nodup
  | cons g rest ih => exact ih (nodup_add nodup g.1 g.2)

theorem total_addAll (nodup : (tally.map Prod.fst).Nodup) (gains : List (κ × ρ)) (k : κ) :
    total (addAll tally gains) k = total tally k + total gains k := by
  induction gains generalizing tally with
  | nil => simp [addAll]
  | cons g rest ih =>
    rw [total_cons, ← add_assoc, ← total_add nodup]
    exact ih (nodup_add nodup g.1 g.2)

/-- Keys that the gains name once each stand in their order behind those that are known. -/
theorem keys_addAll (once : (gains.map Prod.fst).Nodup) (tally : List (κ × ρ)) :
    (addAll tally gains).map Prod.fst =
      tally.map Prod.fst ++ (gains.map Prod.fst).filter fun key => key ∉ tally.map Prod.fst := by
  induction gains generalizing tally with
  | nil => simp [addAll]
  | cons g rest ih =>
    rw [List.map_cons, List.nodup_cons] at once
    have next : (addAll tally (g :: rest)).map Prod.fst = _ := ih once.2 (add tally g.1 g.2)
    by_cases known : g.1 ∈ tally.map Prod.fst
    · rw [next, keys_add_known known, List.map_cons, List.filter_cons_of_neg (by simpa using known)]
    · have others : (rest.map Prod.fst).filter (fun key => key ∉ tally.map Prod.fst ++ [g.1]) =
          (rest.map Prod.fst).filter fun key => key ∉ tally.map Prod.fst := by
        refine List.filter_congr fun key mem => ?_
        have other : key ≠ g.1 := fun same => once.1 (same ▸ mem)
        simp [other]
      rw [next, keys_add_new known, others, List.map_cons, List.filter_cons_of_pos (by simpa using known),
        List.append_assoc, List.singleton_append]

end Gains

/-! ## Ranking -/

section Ranking
variable {α σ : Type*} [LinearOrder σ] (score : α → σ) (xs : List α)

/-- The highest score first. -/
def ranking : List α := xs.insertionSort fun a b => score b ≤ score a

theorem ranking_perm : (ranking score xs).Perm xs := List.perm_insertionSort _ xs

local instance ranking_total : Std.Total fun a b : α => score b ≤ score a := ⟨fun a b => le_total (score b) (score a)⟩

local instance ranking_trans : IsTrans α fun a b => score b ≤ score a := ⟨fun _ _ _ hab hbc => hbc.trans hab⟩

theorem ranking_pairwise : (ranking score xs).Pairwise fun a b => score b ≤ score a :=
  List.pairwise_insertionSort _ xs

theorem ranking_map {β : Type*} (f : β → α) (ys : List β) :
    ranking score (ys.map f) = (ranking (fun y => score (f y)) ys).map f := by
  rw [ranking, ranking]
  exact (List.map_insertionSort (fun a b => score (f b) ≤ score (f a)) (fun a b => score b ≤ score a)
    f ys fun _ _ _ _ => Iff.rfl).symm

/-- The entries of one score keep their order. -/
theorem ranking_filter (s : σ) :
    (ranking score xs).filter (score · = s) = xs.filter (score · = s) := by
  have tied : (xs.filter (score · = s)).Pairwise fun a b => score b ≤ score a := by
    rw [List.pairwise_filter]
    refine List.pairwise_of_forall fun a b ha hb => ?_
    rw [of_decide_eq_true ha, of_decide_eq_true hb]
  have inside := (List.sublist_insertionSort tied List.filter_sublist).filter (score · = s)
  rw [List.filter_filter] at inside
  simp only [Bool.and_self] at inside
  exact (inside.eq_of_length ((ranking_perm score xs).filter _).length_eq.symm).symm

/-- A higher score comes first, and of equal ones that which stood first. -/
theorem ranking_stable : (ranking score xs).Pairwise fun a b =>
    score b < score a ∨ score a = score b ∧ [a, b].Sublist xs := by
  rw [List.pairwise_iff_forall_sublist]
  intro a b pair
  have order := List.pairwise_iff_forall_sublist.mp (ranking_pairwise score xs) pair
  rcases order.lt_or_eq with above | same
  · exact .inl above
  · refine .inr ⟨same.symm, ?_⟩
    have tied := pair.filter (score · = score a)
    rw [ranking_filter, List.filter_eq_self.mpr (by simp [same])] at tied
    exact tied.trans List.filter_sublist

/-- No score that is left out is higher than one at the top. -/
theorem score_le_of_omitted {n : Nat} {a b : α} (ha : a ∈ (ranking score xs).take n) (hb : b ∈ xs)
    (omitted : b ∉ (ranking score xs).take n) : score b ≤ score a := by
  have whole := List.take_append_drop n (ranking score xs)
  have sorted := ranking_pairwise score xs
  rw [← whole, List.pairwise_append] at sorted
  refine sorted.2.2 a ha b ?_
  have mem := (ranking_perm score xs).mem_iff.mpr hb
  rw [← whole] at mem
  exact (List.mem_append.mp mem).resolve_left omitted

/-- What scores higher than an entry at the top stands there before it. -/
theorem before_of_score_lt {n : Nat} {a b : α} (ha : a ∈ (ranking score xs).take n) (hb : b ∈ xs)
    (higher : score a < score b) : [b, a].Sublist ((ranking score xs).take n) := by
  have top : b ∈ (ranking score xs).take n := by
    by_contra omitted
    exact absurd (score_le_of_omitted score xs ha hb omitted) (not_le_of_gt higher)
  have sorted := (ranking_pairwise score xs).sublist (List.take_sublist n _)
  obtain ⟨front, rest, whole⟩ := List.append_of_mem ha
  rw [whole, List.pairwise_append, List.pairwise_cons] at sorted
  rw [whole] at top ⊢
  rcases List.mem_append.mp top with inFront | inRest
  · exact (List.singleton_sublist.mpr inFront).append (List.singleton_sublist.mpr List.mem_cons_self)
  · rcases List.mem_cons.mp inRest with rfl | behind
    · exact absurd higher (lt_irrefl _)
    · exact absurd (sorted.2.1.1 b behind) (not_le_of_gt higher)

/-- The first entry stays first unless another scores higher. -/
theorem ranking_cons {a : α} (highest : ∀ b ∈ xs, score b ≤ score a) :
    ranking score (a :: xs) = a :: ranking score xs := by
  have sorted := ranking_perm score xs
  rw [ranking, List.insertionSort_cons]
  cases others : ranking score xs with
  | nil =>
    rw [ranking] at others
    rw [others]
    rfl
  | cons b rest =>
    have lower : score b ≤ score a := by
      apply highest
      rw [← sorted.mem_iff, others]
      exact List.mem_cons_self
    rw [ranking] at others
    rw [others, List.orderedInsert_cons, if_pos lower]

end Ranking

end Tallies
