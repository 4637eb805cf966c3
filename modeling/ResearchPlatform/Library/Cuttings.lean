import ResearchPlatform.Library.Segments

/-!
# Lists cut behind chosen positions

A list is cut behind each of its positions that is chosen, into groups that follow each
other. Fewer positions give groups that are joined from the groups of more.
-/

namespace Cuttings

open Segments

variable {α : Type*}

/-- The groups of what is open and of the elements from position `i` on. -/
def cutFrom (behind : Nat → Bool) : Nat → List α → List α → List (List α)
  | _, opened, [] => if opened.isEmpty then [] else [opened]
  | i, opened, x :: rest =>
    if behind i then (opened ++ [x]) :: cutFrom behind (i + 1) [] rest
    else cutFrom behind (i + 1) (opened ++ [x]) rest

section Groups
variable (behind : Nat → Bool)

theorem cutFrom_flatten (i : Nat) (opened xs : List α) :
    (cutFrom behind i opened xs).flatten = opened ++ xs := by
  induction xs generalizing i opened with
  | nil => cases opened <;> simp [cutFrom]
  | cons x rest ih =>
    rw [cutFrom]
    split
    · rw [List.flatten_cons, ih, List.nil_append, List.append_assoc, List.singleton_append]
    · rw [ih, List.append_assoc, List.singleton_append]

theorem ne_nil_of_mem_cutFrom {i : Nat} {opened xs group : List α}
    (h : group ∈ cutFrom behind i opened xs) : group ≠ [] := by
  induction xs generalizing i opened with
  | nil => cases opened <;> simp_all [cutFrom]
  | cons x rest ih =>
    rw [cutFrom] at h
    split at h
    · rcases List.mem_cons.mp h with rfl | h
      · exact List.append_ne_nil_of_right_ne_nil _ (List.cons_ne_nil x [])
      · exact ih h
    · exact ih h

theorem cutFrom_ne_nil (i : Nat) (opened : List α) {xs : List α} (h : xs ≠ []) :
    cutFrom behind i opened xs ≠ [] := by
  intro none_
  have whole := cutFrom_flatten behind i opened xs
  rw [none_] at whole
  exact h (List.append_eq_nil_iff.mp whole.symm).2

end Groups

/-! ## Fewer positions -/

/-- Each group of the coarse list is some of the fine groups, joined. -/
def Coarsens (merge : List α → α) (coarse fine : List α) : Prop :=
  ∃ parts : List (List α), (∀ part ∈ parts, part ≠ []) ∧ parts.flatten = fine ∧
    parts.map merge = coarse

/-- Groups that are closed for more positions and open for fewer are put in front. -/
theorem cutFrom_coarsens_from {few many : Nat → Bool} (sub : ∀ i, few i = true → many i = true)
    (i : Nat) (closed : List (List α)) (opened xs : List α) (some_ : ∀ group ∈ closed, group ≠ []) :
    Coarsens List.flatten (cutFrom few i (closed.flatten ++ opened) xs)
      (closed ++ cutFrom many i opened xs) := by
  induction xs generalizing i closed opened with
  | nil =>
    by_cases none_ : closed = [] ∧ opened = []
    · obtain ⟨rfl, rfl⟩ := none_
      exact ⟨[], fun _ mem => (nomatch mem), rfl, rfl⟩
    · have left : ¬ (closed.flatten ++ opened).isEmpty := by
        rw [List.isEmpty_iff, List.append_eq_nil_iff, List.flatten_eq_nil_iff]
        rintro ⟨empty, rfl⟩
        refine none_ ⟨List.eq_nil_iff_forall_not_mem.mpr fun g mem => some_ g mem (empty g mem), rfl⟩
      refine ⟨[closed ++ cutFrom many i opened []], fun part mem => ?_, by simp, ?_⟩
      · rw [List.mem_singleton.mp mem]
        intro whole
        have flat := congrArg List.flatten whole
        rw [List.flatten_append, cutFrom_flatten, List.append_nil] at flat
        exact left (List.isEmpty_iff.mpr flat)
      · have one : cutFrom few i (closed.flatten ++ opened) [] = [closed.flatten ++ opened] :=
          if_neg left
        rw [one, List.map_singleton, List.flatten_append, cutFrom_flatten, List.append_nil]
  | cons x rest ih =>
    rw [cutFrom, cutFrom]
    by_cases both : few i
    · -- the open group ends in both lists
      obtain ⟨parts, nonempty, fine, coarse⟩ := ih (i + 1) [] [] fun _ mem => nomatch mem
      rw [if_pos both, if_pos (sub i both)]
      refine ⟨(closed ++ [opened ++ [x]]) :: parts, List.forall_mem_cons.mpr ⟨by simp, nonempty⟩, ?_, ?_⟩
      · rw [List.flatten_cons, fine, List.append_assoc]
        rfl
      · rw [List.map_cons, coarse, List.flatten_append, List.flatten_singleton, List.append_assoc]
        rfl
    · rw [if_neg both]
      by_cases fine : many i
      · -- the fine group closes, and the coarse one takes it in
        have next := ih (i + 1) (closed ++ [opened ++ [x]]) []
          (List.forall_mem_append.mpr ⟨some_, by simp⟩)
        rw [if_pos fine]
        simpa using next
      · rw [if_neg fine, List.append_assoc]
        exact ih (i + 1) closed (opened ++ [x]) some_

theorem cutFrom_coarsens {few many : Nat → Bool} (sub : ∀ i, few i = true → many i = true)
    (i : Nat) (xs : List α) :
    Coarsens List.flatten (cutFrom few i [] xs) (cutFrom many i [] xs) :=
  cutFrom_coarsens_from sub i [] [] xs fun _ mem => nomatch mem

/-- A map that turns one kind of merging into another keeps coarser lists coarser. -/
theorem Coarsens.map {β : Type*} {merge : List α → α} {merge' : List β → β} {f : α → β}
    {coarse fine : List α} (hom : ∀ part, part ⊆ fine → merge' (part.map f) = f (merge part))
    (h : Coarsens merge coarse fine) : Coarsens merge' (coarse.map f) (fine.map f) := by
  obtain ⟨parts, nonempty, rfl, rfl⟩ := h
  refine ⟨parts.map (List.map f), ?_, List.map_flatten.symm, ?_⟩
  · rw [List.forall_mem_map]
    exact fun part mem => mt List.map_eq_nil_iff.mp (nonempty part mem)
  · rw [List.map_map, List.map_map]
    refine List.map_congr_left fun part mem => hom part fun x hx => ?_
    exact List.mem_flatten.mpr ⟨part, mem, hx⟩

end Cuttings
