import Mathlib.Data.List.Basic
import Mathlib.Data.List.Nodup
import ResearchPlatform.Library.RowVersions

/-!
# Joins along a key

A join pairs the rows of two tables that meet a condition, and an update from a
second table writes each row from one that it joins. Where every row has one partner,
both are maps over the rows.
-/

namespace Joins

universe u v w
variable {α : Type u} {β : Type v} {κ : Type w}

/-- `left JOIN right ON …`. -/
def joinOn (on : α → β → Bool) (left : List α) (right : List β) : List (α × β) :=
  left.flatMap fun a => (right.filter (on a)).map fun b => (a, b)

/-- `UPDATE … SET … FROM source WHERE …`: a row without a partner stays as it is, and a
row with several is written from one of them. -/
def updateFrom (on : α → β → Bool) (set : α → β → α) (source : List β) (rows : List α) : List α :=
  rows.map fun a =>
    match source.find? (on a) with
    | some b => set a b
    | none => a

section Partners
variable {on : α → β → Bool} {rows : List α} {source : List β} {partner : α → β}

theorem joinOn_of_partner (once : ∀ a ∈ rows, source.filter (on a) = [partner a]) :
    joinOn on rows source = rows.map fun a => (a, partner a) := by
  induction rows with
  | nil => rfl
  | cons a rows ih =>
    obtain ⟨first, rest⟩ := List.forall_mem_cons.mp once
    have tail := ih rest
    rw [joinOn] at tail
    rw [joinOn, List.flatMap_cons, first, tail]
    rfl

/-- The update writes each row from its partner, whichever row that is. -/
theorem updateFrom_of_partner {set : α → β → α} (result : α → α)
    (once : ∀ a ∈ rows, ∃ b, source.filter (on a) = [b] ∧ set a b = result a) :
    updateFrom on set source rows = rows.map result := by
  refine List.map_congr_left fun a mem => ?_
  obtain ⟨b, found, written⟩ := once a mem
  rw [← List.head?_filter, found]
  exact written

end Partners

/-- The row with a key is the only one that a join on the key finds. -/
theorem filter_key [DecidableEq κ] (key : β → κ) {source : List β} (keys : (source.map key).Nodup)
    {b : β} (mem : b ∈ source) : (source.filter fun x => key x = key b) = [b] := by
  refine RowVersions.filter_eq_singleton (List.Nodup.of_map _ keys) mem fun x hx => ?_
  rw [decide_eq_true_eq]
  exact ⟨fun same => List.inj_on_of_nodup_map keys hx mem same, fun same => same ▸ rfl⟩

end Joins
