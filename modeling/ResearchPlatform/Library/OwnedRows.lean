import Mathlib.Data.List.Basic

/-!
# Tables whose rows have owners

The rows of one owner and the rows of all others. A query that can only hit rows
of one owner is a query on that owner's rows, and an operation that writes only
such rows is told from any other state with the same ones neither by its result
nor by what it writes.
-/

namespace OwnedRows

universe u v w
variable {ρ : Type u} {τ : Type v} [DecidableEq τ] (owner : ρ → τ) (a : τ)

def owned (rows : List ρ) : List ρ := rows.filter fun r => owner r = a

def others (rows : List ρ) : List ρ := rows.filter fun r => owner r ≠ a

variable {owner a} {rows : List ρ} {p : ρ → Bool} {r : ρ}

theorem mem_others : r ∈ others owner a rows ↔ r ∈ rows ∧ owner r ≠ a := by
  simp [others]

theorem filter_owned (hits : ∀ r ∈ rows, p r = true → owner r = a) :
    (owned owner a rows).filter p = rows.filter p := by
  rw [owned, List.filter_filter]
  refine List.filter_congr fun r hr => ?_
  cases hp : p r with
  | false => rfl
  | true => simp [hits r hr hp]

theorem find?_owned (hits : ∀ r ∈ rows, p r = true → owner r = a) :
    (owned owner a rows).find? p = rows.find? p := by
  rw [← List.head?_filter, ← List.head?_filter, filter_owned hits]

theorem owned_concat (own : owner r = a) :
    owned owner a (rows ++ [r]) = owned owner a rows ++ [r] := by
  simp [owned, own]

theorem others_concat (own : owner r = a) : others owner a (rows ++ [r]) = others owner a rows := by
  simp [others, own]

theorem owned_map {f : ρ → ρ} (keeps : ∀ r, owner (f r) = owner r) :
    owned owner a (rows.map f) = (owned owner a rows).map f := by
  simp only [owned, List.filter_map, Function.comp_def, keeps]

theorem others_map {f : ρ → ρ} (keeps : ∀ r, owner (f r) = owner r)
    (still : ∀ r ∈ rows, owner r ≠ a → f r = r) :
    others owner a (rows.map f) = others owner a rows := by
  have mapped : others owner a (rows.map f) = (others owner a rows).map f := by
    simp only [others, List.filter_map, Function.comp_def, keeps]
  have fixed : ∀ r ∈ others owner a rows, f r = id r := fun r hr =>
    still r (mem_others.mp hr).1 (mem_others.mp hr).2
  rw [mapped, List.map_congr_left fixed, List.map_id]

/-- The rows of every other owner are among the others. -/
theorem owned_of_others_eq {rows' : List ρ} {b : τ} (ne : b ≠ a)
    (same : others owner a rows' = others owner a rows) :
    owned owner b rows' = owned owner b rows := by
  have among : ∀ l : List ρ, (others owner a l).filter (fun r => owner r = b) = owned owner b l := by
    intro l
    rw [others, List.filter_filter, owned]
    refine List.filter_congr fun r _ => ?_
    by_cases own : owner r = b
    · simp [own, ne]
    · simp [own]
  rw [← among, ← among, same]

/-! ## Operations -/

section Operations
variable {σ : Type u} {β : Type v} (I : σ → Prop) (agree kept : σ → σ → Prop)

/-- From states that agree, the operation gives one result and states that agree;
and it keeps what is not its owner's. -/
structure Confined (op : σ → β × σ) : Prop where
  result : ∀ s t, I s → I t → agree s t → (op s).1 = (op t).1
  agrees : ∀ s t, I s → I t → agree s t → agree (op s).2 (op t).2
  keeps : ∀ s, I s → kept s (op s).2

variable {I agree kept}

/-- An operation that reads only what agreeing states agree on. -/
theorem confined_read {f : σ → β} (refl : ∀ s, kept s s)
    (reads : ∀ s t, I s → I t → agree s t → f s = f t) :
    Confined I agree kept fun s => (f s, s) where
  result := reads
  agrees _ _ _ _ h := h
  keeps s _ := refl s

end Operations

end OwnedRows
