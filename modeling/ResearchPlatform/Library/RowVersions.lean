import Mathlib.Data.List.Nodup
import Mathlib.Data.List.Dedup

/-!
# Row versions and row locks at READ COMMITTED

A table is a list of committed rows with a key. An open transaction carries its
own uncommitted versions of the rows it has written; each of them is also the
row lock it holds until it ends. A statement reads the committed rows with the
own versions laid over. An UPDATE that meets a row locked by another transaction
waits; when it runs, its WHERE is evaluated on the committed row.
-/

namespace RowVersions

universe u v w
variable {κ : Type u} {ρ : Type v} [DecidableEq κ] (key : ρ → κ)

/-- The version of `r` that a transaction with own versions `own` sees. -/
def current (own : List ρ) (r : ρ) : ρ := (own.find? fun o => key o = key r).getD r

/-- The table as the transaction sees it, and as its commit leaves it. -/
def view (own rows : List ρ) : List ρ := rows.map (current key own)

def Locks (own : List ρ) (k : κ) : Prop := ∃ o ∈ own, key o = k

instance (own : List ρ) (k : κ) : Decidable (Locks key own k) :=
  inferInstanceAs (Decidable (∃ o ∈ own, key o = k))

/-- New versions replace the transaction's own earlier ones. -/
def write (own news : List ρ) : List ρ :=
  news ++ own.filter fun o => decide (¬ Locks key news (key o))

/-- `UPDATE ... SET set WHERE hit`: `none` while a row it meets is locked by
another transaction, else the new own versions and the row count. -/
def update (blocked : κ → Prop) [DecidablePred blocked] (rows own : List ρ)
    (hit : ρ → Bool) (set : ρ → ρ) : Option (List ρ × Nat) :=
  let hits := (view key own rows).filter hit
  if ∃ r ∈ hits, blocked (key r) then none
  else some (write key own (hits.map set), hits.length)

variable {key}

@[simp] theorem current_nil (r : ρ) : current key [] r = r := rfl

@[simp] theorem view_nil (rows : List ρ) : view key [] rows = rows := by
  induction rows with
  | nil => rfl
  | cons r rows ih => exact congrArg (r :: ·) ih

theorem current_cases (key : ρ → κ) (own : List ρ) (r : ρ) :
    (current key own r ∈ own ∧ key (current key own r) = key r) ∨
      (current key own r = r ∧ ¬ Locks key own (key r)) := by
  rw [current]
  cases hf : own.find? fun o => key o = key r with
  | none =>
    refine Or.inr ⟨rfl, ?_⟩
    rintro ⟨o, ho, hk⟩
    simpa [hk] using List.find?_eq_none.mp hf o ho
  | some o =>
    exact Or.inl ⟨List.mem_of_find?_eq_some hf, by simpa using List.find?_some hf⟩

theorem key_current (own : List ρ) (r : ρ) : key (current key own r) = key r := by
  rcases current_cases key own r with h | h
  · exact h.2
  · rw [h.1]

theorem current_of_not_locks {own : List ρ} {r : ρ} (h : ¬ Locks key own (key r)) :
    current key own r = r := by
  rcases current_cases key own r with ⟨hm, hk⟩ | h'
  · exact absurd ⟨_, hm, hk⟩ h
  · exact h'.1

@[simp] theorem map_key_view (own rows : List ρ) : (view key own rows).map key = rows.map key := by
  simp [view, Function.comp_def, key_current]

theorem mem_view_iff {own rows : List ρ} {x : ρ} :
    x ∈ view key own rows ↔ ∃ r ∈ rows, current key own r = x := by
  simp [view]

/-- A committed row is either the transaction's own version or was left alone. -/
theorem mem_view_cases {own rows : List ρ} {x : ρ} (h : x ∈ view key own rows) :
    ∃ r ∈ rows, key r = key x ∧ (x ∈ own ∨ (x = r ∧ ¬ Locks key own (key r))) := by
  obtain ⟨r, hr, rfl⟩ := mem_view_iff.mp h
  refine ⟨r, hr, (key_current own r).symm, ?_⟩
  rcases current_cases key own r with h | h
  · exact Or.inl h.1
  · exact Or.inr h

theorem exists_mem_view (key : ρ → κ) (own : List ρ) {rows : List ρ} {r : ρ} (hr : r ∈ rows) :
    ∃ x ∈ view key own rows, key x = key r :=
  ⟨current key own r, mem_view_iff.mpr ⟨r, hr, rfl⟩, key_current own r⟩

theorem mem_view_of_not_locks {own rows : List ρ} {r : ρ} (hr : r ∈ rows)
    (h : ¬ Locks key own (key r)) : r ∈ view key own rows :=
  mem_view_iff.mpr ⟨r, hr, current_of_not_locks h⟩

omit [DecidableEq κ] in
@[simp] theorem not_locks_nil (k : κ) : ¬ Locks key [] k := by simp [Locks]

theorem locks_write_iff {own news : List ρ} {k : κ} :
    Locks key (write key own news) k ↔ Locks key news k ∨ Locks key own k := by
  constructor
  · rintro ⟨o, ho, hk⟩
    rcases List.mem_append.mp ho with ho | ho
    · exact Or.inl ⟨o, ho, hk⟩
    · exact Or.inr ⟨o, (List.mem_filter.mp ho).1, hk⟩
  · rintro (⟨o, ho, hk⟩ | ⟨o, ho, hk⟩)
    · exact ⟨o, List.mem_append_left _ ho, hk⟩
    · by_cases hn : Locks key news k
      · obtain ⟨n, hn, hnk⟩ := hn
        exact ⟨n, List.mem_append_left _ hn, hnk⟩
      · refine ⟨o, List.mem_append_right _ (List.mem_filter.mpr ⟨ho, ?_⟩), hk⟩
        simpa [hk] using hn

theorem mem_write_cases {own news : List ρ} {x : ρ} (h : x ∈ write key own news) :
    x ∈ news ∨ (x ∈ own ∧ ¬ Locks key news (key x)) := by
  rcases List.mem_append.mp h with h | h
  · exact Or.inl h
  · exact Or.inr ⟨(List.mem_filter.mp h).1, by simpa using (List.mem_filter.mp h).2⟩

/-- What an UPDATE that ran has done: every row it met was free, and each of its
versions is either the SET of a row it met or an own version it did not meet. -/
theorem update_spec {blocked : κ → Prop} [DecidablePred blocked] {rows own own' : List ρ}
    {hit : ρ → Bool} {set : ρ → ρ} {n : Nat}
    (h : update key blocked rows own hit set = some (own', n)) :
    (∀ r ∈ view key own rows, hit r = true → ¬ blocked (key r)) ∧
      own' = write key own (((view key own rows).filter hit).map set) ∧
      n = ((view key own rows).filter hit).length := by
  simp only [update] at h
  split at h
  · cases h
  · rename_i free
    simp only [Option.some.injEq, Prod.mk.injEq] at h
    refine ⟨fun r hr hh hb => free ⟨r, List.mem_filter.mpr ⟨hr, hh⟩, hb⟩, h.1.symm, h.2.symm⟩

theorem update_locks {blocked : κ → Prop} [DecidablePred blocked] {rows own own' : List ρ}
    {hit : ρ → Bool} {set : ρ → ρ} {n : Nat} (keeps : ∀ r, key (set r) = key r)
    (h : update key blocked rows own hit set = some (own', n)) {k : κ}
    (hk : Locks key own' k) : Locks key own k ∨ ¬ blocked k := by
  obtain ⟨free, rfl, _⟩ := update_spec h
  rcases locks_write_iff.mp hk with ⟨o, ho, rfl⟩ | hk
  · obtain ⟨r, hr, rfl⟩ := List.mem_map.mp ho
    obtain ⟨hr, hh⟩ := List.mem_filter.mp hr
    exact Or.inr (keeps r ▸ free r hr hh)
  · exact Or.inl hk

/-- An own version after an UPDATE is the SET of a free row that it met, or an
earlier own version of a row that it did not meet. -/
theorem mem_update_cases {blocked : κ → Prop} [DecidablePred blocked] {rows own own' : List ρ}
    {hit : ρ → Bool} {set : ρ → ρ} {n : Nat} (keeps : ∀ r, key (set r) = key r)
    (h : update key blocked rows own hit set = some (own', n)) {x : ρ} (hx : x ∈ own') :
    (∃ r ∈ view key own rows, hit r = true ∧ ¬ blocked (key r) ∧ x = set r) ∨
      (x ∈ own ∧ ∀ r ∈ view key own rows, key r = key x → hit r ≠ true) := by
  obtain ⟨free, rfl, _⟩ := update_spec h
  rcases mem_write_cases hx with hx | hx
  · obtain ⟨r, hr, rfl⟩ := List.mem_map.mp hx
    obtain ⟨hr, hh⟩ := List.mem_filter.mp hr
    exact Or.inl ⟨r, hr, hh, free r hr hh, rfl⟩
  · refine Or.inr ⟨hx.1, fun r hr hk hh => hx.2 ⟨set r, ?_, (keeps r).trans hk⟩⟩
    exact List.mem_map.mpr ⟨r, List.mem_filter.mpr ⟨hr, hh⟩, rfl⟩

/-- The first UPDATE of a transaction has made every own version from a row. -/
theorem mem_first_update {blocked : κ → Prop} [DecidablePred blocked] {rows own' : List ρ}
    {hit : ρ → Bool} {set : ρ → ρ} {n : Nat} (keeps : ∀ r, key (set r) = key r)
    (h : update key blocked rows [] hit set = some (own', n)) {x : ρ} (hx : x ∈ own') :
    ∃ r ∈ rows, hit r = true ∧ x = set r := by
  rcases mem_update_cases keeps h hx with ⟨r, hr, hh, _, same⟩ | ⟨old, _⟩
  · exact ⟨r, by simpa using hr, hh, same⟩
  · cases old

/-- The first UPDATE of a transaction locks free rows. -/
theorem first_update_locks {blocked : κ → Prop} [DecidablePred blocked] {rows own' : List ρ}
    {hit : ρ → Bool} {set : ρ → ρ} {n : Nat} (keeps : ∀ r, key (set r) = key r)
    (h : update key blocked rows [] hit set = some (own', n)) {k : κ} (hk : Locks key own' k) :
    ¬ blocked k :=
  (update_locks keeps h hk).resolve_left (not_locks_nil k)

/-- A row that the UPDATE met is locked afterwards. -/
theorem update_locks_hit {blocked : κ → Prop} [DecidablePred blocked] {rows own own' : List ρ}
    {hit : ρ → Bool} {set : ρ → ρ} {n : Nat} (keeps : ∀ r, key (set r) = key r)
    (h : update key blocked rows own hit set = some (own', n)) {r : ρ}
    (hr : r ∈ view key own rows) (hh : hit r = true) : set r ∈ own' ∧ Locks key own' (key r) := by
  obtain ⟨_, rfl, _⟩ := update_spec h
  have hm : set r ∈ ((view key own rows).filter hit).map set :=
    List.mem_map.mpr ⟨r, List.mem_filter.mpr ⟨hr, hh⟩, rfl⟩
  have hw : set r ∈ write key own (((view key own rows).filter hit).map set) :=
    List.mem_append_left _ hm
  exact ⟨hw, set r, hw, keeps r⟩

theorem nodup_write {own news : List ρ} (hn : (news.map key).Nodup) (ho : (own.map key).Nodup) :
    ((write key own news).map key).Nodup := by
  rw [write, List.map_append, List.nodup_append]
  refine ⟨hn, (List.filter_sublist.map key).nodup ho, ?_⟩
  intro a ha b hb hab
  obtain ⟨o, hof, rfl⟩ := List.mem_map.mp hb
  obtain ⟨x, hx, hxa⟩ := List.mem_map.mp ha
  have free : ¬ Locks key news (key o) := by simpa using (List.mem_filter.mp hof).2
  exact free ⟨x, hx, hxa.trans hab⟩

theorem nodup_update {blocked : κ → Prop} [DecidablePred blocked] {rows own own' : List ρ}
    {hit : ρ → Bool} {set : ρ → ρ} {n : Nat} (keeps : ∀ r, key (set r) = key r)
    (h : update key blocked rows own hit set = some (own', n))
    (hr : (rows.map key).Nodup) (ho : (own.map key).Nodup) : (own'.map key).Nodup := by
  obtain ⟨_, rfl, _⟩ := update_spec h
  refine nodup_write ?_ ho
  have same : (((view key own rows).filter hit).map set).map key =
      ((view key own rows).filter hit).map key := by
    simp [Function.comp_def, keeps]
  rw [same]
  exact (List.filter_sublist.map key).nodup (by simpa using hr)

omit [DecidableEq κ] in
/-- Rows with distinct keys: the key determines the row. -/
theorem eq_of_key {rows : List ρ} (hn : (rows.map key).Nodup) {a b : ρ}
    (ha : a ∈ rows) (hb : b ∈ rows) (hk : key a = key b) : a = b :=
  List.inj_on_of_nodup_map hn ha hb hk

omit [DecidableEq κ] in
/-- A WHERE that only one of the rows meets returns it. -/
theorem filter_eq_singleton {rows : List ρ} (hn : rows.Nodup) {r : ρ} (hr : r ∈ rows)
    {hit : ρ → Bool} (only : ∀ x ∈ rows, hit x = true ↔ x = r) : rows.filter hit = [r] := by
  induction rows with
  | nil => cases hr
  | cons x rows ih =>
    obtain ⟨hx, hn⟩ := List.nodup_cons.mp hn
    have tail : ∀ y ∈ rows, hit y = true ↔ y = r := fun y hy => only y (List.mem_cons_of_mem x hy)
    by_cases he : x = r
    · subst he
      rw [List.filter_cons_of_pos ((only x List.mem_cons_self).mpr rfl)]
      congr
      rw [List.filter_eq_nil_iff]
      intro y hy hh
      exact hx ((tail y hy).mp hh ▸ hy)
    · rw [List.filter_cons_of_neg fun hh => he ((only x List.mem_cons_self).mp hh)]
      exact ih hn ((List.mem_cons.mp hr).resolve_left (Ne.symm he)) tail

omit [DecidableEq κ] in
theorem nodup_concat {rows : List ρ} {r : ρ} (hn : (rows.map key).Nodup)
    (fresh : ∀ x ∈ rows, key x ≠ key r) : ((rows ++ [r]).map key).Nodup := by
  rw [List.map_append, List.nodup_append]
  refine ⟨hn, List.nodup_singleton _, ?_⟩
  intro a ha b hb
  obtain ⟨x, hx, rfl⟩ := List.mem_map.mp ha
  rw [List.map_singleton, List.mem_singleton] at hb
  exact hb ▸ fresh x hx

omit [DecidableEq κ] in
theorem fresh_of_nodup_concat {rows : List ρ} {r : ρ} (hn : ((rows ++ [r]).map key).Nodup) :
    ∀ x ∈ rows, key x ≠ key r := by
  rw [List.map_append, List.nodup_append] at hn
  intro x hx
  exact hn.2.2 (key x) (List.mem_map_of_mem hx) (key r) (List.mem_singleton.mpr rfl)

/-- With one own version a row, a commit leaves exactly that version of it. -/
theorem mem_view_of_mem {own rows : List ρ} (hn : (own.map key).Nodup) {o r : ρ} (ho : o ∈ own)
    (hr : r ∈ rows) (hk : key r = key o) : o ∈ view key own rows := by
  refine mem_view_iff.mpr ⟨r, hr, ?_⟩
  rcases current_cases key own r with ⟨hm, hc⟩ | ⟨_, free⟩
  · exact eq_of_key hn hm ho (hc.trans hk)
  · exact absurd ⟨o, ho, hk.symm⟩ free

/-! ## Columns that no statement writes -/

section Columns
variable {π : Type w} {cols : ρ → π} {rows rows' own own' : List ρ}

/-- Each own version has the columns of a committed row. -/
def Retains (cols : ρ → π) (rows own : List ρ) : Prop := ∀ q ∈ own, ∃ r ∈ rows, cols r = cols q

theorem retains_nil : Retains cols rows [] := nofun

theorem Retains.mono (h : Retains cols rows own) (kept : ∀ r ∈ rows, ∃ r' ∈ rows', cols r' = cols r) :
    Retains cols rows' own := by
  intro q hq
  obtain ⟨r, hr, same⟩ := h q hq
  obtain ⟨r', hr', same'⟩ := kept r hr
  exact ⟨r', hr', same'.trans same⟩

/-- What the transaction sees of a row has the columns of a committed one. -/
theorem Retains.seen (h : Retains cols rows own) {x : ρ} (hx : x ∈ view key own rows) :
    ∃ r ∈ rows, cols r = cols x := by
  obtain ⟨r, hr, _, old | ⟨rfl, _⟩⟩ := mem_view_cases hx
  · exact h x old
  · exact ⟨x, hr, rfl⟩

theorem Retains.write (h : Retains cols rows own) {news : List ρ}
    (new : ∀ x ∈ news, ∃ r ∈ rows, cols r = cols x) :
    Retains cols rows (RowVersions.write key own news) := by
  intro q hq
  rcases mem_write_cases hq with hq | ⟨hq, _⟩
  · exact new q hq
  · exact h q hq

/-- An UPDATE whose SET leaves the columns alone. -/
theorem Retains.update (h : Retains cols rows own) {blocked : κ → Prop} [DecidablePred blocked]
    {hit : ρ → Bool} {set : ρ → ρ} {n : Nat}
    (hu : RowVersions.update key blocked rows own hit set = some (own', n))
    (sets : ∀ r, cols (set r) = cols r) : Retains cols rows own' := by
  obtain ⟨_, rfl, _⟩ := update_spec hu
  refine h.write fun x hx => ?_
  obtain ⟨y, hy, rfl⟩ := List.mem_map.mp hx
  obtain ⟨r, hr, same⟩ := h.seen (List.mem_filter.mp hy).1
  exact ⟨r, hr, same.trans (sets y).symm⟩

/-- A commit of such versions changes no row's columns. -/
theorem map_cols_view (h : Retains cols rows own) (keys : (rows.map key).Nodup)
    (determines : ∀ a b, cols a = cols b → key a = key b) :
    (view key own rows).map cols = rows.map cols := by
  rw [view, List.map_map]
  refine List.map_congr_left fun r hr => ?_
  rcases current_cases key own r with ⟨mine, hk⟩ | ⟨same, _⟩
  · obtain ⟨r', hr', equal⟩ := h _ mine
    have row : r' = r := eq_of_key keys hr' hr ((determines _ _ equal).trans hk)
    rw [Function.comp_apply, ← equal, row]
  · rw [Function.comp_apply, same]

end Columns

end RowVersions
