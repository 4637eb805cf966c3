import ResearchPlatform.UploadRaces
import Mathlib.Algebra.BigOperators.Fin
import Mathlib.Algebra.Order.BigOperators.Group.Finset

/-!
# Identical uploads at once

Any number of calls with one tenant, one key and one content, all of whose
transactions commit. Until the first commit at most one of them has inserted, and
the others wait for it; from then on every lookup finds its rows, and a late insert
fails, deletes its own object and looks again. The storage upload is taken with
the flush: no other call names its key. A key with blanks beyond its column is not found
by the lookup of the key, and then the content is.
-/

namespace UploadConvergence

open Uuid Schema DocumentService Machines UploadRaces

section Race
variable {n : Nat} (sha256 : Sha256) (calls : Fin n → Call)

def objectOf (i : Fin n) : StoredObject :=
  ⟨(calls i).upload.content, contentTypeOf (calls i).upload.mimeType⟩

/-- The database with one more upload. -/
def grown (db : Database) (d : Document) (j : IngestionJob) : Database :=
  { db with documents := db.documents ++ [d.row], ingestionJobs := db.ingestionJobs ++ [j.row] }

/-- Identical calls about to start: each would go in if it ran alone, and the
identifiers that they draw are new. -/
structure Ready (s : World n) : Prop where
  phases : ∀ i, s.phase i = .looking false
  tenant : ∀ i k, (calls i).upload.tenantId = (calls k).upload.tenantId
  key : ∀ i k, (calls i).upload.idempotencyKey = (calls k).upload.idempotencyKey
  content : ∀ i k, (calls i).upload.content = (calls k).upload.content
  insertable : ∀ i, Insertable s.db (docOf sha256 calls i) (jobOf calls i)
  noJob : ∀ i, ∀ j ∈ s.db.ingestionJobs, j.tenantId = (calls i).upload.tenantId →
    j.idempotencyKey ≠ (calls i).upload.idempotencyKey
  links : ∀ j ∈ s.db.ingestionJobs, ∃ d ∈ s.db.documents, d.id = j.documentId
  storage : ∀ i, (calls i).outside.uploadError = none ∧ (calls i).outside.deleteError = none
  docIds : ∀ i k, i ≠ k → (calls i).outside.docId ≠ (calls k).outside.docId
  objects : ∀ i, s.objects (keyOf calls i) = none

/-- All calls are answered with the document and the job of one of them, which has them as it
has added them and the others as they are stored, and nothing else is left behind. -/
def Converged (s t : World n) : Prop :=
  ∃ w, (t.phase w).outcome = some (.ok (docOf sha256 calls w, jobOf calls w)) ∧
    (∀ i, i ≠ w → (t.phase i).outcome = some (.ok ((docOf sha256 calls w).row, (jobOf calls w).row))) ∧
    t.db = grown s.db (docOf sha256 calls w) (jobOf calls w) ∧
    t.objects = s.objects.put (keyOf calls w) (objectOf calls w)

/-! ## How the race stands -/

/-- The call has not tried to insert. -/
def Waits (p : Phase) : Prop := p = .looking false ∨ p = .keyMissed false ∨ p = .missed

/-- The call has no rows of its own, and no answer. -/
def Open (p : Phase) : Prop := (∃ again, p = .looking again) ∨ (∃ again, p = .keyMissed again) ∨ p = .missed

/-- Where the other calls stand after call `w` has committed. -/
def Loses (w : Fin n) (p : Phase) : Prop :=
  Open p ∨ p = .answered (docOf sha256 calls w).row (jobOf calls w).row

inductive Race (s t : World n) : Prop
  | undecided (hdb : t.db = s.db) (hobj : t.objects = s.objects) (waits : ∀ k, Waits (t.phase k))
  | pending (w : Fin n) (hw : t.phase w = .inserted (docOf sha256 calls w) (jobOf calls w))
      (hdb : t.db = s.db) (hobj : t.objects = s.objects.put (keyOf calls w) (objectOf calls w))
      (waits : ∀ k, k ≠ w → Waits (t.phase k))
  | won (w : Fin n) (hw : t.phase w = .answered (docOf sha256 calls w) (jobOf calls w))
      (hdb : t.db = grown s.db (docOf sha256 calls w) (jobOf calls w))
      (hobj : t.objects = s.objects.put (keyOf calls w) (objectOf calls w))
      (loses : ∀ k, k ≠ w → Loses sha256 calls w (t.phase k))

end Race

section Runs
variable {n : Nat} {sha256 : Sha256} {calls : Fin n → Call} {s t u : World n} {i w : Fin n}

/-! ## Lookups and inserts beside the winner -/

theorem hashOf_eq (h : Ready sha256 calls s) (i k : Fin n) :
    hashOf sha256 calls i = hashOf sha256 calls k := by
  rw [hashOf, hashOf, h.content i k]

theorem key_unknown (h : Ready sha256 calls s) (i : Fin n) :
    findByKey s.db (calls i).upload.idempotencyKey (calls i).upload.tenantId = .ok none := by
  have fits : fitsVarchar 255 (calls i).upload.idempotencyKey = true := (h.insertable i).keyFits
  simp only [fitsVarchar, Bool.and_eq_true] at fits
  exact findByKey_eq_none fits.1 (h.noJob i)

theorem content_unknown (h : Ready sha256 calls s) (i : Fin n) :
    findByContent s.db (hashOf sha256 calls i) (calls i).upload.tenantId = .ok none :=
  findByContent_eq_none fun d hd tenant same =>
    absurd same ((h.insertable i).contentNew d hd tenant)

/-- Unless the column has cut the key, a lookup finds the rows of the winner. -/
theorem key_later (h : Ready sha256 calls s) (i w : Fin n) :
    findByKey (grown s.db (docOf sha256 calls w) (jobOf calls w)) (calls i).upload.idempotencyKey
        (calls i).upload.tenantId = .ok (some ((docOf sha256 calls w).row, (jobOf calls w).row)) ∨
      findByKey (grown s.db (docOf sha256 calls w) (jobOf calls w)) (calls i).upload.idempotencyKey
        (calls i).upload.tenantId = .ok none := by
  have fits : fitsVarchar 255 (calls i).upload.idempotencyKey = true := (h.insertable i).keyFits
  simp only [fitsVarchar, Bool.and_eq_true] at fits
  by_cases whole : (jobOf calls w).row.idempotencyKey = (calls i).upload.idempotencyKey
  · refine Or.inl ?_
    have old : (s.db.ingestionJobs.filter fun j => j.tenantId = (calls i).upload.tenantId &&
        j.idempotencyKey = (calls i).upload.idempotencyKey) = [] := by
      rw [List.filter_eq_nil_iff]
      intro j hj
      simpa using h.noJob i j hj
    have new : ([(jobOf calls w).row].filter fun j => j.tenantId = (calls i).upload.tenantId &&
        j.idempotencyKey = (calls i).upload.idempotencyKey) = [(jobOf calls w).row] := by
      have tenant : (jobOf calls w).row.tenantId = (calls i).upload.tenantId := h.tenant w i
      simp [whole, tenant]
    have fresh : s.db.documents.find? (fun d => d.id = (jobOf calls w).row.documentId) = none := by
      rw [List.find?_eq_none]
      intro d hd
      have unused : d.id ≠ (jobOf calls w).row.documentId := (h.insertable w).docFresh d hd
      simpa using unused
    have own : (docOf sha256 calls w).row.id = (jobOf calls w).row.documentId := rfl
    simp [findByKey, fits.1, grown, List.filter_append, old, new, scalarOneOrNone, Except.map,
      List.find?_append, fresh, own]
  · refine Or.inr (findByKey_eq_none fits.1 fun j hj tenant => ?_)
    rcases List.mem_append.mp hj with old | new
    · exact h.noJob i j old tenant
    · rw [List.mem_singleton.mp new]
      exact whole

theorem content_known (h : Ready sha256 calls s) (i w : Fin n) :
    findByContent (grown s.db (docOf sha256 calls w) (jobOf calls w)) (hashOf sha256 calls i)
      (calls i).upload.tenantId = .ok (some ((docOf sha256 calls w).row, (jobOf calls w).row)) := by
  have old : (s.db.documents.filter fun d => d.tenantId = (calls i).upload.tenantId &&
      d.contentHash = hashOf sha256 calls i && d.deletedAt.isNone) = [] := by
    rw [List.filter_eq_nil_iff]
    intro d hd
    have new := (h.insertable i).contentNew d hd
    simp only [Bool.and_eq_true, decide_eq_true_eq]
    rintro ⟨⟨tenant, same⟩, _⟩
    exact new tenant same
  have unlinked : (s.db.ingestionJobs.filter fun j => j.documentId = (calls w).outside.docId &&
      j.tenantId = (calls i).upload.tenantId) = [] := by
    rw [List.filter_eq_nil_iff]
    intro j hj
    simp only [Bool.and_eq_true, decide_eq_true_eq]
    rintro ⟨link, _⟩
    obtain ⟨d, hd, hid⟩ := h.links j hj
    exact (h.insertable w).docFresh d hd (hid.trans link)
  have hash : contentHash sha256 (calls w).upload.content = hashOf sha256 calls i :=
    hashOf_eq h w i
  simp [findByContent, grown, List.filter_append, old, docOf, newDocument, Document.row, hash, h.tenant w i,
    scalarOneOrNone, Except.map, unlinked, jobOf, newJob, IngestionJob.row, orderByDesc]

theorem insert_conflicts (h : Ready sha256 calls s) (i w : Fin n) :
    ∃ constraint, insertUpload (grown s.db (docOf sha256 calls w) (jobOf calls w))
      (docOf sha256 calls i) (jobOf calls i) = .error (.integrityError constraint) := by
  have taken : documentViolation (grown s.db (docOf sha256 calls w) (jobOf calls w))
      (docOf sha256 calls i) ≠ none := by
    intro free
    obtain ⟨_, contentNew, _⟩ := documentViolation_eq_none_iff.mp free
    refine contentNew (docOf sha256 calls w).row ?_ (h.tenant w i) (hashOf_eq h w i)
    exact List.mem_append_right _ (List.mem_singleton.mpr rfl)
  obtain ⟨constraint, violated⟩ := Option.ne_none_iff_exists'.mp taken
  refine ⟨constraint, ?_⟩
  simp [insertUpload, insertDocument, (h.insertable i).docFits, violated, Except.bind]

theorem not_apart (h : Ready sha256 calls s) (i w : Fin n) :
    ¬ Apart (docOf sha256 calls w) (jobOf calls w) (docOf sha256 calls i) (jobOf calls i) :=
  fun apart => apart.content (h.tenant w i) (hashOf_eq h w i)

theorem keyOf_ne (h : Ready sha256 calls s) (other : i ≠ w) : keyOf calls i ≠ keyOf calls w :=
  fun same => h.docIds i w other (storageKey_ids same).2

/-- A losing insert removes exactly its own object. -/
theorem cleaned_same (h : Ready sha256 calls s) (other : i ≠ w) :
    ((s.objects.put (keyOf calls w) (objectOf calls w)).put (keyOf calls i)
      (objectOf calls i)).delete (keyOf calls i) =
        s.objects.put (keyOf calls w) (objectOf calls w) := by
  funext k
  by_cases hk : k = keyOf calls i
  · subst hk
    simp [ObjectStore.delete, ObjectStore.put, keyOf_ne h other, h.objects i]
  · simp [ObjectStore.delete, ObjectStore.put, hk]

/-! ## One step of the race -/

/-- The step ends no transaction early. -/
def Goes : Event n → Prop
  | .abort _ => False
  | _ => True

instance : DecidablePred (Goes : Event n → Prop)
  | .abort _ => isFalse id
  | .byKey _ | .byContent _ | .insert _ | .commit _ => isTrue trivial

theorem forall_setPhase {P : Fin n → Phase → Prop} {p : Phase} (hi : P i p)
    (others : ∀ k, k ≠ i → P k (t.phase k)) (k : Fin n) : P k ((t.setPhase i p).phase k) := by
  by_cases hk : k = i
  · subst hk
    rw [setPhase_self]
    exact hi
  · rw [setPhase_of_ne hk]
    exact others k hk

theorem Waits.isOpen {p : Phase} (h : Waits p) : Open p := by
  rcases h with h | h | h
  · exact Or.inl ⟨false, h⟩
  · exact Or.inr (Or.inl ⟨false, h⟩)
  · exact Or.inr (Or.inr h)

theorem Open.pending {p : Phase} (h : Open p) : p.pending = none := by
  rcases h with ⟨again, rfl⟩ | ⟨again, rfl⟩ | rfl <;> rfl

/-- A lookup moves its call on: as long as nothing is committed it keeps waiting,
and afterwards it stays behind the winner. -/
theorem race_setPhase {p : Phase} (race : Race sha256 calls s t)
    (idle : ∀ d j, t.phase i ≠ .inserted d j ∧ t.phase i ≠ .answered d j)
    (early : t.db = s.db → Waits (t.phase i) → Waits p)
    (late : ∀ w, t.db = grown s.db (docOf sha256 calls w) (jobOf calls w) →
      Loses sha256 calls w p) : Race sha256 calls s (t.setPhase i p) := by
  cases race with
  | undecided hdb hobj waits =>
    refine .undecided hdb hobj ?_
    exact forall_setPhase (P := fun _ q => Waits q) (early hdb (waits i)) fun k _ => waits k
  | pending w hw hdb hobj waits =>
    have other : w ≠ i := by
      rintro rfl
      exact (idle _ _).1 hw
    refine .pending w (by rw [setPhase_of_ne other, hw]) hdb hobj ?_
    exact forall_setPhase (P := fun k q => k ≠ w → Waits q)
      (fun _ => early hdb (waits i other.symm)) fun k _ => waits k
  | won w hw hdb hobj loses =>
    have other : w ≠ i := by
      rintro rfl
      exact (idle _ _).2 hw
    refine .won w (by rw [setPhase_of_ne other, hw]) hdb hobj ?_
    exact forall_setPhase (P := fun k q => k ≠ w → Loses sha256 calls w q) (fun _ => late w hdb) fun k _ => loses k

theorem race_byKey (h : Ready sha256 calls s) (race : Race sha256 calls s t)
    (hs : (machine sha256 calls).step t (.byKey i) = some u) : Race sha256 calls s u := by
  obtain ⟨again, hi, rfl⟩ := step_byKey hs
  refine race_setPhase race (fun d j => by simp [hi]) ?_ ?_
  · intro hdb waits
    have first : again = false := by simpa [Waits, hi] using waits
    rw [keyLookup, hdb, key_unknown h i, first]
    exact Or.inr (Or.inl rfl)
  · intro w hdb
    rw [keyLookup, hdb]
    rcases key_later h i w with found | missed
    · rw [found]
      exact Or.inr rfl
    · rw [missed]
      exact Or.inl (Or.inr (Or.inl ⟨again, rfl⟩))

theorem race_byContent (h : Ready sha256 calls s) (race : Race sha256 calls s t)
    (hs : (machine sha256 calls).step t (.byContent i) = some u) : Race sha256 calls s u := by
  obtain ⟨again, hi, rfl⟩ := step_byContent hs
  refine race_setPhase race (fun d j => by simp [hi]) ?_ ?_
  · intro hdb waits
    have first : again = false := by simpa [Waits, hi] using waits
    rw [contentLookup, hdb, content_unknown h i, first]
    exact Or.inr (Or.inr rfl)
  · intro w hdb
    rw [contentLookup, hdb, content_known h i w]
    exact Or.inr rfl

/-- The first insert goes in, a second one waits for it, and a late one fails and
takes its object back. -/
theorem race_insert (h : Ready sha256 calls s) (race : Race sha256 calls s t)
    (hs : (machine sha256 calls).step t (.insert i) = some u) : Race sha256 calls s u := by
  obtain ⟨hi, free, rfl⟩ := step_insert hs
  obtain ⟨uploads, deletes⟩ := h.storage i
  cases race with
  | undecided hdb hobj waits =>
    have goesIn : insertUpload s.db (docOf sha256 calls i) (jobOf calls i) =
        .ok (grown s.db (docOf sha256 calls i) (jobOf calls i)) :=
      (insertUpload_ok_iff rfl rfl rfl).mpr ⟨h.insertable i, rfl⟩
    simp only [insertStep, uploads, hdb, goesIn]
    refine .pending i setPhase_self rfl (by rw [setPhase_objects, hobj]; rfl) ?_
    refine forall_setPhase (P := fun k q => k ≠ i → Waits q) (fun hk => absurd rfl hk) ?_
    exact fun k _ _ => waits k
  | pending w hw hdb hobj waits =>
    have other : w ≠ i := by
      rintro rfl
      rw [hw] at hi
      cases hi
    exact absurd ⟨w, other, _, by rw [hw]; rfl, not_apart h i w⟩ free
  | won w hw hdb hobj loses =>
    have other : i ≠ w := by
      rintro rfl
      rw [hw] at hi
      cases hi
    obtain ⟨constraint, conflict⟩ := insert_conflicts h i w
    simp only [insertStep, uploads, deletes, hdb, conflict]
    refine .won w (by rw [setPhase_of_ne other.symm]; exact hw) rfl ?_ ?_
    · rw [← cleaned_same h other, ← hobj]
      rfl
    · exact forall_setPhase (P := fun k q => k ≠ w → Loses sha256 calls w q)
        (fun _ => Or.inl (Or.inl ⟨true, rfl⟩)) fun k _ => loses k

theorem race_commit (race : Race sha256 calls s t)
    (hs : (machine sha256 calls).step t (.commit i) = some u) : Race sha256 calls s u := by
  obtain ⟨d, j, hi, rfl⟩ := step_commit hs
  cases race with
  | undecided hdb hobj waits => simpa [Waits, hi] using waits i
  | pending w hw hdb hobj waits =>
    by_cases own : i = w
    · subst own
      obtain ⟨rfl, rfl⟩ : d = docOf sha256 calls i ∧ j = jobOf calls i := by
        simpa [hi] using hw
      refine .won i setPhase_self (by rw [setPhase_db, hdb]; rfl) hobj ?_
      refine forall_setPhase (P := fun k q => k ≠ i → Loses sha256 calls i q)
        (fun own => absurd rfl own) fun k hk _ => Or.inl (waits k hk).isOpen
    · simpa [Waits, hi] using waits i own
  | won w hw hdb hobj loses =>
    have other : i ≠ w := by
      rintro rfl
      rw [hw] at hi
      cases hi
    simpa [Loses, Open, hi] using loses i other

theorem race_step {e : Event n} (h : Ready sha256 calls s) (race : Race sha256 calls s t)
    (hs : (machine sha256 calls).step t e = some u) (goes : Goes e) : Race sha256 calls s u := by
  cases e with
  | byKey i => exact race_byKey h race hs
  | byContent i => exact race_byContent h race hs
  | insert i => exact race_insert h race hs
  | commit i => exact race_commit race hs
  | abort i => exact goes.elim

/-! ## The race ends -/

/-- How many steps a call can still take, at most. -/
def stepsLeft : Phase → ℕ
  | .looking false => 6
  | .keyMissed false => 5
  | .missed => 4
  | .inserted _ _ => 3
  | .looking true => 2
  | .keyMissed true => 1
  | _ => 0

def totalLeft (s : World n) : ℕ := ∑ i, stepsLeft (s.phase i)

theorem totalLeft_setPhase {p : Phase} (lower : stepsLeft p < stepsLeft (t.phase i)) :
    totalLeft (t.setPhase i p) < totalLeft t := by
  refine Finset.sum_lt_sum (fun k _ => ?_) ⟨i, Finset.mem_univ i, by rwa [setPhase_self]⟩
  by_cases hk : k = i
  · subst hk
    rw [setPhase_self]
    exact lower.le
  · rw [setPhase_of_ne hk]

theorem totalLeft_step {e : Event n} (hs : (machine sha256 calls).step t e = some u)
    (goes : Goes e) : totalLeft u < totalLeft t := by
  cases e with
  | byKey i =>
    obtain ⟨again, hi, rfl⟩ := step_byKey hs
    refine totalLeft_setPhase ?_
    rw [hi, keyLookup]
    cases again <;> split <;> simp [stepsLeft]
  | byContent i =>
    obtain ⟨again, hi, rfl⟩ := step_byContent hs
    refine totalLeft_setPhase ?_
    rw [hi, contentLookup]
    cases again <;> split <;> simp [stepsLeft]
  | insert i =>
    obtain ⟨hi, _, rfl⟩ := step_insert hs
    simp only [insertStep]
    split
    · exact totalLeft_setPhase (by simp [hi, stepsLeft])
    · split
      · exact totalLeft_setPhase (by simp [hi, stepsLeft])
      · exact totalLeft_setPhase (by simp [hi, stepsLeft])
      · exact totalLeft_setPhase (by simp [hi, stepsLeft])
  | commit i =>
    obtain ⟨d, j, hi, rfl⟩ := step_commit hs
    exact totalLeft_setPhase (by simp [hi, stepsLeft])
  | abort i => exact goes.elim

/-- A call that meets no uncommitted rows has a step to take. -/
theorem open_steps (sha256 : Sha256) (calls : Fin n → Call) (free : ∀ k, (t.phase k).pending = none) (hi : Open (t.phase i)) :
    ∃ e u, Goes e ∧ (machine sha256 calls).step t e = some u := by
  rcases hi with ⟨again, hi⟩ | ⟨again, hi⟩ | hi
  · exact ⟨.byKey i, _, trivial, by simp only [machine, step, hi]; rfl⟩
  · exact ⟨.byContent i, _, trivial, by simp only [machine, step, hi]; rfl⟩
  · have unblocked : ¬ Blocked sha256 calls t i := not_blocked_alone fun k _ => free k
    exact ⟨.insert i, _, trivial, by simp only [machine, step, hi, if_neg unblocked]; rfl⟩

/-- No deadlock: a race in which no call can move is decided and fully answered. -/
theorem race_over (any : 0 < n) (race : Race sha256 calls s t)
    (still : ∀ e u, Goes e → (machine sha256 calls).step t e ≠ some u) :
    Converged sha256 calls s t := by
  cases race with
  | undecided hdb hobj waits =>
    obtain ⟨e, u, goes, hs⟩ := open_steps sha256 calls
      (fun k => (waits k).isOpen.pending) (waits ⟨0, any⟩).isOpen
    exact absurd hs (still e u goes)
  | pending w hw hdb hobj waits =>
    have commits : ∃ u, (machine sha256 calls).step t (.commit w) = some u := by
      simp only [machine, step, hw]
      exact ⟨_, rfl⟩
    obtain ⟨u, hs⟩ := commits
    exact absurd hs (still (.commit w) u trivial)
  | won w hw hdb hobj loses =>
    have free : ∀ k, (t.phase k).pending = none := by
      intro k
      by_cases own : k = w
      · rw [own, hw]
        rfl
      · rcases loses k own with hk | hk
        · exact hk.pending
        · rw [hk]
          rfl
    refine ⟨w, by rw [hw]; rfl, fun i other => ?_, hdb, hobj⟩
    rcases loses i other with hi | hi
    · obtain ⟨e, u, goes, hs⟩ := open_steps sha256 calls free hi
      exact absurd hs (still e u goes)
    · rw [hi]
      rfl

/-- Every interleaving of identical uploads whose transactions commit is short, and
once nothing more can happen all of them have the document and the job of one. -/
theorem uploads_converge {n : Nat} (sha256 : Sha256) (calls : Fin n → Call) (s t : World n)
    (es : List (Event n)) (any : 0 < n) (ready : Ready sha256 calls s)
    (commits : (machine sha256 calls).EveryStep (fun _ e _ => Goes e) s es)
    (hr : (machine sha256 calls).run s es = some t) :
    es.length ≤ 6 * n ∧
      ((∀ e u, Goes e → (machine sha256 calls).step t e ≠ some u) → Converged sha256 calls s t) := by
  have first : Race sha256 calls s s := .undecided rfl rfl fun k => Or.inl (ready.phases k)
  have most : totalLeft s = 6 * n := by
    simp [totalLeft, ready.phases, stepsLeft, Nat.mul_comm]
  constructor
  · have short := Machine.run_length_le totalLeft (I := fun _ => True) (fun _ _ _ _ _ _ => trivial)
      (fun _ _ _ _ hs goes => totalLeft_step hs goes) trivial commits hr
    omega
  · have race := Machine.run_keeps (I := Race sha256 calls s)
      (fun _ _ _ race hs goes => race_step ready race hs goes) first commits hr
    exact race_over any race

end Runs

namespace Demo

open UploadRaces.Demo

/-- Calls that differ in nothing but the identifiers that they draw. -/
def twins {n : Nat} (i : Fin n) : Call := call [104, 101, 108, 108, 111] "k0" (3 + i.val)

def accounts (n : Nat) : World n := start n [⟨1, "a@example.com", true⟩] [⟨2, "A", "a", 0⟩]

/-- Both look before either has inserted; the second insert fails after the first commit. -/
def race {n : Nat} (a b : Fin n) : List (Event n) :=
  [.byKey a, .byKey b, .byContent b, .byContent a, .insert a, .commit a, .insert b, .byKey b]

theorem ready : Ready sha256 (twins : Fin 2 → Call) (accounts 2) where
  phases := fun _ => rfl
  tenant := fun _ _ => rfl
  key := fun _ _ => rfl
  content := fun _ _ => rfl
  insertable := fun i =>
    { docFits := documentFits_newDocument.mpr ⟨by revert i; decide +kernel,
        by revert i; decide +kernel, by revert i; decide +kernel⟩
      keyFits := by revert i; decide +kernel
      docFresh := fun x hx => by cases hx
      contentNew := fun x hx => by cases hx
      jobFresh := fun x hx => by cases hx
      keyNew := fun x hx => by cases hx
      user := ⟨_, List.mem_singleton.mpr rfl, rfl⟩
      organization := ⟨_, List.mem_singleton.mpr rfl, rfl⟩ }
  noJob := fun _ j hj => by cases hj
  links := fun j hj => by cases hj
  storage := fun _ => ⟨rfl, rfl⟩
  docIds := by decide +kernel
  objects := fun _ => rfl

end Demo

theorem uploads_converge_demo :
    Converged Demo.sha256 (Demo.twins : Fin 2 → Call) (Demo.accounts 2)
      (((machine Demo.sha256 Demo.twins).run (Demo.accounts 2) (Demo.race 0 1)).getD
        (Demo.accounts 2)) := by
  have finishes : ((machine Demo.sha256 Demo.twins).run (Demo.accounts 2)
      (Demo.race 0 1)).map totalLeft = some 0 := by decide +kernel
  obtain ⟨t, ht, ended⟩ := Option.map_eq_some_iff.mp finishes
  rw [ht, Option.getD_some]
  have commits : (machine Demo.sha256 Demo.twins).EveryStep (fun _ e _ => Goes e)
      (Demo.accounts 2) (Demo.race 0 1) := Machine.everyStep_of_events _ (by decide)
  refine (uploads_converge _ _ _ t _ (by decide) Demo.ready commits ht).2 ?_
  intro e u goes hs
  have lower := totalLeft_step hs goes
  omega

end UploadConvergence
