import ResearchPlatform.DocumentService
import ResearchPlatform.Library.Machines
import ResearchPlatform.Library.RowVersions
import Mathlib.Data.Fintype.Basic

/-!
# Uploads that overlap

`upload_document` cut at its statements, for any number of calls at once at READ
COMMITTED: the idempotency lookup, the content lookup, the insert with the
savepoint, and the commit at the end of the request. An insert that meets an
uncommitted row with an equal unique value waits for it. After a failed insert
the two lookups run again. A call that runs alone is `uploadDocument`.
-/

namespace UploadRaces

open Uuid Schema DocumentService Machines RowVersions

structure Call where
  upload : Upload
  outside : Outside

/-- Where one call stands. `again` marks the lookups after a failed insert. -/
inductive Phase where
  | looking (again : Bool)
  | keyMissed (again : Bool)
  | missed
  | inserted (d : Document) (j : IngestionJob)
  | answered (d : Document) (j : IngestionJob)
  | failed (e : Failure)
  | aborted

namespace Phase

/-- The uncommitted rows of the call. -/
def pending : Phase → Option (Document × IngestionJob)
  | inserted d j => some (d, j)
  | _ => none

def answer : Phase → Option (Document × IngestionJob)
  | answered d j => some (d, j)
  | _ => none

end Phase

structure World (n : Nat) where
  db : Database
  objects : ObjectStore
  phase : Fin n → Phase

inductive Event (n : Nat) where
  | byKey (i : Fin n)
  | byContent (i : Fin n)
  | insert (i : Fin n)
  | commit (i : Fin n)
  | abort (i : Fin n)

def World.setPhase {n : Nat} (s : World n) (i : Fin n) (p : Phase) : World n :=
  { s with phase := fun k => if k = i then p else s.phase k }

/-- No unique value is shared, so neither insert waits for the other. -/
structure Apart (d : Document) (j : IngestionJob) (d' : Document) (j' : IngestionJob) : Prop where
  docId : d.id ≠ d'.id
  content : d.tenantId = d'.tenantId → d.contentHash ≠ d'.contentHash
  jobId : j.id ≠ j'.id
  key : j.tenantId = j'.tenantId → j.row.idempotencyKey ≠ j'.row.idempotencyKey

theorem apart_iff {d d' : Document} {j j' : IngestionJob} :
    Apart d j d' j' ↔ d.id ≠ d'.id ∧ (d.tenantId = d'.tenantId → d.contentHash ≠ d'.contentHash) ∧
      j.id ≠ j'.id ∧ (j.tenantId = j'.tenantId → j.row.idempotencyKey ≠ j'.row.idempotencyKey) :=
  ⟨fun h => ⟨h.docId, h.content, h.jobId, h.key⟩, fun h => ⟨h.1, h.2.1, h.2.2.1, h.2.2.2⟩⟩

instance (d : Document) (j : IngestionJob) (d' : Document) (j' : IngestionJob) :
    Decidable (Apart d j d' j') := decidable_of_iff _ apart_iff.symm

section Machine
variable {n : Nat} (sha256 : Sha256) (calls : Fin n → Call)

def docOf (i : Fin n) : Document := newDocument sha256 (calls i).upload (calls i).outside

def jobOf (i : Fin n) : IngestionJob := newJob (calls i).upload (calls i).outside

def hashOf (i : Fin n) : String := contentHash sha256 (calls i).upload.content

def keyOf (i : Fin n) : String :=
  storageKey (calls i).upload.tenantId (calls i).outside.docId (calls i).upload.filename

/-- Another call has an uncommitted row with an equal unique value. -/
def Blocked (s : World n) (i : Fin n) : Prop :=
  ∃ k, k ≠ i ∧ ∃ r ∈ (s.phase k).pending, ¬ Apart r.1 r.2 (docOf sha256 calls i) (jobOf calls i)

instance (s : World n) (i : Fin n) : Decidable (Blocked sha256 calls s i) :=
  inferInstanceAs (Decidable (∃ k, k ≠ i ∧ ∃ r ∈ (s.phase k).pending,
    ¬ Apart r.1 r.2 (docOf sha256 calls i) (jobOf calls i)))

/-- The storage upload and the flush inside the savepoint. -/
def insertStep (s : World n) (i : Fin n) : World n :=
  let u := (calls i).upload
  let o := (calls i).outside
  let key := storageKey u.tenantId o.docId u.filename
  let stored := s.objects.afterPut key ⟨u.content, contentTypeOf u.mimeType⟩ o.uploadError
  match o.uploadError with
  | some fault => { s with objects := stored }.setPhase i (.failed fault.failure)
  | none =>
    match insertUpload s.db (docOf sha256 calls i) (jobOf calls i) with
    | .ok _ => { s with objects := stored }.setPhase i
        (.inserted (docOf sha256 calls i) (jobOf calls i))
    | .error (.integrityError _) =>
      let cleaned := stored.afterDelete key o.deleteError
      { s with objects := cleaned }.setPhase i (.looking true)
    | .error e => { s with objects := stored }.setPhase i (.failed e)

def step (s : World n) : Event n → Option (World n)
  | .byKey i => match s.phase i with
    | .looking again => some (s.setPhase i
        (match findByKey s.db (calls i).upload.idempotencyKey (calls i).upload.tenantId with
          | .error e => .failed e
          | .ok (some hit) => .answered hit.1 hit.2
          | .ok none => .keyMissed again))
    | _ => none
  | .byContent i => match s.phase i with
    | .keyMissed again => some (s.setPhase i
        (match findByContent s.db (hashOf sha256 calls i) (calls i).upload.tenantId with
          | .error e => .failed e
          | .ok (some hit) => .answered hit.1 hit.2
          | .ok none => if again then .failed uploadConflict else .missed))
    | _ => none
  | .insert i => match s.phase i with
    | .missed => if Blocked sha256 calls s i then none else some (insertStep sha256 calls s i)
    | _ => none
  | .commit i => match s.phase i with
    | .inserted d j => some ({ s with db := { s.db with
        documents := s.db.documents ++ [d.row]
        ingestionJobs := s.db.ingestionJobs ++ [j.row] } }.setPhase i (.answered d j))
    | _ => none
  | .abort i => match s.phase i with
    | .answered _ _ => none
    | _ => some (s.setPhase i .aborted)

def machine : Machine (World n) (Event n) := ⟨step sha256 calls⟩

/-- Accounts exist, nothing is uploaded yet, and every call is about to start. -/
def start (n : Nat) (users : List User) (organizations : List Organization) : World n where
  db := { Database.empty with users := users, organizations := organizations }
  objects := fun _ => none
  phase := fun _ => .looking false

end Machine

/-! ## What a step does -/

section Runs
variable {n : Nat} {sha256 : Sha256} {calls : Fin n → Call} {s t : World n} {e : Event n}
  {i : Fin n} {p : Phase}

@[simp] theorem setPhase_db : (s.setPhase i p).db = s.db := rfl

@[simp] theorem setPhase_self : (s.setPhase i p).phase i = p := if_pos rfl

theorem setPhase_of_ne {k : Fin n} (h : k ≠ i) : (s.setPhase i p).phase k = s.phase k := if_neg h

def keyLookup (calls : Fin n → Call) (s : World n) (i : Fin n) (again : Bool) : Phase :=
  match findByKey s.db (calls i).upload.idempotencyKey (calls i).upload.tenantId with
  | .error e => .failed e
  | .ok (some hit) => .answered hit.1 hit.2
  | .ok none => .keyMissed again

def contentLookup (sha256 : Sha256) (calls : Fin n → Call) (s : World n) (i : Fin n)
    (again : Bool) : Phase :=
  match findByContent s.db (hashOf sha256 calls i) (calls i).upload.tenantId with
  | .error e => .failed e
  | .ok (some hit) => .answered hit.1 hit.2
  | .ok none => if again then .failed uploadConflict else .missed

theorem step_byKey (hs : (machine sha256 calls).step s (.byKey i) = some t) :
    ∃ again, s.phase i = .looking again ∧ t = s.setPhase i (keyLookup calls s i again) := by
  simp only [machine, step] at hs
  split at hs
  · rename_i again hi
    exact ⟨again, hi, (Option.some.inj hs).symm⟩
  · cases hs

theorem step_byContent (hs : (machine sha256 calls).step s (.byContent i) = some t) :
    ∃ again, s.phase i = .keyMissed again ∧
      t = s.setPhase i (contentLookup sha256 calls s i again) := by
  simp only [machine, step] at hs
  split at hs
  · rename_i again hi
    exact ⟨again, hi, (Option.some.inj hs).symm⟩
  · cases hs

theorem step_insert (hs : (machine sha256 calls).step s (.insert i) = some t) :
    s.phase i = .missed ∧ ¬ Blocked sha256 calls s i ∧ t = insertStep sha256 calls s i := by
  simp only [machine, step] at hs
  split at hs
  · rename_i hi
    rw [Option.ite_none_left_eq_some] at hs
    exact ⟨hi, hs.1, (Option.some.inj hs.2).symm⟩
  · cases hs

theorem step_commit (hs : (machine sha256 calls).step s (.commit i) = some t) :
    ∃ d j, s.phase i = .inserted d j ∧ t = { s with db := { s.db with
      documents := s.db.documents ++ [d.row]
      ingestionJobs := s.db.ingestionJobs ++ [j.row] } }.setPhase i (.answered d j) := by
  simp only [machine, step] at hs
  split at hs
  · rename_i d j hi
    exact ⟨d, j, hi, (Option.some.inj hs).symm⟩
  · cases hs

theorem step_abort (hs : (machine sha256 calls).step s (.abort i) = some t) :
    (∀ d j, s.phase i ≠ .answered d j) ∧ t = s.setPhase i .aborted := by
  simp only [machine, step] at hs
  split at hs
  · cases hs
  · rename_i live
    exact ⟨live, (Option.some.inj hs).symm⟩

/-! ## A call alone -/

/-- What the request that made the call gets to see. -/
def Phase.outcome : Phase → Option (Except Failure (Document × IngestionJob))
  | .answered d j => some (.ok (d, j))
  | .failed e => some (.error e)
  | _ => none

@[simp] theorem setPhase_objects : (s.setPhase i p).objects = s.objects := rfl

@[simp] theorem setPhase_setPhase {q : Phase} : (s.setPhase i p).setPhase i q = s.setPhase i q := by
  simp only [World.setPhase, World.mk.injEq, true_and]
  funext k
  by_cases hk : k = i
  · simp [hk]
  · simp [hk]

theorem not_blocked_alone (alone : ∀ k, k ≠ i → (s.phase k).pending = none) :
    ¬ Blocked sha256 calls s i := by
  rintro ⟨k, hk, r, hr, _⟩
  rw [alone k hk] at hr
  cases hr

/-- A call that meets no uncommitted row of another one can take its steps in
turn, and comes to what `uploadDocument` says. -/
theorem runs_alone (hi : s.phase i = .looking false)
    (alone : ∀ k, k ≠ i → (s.phase k).pending = none) :
    ∃ es t, (machine sha256 calls).run s es = some t ∧
      (t.db, t.objects) =
        (uploadDocument sha256 (calls i).upload (calls i).outside s.db s.objects).2 ∧
      (t.phase i).outcome =
        some (uploadDocument sha256 (calls i).upload (calls i).outside s.db s.objects).1 := by
  have ran : ∀ es t, (machine sha256 calls).run s es = some t →
      (∀ r, uploadDocument sha256 (calls i).upload (calls i).outside s.db s.objects = r →
        (t.db, t.objects) = r.2 ∧ (t.phase i).outcome = some r.1) →
      ∃ es t, (machine sha256 calls).run s es = some t ∧
        (t.db, t.objects) =
          (uploadDocument sha256 (calls i).upload (calls i).outside s.db s.objects).2 ∧
        (t.phase i).outcome =
          some (uploadDocument sha256 (calls i).upload (calls i).outside s.db s.objects).1 :=
    fun es t hr ok => ⟨es, t, hr, (ok _ rfl).1, (ok _ rfl).2⟩
  cases hk : findByKey s.db (calls i).upload.idempotencyKey (calls i).upload.tenantId with
  | error e =>
    refine ran [.byKey i] (s.setPhase i (.failed e)) (by simp [Machine.run, machine, step, hi, hk]) ?_
    rintro _ rfl
    simp [uploadDocument, findExistingUpload, hk, Phase.outcome]
  | ok hit =>
    cases hit with
    | some hit =>
      refine ran [.byKey i] (s.setPhase i (.answered hit.1 hit.2))
        (by simp [Machine.run, machine, step, hi, hk]) ?_
      rintro _ rfl
      simp [uploadDocument, findExistingUpload, hk, Phase.outcome]
    | none =>
      cases hc : findByContent s.db (contentHash sha256 (calls i).upload.content)
          (calls i).upload.tenantId with
      | error e =>
        refine ran [.byKey i, .byContent i] (s.setPhase i (.failed e))
          (by simp [Machine.run, machine, step, hi, hk, hashOf, hc]) ?_
        rintro _ rfl
        simp [uploadDocument, findExistingUpload, hk, hc, Phase.outcome]
      | ok hit =>
        cases hit with
        | some hit =>
          refine ran [.byKey i, .byContent i] (s.setPhase i (.answered hit.1 hit.2))
            (by simp [Machine.run, machine, step, hi, hk, hashOf, hc]) ?_
          rintro _ rfl
          simp [uploadDocument, findExistingUpload, hk, hc, Phase.outcome]
        | none =>
          have free : ∀ p, ¬ Blocked sha256 calls (s.setPhase i p) i := fun p =>
            not_blocked_alone fun k hne => by rw [setPhase_of_ne hne, alone k hne]
          cases hu : (calls i).outside.uploadError with
          | some fault =>
            refine ran [.byKey i, .byContent i, .insert i] _
              (by simp [Machine.run, machine, step, hi, hk, hashOf, hc, free, insertStep, hu]; rfl) ?_
            rintro _ rfl
            simp [uploadDocument, findExistingUpload, hk, hc, hu, Phase.outcome]
          | none =>
            cases hn : insertUpload s.db (newDocument sha256 (calls i).upload (calls i).outside)
                (newJob (calls i).upload (calls i).outside) with
            | ok db =>
              obtain ⟨_, rfl⟩ := (insertUpload_ok_iff rfl rfl rfl).mp hn
              refine ran [.byKey i, .byContent i, .insert i, .commit i] _
                (by simp [Machine.run, machine, step, hi, hk, hashOf, hc, free, insertStep, hu,
                  docOf, jobOf, hn]; rfl) ?_
              rintro _ rfl
              simp [uploadDocument, findExistingUpload, hk, hc, hu, hn, Phase.outcome]
            | error e =>
              cases e with
              | integrityError constraint =>
                refine ran [.byKey i, .byContent i, .insert i, .byKey i, .byContent i] _
                  (by simp [Machine.run, machine, step, hi, hk, hashOf, hc, free, insertStep, hu,
                    docOf, jobOf, hn]; rfl) ?_
                rintro _ rfl
                simp [uploadDocument, findExistingUpload, hk, hc, hu, hn, Phase.outcome]
              | _ =>
                refine ran [.byKey i, .byContent i, .insert i] _
                  (by simp [Machine.run, machine, step, hi, hk, hashOf, hc, free, insertStep, hu,
                    docOf, jobOf, hn]; rfl) ?_
                rintro _ rfl
                simp [uploadDocument, findExistingUpload, hk, hc, hu, hn, Phase.outcome]

/-- What a lookup of call `i` may return. -/
structure Hit (calls : Fin n → Call) (s : World n) (i : Fin n) (d : Document) (j : IngestionJob) :
    Prop where
  document : d ∈ s.db.documents
  job : j ∈ s.db.ingestionJobs
  link : j.documentId = d.id
  tenant : j.tenantId = (calls i).upload.tenantId

/-- Everything that one step can do. -/
inductive Change (sha256 : Sha256) (calls : Fin n → Call) (s : World n) : Event n → World n → Prop
  | foundKey (i : Fin n) (again : Bool) (d : Document) (j : IngestionJob)
      (hi : s.phase i = .looking again) (hit : Hit calls s i d j)
      (key : j.idempotencyKey = (calls i).upload.idempotencyKey) :
      Change sha256 calls s (.byKey i) (s.setPhase i (.answered d j))
  | foundContent (i : Fin n) (again : Bool) (d : Document) (j : IngestionJob)
      (hi : s.phase i = .keyMissed again) (hit : Hit calls s i d j)
      (tenant : d.tenantId = (calls i).upload.tenantId)
      (content : d.contentHash = hashOf sha256 calls i) :
      Change sha256 calls s (.byContent i) (s.setPhase i (.answered d j))
  | passed (e : Event n) (i : Fin n) (p : Phase) (objects : ObjectStore)
      (hi : (s.phase i).answer = none) (hp : p.answer = none ∧ p.pending = none) :
      Change sha256 calls s e ({ s with objects := objects }.setPhase i p)
  | inserted (i : Fin n) (objects : ObjectStore) (hi : s.phase i = .missed)
      (free : ¬ Blocked sha256 calls s i)
      (fits : Insertable s.db (docOf sha256 calls i) (jobOf calls i)) :
      Change sha256 calls s (.insert i) ({ s with objects := objects }.setPhase i
        (.inserted (docOf sha256 calls i) (jobOf calls i)))
  | committed (i : Fin n) (d : Document) (j : IngestionJob) (hi : s.phase i = .inserted d j) :
      Change sha256 calls s (.commit i) ({ s with db := { s.db with
        documents := s.db.documents ++ [d.row]
        ingestionJobs := s.db.ingestionJobs ++ [j.row] } }.setPhase i (.answered d j))

theorem step_change (hs : (machine sha256 calls).step s e = some t) :
    Change sha256 calls s e t := by
  cases e with
  | byKey i =>
    obtain ⟨again, hi, rfl⟩ := step_byKey hs
    rw [keyLookup]
    cases hf : findByKey s.db (calls i).upload.idempotencyKey (calls i).upload.tenantId with
    | error e => exact .passed _ i _ s.objects (by rw [hi]; rfl) ⟨rfl, rfl⟩
    | ok hit =>
      cases hit with
      | none => exact .passed _ i _ s.objects (by rw [hi]; rfl) ⟨rfl, rfl⟩
      | some hit =>
        obtain ⟨hd, hj, link, tenant, key⟩ := findByKey_spec hf
        exact .foundKey i again hit.1 hit.2 hi ⟨hd, hj, link, tenant⟩ key
  | byContent i =>
    obtain ⟨again, hi, rfl⟩ := step_byContent hs
    rw [contentLookup]
    cases hf : findByContent s.db (hashOf sha256 calls i) (calls i).upload.tenantId with
    | error e => exact .passed _ i _ s.objects (by rw [hi]; rfl) ⟨rfl, rfl⟩
    | ok hit =>
      cases hit with
      | none => exact .passed _ i _ s.objects (by rw [hi]; rfl) (by cases again <;> exact ⟨rfl, rfl⟩)
      | some hit =>
        obtain ⟨hd, tenant, content, _, hj, link, owner⟩ := findByContent_spec hf
        exact .foundContent i again hit.1 hit.2 hi ⟨hd, hj, link, owner⟩ tenant content
  | insert i =>
    obtain ⟨hi, free, rfl⟩ := step_insert hs
    have quiet : (s.phase i).answer = none := by rw [hi]; rfl
    simp only [insertStep]
    cases (calls i).outside.uploadError with
    | some fault => exact .passed _ i _ _ quiet ⟨rfl, rfl⟩
    | none =>
      cases hu : insertUpload s.db (docOf sha256 calls i) (jobOf calls i) with
      | ok db =>
        obtain ⟨fits, _⟩ := (insertUpload_ok_iff rfl rfl rfl).mp hu
        exact .inserted i _ hi free fits
      | error e => cases e <;> exact .passed _ i _ _ quiet ⟨rfl, rfl⟩
  | commit i =>
    obtain ⟨d, j, hi, rfl⟩ := step_commit hs
    exact .committed i d j hi
  | abort i =>
    obtain ⟨live, rfl⟩ := step_abort hs
    refine .passed _ i _ s.objects ?_ ⟨rfl, rfl⟩
    cases hi : s.phase i with
    | answered d j => exact absurd hi (live d j)
    | _ => rfl

/-! ## Uncommitted rows -/

/-- The uncommitted rows are those of their calls, and still fit the committed rows and
each other. -/
structure OpenUploads (sha256 : Sha256) (calls : Fin n → Call) (db : Database)
    (phase : Fin n → Phase) : Prop where
  pending : ∀ i d j, phase i = .inserted d j →
    d = docOf sha256 calls i ∧ j = jobOf calls i ∧ Insertable db d j
  apart : ∀ i k c a d b, i ≠ k → phase i = .inserted c a → phase k = .inserted d b → Apart c a d b

theorem Apart.symm {c d : Document} {a b : IngestionJob} (h : Apart c a d b) : Apart d b c a where
  docId := h.docId.symm
  content same := (h.content same.symm).symm
  jobId := h.jobId.symm
  key same := (h.key same.symm).symm

theorem apart_of_not_blocked (free : ¬ Blocked sha256 calls s i) {k : Fin n} {d : Document}
    {j : IngestionJob} (hne : k ≠ i) (hk : s.phase k = .inserted d j) :
    Apart d j (docOf sha256 calls i) (jobOf calls i) := by
  by_contra close
  exact free ⟨k, hne, (d, j), by rw [hk]; rfl, close⟩

/-- An open upload after a change of one phase was open before, or is the one changed. -/
theorem inserted_setPhase {k : Fin n} {d : Document} {j : IngestionJob}
    (hk : (s.setPhase i p).phase k = .inserted d j) :
    k = i ∧ p = .inserted d j ∨ k ≠ i ∧ s.phase k = .inserted d j := by
  by_cases hki : k = i
  · subst hki
    rw [setPhase_self] at hk
    exact Or.inl ⟨rfl, hk⟩
  · rw [setPhase_of_ne hki] at hk
    exact Or.inr ⟨hki, hk⟩

/-- Rows that fit still do once the rows of another upload, apart from them, are in. -/
theorem insertable_append {db : Database} {c d : Document} {a b : IngestionJob}
    (fits : Insertable db d b) (other : Apart c a d b) :
    Insertable { db with
      documents := db.documents ++ [c.row], ingestionJobs := db.ingestionJobs ++ [a.row] } d b where
  docFits := fits.docFits
  keyFits := fits.keyFits
  docFresh := List.forall_mem_append.mpr ⟨fits.docFresh, List.forall_mem_singleton.mpr other.docId⟩
  contentNew := List.forall_mem_append.mpr ⟨fits.contentNew, List.forall_mem_singleton.mpr other.content⟩
  jobFresh := List.forall_mem_append.mpr ⟨fits.jobFresh, List.forall_mem_singleton.mpr other.jobId⟩
  keyNew := List.forall_mem_append.mpr ⟨fits.keyNew, List.forall_mem_singleton.mpr other.key⟩
  user := fits.user
  organization := fits.organization

namespace OpenUploads

theorem mono {db db' : Database} {phase : Fin n → Phase} (h : OpenUploads sha256 calls db phase)
    (fits : ∀ d j, Insertable db d j → Insertable db' d j) : OpenUploads sha256 calls db' phase where
  pending i d j hi := by
    obtain ⟨hd, hj, old⟩ := h.pending i d j hi
    exact ⟨hd, hj, fits d j old⟩
  apart := h.apart

/-- A statement that opens no upload. -/
theorem closed (h : OpenUploads sha256 calls s.db s.phase) (hp : p.pending = none) :
    OpenUploads sha256 calls s.db (s.setPhase i p).phase := by
  have before : ∀ k d j, (s.setPhase i p).phase k = .inserted d j → s.phase k = .inserted d j := by
    intro k d j hk
    rcases inserted_setPhase hk with ⟨_, he⟩ | ⟨_, old⟩
    · rw [he] at hp
      cases hp
    · exact old
  constructor
  · exact fun k d j hk => h.pending k d j (before k d j hk)
  · exact fun k l c a d b hne hk hl => h.apart k l c a d b hne (before k c a hk) (before l d b hl)

theorem inserted (h : OpenUploads sha256 calls s.db s.phase) (free : ¬ Blocked sha256 calls s i)
    (fits : Insertable s.db (docOf sha256 calls i) (jobOf calls i)) :
    OpenUploads sha256 calls s.db
      (s.setPhase i (.inserted (docOf sha256 calls i) (jobOf calls i))).phase := by
  constructor
  · intro k d j hk
    rcases inserted_setPhase hk with ⟨rfl, hp⟩ | ⟨_, old⟩
    · cases hp
      exact ⟨rfl, rfl, fits⟩
    · exact h.pending k d j old
  · intro k l c a d b hne hk hl
    rcases inserted_setPhase hk with ⟨rfl, hp⟩ | ⟨hki, old⟩
    · cases hp
      rcases inserted_setPhase hl with ⟨rfl, _⟩ | ⟨hli, old⟩
      · exact absurd rfl hne
      · exact (apart_of_not_blocked free hli old).symm
    · rcases inserted_setPhase hl with ⟨rfl, hp⟩ | ⟨_, old'⟩
      · cases hp
        exact apart_of_not_blocked free hki old
      · exact h.apart k l c a d b hne old old'

/-- The commit of an open upload brings both rows in, and leaves room for the others. -/
theorem committed (h : OpenUploads sha256 calls s.db s.phase) {d : Document} {j : IngestionJob}
    (hi : s.phase i = .inserted d j) :
    OpenUploads sha256 calls { s.db with
      documents := s.db.documents ++ [d.row], ingestionJobs := s.db.ingestionJobs ++ [j.row] }
      (s.setPhase i (.answered d j)).phase := by
  have before : ∀ k c b, (s.setPhase i (.answered d j)).phase k = .inserted c b →
      k ≠ i ∧ s.phase k = .inserted c b := by
    intro k c b hk
    rcases inserted_setPhase hk with ⟨_, hp⟩ | old
    · cases hp
    · exact old
  constructor
  · intro k c b hk
    obtain ⟨hki, old⟩ := before k c b hk
    obtain ⟨hc, hb, fits⟩ := h.pending k c b old
    exact ⟨hc, hb, insertable_append fits (h.apart i k d j c b hki.symm hi old)⟩
  · intro k l c a x b hne hk hl
    exact h.apart k l c a x b hne (before k c a hk).2 (before l x b hl).2

/-- Whatever one step does, the uncommitted rows still fit. -/
theorem change (h : OpenUploads sha256 calls s.db s.phase) (change : Change sha256 calls s e t) :
    OpenUploads sha256 calls t.db t.phase := by
  cases change with
  | foundKey i again d j hi hit key => exact h.closed rfl
  | foundContent i again d j hi hit tenant content => exact h.closed rfl
  | passed _ i p objects hi hp => exact h.closed hp.2
  | inserted i objects hi free fits => exact h.inserted free fits
  | committed i d j hi => exact h.committed hi

end OpenUploads

/-! ## What overlapping uploads keep -/

/-- A call is answered with what it has inserted itself, or with committed rows. -/
inductive Returned (sha256 : Sha256) (calls : Fin n → Call) (i : Fin n) (d : Document) (j : IngestionJob) : Prop
  | own (document : d = docOf sha256 calls i) (job : j = jobOf calls i)
  | found (document : d.row = d) (job : j.row = j)

/-- Committed rows come from answered calls and share no unique value, pending
rows still fit, and every answer stands for a committed pair. -/
structure Inv (sha256 : Sha256) (calls : Fin n → Call) (s : World n) : Prop where
  jobs : ∀ j ∈ s.db.ingestionJobs,
    ∃ x, s.phase x = .answered (docOf sha256 calls x) (jobOf calls x) ∧ j = (jobOf calls x).row
  documents : ∀ d ∈ s.db.documents,
    ∃ x, s.phase x = .answered (docOf sha256 calls x) (jobOf calls x) ∧ d = (docOf sha256 calls x).row
  keys : (s.db.ingestionJobs.map fun j => (j.tenantId, j.idempotencyKey)).Nodup
  contents : (s.db.documents.map fun d => (d.tenantId, d.contentHash)).Nodup
  ids : (s.db.documents.map Document.id).Nodup
  links : (s.db.ingestionJobs.map IngestionJob.documentId).Nodup
  texts : ∀ j ∈ s.db.ingestionJobs, sendable j.idempotencyKey = true
  pending : ∀ i d j, s.phase i = .inserted d j →
    d = docOf sha256 calls i ∧ j = jobOf calls i ∧ Insertable s.db d j
  apart : ∀ i k c a d b, i ≠ k → s.phase i = .inserted c a → s.phase k = .inserted d b → Apart c a d b
  answers : ∀ i d j, s.phase i = .answered d j → Hit calls s i d.row j.row ∧ Returned sha256 calls i d j

theorem inv_start (sha256 : Sha256) (calls : Fin n → Call) (users : List User)
    (organizations : List Organization) : Inv sha256 calls (start n users organizations) where
  jobs := by simp [start, Database.empty]
  documents := by simp [start, Database.empty]
  keys := by simp [start, Database.empty]
  contents := by simp [start, Database.empty]
  ids := by simp [start, Database.empty]
  links := by simp [start, Database.empty]
  texts := by simp [start, Database.empty]
  pending := by simp [start]
  apart := by simp [start]
  answers := by simp [start]

theorem Inv.openUploads (h : Inv sha256 calls s) : OpenUploads sha256 calls s.db s.phase :=
  ⟨h.pending, h.apart⟩

theorem Inv.document_row (h : Inv sha256 calls s) {d : Document} (hd : d ∈ s.db.documents) : d.row = d := by
  obtain ⟨x, _, rfl⟩ := h.documents d hd
  exact Document.row_row _

theorem Inv.job_row (h : Inv sha256 calls s) {j : IngestionJob} (hj : j ∈ s.db.ingestionJobs) : j.row = j := by
  obtain ⟨x, _, rfl⟩ := h.jobs j hj
  exact IngestionJob.row_row _

/-- A phase change that touches no committed row: the call was open, and its new
phase is pending or answered only as the invariant allows. -/
theorem inv_setPhase (h : Inv sha256 calls s) (objects : ObjectStore)
    (hi : (s.phase i).answer = none)
    (opens : OpenUploads sha256 calls s.db (s.setPhase i p).phase)
    (answers : ∀ d j, p = .answered d j → Hit calls s i d.row j.row ∧ Returned sha256 calls i d j) :
    Inv sha256 calls ({ s with objects := objects }.setPhase i p) := by
  have stays : ∀ x d j, s.phase x = .answered d j →
      ({ s with objects := objects }.setPhase i p).phase x = .answered d j := by
    intro x d j hx
    rw [setPhase_of_ne]
    · exact hx
    · rintro rfl
      rw [hx] at hi
      cases hi
  refine ⟨?_, ?_, h.keys, h.contents, h.ids, h.links, h.texts, opens.pending, opens.apart, ?_⟩
  · intro j hj
    obtain ⟨x, hx, rfl⟩ := h.jobs j hj
    exact ⟨x, stays x _ _ hx, rfl⟩
  · intro d hd
    obtain ⟨x, hx, rfl⟩ := h.documents d hd
    exact ⟨x, stays x _ _ hx, rfl⟩
  · intro k d j hk
    by_cases hki : k = i
    · subst hki
      rw [setPhase_self] at hk
      exact ⟨⟨(answers d j hk).1.document, (answers d j hk).1.job, (answers d j hk).1.link,
        (answers d j hk).1.tenant⟩, (answers d j hk).2⟩
    · rw [setPhase_of_ne hki] at hk
      obtain ⟨hit, why⟩ := h.answers k d j hk
      exact ⟨⟨hit.document, hit.job, hit.link, hit.tenant⟩, why⟩

/-- A commit adds the two pending rows, which fit, and the other pending rows still do. -/
theorem inv_commit (h : Inv sha256 calls s) {d : Document} {j : IngestionJob}
    (hi : s.phase i = .inserted d j) :
    Inv sha256 calls ({ s with db := { s.db with
      documents := s.db.documents ++ [d.row]
      ingestionJobs := s.db.ingestionJobs ++ [j.row] } }.setPhase i (.answered d j)) := by
  obtain ⟨rfl, rfl, fits⟩ := h.pending i d j hi
  have stays : ∀ x c b, s.phase x = .answered c b → x ≠ i := by
    rintro x c b hx rfl
    rw [hx] at hi
    cases hi
  have newLink : ∀ k ∈ s.db.ingestionJobs, k.documentId ≠ (calls i).outside.docId := by
    intro k hk he
    obtain ⟨x, hx, rfl⟩ := h.jobs k hk
    exact fits.docFresh _ (h.answers x _ _ hx).1.document he
  have opens := h.openUploads.committed hi
  refine ⟨?_, ?_, ?_, ?_, nodup_concat h.ids fits.docFresh, nodup_concat h.links newLink,
    List.forall_mem_append.mpr ⟨h.texts, ?_⟩, opens.pending, opens.apart, ?_⟩
  · intro k hk
    rcases List.mem_append.mp hk with hk | hk
    · obtain ⟨x, hx, rfl⟩ := h.jobs k hk
      exact ⟨x, by rw [setPhase_of_ne (stays x _ _ hx)]; exact hx, rfl⟩
    · exact ⟨i, setPhase_self, List.mem_singleton.mp hk⟩
  · intro c hc
    rcases List.mem_append.mp hc with hc | hc
    · obtain ⟨x, hx, rfl⟩ := h.documents c hc
      exact ⟨x, by rw [setPhase_of_ne (stays x _ _ hx)]; exact hx, rfl⟩
    · exact ⟨i, setPhase_self, List.mem_singleton.mp hc⟩
  · refine nodup_concat h.keys fun k hk he => ?_
    simp only [Prod.mk.injEq] at he
    exact fits.keyNew k hk he.1 he.2
  · refine nodup_concat h.contents fun c hc he => ?_
    simp only [Prod.mk.injEq] at he
    exact fits.contentNew c hc he.1 he.2
  · have fit : fitsVarchar 255 (jobOf calls i).idempotencyKey = true := fits.keyFits
    rw [fitsVarchar, Bool.and_eq_true] at fit
    exact List.forall_mem_singleton.mpr (sendable_varchar fit.1)
  · intro k c b hk
    by_cases hki : k = i
    · subst hki
      rw [setPhase_self] at hk
      cases hk
      exact ⟨⟨List.mem_append_right _ (List.mem_singleton.mpr rfl),
        List.mem_append_right _ (List.mem_singleton.mpr rfl), rfl, rfl⟩, .own rfl rfl⟩
    · rw [setPhase_of_ne hki] at hk
      obtain ⟨hit, why⟩ := h.answers k c b hk
      exact ⟨⟨List.mem_append_left _ hit.document, List.mem_append_left _ hit.job, hit.link,
        hit.tenant⟩, why⟩

/-- A lookup of committed rows. -/
theorem inv_found (h : Inv sha256 calls s) {d : Document} {j : IngestionJob} (hi : (s.phase i).answer = none)
    (hit : Hit calls s i d j) : Inv sha256 calls (s.setPhase i (.answered d j)) := by
  refine inv_setPhase h s.objects hi (h.openUploads.closed rfl) fun c b hp => ?_
  cases hp
  have document := h.document_row hit.document
  have job := h.job_row hit.job
  exact ⟨by rwa [document, job], .found document job⟩

theorem inv_change (h : Inv sha256 calls s) (change : Change sha256 calls s e t) :
    Inv sha256 calls t := by
  cases change with
  | foundKey i again d j hi hit key => exact inv_found h (by rw [hi]; rfl) hit
  | foundContent i again d j hi hit tenant content => exact inv_found h (by rw [hi]; rfl) hit
  | passed _ i p objects hi hp =>
    refine inv_setPhase h objects hi (h.openUploads.closed hp.2) fun d j he => ?_
    rw [he] at hp
    cases hp.1
  | inserted i objects hi free fits =>
    refine inv_setPhase h objects (by rw [hi]; rfl) (h.openUploads.inserted free fits)
      fun _ _ hp => ?_
    cases hp
  | committed i d j hi => exact inv_commit h hi

/-! ## Stable keys -/

def SameKey (calls : Fin n → Call) (i k : Fin n) : Prop :=
  (calls i).upload.tenantId = (calls k).upload.tenantId ∧
    (calls i).upload.idempotencyKey = (calls k).upload.idempotencyKey

/-- Successful calls with one key have returned one document and one job. -/
def Stable (calls : Fin n → Call) (s : World n) : Prop :=
  ∀ i k, SameKey calls i k → ∀ a ∈ (s.phase i).answer, ∀ b ∈ (s.phase k).answer,
    a.1.id = b.1.id ∧ a.2.id = b.2.id

instance (calls : Fin n → Call) (i k : Fin n) : Decidable (SameKey calls i k) :=
  inferInstanceAs (Decidable (_ ∧ _))

instance (calls : Fin n → Call) (s : World n) : Decidable (Stable calls s) :=
  inferInstanceAs (Decidable (∀ i k, SameKey calls i k → ∀ a ∈ (s.phase i).answer,
    ∀ b ∈ (s.phase k).answer, a.1.id = b.1.id ∧ a.2.id = b.2.id))

/-- The call has returned a job that carries another key. -/
def Borrowed (calls : Fin n → Call) (s : World n) (k : Fin n) : Prop :=
  ∃ a ∈ (s.phase k).answer, a.2.idempotencyKey ≠ (calls k).upload.idempotencyKey

/-- The call has returned a document of another content than that of call `i`. -/
def OtherContent (sha256 : Sha256) (calls : Fin n → Call) (s : World n) (i k : Fin n) : Prop :=
  ∃ a ∈ (s.phase k).answer, a.1.contentHash ≠ hashOf sha256 calls i

/-- The event answers call `i`: its lookup will hit, or its insert commits. -/
def Answers (sha256 : Sha256) (calls : Fin n → Call) (s : World n) (e : Event n) (i : Fin n) : Prop :=
  match e with
  | .byKey k => k = i ∧ (∃ again, s.phase i = .looking again) ∧ ∃ j ∈ s.db.ingestionJobs,
      j.tenantId = (calls i).upload.tenantId ∧
        j.idempotencyKey = (calls i).upload.idempotencyKey
  | .byContent k => k = i ∧ (∃ again, s.phase i = .keyMissed again) ∧ ∃ d ∈ s.db.documents,
      d.tenantId = (calls i).upload.tenantId ∧ d.contentHash = hashOf sha256 calls i ∧
        d.deletedAt = none
  | .commit k => k = i ∧ ∃ d j, s.phase i = .inserted d j
  | .insert _ | .abort _ => False

/-- What stands in the way of an answer to call `i` after the answer of call `k`: at its key lookup or its
commit, that call `k` was given the job of another key; at its content lookup, that it was given another content. -/
def Parts (sha256 : Sha256) (calls : Fin n → Call) (s : World n) (i k : Fin n) : Event n → Prop
  | .byContent _ => OtherContent sha256 calls s i k
  | .byKey _ | .insert _ | .commit _ | .abort _ => Borrowed calls s k

/-- A call is answered after a successful call with its key, and the two part. -/
def Clash (sha256 : Sha256) (calls : Fin n → Call) (s : World n) (e : Event n) : Prop :=
  ∃ i k, Answers sha256 calls s e i ∧ SameKey calls i k ∧ Parts sha256 calls s i k e

theorem answer_eq_some {p : Phase} {d : Document} {j : IngestionJob}
    (h : p.answer = some (d, j)) : p = .answered d j := by
  cases p with
  | answered c b =>
    simp only [Phase.answer, Option.some.injEq, Prod.mk.injEq] at h
    rw [h.1, h.2]
  | _ => cases h

theorem document_of_content (h : Inv sha256 calls s) {c d : Document} (hc : c ∈ s.db.documents)
    (hd : d ∈ s.db.documents) (tenant : c.tenantId = d.tenantId)
    (content : c.contentHash = d.contentHash) : c = d :=
  eq_of_key h.contents hc hd (by simp only [tenant, content])

theorem job_of_row (h : Inv sha256 calls s) {d : Document} (hd : d ∈ s.db.documents) :
    d.deletedAt = none ∧
      ∃ j ∈ s.db.ingestionJobs, j.documentId = d.id ∧ j.tenantId = d.tenantId := by
  obtain ⟨x, hx, rfl⟩ := h.documents d hd
  exact ⟨rfl, _, (h.answers x _ _ hx).1.job, rfl, rfl⟩

/-- The document that an answer stands for is in the tenant of the call. -/
theorem tenant_of_answer (h : Inv sha256 calls s) {d : Document} {j : IngestionJob}
    (hi : s.phase i = .answered d j) : d.tenantId = (calls i).upload.tenantId := by
  obtain ⟨hit, _⟩ := h.answers i d j hi
  obtain ⟨x, hx, made⟩ := h.jobs j.row hit.job
  have tenant : (calls x).upload.tenantId = (calls i).upload.tenantId := by
    rw [← hit.tenant, made]
    rfl
  have same : d.row = (docOf sha256 calls x).row :=
    eq_of_key h.ids hit.document (h.answers x _ _ hx).1.document (by rw [← hit.link, made]; rfl)
  exact (congrArg Document.tenantId same).trans tenant

theorem document_of_row (h : Inv sha256 calls s) {j : IngestionJob} (hj : j ∈ s.db.ingestionJobs) :
    ∃ d ∈ s.db.documents, j.documentId = d.id := by
  obtain ⟨x, hx, rfl⟩ := h.jobs j hj
  exact ⟨_, (h.answers x _ _ hx).1.document, rfl⟩

/-- Whether an event answers a call can be told from the state before it. -/
theorem answers_iff (h : Inv sha256 calls s) (hs : (machine sha256 calls).step s e = some t) :
    Answers sha256 calls s e i ↔ (s.phase i).answer = none ∧ (t.phase i).answer ≠ none := by
  constructor
  · intro answers
    simp only [machine] at hs
    cases e with
    | byKey k =>
      obtain ⟨rfl, ⟨again, hi⟩, j, hj, tenant, key⟩ := answers
      obtain ⟨d, hd, link⟩ := document_of_row h hj
      have found := findByKey_of_mem (h.texts j hj) h.keys h.ids hj hd link
      rw [tenant, key] at found
      simp only [step, hi, found, Option.some.injEq] at hs
      rw [← hs, hi, setPhase_self]
      exact ⟨rfl, by simp [Phase.answer]⟩
    | byContent k =>
      obtain ⟨rfl, ⟨again, hi⟩, d, hd, tenant, content, live⟩ := answers
      obtain ⟨j, found⟩ := findByContent_of_mem h.contents hd live (job_of_row h hd).2
      rw [tenant, content] at found
      simp only [step, hi, found, Option.some.injEq] at hs
      rw [← hs, hi, setPhase_self]
      exact ⟨rfl, by simp [Phase.answer]⟩
    | commit k =>
      obtain ⟨rfl, d, j, hi⟩ := answers
      simp only [step, hi, Option.some.injEq] at hs
      rw [← hs, hi, setPhase_self]
      exact ⟨rfl, by simp [Phase.answer]⟩
    | insert k => exact answers.elim
    | abort k => exact answers.elim
  · rintro ⟨none, some⟩
    have mine : ∀ k p (u : World n), (∀ x, u.phase x = s.phase x) →
        ((u.setPhase k p).phase i).answer ≠ .none → k = i ∧ p.answer ≠ .none := by
      intro k p u hu hp
      by_cases hik : i = k
      · subst hik
        rw [setPhase_self] at hp
        exact ⟨rfl, hp⟩
      · rw [setPhase_of_ne hik, hu] at hp
        exact absurd none hp
    cases step_change hs with
    | foundKey k again d j hi hit key =>
      obtain ⟨rfl, _⟩ := mine k _ s (fun _ => rfl) some
      exact ⟨rfl, ⟨again, hi⟩, j, hit.job, hit.tenant, key⟩
    | foundContent k again d j hi hit tenant content =>
      obtain ⟨rfl, _⟩ := mine k _ s (fun _ => rfl) some
      exact ⟨rfl, ⟨again, hi⟩, d, hit.document, tenant, content, (job_of_row h hit.document).1⟩
    | passed _ k p objects hi hp =>
      exact absurd hp.1 (mine k p { s with objects := objects } (fun _ => rfl) some).2
    | inserted k objects hi free fits =>
      exact absurd rfl (mine k _ { s with objects := objects } (fun _ => rfl) some).2
    | committed k d j hi =>
      obtain ⟨rfl, _⟩ := mine k _ { s with db := { s.db with
        documents := s.db.documents ++ [d.row]
        ingestionJobs := s.db.ingestionJobs ++ [j.row] } } (fun _ => rfl) some
      exact ⟨rfl, d, j, hi⟩

theorem answers_unique {k : Fin n} (hi : Answers sha256 calls s e i)
    (hk : Answers sha256 calls s e k) : i = k := by
  cases e with
  | byKey l | byContent l | commit l => exact hi.1.symm.trans hk.1
  | insert l | abort l => exact hi.elim

/-- An answer once given stays. -/
theorem answer_stays (change : Change sha256 calls s e t) {i : Fin n}
    (answered : (s.phase i).answer ≠ none) : t.phase i = s.phase i := by
  have other : ∀ k, (s.phase k).answer = none → i ≠ k := by
    rintro k hk rfl
    exact answered hk
  cases change with
  | foundKey k again d j hi _ _ => exact setPhase_of_ne (other k (by rw [hi]; rfl))
  | foundContent k again d j hi _ _ _ => exact setPhase_of_ne (other k (by rw [hi]; rfl))
  | passed _ k p objects hi _ => exact setPhase_of_ne (s := { s with objects := objects }) (other k hi)
  | inserted k objects hi _ _ =>
    exact setPhase_of_ne (s := { s with objects := objects }) (other k (by rw [hi]; rfl))
  | committed k d j hi =>
    exact setPhase_of_ne (s := { s with db := { s.db with
      documents := s.db.documents ++ [d.row]
      ingestionJobs := s.db.ingestionJobs ++ [j.row] } }) (other k (by rw [hi]; rfl))

/-- Two answers name one document and one job exactly if they stand for one row of the jobs. -/
theorem same_iff (h : Inv sha256 calls s) {k : Fin n} {d c : Document} {j b : IngestionJob}
    (hi : s.phase i = .answered d j) (hk : s.phase k = .answered c b) :
    d.id = c.id ∧ j.id = b.id ↔ j.row = b.row := by
  obtain ⟨hit, _⟩ := h.answers i d j hi
  obtain ⟨hit', _⟩ := h.answers k c b hk
  constructor
  · rintro ⟨document, _⟩
    exact eq_of_key h.links hit.job hit'.job (hit.link.trans (document.trans hit'.link.symm))
  · intro same
    have ids : j.row.id = b.row.id := congrArg IngestionJob.id same
    exact ⟨hit.link.symm.trans ((congrArg IngestionJob.documentId same).trans hit'.link), ids⟩

/-- Where a new answer comes from. -/
inductive NewAnswer (sha256 : Sha256) (calls : Fin n → Call) (s : World n) (i : Fin n)
    (d : Document) (j : IngestionJob) : Event n → Prop
  | key (hit : Hit calls s i d j) (key : j.idempotencyKey = (calls i).upload.idempotencyKey) :
      NewAnswer sha256 calls s i d j (.byKey i)
  | content (hit : Hit calls s i d j) (tenant : d.tenantId = (calls i).upload.tenantId)
      (content : d.contentHash = hashOf sha256 calls i) : NewAnswer sha256 calls s i d j (.byContent i)
  | insert (hi : s.phase i = .inserted d j) : NewAnswer sha256 calls s i d j (.commit i)

theorem new_answer (change : Change sha256 calls s e t) (new : (s.phase i).answer = none) {d : Document}
    {j : IngestionJob} (ht : t.phase i = .answered d j) : NewAnswer sha256 calls s i d j e := by
  have mine : ∀ k p (u : World n), (∀ x, u.phase x = s.phase x) →
      (u.setPhase k p).phase i = .answered d j → k = i ∧ p = .answered d j := by
    intro k p u hu hp
    by_cases hik : i = k
    · subst hik
      rw [setPhase_self] at hp
      exact ⟨rfl, hp⟩
    · rw [setPhase_of_ne hik, hu] at hp
      rw [hp] at new
      cases new
  cases change with
  | foundKey k again d' j' hi hit key =>
    obtain ⟨rfl, he⟩ := mine k _ s (fun _ => rfl) ht
    cases he
    exact .key hit key
  | foundContent k again d' j' hi hit tenant content =>
    obtain ⟨rfl, he⟩ := mine k _ s (fun _ => rfl) ht
    cases he
    exact .content hit tenant content
  | passed _ k p objects hi hp =>
    obtain ⟨_, he⟩ := mine k p { s with objects := objects } (fun _ => rfl) ht
    rw [he] at hp
    cases hp.1
  | inserted k objects hi free fits =>
    obtain ⟨_, he⟩ := mine k _ { s with objects := objects } (fun _ => rfl) ht
    cases he
  | committed k d' j' hi =>
    obtain ⟨rfl, he⟩ := mine k _ { s with db := { s.db with
      documents := s.db.documents ++ [d'.row]
      ingestionJobs := s.db.ingestionJobs ++ [j'.row] } } (fun _ => rfl) ht
    cases he
    exact .insert hi

theorem borrowed_iff {k : Fin n} {c : Document} {b : IngestionJob} (hk : s.phase k = .answered c b) :
    Borrowed calls s k ↔ b.idempotencyKey ≠ (calls k).upload.idempotencyKey := by
  simp [Borrowed, hk, Phase.answer]

theorem otherContent_iff {k : Fin n} {c : Document} {b : IngestionJob} (hk : s.phase k = .answered c b) :
    OtherContent sha256 calls s i k ↔ c.contentHash ≠ hashOf sha256 calls i := by
  simp [OtherContent, hk, Phase.answer]

/-- A key lookup finds the rows of an earlier answer unless that one carries another key. -/
theorem parts_byKey (h : Inv sha256 calls s) {k : Fin n} {d c : Document} {j b : IngestionJob}
    (hit : Hit calls s i d j) (found : j.idempotencyKey = (calls i).upload.idempotencyKey)
    (hk : s.phase k = .answered c b) (key : SameKey calls i k) :
    j.row = b.row ↔ b.idempotencyKey = (calls k).upload.idempotencyKey := by
  obtain ⟨hit', returned⟩ := h.answers k c b hk
  have row := h.job_row hit.job
  constructor
  · intro same
    cases returned with
    | own _ job => rw [job]; rfl
    | found _ job => rw [← job, ← same, row, found, key.2]
  · intro carried
    have keys : j.row.idempotencyKey = b.row.idempotencyKey :=
      congrArg (varchar 255) (found.trans (key.2.trans carried.symm))
    rw [row] at keys ⊢
    exact eq_of_key h.keys hit.job hit'.job (by simp only [keys, hit.tenant, hit'.tenant, key.1])

/-- A content lookup finds the rows of an earlier answer unless that one has another content. -/
theorem parts_byContent (h : Inv sha256 calls s) {k : Fin n} {d c : Document} {j b : IngestionJob}
    (hit : Hit calls s i d j) (tenant : d.tenantId = (calls i).upload.tenantId)
    (content : d.contentHash = hashOf sha256 calls i) (hk : s.phase k = .answered c b) (key : SameKey calls i k) :
    j.row = b.row ↔ c.contentHash = hashOf sha256 calls i := by
  obtain ⟨hit', _⟩ := h.answers k c b hk
  have row := h.job_row hit.job
  constructor
  · intro same
    have document : d = c.row := eq_of_key h.ids hit.document hit'.document (by
      rw [← hit.link, ← hit'.link, ← same, row])
    exact (congrArg Document.contentHash document).symm.trans content
  · intro equal
    have document : d = c.row := document_of_content h hit.document hit'.document
      (tenant.trans (key.1.trans (tenant_of_answer h hk).symm)) (content.trans equal.symm)
    exact row.trans (eq_of_key h.links hit.job hit'.job (by rw [hit.link, hit'.link, document]))

/-- An insert never brings in the rows of an earlier answer, and goes in only if that one carries another key. -/
theorem parts_commit (h : Inv sha256 calls s) {k : Fin n} {d c : Document} {j b : IngestionJob}
    (hi : s.phase i = .inserted d j) (hk : s.phase k = .answered c b) (key : SameKey calls i k) :
    j.row = b.row ↔ b.idempotencyKey = (calls k).upload.idempotencyKey := by
  obtain ⟨hit', _⟩ := h.answers k c b hk
  obtain ⟨_, rfl, fits⟩ := h.pending i d j hi
  constructor
  · intro same
    have ids : b.row.id = (jobOf calls i).row.id := congrArg IngestionJob.id same.symm
    exact absurd ids (fits.jobFresh _ hit'.job)
  · intro carried
    exact absurd (congrArg (varchar 255) (carried.trans key.2.symm))
      (fits.keyNew _ hit'.job (hit'.tenant.trans key.1.symm))

/-- A new answer agrees with an old one of its key exactly if the two do not part. -/
theorem agrees_iff (h : Inv sha256 calls s) (hs : (machine sha256 calls).step s e = some t) {k : Fin n}
    {d c : Document} {j b : IngestionJob} (new : (s.phase i).answer = none) (hi : t.phase i = .answered d j)
    (hk : s.phase k = .answered c b) (key : SameKey calls i k) :
    d.id = c.id ∧ j.id = b.id ↔ ¬ Parts sha256 calls s i k e := by
  have change := step_change hs
  have answered : (s.phase k).answer ≠ none := by simp [hk, Phase.answer]
  rw [same_iff (inv_change h change) hi ((answer_stays change answered).trans hk)]
  cases new_answer change new hi with
  | key hit found => rw [parts_byKey h hit found hk key, Parts, borrowed_iff hk, not_not]
  | content hit tenant content =>
    rw [parts_byContent h hit tenant content hk key, Parts, otherContent_iff hk, not_not]
  | insert hi' => rw [parts_commit h hi' hk key, Parts, borrowed_iff hk, not_not]

/-- Two calls part only once the earlier one is answered. -/
theorem answered_of_parts {k : Fin n} (parts : Parts sha256 calls s i k e) : (s.phase k).answer ≠ none := by
  cases e with
  | byContent l =>
    obtain ⟨a, ha, _⟩ := parts
    rw [Option.mem_def.mp ha]
    exact Option.some_ne_none a
  | byKey l | insert l | commit l | abort l =>
    obtain ⟨a, ha, _⟩ := parts
    rw [Option.mem_def.mp ha]
    exact Option.some_ne_none a

theorem not_stable_of_clash (h : Inv sha256 calls s)
    (hs : (machine sha256 calls).step s e = some t) (clash : Clash sha256 calls s e) :
    ¬ Stable calls t := by
  intro stable
  obtain ⟨i, k, answers, key, parts⟩ := clash
  have hk := answered_of_parts parts
  obtain ⟨new, given⟩ := (answers_iff h hs).mp answers
  obtain ⟨a, ha⟩ := Option.ne_none_iff_exists'.mp given
  obtain ⟨b, hb⟩ := Option.ne_none_iff_exists'.mp hk
  have htk := (answer_stays (step_change hs) hk).trans (answer_eq_some hb)
  have same := stable i k key a ha b (by rw [htk]; rfl)
  exact (agrees_iff h hs new (answer_eq_some ha) (answer_eq_some hb) key).mp same parts

/-- A new answer agrees with an old one of its key, unless the step clashes. -/
theorem new_agrees (h : Inv sha256 calls s) (hs : (machine sha256 calls).step s e = some t)
    (noClash : ¬ Clash sha256 calls s e) {k : Fin n} {d c : Document} {j b : IngestionJob}
    (new : (s.phase i).answer = none) (hi : t.phase i = .answered d j) (hk : s.phase k = .answered c b)
    (key : SameKey calls i k) : d.id = c.id ∧ j.id = b.id := by
  have answers : Answers sha256 calls s e i :=
    (answers_iff h hs).mpr ⟨new, by simp [hi, Phase.answer]⟩
  exact (agrees_iff h hs new hi hk key).mpr fun parts => noClash ⟨i, k, answers, key, parts⟩

theorem stable_iff (h : Inv sha256 calls s) (stable : Stable calls s)
    (hs : (machine sha256 calls).step s e = some t) :
    Stable calls t ↔ ¬ Clash sha256 calls s e := by
  constructor
  · intro ok clash
    exact not_stable_of_clash h hs clash ok
  · intro noClash i k key a ha b hb
    have hti := answer_eq_some ha
    have htk := answer_eq_some hb
    have change := step_change hs
    by_cases hi : (s.phase i).answer = none
    · by_cases hk : (s.phase k).answer = none
      · have one : i = k := answers_unique ((answers_iff h hs).mpr ⟨hi, by rw [hti]; simp [Phase.answer]⟩)
          ((answers_iff h hs).mpr ⟨hk, by rw [htk]; simp [Phase.answer]⟩)
        subst one
        have same : a = b := Option.some.inj (ha.symm.trans hb)
        rw [same]
        exact ⟨rfl, rfl⟩
      · have old := answer_stays change hk
        exact new_agrees h hs noClash hi hti (old.symm.trans htk) key
    · have old := answer_stays change hi
      by_cases hk : (s.phase k).answer = none
      · have same := new_agrees h hs noClash hk htk (old.symm.trans hti) ⟨key.1.symm, key.2.symm⟩
        exact ⟨same.1.symm, same.2.symm⟩
      · have old' := answer_stays change hk
        exact stable i k key a (by rw [← old]; exact ha) b (by rw [← old']; exact hb)

/-- Keys are stable in exactly those runs in which no call is answered by its key or its own insert after a
successful call with its key that was given the job of another key, and none by its content after one that was
given another content. -/
theorem keys_stable_iff (sha256 : Sha256) (calls : Fin n → Call) (users : List User)
    (organizations : List Organization) (es : List (Event n)) :
    (machine sha256 calls).Throughout (Stable calls) (start n users organizations) es ↔
      (machine sha256 calls).EveryStep (fun s e _ => ¬ Clash sha256 calls s e)
        (start n users organizations) es := by
  have first : Stable calls (start n users organizations) := by
    intro i k _ a ha
    cases ha
  rw [Machine.Throughout, and_iff_right first]
  exact Machine.everyStep_congr (I := fun s => Inv sha256 calls s ∧ Stable calls s)
    (fun _ _ _ i hs => stable_iff i.1 i.2 hs)
    (fun _ _ _ i hs ok => ⟨inv_change i.1 (step_change hs), ok⟩)
    ⟨inv_start sha256 calls users organizations, first⟩

end Runs

namespace Demo

def sha256 : Sha256 := fun content =>
  if content = [104, 101, 108, 108, 111] then
    0x2cf24dba5fb0a30e26e83b2ac5b9e29e1b161e5c1fa7425e73043362938b9824
  else 0x486ea46224d1bb4fb680f34f7c9ad96a8f24ec88be73ea8e5a6c65260e9cb8a7

def call (content : Bytes) (key : String) (id : UUID) : Call where
  upload := ⟨"a.txt", content, some "text/plain", key, 1, 2⟩
  outside := ⟨id, id, 10, none, none⟩

/-- Two calls with the content `hello`, and then one with `world` that reuses the
key of the second. -/
def calls : Fin 3 → Call
  | 0 => call [104, 101, 108, 108, 111] "k0" 3
  | 1 => call [104, 101, 108, 108, 111] "k1" 4
  | 2 => call [119, 111, 114, 108, 100] "k1" 5

def run : List (Event 3) :=
  [.byKey 0, .byContent 0, .insert 0, .commit 0, .byKey 1, .byContent 1,
    .byKey 2, .byContent 2, .insert 2, .commit 2]

end Demo

theorem key_returns_two_documents :
    ¬ (machine Demo.sha256 Demo.calls).Throughout (Stable Demo.calls)
      (start 3 [⟨1, "a@example.com", true⟩] [⟨2, "A", "a", 0⟩]) Demo.run := by
  decide +kernel

end UploadRaces
