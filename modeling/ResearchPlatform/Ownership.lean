import ResearchPlatform.UploadRaces
import ResearchPlatform.WorkerRuns

/-!
# Ownership across the tables

Uploads that run statement by statement, beside workers, soft deletes and changes
of accounts, over one database. An upload that has inserted but not committed
keeps its place: no other commit takes its unique values or its parents away. So
its two rows arrive together, and every writer copies the owner of the row that it
belongs to.
-/

namespace Ownership

open Uuid Schema RowVersions DocumentService JobService WorkerInvariants WorkerRuns Machines

/-- Owner columns agree between each document and its job and its chunks. -/
structure Owned (db : Database) : Prop where
  oneJob : ∀ d ∈ db.documents, (db.ingestionJobs.filter fun j => j.documentId = d.id).length = 1
  jobs : ∀ j ∈ db.ingestionJobs, ∃ d ∈ db.documents,
    d.id = j.documentId ∧ d.userId = j.userId ∧ d.tenantId = j.tenantId
  chunks : ∀ c ∈ db.chunks, ∃ d ∈ db.documents,
    d.id = c.documentId ∧ d.userId = c.userId ∧ d.tenantId = c.tenantId

theorem owned_of_stored {db : Database} (h : Stored db) : Owned db where
  oneJob d hd := by
    obtain ⟨j, hj, link⟩ := h.jobOfDoc d hd
    rw [filter_eq_singleton (List.Nodup.of_map _ h.jobIds) hj, List.length_singleton]
    intro x hx
    rw [decide_eq_true_eq]
    constructor
    · exact fun he => eq_of_key h.jobDocs hx hj (he.trans link.symm)
    · rintro rfl
      exact link
  jobs := h.docOfJob
  chunks := h.docOfChunk

/-! ## Uploads beside workers -/

structure Deployment (n m : Nat) where
  workers : WorkerMachine.World n
  uploads : Fin m → UploadRaces.Phase

inductive Event (n m : Nat) where
  | worker (e : WorkerMachine.Event n)
  | upload (e : UploadRaces.Event m)

section Machine
variable {n m : Nat} (cfg : WorkerMachine.Settings) (calls : Fin m → UploadRaces.Call)

/-- What the uploads see of the deployment. -/
def Deployment.uploadWorld (s : Deployment n m) : UploadRaces.World m :=
  ⟨s.workers.db, s.workers.objects, s.uploads⟩

def Deployment.withUploads (s : Deployment n m) (u : UploadRaces.World m) : Deployment n m :=
  ⟨{ s.workers with db := u.db, objects := u.objects }, u.phase⟩

def step (s : Deployment n m) : Event n m → Option (Deployment n m)
  -- here an upload takes its statements one by one
  | .worker (.upload _ _) => none
  | .worker e => (WorkerMachine.step cfg s.workers e).map fun w => { s with workers := w }
  | .upload e => (UploadRaces.step cfg.sha256 calls s.uploadWorld e).map s.withUploads

def machine (n : Nat) : Machine (Deployment n m) (Event n m) := ⟨step cfg calls⟩

def start (n m : Nat) : Deployment n m := ⟨WorkerMachine.World.start n, fun _ => .looking false⟩

end Machine

section Runs
variable {n m : Nat} {cfg : WorkerMachine.Settings} {calls : Fin m → UploadRaces.Call}
  {s t : Deployment n m}

/-- The rows of an open upload would still go in, whatever else commits. -/
structure Inv (cfg : WorkerMachine.Settings) (calls : Fin m → UploadRaces.Call)
    (s : Deployment n m) : Prop where
  workers : Sound s.workers
  pending : ∀ i d j, s.uploads i = .inserted d j →
    d = UploadRaces.docOf cfg.sha256 calls i ∧ j = UploadRaces.jobOf calls i ∧
      Insertable s.workers.db d j
  apart : ∀ i k c a d b, i ≠ k → s.uploads i = .inserted c a → s.uploads k = .inserted d b →
    UploadRaces.Apart c a d b

theorem inv_start : Inv cfg calls (start n m) where
  workers := sound_start n
  pending i d j hi := by cases hi
  apart i k c a d b _ hi := by cases hi

/-- Rows stay insertable while the tables keep their keys and owners and get no new rows. -/
theorem insertable_mono {db db' : Database} {d : Document} {j : IngestionJob}
    (h : Insertable db d j)
    (documents : ∀ x ∈ db'.documents, ∃ y ∈ db.documents,
      x.id = y.id ∧ x.tenantId = y.tenantId ∧ x.contentHash = y.contentHash)
    (jobs : ∀ x ∈ db'.ingestionJobs, ∃ y ∈ db.ingestionJobs,
      x.id = y.id ∧ x.tenantId = y.tenantId ∧ x.idempotencyKey = y.idempotencyKey)
    (users : ∀ u ∈ db.users, ∃ x ∈ db'.users, x.id = u.id)
    (organizations : ∀ o ∈ db.organizations, ∃ x ∈ db'.organizations, x.id = o.id) :
    Insertable db' d j where
  docFits := h.docFits
  keyFits := h.keyFits
  docFresh x hx := by
    obtain ⟨y, hy, hid, _⟩ := documents x hx
    exact hid ▸ h.docFresh y hy
  contentNew x hx := by
    obtain ⟨y, hy, _, tenant, content⟩ := documents x hx
    rw [tenant, content]
    exact h.contentNew y hy
  jobFresh x hx := by
    obtain ⟨y, hy, hid, _⟩ := jobs x hx
    exact hid ▸ h.jobFresh y hy
  keyNew x hx := by
    obtain ⟨y, hy, _, tenant, key⟩ := jobs x hx
    rw [tenant, key]
    exact h.keyNew y hy
  user := by
    obtain ⟨u, hu, hid⟩ := h.user
    obtain ⟨x, hx, same⟩ := users u hu
    exact ⟨x, hx, same.trans hid⟩
  organization := by
    obtain ⟨o, ho, hid⟩ := h.organization
    obtain ⟨x, hx, same⟩ := organizations o ho
    exact ⟨x, hx, same.trans hid⟩

theorem deletedAs_unique (documentId : UUID) (now : Time) (d : Document) :
    (deletedAs documentId now d).tenantId = d.tenantId ∧
      (deletedAs documentId now d).contentHash = d.contentHash := by
  rw [deletedAs]
  split
  · exact ⟨rfl, rfl⟩
  · exact ⟨rfl, rfl⟩

theorem insertable_change {w w' : WorkerMachine.World n} {e : WorkerMachine.Event n}
    (h : Sound w) (change : Change w e w') (noUpload : ∀ u o, e ≠ .upload u o) {d : Document}
    {j : IngestionJob} (fits : Insertable w.db d j) : Insertable w'.db d j := by
  have sameDocs : ∀ x ∈ w.db.documents, ∃ y ∈ w.db.documents,
      x.id = y.id ∧ x.tenantId = y.tenantId ∧ x.contentHash = y.contentHash :=
    fun x hx => ⟨x, hx, rfl, rfl, rfl⟩
  have sameJobs : ∀ x ∈ w.db.ingestionJobs, ∃ y ∈ w.db.ingestionJobs,
      x.id = y.id ∧ x.tenantId = y.tenantId ∧ x.idempotencyKey = y.idempotencyKey :=
    fun x hx => ⟨x, hx, rfl, rfl, rfl⟩
  have sameUsers : ∀ u ∈ w.db.users, ∃ x ∈ w.db.users, x.id = u.id := fun u hu => ⟨u, hu, rfl⟩
  have sameOrgs : ∀ o ∈ w.db.organizations, ∃ x ∈ w.db.organizations, x.id = o.id :=
    fun o ho => ⟨o, ho, rfl⟩
  cases change with
  | accounts users organizations orgMemberships ok =>
    exact insertable_mono fits sameDocs sameJobs ok.1 ok.2.1
  | beside _ _ _ => exact fits
  | own _ _ _ _ _ => exact fits
  | uploaded _ u o _ _ _ => exact absurd rfl (noUpload u o)
  | deleted documentId tenantId now deleteError objects free =>
    refine insertable_mono fits ?_ sameJobs sameUsers sameOrgs
    intro x hx
    obtain ⟨y, hy, rfl⟩ := List.mem_map.mp hx
    exact ⟨y, hy, deletedAs_id documentId now y, deletedAs_unique documentId now y⟩
  | commit v p m =>
    refine insertable_mono fits ?_ ?_ sameUsers sameOrgs
    · intro x hx
      obtain ⟨y, hy, rfl⟩ := mem_view_iff.mp hx
      have same := commit_document_same h.stored (h.phases v) hy
      exact ⟨y, hy, same.id, same.tenantId, same.contentHash⟩
    · intro x hx
      obtain ⟨y, hy, rfl⟩ := mem_view_iff.mp hx
      have adv := commit_job_advances h.stored (h.phases v) hy
      exact ⟨y, hy, adv.id, adv.tenantId, adv.idempotencyKey⟩

theorem inv_worker (i : Inv cfg calls s) {e : WorkerMachine.Event n} {w : WorkerMachine.World n}
    (noUpload : ∀ u o, e ≠ .upload u o)
    (hs : (WorkerMachine.machine cfg n).step s.workers e = some w) :
    Inv cfg calls { s with workers := w } where
  workers := sound_step cfg i.workers hs
  pending k d j hk := by
    obtain ⟨hd, hj, fits⟩ := i.pending k d j hk
    exact ⟨hd, hj, insertable_change i.workers (step_change cfg i.workers hs) noUpload fits⟩
  apart := i.apart

/-! ## Statements of an upload -/

theorem Inv.openUploads (i : Inv cfg calls s) :
    UploadRaces.OpenUploads cfg.sha256 calls s.workers.db s.uploads := ⟨i.pending, i.apart⟩

/-- An upload's statement leaves the tables sound: only its commit writes to them. -/
theorem sound_upload (i : Inv cfg calls s) {e : UploadRaces.Event m} {u : UploadRaces.World m}
    (change : UploadRaces.Change cfg.sha256 calls s.uploadWorld e u) :
    Sound (s.withUploads u).workers := by
  have same : ∀ objects, Sound { s.workers with objects := objects } := fun objects =>
    beside_sound i.workers objects i.workers.stored (fun j hj => hj) fun d hd _ => hd
  cases change with
  | foundKey k again d j hk hit key => exact same s.workers.objects
  | foundContent k again d j hk hit tenant content => exact same s.workers.objects
  | passed _ k p objects hk hp => exact same objects
  | inserted k objects hk free fits => exact same objects
  | committed k d j hk =>
    obtain ⟨rfl, rfl, fits⟩ := i.pending k d j hk
    exact beside_sound i.workers s.workers.objects
      (insertUpload_stored i.workers.stored cfg.sha256 (calls k).upload (calls k).outside
        ((insertUpload_ok_iff rfl rfl rfl).mpr ⟨fits, rfl⟩))
      (fun j hj => List.mem_append_left _ hj) fun d hd _ => List.mem_append_left _ hd

theorem inv_upload (i : Inv cfg calls s) {e : UploadRaces.Event m} {u : UploadRaces.World m}
    (change : UploadRaces.Change cfg.sha256 calls s.uploadWorld e u) :
    Inv cfg calls (s.withUploads u) := by
  have opens := i.openUploads.change (s := s.uploadWorld) change
  exact ⟨sound_upload i change, opens.pending, opens.apart⟩

/-- A step is one of a worker, a deletion or the accounts, or a statement of an upload. -/
theorem step_cases {e : Event n m} (hs : (machine cfg calls n).step s e = some t) :
    (∃ f w, e = .worker f ∧ (∀ u o, f ≠ .upload u o) ∧
      (WorkerMachine.machine cfg n).step s.workers f = some w ∧ t = { s with workers := w }) ∨
    ∃ f u, e = .upload f ∧ (UploadRaces.machine cfg.sha256 calls).step s.uploadWorld f = some u ∧
      t = s.withUploads u := by
  simp only [machine] at hs
  cases e with
  | worker f =>
    by_cases upload : ∃ u o, f = .upload u o
    · obtain ⟨u, o, rfl⟩ := upload
      cases hs
    · have run : (WorkerMachine.step cfg s.workers f).map
          (fun w => { s with workers := w }) = some t := by
        cases f with
        | upload u o => exact absurd ⟨u, o, rfl⟩ upload
        | _ => exact hs
      obtain ⟨w, hw, rfl⟩ := Option.map_eq_some_iff.mp run
      exact Or.inl ⟨f, w, rfl, fun u o he => upload ⟨u, o, he⟩, hw, rfl⟩
  | upload f =>
    obtain ⟨u, hu, rfl⟩ := Option.map_eq_some_iff.mp hs
    exact Or.inr ⟨f, u, rfl, hu, rfl⟩

theorem inv_step {e : Event n m} (i : Inv cfg calls s)
    (hs : (machine cfg calls n).step s e = some t) : Inv cfg calls t := by
  rcases step_cases hs with ⟨f, w, rfl, noUpload, hw, rfl⟩ | ⟨f, u, rfl, hu, rfl⟩
  · exact inv_worker i noUpload hw
  · exact inv_upload i (UploadRaces.step_change hu)

/-- In every state that any interleaving of uploads, deletions and workers can
reach, every document has exactly one job, and jobs and chunks carry its owner. -/
theorem ownership_agrees (cfg : WorkerMachine.Settings) (n m : Nat)
    (calls : Fin m → UploadRaces.Call) (s : Deployment n m)
    (reached : (machine cfg calls n).Reachable (start n m) s) : Owned s.workers.db :=
  owned_of_stored (Machine.reachable_invariant (I := Inv cfg calls) inv_start
    (fun _ _ _ i hs => inv_step i hs) reached).workers.stored

end Runs

/-! ## Two uploads and a worker -/

namespace Demo
variable {n m : Nat}

/-- The same file under a key for each call. -/
def calls (i : Fin m) : UploadRaces.Call where
  upload := { WorkerMachine.Demo.upload with idempotencyKey := "k" ++ i.val.repr }
  outside := ⟨BitVec.ofNat 128 (4 + i), BitVec.ofNat 128 (4 + i), 10, none, none⟩

def statements (i : Fin m) : List (Event n m) :=
  [.upload (.byKey i), .upload (.byContent i), .upload (.insert i)]

/-- Call `i` holds its inserted rows while call `k` looks and waits; the worker
ingests the document of the winner before the loser finds it. -/
def run (w : Fin n) (i k : Fin m) : List (Event n m) :=
  [.worker (.accounts [⟨1, "a@example.com", true⟩] [⟨2, "A", "a", 0⟩] [⟨3, 2, 1, .editor, 0⟩]),
    .upload (.byKey k), .upload (.byContent k)] ++ statements i ++
    [.upload (.commit i), .upload (.insert k)] ++
    (WorkerMachine.Demo.claims w 20 ++ WorkerMachine.Demo.ingests w 6 30).map .worker ++
    [.upload (.byKey k), .upload (.byContent k)]

end Demo

theorem ownership_agrees_demo :
    Owned (((machine WorkerMachine.Demo.settings Demo.calls 1).run
      (start 1 2) (Demo.run 0 0 1)).getD (start 1 2)).workers.db :=
  ownership_agrees _ _ _ _ _ (Machine.reachable_getD _ (by decide +kernel))

end Ownership
