import ResearchPlatform.JobService
import ResearchPlatform.Library.Machines
import Mathlib.Data.Fintype.Basic

/-!
# Workers over one database

Any number of workers run claim, process and fail transactions statement by
statement, and may raise or crash between any two statements. Row locks last to
the end of the transaction, a statement that meets a locked row is not enabled
until the lock is gone, and a rollback drops the session. No clock is shared:
every time is part of the event, so a process transaction may outlast any
stale-claim timeout. Uploads and soft deletes are single steps that wait for the
row they write; changes of accounts keep the foreign keys.
-/

namespace WorkerMachine

open Uuid Schema RowVersions DocumentService JobService Machines

structure Settings where
  sha256 : Sha256
  pipeline : IngestionPipeline
  staleTimeout : Time

/-- Where one worker stands in `run_worker` and `process_single_job`. -/
inductive Phase where
  | idle
  /-- claim transaction, stale claims reset -/
  | requeued (tx : Session)
  /-- claim transaction, both UPDATEs done -/
  | selected (tx : Session) (job : Option IngestionJob)
  /-- claim committed -/
  | holding (job : IngestionJob)
  /-- process transaction, `mark_running` succeeded -/
  | running (job : IngestionJob) (tx : Session)
  | processed (job : IngestionJob) (tx : Session) (chunks : List ChunkData)
  /-- process transaction, `complete_job` done -/
  | storing (job : IngestionJob) (tx : Session)
  /-- the process transaction raised and was rolled back -/
  | raised (job : IngestionJob) (error : String)
  /-- fail transaction, `fail_job` done -/
  | failing (job : IngestionJob) (tx : Session)

namespace Phase

def session : Phase → Session
  | requeued tx | selected tx _ | running _ tx | processed _ tx _ | storing _ tx | failing _ tx => tx
  | idle | holding _ | raised _ _ => Session.empty

/-- The job object that the worker remembers from its committed claim. -/
def claim : Phase → Option IngestionJob
  | holding j | running j _ | processed j _ _ | storing j _ | raised j _ | failing j _ => some j
  | idle | requeued _ | selected _ _ => none

end Phase

structure World (n : Nat) where
  db : Database
  objects : ObjectStore
  phase : Fin n → Phase

inductive Event (n : Nat) where
  | accounts (users : List User) (organizations : List Organization)
      (orgMemberships : List OrgMembership)
  | upload (u : Upload) (o : Outside)
  | softDelete (documentId tenantId : UUID) (now : Time) (deleteError : Option StorageFault)
  | resetStale (w : Fin n) (now : Time)
  | claim (w : Fin n) (now : Time)
  | markRunning (w : Fin n) (now : Time)
  | process (w : Fin n)
  | complete (w : Fin n) (chunkId : Nat → UUID) (now : Time)
  | fail (w : Fin n) (now : Time)
  | commit (w : Fin n)
  | raise (w : Fin n) (error : String)
  | crash (w : Fin n)

namespace World
variable {n : Nat}

def start (n : Nat) : World n := ⟨Database.empty, fun _ => none, fun _ => .idle⟩

def setPhase (s : World n) (w : Fin n) (p : Phase) : World n :=
  { s with phase := fun v => if v = w then p else s.phase v }

/-- Another worker's open transaction holds the row. -/
def JobLocked (s : World n) (w : Fin n) (k : UUID) : Prop :=
  ∃ v, v ≠ w ∧ Locks IngestionJob.id (s.phase v).session.jobs k

def DocumentLocked (s : World n) (w : Fin n) (k : UUID) : Prop :=
  ∃ v, v ≠ w ∧ Locks Document.id (s.phase v).session.documents k

instance (s : World n) (w : Fin n) : DecidablePred (s.JobLocked w) := fun k =>
  inferInstanceAs (Decidable (∃ v, v ≠ w ∧ Locks IngestionJob.id (s.phase v).session.jobs k))

instance (s : World n) (w : Fin n) : DecidablePred (s.DocumentLocked w) := fun k =>
  inferInstanceAs (Decidable (∃ v, v ≠ w ∧ Locks Document.id (s.phase v).session.documents k))

/-- `gen_random_uuid()` for chunk rows: ids that no stored and no pending row has. -/
def FreshChunkIds (s : World n) (chunkId : Nat → UUID) (count : Nat) : Prop :=
  ((List.range count).map chunkId).Nodup ∧
    ∀ i ∈ List.range count, (∀ c ∈ s.db.chunks, c.id ≠ chunkId i) ∧
      ∀ v, ∀ c ∈ (s.phase v).session.chunks, c.id ≠ chunkId i

instance (s : World n) (chunkId : Nat → UUID) (count : Nat) :
    Decidable (s.FreshChunkIds chunkId count) := by
  unfold FreshChunkIds
  infer_instance

end World

/-- New contents of the account tables that keep every row others refer to. -/
def AccountsOk (db : Database) (users : List User) (organizations : List Organization)
    (orgMemberships : List OrgMembership) : Prop :=
  (∀ u ∈ db.users, ∃ x ∈ users, x.id = u.id) ∧
    (∀ o ∈ db.organizations, ∃ x ∈ organizations, x.id = o.id) ∧
    ∀ m ∈ orgMemberships, (∃ x ∈ users, x.id = m.userId) ∧ ∃ x ∈ organizations, x.id = m.orgId

instance (db : Database) (users : List User) (organizations : List Organization)
    (orgMemberships : List OrgMembership) :
    Decidable (AccountsOk db users organizations orgMemberships) := by
  unfold AccountsOk
  infer_instance

/-- The read-and-compute part of `process_single_job`, between `mark_running`
and `complete_job`; the text is what the raised exception prints. -/
def fetchAndProcess (cfg : Settings) (db : Database) (objects : ObjectStore) (tx : Session)
    (documentId : UUID) : Except String (List ChunkData) :=
  let missing := "Document " ++ str documentId ++ " not found or has no storage key."
  match (view Document.id tx.documents db.documents).find? fun d => d.id = documentId with
  | none => .error missing
  | some doc => match doc.storageKey with
    | none => .error missing
    | some key => match objects key with
      | none => .error (AppError.externalServiceError "MinIO" "NoSuchKey").message
      | some object => cfg.pipeline.process object.data doc.mimeType

section Step
variable {n : Nat} (cfg : Settings)

def step (s : World n) : Event n → Option (World n)
  | .accounts users organizations orgMemberships =>
    if AccountsOk s.db users organizations orgMemberships then
      some { s with db := { s.db with
        users := users, organizations := organizations, orgMemberships := orgMemberships } }
    else none
  | .upload u o =>
    let r := uploadDocument cfg.sha256 u o s.db s.objects
    some { s with db := r.2.1, objects := r.2.2 }
  | .softDelete documentId tenantId now deleteError =>
    if ∃ v, Locks Document.id (s.phase v).session.documents documentId then none
    else
      let r := softDeleteDocument documentId tenantId now deleteError s.db s.objects
      some { s with db := r.2.1, objects := r.2.2 }
  | .resetStale w now => match s.phase w with
    | .idle => (resetStaleClaims (s.JobLocked w) cfg.staleTimeout now s.db Session.empty).map
        fun tx => s.setPhase w (.requeued tx)
    | _ => none
  | .claim w now => match s.phase w with
    | .requeued tx =>
      let r := claimQueued (s.JobLocked w) w.val now s.db tx
      some (s.setPhase w (.selected r.1 r.2))
    | _ => none
  | .markRunning w now => match s.phase w with
    | .holding j => (JobService.markRunning (s.JobLocked w) j.id j.version now s.db
        Session.empty).map fun r => s.setPhase w (if r.2 then .running j r.1 else .idle)
    | _ => none
  | .process w => match s.phase w with
    | .running j tx => some (s.setPhase w
        (match fetchAndProcess cfg s.db s.objects tx j.documentId with
          | .ok chunks => .processed j tx chunks
          | .error e => .raised j e))
    | _ => none
  | .complete w chunkId now => match s.phase w with
    | .processed j tx chunks =>
      if s.FreshChunkIds chunkId chunks.length then
        (completeJob (s.JobLocked w) (s.DocumentLocked w) j.id j.documentId chunks j.userId
          j.tenantId chunkId now s.db tx).map fun tx' => s.setPhase w (.storing j tx')
      else none
    | _ => none
  | .fail w now => match s.phase w with
    | .raised j error => (failJob (s.JobLocked w) (s.DocumentLocked w) j.id j.documentId error
        j.attemptCount j.maxAttempts now s.db Session.empty).map
          fun tx => s.setPhase w (.failing j tx)
    | _ => none
  | .commit w => match s.phase w with
    | .selected tx job =>
      some ({ s with db := tx.commit s.db }.setPhase w (job.elim .idle .holding))
    | .storing _ tx | .failing _ tx => some ({ s with db := tx.commit s.db }.setPhase w .idle)
    | _ => none
  | .raise w error => some (s.setPhase w (match s.phase w with
    | .holding j | .running j _ | .processed j _ _ | .storing j _ => .raised j error
    | _ => .idle))
  | .crash w => some (s.setPhase w .idle)

def machine (n : Nat) : Machine (World n) (Event n) := ⟨step cfg⟩

end Step

/-! ## A small deployment -/

namespace Demo
variable {n : Nat}

/-- One text file of one word, with its digest. -/
def settings : Settings where
  sha256 _ := 0x2cf24dba5fb0a30e26e83b2ac5b9e29e1b161e5c1fa7425e73043362938b9824
  pipeline := {
    extractText := fun _ _ => .ok "hello"
    chunk := fun text => .ok [text]
    encode := fun texts => .ok (texts.map fun _ => [1]) }
  staleTimeout := 600

def upload : Upload where
  filename := "a.txt"
  content := [104, 101, 108, 108, 111]
  mimeType := some "text/plain"
  idempotencyKey := "k"
  userId := 1
  tenantId := 2

def documentId : UUID := 4

/-- The account rows, and one upload. -/
def setup : List (Event n) := [
  .accounts [⟨1, "a@example.com", true⟩] [⟨2, "A", "a", 0⟩] [⟨3, 2, 1, .editor, 0⟩],
  .upload upload ⟨documentId, 5, 10, none, none⟩]

def claims (w : Fin n) (now : Time) : List (Event n) :=
  [.resetStale w now, .claim w now, .commit w]

/-- A process transaction whose chunk rows take ids from `firstId` on. -/
def ingests (w : Fin n) (firstId : Nat) (now : Time) : List (Event n) :=
  [.markRunning w now, .process w, .complete w (fun i => BitVec.ofNat 128 (firstId + i)) now, .commit w]

def fails (w : Fin n) (now : Time) : List (Event n) := [.fail w now, .commit w]

end Demo

end WorkerMachine
