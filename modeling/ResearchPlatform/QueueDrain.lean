import ResearchPlatform.Retries
import ResearchPlatform.ChunkProvenance
import ResearchPlatform.Library.Backlogs

/-!
# One worker empties the queue

`run_worker` alone at the database, and nothing raises but the storage and the pipeline. A
job that fails keeps its place by `created_at`, so it is claimed again before any younger
one; the order of all claims can be told from the queue, and so can what they leave behind.
-/

namespace QueueDrain

open Uuid Schema RowVersions DocumentService JobService WorkerMachine WorkerInvariants WorkerRuns
  Machines ExactlyOnce Retries Backlogs
open ChunkProvenance (dataOf dataOf_chunkRows)

/-! ## The plan -/

/-- What an attempt on the document comes to. -/
def result (cfg : Settings) (db : Database) (objects : ObjectStore) (documentId : UUID) :
    Except String (List ChunkData) := fetchAndProcess cfg db objects Session.empty documentId

/-- A statement of the worker. -/
def works : Event 1 → Bool
  | .resetStale _ _ | .claim _ _ | .markRunning _ _ | .process _ | .complete _ _ _ | .fail _ _ | .commit _ => true
  | .accounts _ _ _ | .upload _ _ | .softDelete _ _ _ _ | .raise _ _ | .crash _ => false

/-- The job whose claim the step commits. -/
def taken (s : World 1) : Event 1 → Option UUID
  | .commit w => match s.phase w with
    | .selected _ (some c) => some c.id
    | _ => none
  | _ => none

/-- No job is claimed, and every job in the queue has an attempt left. -/
def Waiting (db : Database) : Prop :=
  ∀ j ∈ db.ingestionJobs, j.status = .queued ∧ j.attemptCount < j.maxAttempts ∨ j.status = .completed ∨ j.status = .dead

instance (db : Database) : Decidable (Waiting db) := inferInstanceAs (Decidable (∀ _ ∈ _, _))

/-! ## What becomes of a job -/

structure Ingested (before after : Database) (j : IngestionJob) (chunks : List ChunkData) : Prop where
  job : ∃ q ∈ after.ingestionJobs, Advances j q ∧ q.status = .completed ∧ q.attemptCount = j.attemptCount + 1
  document : ∃ d ∈ after.documents, d.id = j.documentId ∧ d.status = .ready ∧ d.chunkCount = chunks.length
  rows : ∃ rows, chunksOf after j.documentId = chunksOf before j.documentId ++ rows ∧ rows.map dataOf = chunks

structure Exhausted (before after : Database) (j : IngestionJob) (error : String) : Prop where
  job : ∃ q ∈ after.ingestionJobs, Advances j q ∧ q.status = .dead ∧ q.attemptCount = j.maxAttempts ∧
    q.errorMessage = some error
  document : ∃ d ∈ after.documents, d.id = j.documentId ∧ d.status = .failed ∧ d.errorMessage = some error
  rows : chunksOf after j.documentId = chunksOf before j.documentId

structure Untouched (before after : Database) (j : IngestionJob) : Prop where
  job : j ∈ after.ingestionJobs
  document : ∀ d ∈ before.documents, d.id = j.documentId → d ∈ after.documents
  rows : chunksOf after j.documentId = chunksOf before j.documentId

/-- What the attempts on a job leave behind when none is left. -/
def Settled (cfg : Settings) (s t : World 1) (j : IngestionJob) : Prop :=
  if j.status = .queued then
    match result cfg s.db s.objects j.documentId with
    | .ok chunks => Ingested s.db t.db j chunks
    | .error error => Exhausted s.db t.db j error
  else Untouched s.db t.db j

/-! ## Where the worker stands -/

/-- What the open transaction has to do with the queue and with the pipeline. -/
def Aligned (results : UUID → Except String (List ChunkData)) (db : Database) : Phase → Prop
  | .selected _ none =>
    (orderByAsc IngestionJob.createdAt db.ingestionJobs).find? claimable = none
  | .selected _ (some c) => ∃ b worker now,
    (orderByAsc IngestionJob.createdAt db.ingestionJobs).find? claimable = some b ∧ c = claimedBy worker now b
  | .processed c _ chunks => results c.documentId = .ok chunks
  | .storing c tx => results c.documentId = .ok (tx.chunks.map dataOf)
  | .raised c error => results c.documentId = .error error
  | .failing c tx => ∃ error, results c.documentId = .error error ∧
    (∀ q ∈ tx.jobs, q.errorMessage = some error) ∧ ∀ q ∈ tx.documents, q.errorMessage = some error
  | .idle | .requeued _ | .holding _ | .running _ _ => True

/-- The status of a job while one worker is at the queue. -/
inductive Standing (p : Phase) (j : IngestionJob) : Prop
  | queued (status : j.status = .queued) (left : j.attemptCount < j.maxAttempts)
  | claimed (status : j.status = .claimed) (held : p.claim = some j)
  | finished (status : j.status = .completed ∨ j.status = .dead)

structure Draining (cfg : Settings) (results : UUID → Except String (List ChunkData)) (s : World 1) : Prop where
  sound : Sound s
  comes : ∀ documentId, result cfg s.db s.objects documentId = results documentId
  standing : ∀ j ∈ s.db.ingestionJobs, Standing (s.phase 0) j
  held : ∀ c, (s.phase 0).claim = some c → c ∈ s.db.ingestionJobs ∧ c.status = .claimed
  aligned : Aligned results s.db (s.phase 0)

section Steps
variable {cfg : Settings} {results : UUID → Except String (List ChunkData)} {s t : World 1} {e : Event 1}
  {p : Phase} {c : IngestionJob}

/-- Without a claim no job is claimed. -/
theorem Draining.unclaimed (h : Draining cfg results s) (none_ : (s.phase 0).claim = none) {j : IngestionJob}
    (hj : j ∈ s.db.ingestionJobs) : j.status ≠ .claimed := by
  intro status
  cases h.standing j hj with
  | queued queued _ => exact absurd (queued.symm.trans status) (by decide)
  | claimed _ held => rw [none_] at held; cases held
  | finished finished =>
    rcases finished with finished | finished
    · exact absurd (finished.symm.trans status) (by decide)
    · exact absurd (finished.symm.trans status) (by decide)

theorem Draining.start {s : World 1} (stored : Stored s.db) (idle : s.phase 0 = .idle) (waiting : Waiting s.db) :
    Draining cfg (result cfg s.db s.objects) s where
  sound := sound_of_idle stored idle
  comes _ := rfl
  standing j hj := by
    rcases waiting j hj with ⟨status, left⟩ | finished
    · exact .queued status left
    · exact .finished finished
  held c hc := by
    rw [idle] at hc
    cases hc
  aligned := by
    rw [idle]
    trivial

/-- A statement that commits nothing keeps the claim and leaves the tables. -/
theorem Draining.setPhase (h : Draining cfg results s) (sound : Sound (s.setPhase 0 p))
    (same : p.claim = (s.phase 0).claim) (aligned : Aligned results s.db p) : Draining cfg results (s.setPhase 0 p) where
  sound := sound
  comes := h.comes
  standing j hj := by
    rw [setPhase_self]
    cases h.standing j hj with
    | queued status left => exact .queued status left
    | claimed status held => exact .claimed status (same.trans held)
    | finished finished => exact .finished finished
  held c hc := by
    rw [setPhase_self, same] at hc
    exact h.held c hc
  aligned := by
    rw [setPhase_self]
    exact aligned

/-! ## Statements -/

/-- The row of a job after a commit. -/
def after (p : Phase) (j : IngestionJob) : IngestionJob := current IngestionJob.id p.session.jobs j

/-- The state after the commit. -/
abbrev committed {n : Nat} (s : World n) (w : Fin n) (p : Phase) : World n :=
  { s with db := (s.phase w).session.commit s.db }.setPhase w p

/-- How far the worker is in one turn of its loop. -/
def place : Phase → Nat
  | .idle => 0
  | .requeued _ => 1
  | .selected _ _ => 2
  | .holding _ => 3
  | .running _ _ => 4
  | .processed _ _ _ | .raised _ _ => 5
  | .storing _ _ | .failing _ _ => 6

/-- Where a job of the first database stands in a later one. -/
inductive Fate (results : UUID → Except String (List ChunkData)) (before : Database) (j : IngestionJob)
    (db : Database) : Prop
  | waiting (q : IngestionJob) (mem : q ∈ db.ingestionJobs) (advances : Advances j q) (queued : j.status = .queued)
      (status : q.status = .queued ∨ q.status = .claimed)
      (first : ∀ chunks, results j.documentId = .ok chunks →
        q.attemptCount = j.attemptCount + if q.status = .claimed then 1 else 0)
      (rows : chunksOf db j.documentId = chunksOf before j.documentId) : Fate results before j db
  | ingested (chunks : List ChunkData) (queued : j.status = .queued) (comes : results j.documentId = .ok chunks)
      (done : Ingested before db j chunks) : Fate results before j db
  | exhausted (error : String) (queued : j.status = .queued) (comes : results j.documentId = .error error)
      (done : Exhausted before db j error) : Fate results before j db
  | finished (status : j.status = .completed ∨ j.status = .dead) (same : Untouched before db j) : Fate results before j db

theorem Fate.start {db : Database} (waiting : Waiting db) {j : IngestionJob} (hj : j ∈ db.ingestionJobs) :
    Fate results db j db := by
  rcases waiting j hj with ⟨queued, _⟩ | finished
  · exact .waiting j hj (Advances.refl j) queued (Or.inl queued) (fun _ _ => by rw [queued]; rfl) rfl
  · exact .finished finished ⟨hj, fun d hd _ => hd, rfl⟩

theorem Untouched.trans {a b c : Database} {j : IngestionJob} (h : Untouched a b j) (k : Untouched b c j) :
    Untouched a c j :=
  ⟨k.job, fun d hd link => k.document d (h.document d hd link) link, k.rows.trans h.rows⟩

theorem Ingested.mono {a b c : Database} {j : IngestionJob} {chunks : List ChunkData} (h : Ingested a b j chunks)
    (kept : ∀ q ∈ b.ingestionJobs, q.status = .completed → Untouched b c q) : Ingested a c j chunks := by
  obtain ⟨⟨q, hq, advances, status, count⟩, ⟨d, hd, link, ready⟩, rows, split, data⟩ := h
  obtain ⟨job, document, same⟩ := kept q hq status
  rw [advances.documentId] at document same
  exact ⟨⟨q, job, advances, status, count⟩, ⟨d, document d hd link, link, ready⟩, rows, same.trans split, data⟩

theorem Exhausted.mono {a b c : Database} {j : IngestionJob} {error : String} (h : Exhausted a b j error)
    (kept : ∀ q ∈ b.ingestionJobs, q.status = .dead → Untouched b c q) : Exhausted a c j error := by
  obtain ⟨⟨q, hq, advances, status, count⟩, ⟨d, hd, link, failed⟩, rows⟩ := h
  obtain ⟨job, document, same⟩ := kept q hq status
  rw [advances.documentId] at document same
  exact ⟨⟨q, job, advances, status, count⟩, ⟨d, document d hd link, link, failed⟩, same.trans rows⟩

/-- The statement that `run_worker` sends next. -/
def next {n : Nat} (w : Fin n) (now : Time) (chunkId : Nat → UUID) : Phase → Event n
  | .idle => .resetStale w now
  | .requeued _ => .claim w now
  | .selected _ _ | .storing _ _ | .failing _ _ => .commit w
  | .holding _ => .markRunning w now
  | .running _ _ => .process w
  | .processed _ _ _ => .complete w chunkId now
  | .raised _ _ => .fail w now

end Steps

/-! ## Two documents, of which one cannot be read -/

/-- Content of more than one byte is one word; the digest is the length. -/
def demoSettings : Settings where
  sha256 content := BitVec.ofNat 256 content.length
  pipeline := {
    extractText := fun content _ => if content.length ≤ 1 then .error "unreadable" else .ok "hello"
    chunk := fun text => .ok [text]
    encode := fun texts => .ok (texts.map fun _ => [1]) }
  staleTimeout := 600

def demoSetup : List (Event 1) := [
  .accounts [⟨1, "a@example.com", true⟩] [⟨2, "A", "a", 0⟩] [⟨3, 2, 1, .editor, 0⟩],
  .upload { Demo.upload with content := [0], idempotencyKey := "first" } ⟨4, 5, 10, none, none⟩,
  .upload { Demo.upload with idempotencyKey := "second" } ⟨6, 7, 20, none, none⟩]

/-- One turn of the loop. -/
def demoTurn (w : Fin 1) (rest : List (Event 1)) : List (Event 1) :=
  Demo.claims w 30 ++ [.markRunning w 30, .process w] ++ rest

def demoEvents (w : Fin 1) : List (Event 1) :=
  let failing := demoTurn w [.fail w 30, .commit w]
  failing ++ failing ++ failing ++ demoTurn w [.complete w (fun i => BitVec.ofNat 128 (8 + i)) 30, .commit w]

def demoStart : World 1 := ((machine demoSettings 1).run (World.start 1) demoSetup).getD (World.start 1)

def demoEnd (w : Fin 1) : World 1 := ((machine demoSettings 1).run demoStart (demoEvents w)).getD demoStart

end QueueDrain
