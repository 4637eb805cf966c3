import ResearchPlatform.DocumentService
import ResearchPlatform.Library.RowVersions

/-!
# Ingestion job service: the statements of claim, process, complete and fail

Each function is one statement group of `ingestion/service.py`, run inside an
open transaction. The transaction is its uncommitted row versions and inserts;
`lockedJobs` and `lockedDocuments` are the rows that other open transactions
hold, and `none` means that the statement waits for one of them.
-/

namespace JobService

open Uuid Schema RowVersions

structure Session where
  jobs : List IngestionJob
  documents : List Document
  chunks : List Chunk
  deriving DecidableEq, Repr

def Session.empty : Session := ⟨[], [], []⟩

/-- The database that the commit of the transaction leaves behind. -/
def Session.commit (tx : Session) (db : Database) : Database :=
  { db with
    ingestionJobs := view IngestionJob.id tx.jobs db.ingestionJobs
    documents := view Document.id tx.documents db.documents
    chunks := db.chunks ++ tx.chunks }

/-! ## Pipeline -/

structure ChunkData where
  content : String
  embedding : Embedding
  chunkIndex : Nat
  pageNumber : Option Nat
  deriving DecidableEq, Repr

/-- The collaborators of `IngestionPipeline`; each may raise. -/
structure IngestionPipeline where
  extractText : Bytes → Option String → Except String String
  chunk : String → Except String (List String)
  encode : List String → Except String (List Embedding)

/-- `enumerate(zip(raw_chunks, embeddings))`. -/
def chunkData (rawChunks : List String) (embeddings : List Embedding) : List ChunkData :=
  (rawChunks.zip embeddings).mapIdx fun idx x => ⟨x.1, x.2, idx, none⟩

def IngestionPipeline.process (pipeline : IngestionPipeline) (content : Bytes)
    (mimeType : Option String) : Except String (List ChunkData) := do
  let text ← pipeline.extractText content mimeType
  let rawChunks ← pipeline.chunk text
  if rawChunks = [] then .ok []
  else
    let embeddings ← pipeline.encode rawChunks
    .ok (chunkData rawChunks embeddings)

theorem chunkData_indices (rawChunks : List String) (embeddings : List Embedding) :
    (chunkData rawChunks embeddings).map ChunkData.chunkIndex =
      List.range (chunkData rawChunks embeddings).length := by
  apply List.ext_getElem
  · simp
  · intro i h₁ h₂
    simp [chunkData]

/-- Whatever the collaborators do, the pipeline numbers its chunks from zero. -/
theorem process_indices {pipeline : IngestionPipeline} {content : Bytes}
    {mimeType : Option String} {chunks : List ChunkData}
    (h : pipeline.process content mimeType = .ok chunks) :
    chunks.map ChunkData.chunkIndex = List.range chunks.length := by
  simp only [IngestionPipeline.process] at h
  cases ht : pipeline.extractText content mimeType with
  | error e => simp [ht, bind, Except.bind] at h
  | ok text =>
    cases hr : pipeline.chunk text with
    | error e => simp [ht, hr, bind, Except.bind] at h
    | ok rawChunks =>
      simp only [ht, hr, bind, Except.bind] at h
      split at h
      · cases h
        rfl
      · cases he : pipeline.encode rawChunks with
        | error e => simp [he] at h
        | ok embeddings =>
          simp only [he, Except.ok.injEq] at h
          exact h ▸ chunkData_indices rawChunks embeddings

/-! ## Claiming -/

section Statements
variable (lockedJobs : UUID → Prop) [DecidablePred lockedJobs]
variable (lockedDocuments : UUID → Prop) [DecidablePred lockedDocuments]

def isStale (staleTimeout now : Time) (j : IngestionJob) : Bool :=
  j.status = .claimed && j.claimedAt.any fun c => c + staleTimeout < now

def requeued (j : IngestionJob) : IngestionJob :=
  { j with status := .queued, workerId := none, claimedAt := none }

/-- The first UPDATE of `claim_next_job`: reset stale claims. -/
def resetStaleClaims (staleTimeout now : Time) (db : Database) (tx : Session) : Option Session :=
  (update IngestionJob.id lockedJobs db.ingestionJobs tx.jobs (isStale staleTimeout now)
    requeued).map fun r => { tx with jobs := r.1 }

def claimable (j : IngestionJob) : Bool := j.status = .queued && j.attemptCount < j.maxAttempts

def claimedBy (worker : Nat) (now : Time) (j : IngestionJob) : IngestionJob :=
  { j with
    status := .claimed
    workerId := some worker
    claimedAt := some now
    attemptCount := j.attemptCount + 1
    version := j.version + 1 }

/-- The subquery: the oldest claimable row that no other transaction has locked. -/
def nextQueued (db : Database) (tx : Session) : Option IngestionJob :=
  (orderByAsc IngestionJob.createdAt ((view IngestionJob.id tx.jobs db.ingestionJobs).filter
    fun j => claimable j && decide (¬ lockedJobs j.id))).head?

/-- The second UPDATE of `claim_next_job`, with the job object it returns. -/
def claimQueued (worker : Nat) (now : Time) (db : Database) (tx : Session) :
    Session × Option IngestionJob :=
  match nextQueued lockedJobs db tx with
  | none => (tx, none)
  | some j =>
    let claimed := claimedBy worker now j
    ({ tx with jobs := write IngestionJob.id tx.jobs [claimed] }, some claimed)

/-! ## Processing -/

def startedAs (version : Nat) (now : Time) (j : IngestionJob) : IngestionJob :=
  { j with status := .running, startedAt := some now, version := version + 1 }

/-- `mark_running`: the only guarded transition. -/
def markRunning (jobId : UUID) (version : Nat) (now : Time) (db : Database) (tx : Session) :
    Option (Session × Bool) :=
  (update IngestionJob.id lockedJobs db.ingestionJobs tx.jobs
    (fun j => j.id = jobId && j.version = version) (startedAs version now)).map
      fun r => ({ tx with jobs := r.1 }, decide (0 < r.2))

def chunkRow (documentId userId tenantId id : UUID) (now : Time) (c : ChunkData) : Chunk where
  id := id
  documentId := documentId
  userId := userId
  tenantId := tenantId
  content := c.content
  pageNumber := c.pageNumber
  chunkIndex := c.chunkIndex
  embedding := c.embedding
  createdAt := now

theorem chunkRow_indices (documentId userId tenantId : UUID) (chunkId : Nat → UUID) (now : Time)
    (chunks : List ChunkData) :
    (chunks.mapIdx fun idx c => chunkRow documentId userId tenantId (chunkId idx) now c).map
      Chunk.chunkIndex = chunks.map ChunkData.chunkIndex := by
  apply List.ext_getElem
  · simp
  · intro i h₁ h₂
    simp [chunkRow]

def readyAs (chunkCount : Nat) (now : Time) (d : Document) : Document :=
  { d with status := .ready, chunkCount := chunkCount, updatedAt := now }

def completedAs (now : Time) (j : IngestionJob) : IngestionJob :=
  { j with status := .completed, completedAt := some now }

/-- `complete_job`: chunk rows, then the document, then the job, each by id. -/
def completeJob (jobId documentId : UUID) (chunks : List ChunkData) (userId tenantId : UUID)
    (chunkId : Nat → UUID) (now : Time) (db : Database) (tx : Session) : Option Session := do
  let rows := chunks.mapIdx fun idx c => chunkRow documentId userId tenantId (chunkId idx) now c
  let documents ← update Document.id lockedDocuments db.documents tx.documents
    (fun d => d.id = documentId) (readyAs chunks.length now)
  let jobs ← update IngestionJob.id lockedJobs db.ingestionJobs tx.jobs
    (fun j => j.id = jobId) (completedAs now)
  some { jobs := jobs.1, documents := documents.1, chunks := tx.chunks ++ rows }

/-! ## Failing -/

def deadAs (errorMessage : String) (j : IngestionJob) : IngestionJob :=
  { j with status := .dead, errorMessage := some errorMessage }

def failedAs (errorMessage : String) (now : Time) (d : Document) : Document :=
  { d with status := .failed, errorMessage := some errorMessage, updatedAt := now }

def retriedAs (errorMessage : String) (j : IngestionJob) : IngestionJob :=
  { j with status := .queued, errorMessage := some errorMessage, workerId := none, claimedAt := none }

/-- `fail_job` decides from the counts that its caller remembered, and writes by
id with no version and no status guard. -/
def failJob (jobId documentId : UUID) (errorMessage : String) (attemptCount maxAttempts : Nat)
    (now : Time) (db : Database) (tx : Session) : Option Session :=
  if maxAttempts ≤ attemptCount then do
    let jobs ← update IngestionJob.id lockedJobs db.ingestionJobs tx.jobs
      (fun j => j.id = jobId) (deadAs errorMessage)
    let documents ← update Document.id lockedDocuments db.documents tx.documents
      (fun d => d.id = documentId) (failedAs errorMessage now)
    some { tx with jobs := jobs.1, documents := documents.1 }
  else do
    let jobs ← update IngestionJob.id lockedJobs db.ingestionJobs tx.jobs
      (fun j => j.id = jobId) (retriedAs errorMessage)
    some { tx with jobs := jobs.1 }

end Statements

/-! ## Reading -/

def getJob (jobId tenantId : UUID) (db : Database) : Except Failure (Option IngestionJob) :=
  scalarOneOrNone (db.ingestionJobs.filter fun j => j.id = jobId && j.tenantId = tenantId)

def listJobsForDocument (documentId tenantId : UUID) (db : Database) : List IngestionJob :=
  orderByDesc IngestionJob.createdAt (db.ingestionJobs.filter fun j =>
    j.documentId = documentId && j.tenantId = tenantId)

open DocumentService in
def listJobs (codec : CursorCodec) (tenantId : UUID) (cursor : Option String) (limit : Int)
    (db : Database) : Except Failure (List IngestionJob × Option String) := do
  let bound ← cursorBound codec.createdAt cursor
  let jobs ← sqlLimit (limit + 1) (orderByDesc IngestionJob.createdAt
    (db.ingestionJobs.filter fun j =>
      j.tenantId = tenantId && bound.all fun b => j.createdAt < b))
  page limit (fun last => codec.encodeCreatedAt last.createdAt) jobs

end JobService
