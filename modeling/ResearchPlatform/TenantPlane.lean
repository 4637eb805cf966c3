import ResearchPlatform.TenantService
import ResearchPlatform.EvaluationService
import ResearchPlatform.RetrievalService
import ResearchPlatform.WorkerRuns
import ResearchPlatform.Library.OwnedRows

/-!
# The document plane of one tenant

Every operation on documents, jobs and chunks, in the tenant that the request's
membership resolves to. Several of its queries name no tenant. That they still
stay inside one rests on the ownership that uploads and workers keep: a job, a
document and its chunks have one tenant, and an id has one document.
-/

namespace TenantPlane

open Uuid Schema DocumentService TenantService RetrievalService EvaluationService WorkerMachine
  WorkerInvariants WorkerRuns Machines OwnedRows

/-- The collaborators of the services; each is a function of what it is given. -/
structure Platform where
  sha256 : Sha256
  codec : CursorCodec
  index : SearchIndex
  text : TextMethods
  gateway : String → Except String String

structure Store where
  db : Database
  objects : ObjectStore

inductive Query where
  | listDocuments (cursor : Option String) (limit : Int)
  | getDocument (documentId : UUID)
  | listChunks (documentId : UUID) (cursor : Option String) (limit : Int)
  | getJob (jobId : UUID)
  | listJobs (cursor : Option String) (limit : Int)
  | listJobsForDocument (documentId : UUID)
  | denseSearch (query : String) (topK : Int)
  | sparseSearch (query : String) (topK : Int)
  | evaluateRelevance (query : String) (chunkIds : List UUID)
  deriving DecidableEq, Repr

inductive Operation where
  | uploadDocument (filename : String) (content : Bytes) (mimeType : Option String)
      (idempotencyKey : String)
  | softDeleteDocument (documentId : UUID)
  | read (query : Query)
  deriving DecidableEq, Repr

inductive Result where
  | upload (document : Document) (job : IngestionJob)
  | documents (items : List Document) (nextCursor : Option String)
  | document (document : Document)
  | deleted
  | chunks (items : List Chunk) (nextCursor : Option String)
  | job (job : Option IngestionJob)
  | jobs (items : List IngestionJob) (nextCursor : Option String)
  | jobsForDocument (items : List IngestionJob)
  | ranked (items : List RankedChunk)
  | evaluations (items : List ChunkRelevance)
  deriving DecidableEq, Repr

section Operations
variable (pf : Platform) (userId tenantId : UUID) (o : Outside)

def answer (db : Database) : Query → Except Failure Result
  | .listDocuments cursor limit =>
    (listDocuments pf.codec tenantId cursor limit db).map fun r => .documents r.1 r.2
  | .getDocument documentId => (getDocument documentId tenantId db).map .document
  | .listChunks documentId cursor limit =>
    (listChunks pf.codec documentId tenantId cursor limit db).map fun r => .chunks r.1 r.2
  | .getJob jobId => (JobService.getJob jobId tenantId db).map .job
  | .listJobs cursor limit =>
    (JobService.listJobs pf.codec tenantId cursor limit db).map fun r => .jobs r.1 r.2
  | .listJobsForDocument documentId =>
    .ok (.jobsForDocument (JobService.listJobsForDocument documentId tenantId db))
  | .denseSearch query topK => (denseSearch pf.index query tenantId topK db).map .ranked
  | .sparseSearch query topK => (sparseSearch pf.index query tenantId topK db).map .ranked
  | .evaluateRelevance query chunkIds =>
    (evaluateRelevance pf.text pf.gateway query chunkIds tenantId db).map .evaluations

def perform (op : Operation) (s : Store) : Except Failure Result × Store :=
  match op with
  | .uploadDocument filename content mimeType idempotencyKey =>
    let r := uploadDocument pf.sha256
      ⟨filename, content, mimeType, idempotencyKey, userId, tenantId⟩ o s.db s.objects
    (r.1.map fun x => .upload x.1 x.2, ⟨r.2.1, r.2.2⟩)
  | .softDeleteDocument documentId =>
    let r := softDeleteDocument documentId tenantId o.now o.deleteError s.db s.objects
    (r.1.map fun _ => .deleted, ⟨r.2.1, r.2.2⟩)
  | .read query => (answer pf tenantId s.db query, s)

/-- `resolve_membership` of the request, then the operation in that tenant. -/
def request (orgId : Option UUID) (op : Operation) (s : Store) : Except Failure Result × Store :=
  match resolveMembership userId orgId s.db with
  | .error e => (.error e, s)
  | .ok membership => perform pf userId membership.orgId o op s

end Operations

/-! ## What a tenant has -/

/-- The tables with the rows of the tenant only, and no accounts. -/
def tenantTables (tenantId : UUID) (db : Database) : Database where
  users := []
  organizations := []
  orgMemberships := []
  documents := owned Document.tenantId tenantId db.documents
  chunks := owned Chunk.tenantId tenantId db.chunks
  ingestionJobs := owned IngestionJob.tenantId tenantId db.ingestionJobs

def UnderPrefix (tenantId : UUID) (key : String) : Prop := (str tenantId ++ "/").toList <+: key.toList

/-- The two states have the same rows and the same stored objects of the tenant. -/
structure Agree (tenantId : UUID) (s t : Store) : Prop where
  documents : owned Document.tenantId tenantId s.db.documents =
    owned Document.tenantId tenantId t.db.documents
  chunks : owned Chunk.tenantId tenantId s.db.chunks = owned Chunk.tenantId tenantId t.db.chunks
  ingestionJobs : owned IngestionJob.tenantId tenantId s.db.ingestionJobs =
    owned IngestionJob.tenantId tenantId t.db.ingestionJobs
  objects : ∀ key, UnderPrefix tenantId key → s.objects key = t.objects key

/-- No row that is not the tenant's, and no object elsewhere, has changed. -/
structure OthersKept (tenantId : UUID) (s t : Store) : Prop where
  users : t.db.users = s.db.users
  organizations : t.db.organizations = s.db.organizations
  orgMemberships : t.db.orgMemberships = s.db.orgMemberships
  documents : others Document.tenantId tenantId t.db.documents =
    others Document.tenantId tenantId s.db.documents
  chunks : others Chunk.tenantId tenantId t.db.chunks = others Chunk.tenantId tenantId s.db.chunks
  ingestionJobs : others IngestionJob.tenantId tenantId t.db.ingestionJobs =
    others IngestionJob.tenantId tenantId s.db.ingestionJobs
  objects : ∀ key, ¬ UnderPrefix tenantId key → t.objects key = s.objects key

section Tables
variable {pf : Platform} {tenantId : UUID} {db : Database} {s t : Store}

theorem OthersKept.refl (tenantId : UUID) (s : Store) : OthersKept tenantId s s :=
  ⟨rfl, rfl, rfl, rfl, rfl, rfl, fun _ _ => rfl⟩

theorem Agree.tables (h : Agree tenantId s t) :
    tenantTables tenantId s.db = tenantTables tenantId t.db := by
  simp only [tenantTables, h.documents, h.chunks, h.ingestionJobs]

/-! ## Queries -/

theorem listDocuments_tables (codec : CursorCodec) (cursor : Option String) (limit : Int) :
    listDocuments codec tenantId cursor limit (tenantTables tenantId db) =
      listDocuments codec tenantId cursor limit db := by
  have rows : ∀ bound : Option Time, (owned Document.tenantId tenantId db.documents).filter
      (fun d => d.tenantId = tenantId && d.deletedAt.isNone && bound.all fun b => d.createdAt < b) =
        db.documents.filter fun d =>
          d.tenantId = tenantId && d.deletedAt.isNone && bound.all fun b => d.createdAt < b := by
    intro bound
    refine filter_owned fun d _ hit => ?_
    simp only [Bool.and_eq_true, decide_eq_true_eq] at hit
    exact hit.1.1
  simp only [listDocuments, tenantTables, rows]

theorem getDocument_tables (documentId : UUID) :
    getDocument documentId tenantId (tenantTables tenantId db) = getDocument documentId tenantId db := by
  have rows : (owned Document.tenantId tenantId db.documents).filter
      (fun d => d.id = documentId && d.tenantId = tenantId && d.deletedAt.isNone) =
        db.documents.filter fun d =>
          d.id = documentId && d.tenantId = tenantId && d.deletedAt.isNone := by
    refine filter_owned fun d _ hit => ?_
    simp only [Bool.and_eq_true, decide_eq_true_eq] at hit
    exact hit.1.2
  simp only [getDocument, tenantTables, rows]

theorem listChunks_tables (codec : CursorCodec) (documentId : UUID) (cursor : Option String)
    (limit : Int) :
    listChunks codec documentId tenantId cursor limit (tenantTables tenantId db) =
      listChunks codec documentId tenantId cursor limit db := by
  have rows : ∀ bound : Option Int, (owned Chunk.tenantId tenantId db.chunks).filter
      (fun c => c.documentId = documentId && c.tenantId = tenantId &&
        bound.all fun b => b < (c.chunkIndex : Int)) = db.chunks.filter fun c =>
          c.documentId = documentId && c.tenantId = tenantId &&
            bound.all fun b => b < (c.chunkIndex : Int) := by
    intro bound
    refine filter_owned fun c _ hit => ?_
    simp only [Bool.and_eq_true, decide_eq_true_eq] at hit
    exact hit.1.2
  simp only [listChunks, tenantTables, rows]

theorem getJob_tables (jobId : UUID) :
    JobService.getJob jobId tenantId (tenantTables tenantId db) =
      JobService.getJob jobId tenantId db := by
  rw [JobService.getJob, JobService.getJob, tenantTables, filter_owned]
  intro j _ hit
  simp only [Bool.and_eq_true, decide_eq_true_eq] at hit
  exact hit.2

theorem jobsOfDocument_tables (documentId : UUID) :
    (tenantTables tenantId db).ingestionJobs.filter
        (fun j => j.documentId = documentId && j.tenantId = tenantId) =
      db.ingestionJobs.filter fun j => j.documentId = documentId && j.tenantId = tenantId := by
  refine filter_owned fun j _ hit => ?_
  simp only [Bool.and_eq_true, decide_eq_true_eq] at hit
  exact hit.2

theorem listJobs_tables (codec : CursorCodec) (cursor : Option String) (limit : Int) :
    JobService.listJobs codec tenantId cursor limit (tenantTables tenantId db) =
      JobService.listJobs codec tenantId cursor limit db := by
  have rows : ∀ bound : Option Time,
      (owned IngestionJob.tenantId tenantId db.ingestionJobs).filter
        (fun j => j.tenantId = tenantId && bound.all fun b => j.createdAt < b) =
          db.ingestionJobs.filter fun j =>
            j.tenantId = tenantId && bound.all fun b => j.createdAt < b := by
    intro bound
    refine filter_owned fun j _ hit => ?_
    simp only [Bool.and_eq_true, decide_eq_true_eq] at hit
    exact hit.1
  simp only [JobService.listJobs, tenantTables, rows]

/-- The join names no tenant for the document: the chunk's document is the tenant's. -/
theorem liveChunks_tables (stored : Stored db) :
    liveChunks tenantId (tenantTables tenantId db) = liveChunks tenantId db := by
  have chunks : (owned Chunk.tenantId tenantId db.chunks).filter (fun c => c.tenantId = tenantId) =
      db.chunks.filter fun c => c.tenantId = tenantId :=
    filter_owned fun c _ hit => of_decide_eq_true hit
  simp only [liveChunks, tenantTables, chunks]
  refine List.flatMap_congr fun c hc => ?_
  simp only [List.mem_filter, decide_eq_true_eq] at hc
  rw [filter_owned]
  intro d hd hit
  simp only [Bool.and_eq_true, decide_eq_true_eq] at hit
  obtain ⟨own, hown, id, _, tenant⟩ := stored.docOfChunk c hc.1
  have same : d = own := RowVersions.eq_of_key stored.docIds hd hown (hit.1.trans id.symm)
  rw [same, tenant, hc.2]

theorem evaluateRelevance_tables (text : TextMethods) (gateway : String → Except String String)
    (query : String) (chunkIds : List UUID) :
    evaluateRelevance text gateway query chunkIds tenantId (tenantTables tenantId db) =
      evaluateRelevance text gateway query chunkIds tenantId db := by
  have rows : (owned Chunk.tenantId tenantId db.chunks).filter
      (fun c => c.id ∈ chunkIds && c.tenantId = tenantId) =
        db.chunks.filter fun c => c.id ∈ chunkIds && c.tenantId = tenantId := by
    refine filter_owned fun c _ hit => ?_
    simp only [Bool.and_eq_true, decide_eq_true_eq] at hit
    exact hit.2
  simp only [evaluateRelevance, tenantTables, rows]

/-- What a tenant reads is a function of its own rows. -/
theorem answer_tables (stored : Stored db) (query : Query) :
    answer pf tenantId (tenantTables tenantId db) query = answer pf tenantId db query := by
  cases query with
  | listDocuments cursor limit => simp only [answer, listDocuments_tables]
  | getDocument documentId => simp only [answer, getDocument_tables]
  | listChunks documentId cursor limit => simp only [answer, listChunks_tables]
  | getJob jobId => simp only [answer, getJob_tables]
  | listJobs cursor limit => simp only [answer, listJobs_tables]
  | listJobsForDocument documentId =>
    simp only [answer, JobService.listJobsForDocument, jobsOfDocument_tables]
  | denseSearch query topK =>
    simp only [answer, denseSearch, denseRows, denseSql, liveChunks_tables stored]
  | sparseSearch query topK =>
    simp only [answer, sparseSearch, sparseSql, liveChunks_tables stored]
  | evaluateRelevance query chunkIds => simp only [answer, evaluateRelevance_tables]

theorem answer_agree (hs : Stored s.db) (ht : Stored t.db) (h : Agree tenantId s t) (query : Query) :
    answer pf tenantId s.db query = answer pf tenantId t.db query := by
  rw [← answer_tables hs, ← answer_tables ht, h.tables]

/-! ## Stored objects -/

theorem underPrefix_storageKey (tenantId docId : UUID) (filename : String) :
    UnderPrefix tenantId (storageKey tenantId docId filename) := by
  refine ⟨(str docId ++ "/" ++ filename).toList, ?_⟩
  simp only [storageKey, String.toList_append, List.append_assoc]

/-- Tenants have disjoint parts of the object store. -/
theorem underPrefix_unique {a b : UUID} {key : String} (ha : UnderPrefix a key)
    (hb : UnderPrefix b key) : a = b := by
  have length : ∀ u : UUID, (str u ++ "/").toList.length = 37 := by
    intro u
    have text := length_str u
    rw [← String.length_toList] at text
    simp [String.toList_append, text]
  have same : (str a ++ "/").toList = (str b ++ "/").toList := by
    rw [List.prefix_iff_eq_take.mp ha, List.prefix_iff_eq_take.mp hb, length a, length b]
  rw [String.toList_append, String.toList_append] at same
  exact str_injective (String.toList_injective (List.append_cancel_right same))

theorem put_agree {f g : ObjectStore} (key : String) (object : StoredObject)
    (h : ∀ k, UnderPrefix tenantId k → f k = g k) :
    ∀ k, UnderPrefix tenantId k → f.put key object k = g.put key object k := by
  intro k hk
  simp only [ObjectStore.put, h k hk]

theorem delete_agree {f g : ObjectStore} (key : String)
    (h : ∀ k, UnderPrefix tenantId k → f k = g k) :
    ∀ k, UnderPrefix tenantId k → f.delete key k = g.delete key k := by
  intro k hk
  simp only [ObjectStore.delete, h k hk]

theorem afterPut_agree {f g : ObjectStore} (key : String) (object : StoredObject) (error : Option StorageFault)
    (h : ∀ k, UnderPrefix tenantId k → f k = g k) :
    ∀ k, UnderPrefix tenantId k → f.afterPut key object error k = g.afterPut key object error k := by
  simp only [ObjectStore.afterPut]
  split
  · exact put_agree key object h
  · exact h

/-- A cleanup that may fail. -/
theorem afterDelete_agree {f g : ObjectStore} (key : String) (error : Option StorageFault)
    (h : ∀ k, UnderPrefix tenantId k → f k = g k) :
    ∀ k, UnderPrefix tenantId k → f.afterDelete key error k = g.afterDelete key error k := by
  simp only [ObjectStore.afterDelete]
  split
  · exact delete_agree key h
  · exact h

/-! ## Upload -/

theorem findByKey_tables (stored : Stored db) (key : String) :
    findByKey (tenantTables tenantId db) key tenantId = findByKey db key tenantId := by
  have jobs : (owned IngestionJob.tenantId tenantId db.ingestionJobs).filter
      (fun j => j.tenantId = tenantId && j.idempotencyKey = key) =
        db.ingestionJobs.filter fun j => j.tenantId = tenantId && j.idempotencyKey = key := by
    refine filter_owned fun j _ hit => ?_
    simp only [Bool.and_eq_true, decide_eq_true_eq] at hit
    exact hit.1
  simp only [findByKey, tenantTables, jobs]
  split
  · rfl
  · cases hr : scalarOneOrNone (db.ingestionJobs.filter fun j =>
        j.tenantId = tenantId && j.idempotencyKey = key) with
    | error e => rfl
    | ok row =>
      cases row with
      | none => rfl
      | some j =>
        -- `db.get(Document, job.document_id)` names no tenant
        have hj : j ∈ db.ingestionJobs.filter fun j =>
            j.tenantId = tenantId && j.idempotencyKey = key := by
          simp [scalarOneOrNone_of_eq_some hr]
        simp only [List.mem_filter, Bool.and_eq_true, decide_eq_true_eq] at hj
        obtain ⟨own, hown, id, _, tenant⟩ := stored.docOfJob j hj.1
        have docs : (owned Document.tenantId tenantId db.documents).find?
            (fun d => d.id = j.documentId) = db.documents.find? fun d => d.id = j.documentId := by
          refine find?_owned fun d hd hit => ?_
          have same : d = own := RowVersions.eq_of_key stored.docIds hd hown
            ((of_decide_eq_true hit).trans id.symm)
          rw [same, tenant, hj.2.1]
        simp only [Except.map, Option.bind_some, docs]

theorem findByContent_tables (hash : String) :
    findByContent (tenantTables tenantId db) hash tenantId = findByContent db hash tenantId := by
  have docs : (tenantTables tenantId db).documents.filter
      (fun d => d.tenantId = tenantId && d.contentHash = hash && d.deletedAt.isNone) =
        db.documents.filter fun d =>
          d.tenantId = tenantId && d.contentHash = hash && d.deletedAt.isNone := by
    refine filter_owned fun d _ hit => ?_
    simp only [Bool.and_eq_true, decide_eq_true_eq] at hit
    exact hit.1.1
  simp only [findByContent, docs, jobsOfDocument_tables]

theorem findExistingUpload_agree (hs : Stored s.db) (ht : Stored t.db) (h : Agree tenantId s t)
    (hash key : String) :
    findExistingUpload s.db hash key tenantId = findExistingUpload t.db hash key tenantId := by
  have tables : ∀ {db : Database}, Stored db →
      findExistingUpload (tenantTables tenantId db) hash key tenantId =
        findExistingUpload db hash key tenantId := by
    intro db stored
    rw [findExistingUpload, findByKey_tables stored, findByContent_tables, findExistingUpload]
  rw [← tables hs, ← tables ht, h.tables]

/-- The accounts of the request and the ids that it draws. -/
structure Admitted (userId tenantId : UUID) (o : Outside) (db : Database) : Prop where
  user : ∃ u ∈ db.users, u.id = userId
  organization : ∃ x ∈ db.organizations, x.id = tenantId
  docId : ∀ d ∈ db.documents, d.id ≠ o.docId
  jobId : ∀ j ∈ db.ingestionJobs, j.id ≠ o.jobId

/-- Why an insert of fresh rows fails: a value that does not fit, or a unique key
of the tenant's own rows. -/
def insertFailure (documents : List Document) (jobs : List IngestionJob) (d : Document)
    (j : IngestionJob) : Option Failure :=
  if !documentFits d then some (.dataError "documents")
  else if documents.any fun x => x.contentHash = d.contentHash then
    some (.integrityError "uq_documents_tenant_content")
  else if !fitsVarchar 255 j.idempotencyKey then some (.dataError "ingestion_jobs")
  else if jobs.any fun x => x.idempotencyKey = j.row.idempotencyKey then
    some (.integrityError "uq_jobs_tenant_idempotency")
  else none

theorem any_owned {ρ τ : Type*} [DecidableEq τ] {owner : ρ → τ} {a : τ} {rows : List ρ}
    {p : ρ → Bool} :
    (owned owner a rows).any p = rows.any fun r => owner r = a && p r := by
  rw [owned, List.any_filter]

theorem any_eq_false_of {ρ : Type*} {rows : List ρ} {p : ρ → Prop} [DecidablePred p]
    (missing : ∀ r ∈ rows, ¬ p r) : rows.any (fun r => p r) = false := by
  simpa using missing

theorem any_eq_true_of {ρ : Type*} {rows : List ρ} {p : ρ → Prop} [DecidablePred p]
    (present : ∃ r ∈ rows, p r) : rows.any (fun r => p r) = true := by
  simpa using present

theorem documentViolation_of_admitted (sha256 : Sha256) (u : Upload) (o : Outside)
    (ok : Admitted u.userId u.tenantId o db) :
    documentViolation db (newDocument sha256 u o) =
      if (owned Document.tenantId u.tenantId db.documents).any
          fun x => x.contentHash = (newDocument sha256 u o).contentHash then
        some "uq_documents_tenant_content"
      else none := by
  have fresh : db.documents.any (fun x => x.id = (newDocument sha256 u o).id) = false :=
    any_eq_false_of ok.docId
  have user : db.users.any (fun x => x.id = (newDocument sha256 u o).userId) = true :=
    any_eq_true_of ok.user
  have organization :
      db.organizations.any (fun x => x.id = (newDocument sha256 u o).tenantId) = true :=
    any_eq_true_of ok.organization
  rw [documentViolation, fresh, user, organization, any_owned]
  rfl

theorem jobViolation_of_admitted (sha256 : Sha256) (u : Upload) (o : Outside)
    (ok : Admitted u.userId u.tenantId o db) :
    jobViolation { db with documents := db.documents ++ [(newDocument sha256 u o).row] } (newJob u o).row =
      if (owned IngestionJob.tenantId u.tenantId db.ingestionJobs).any
          fun x => x.idempotencyKey = (newJob u o).row.idempotencyKey then
        some "uq_jobs_tenant_idempotency"
      else none := by
  have fresh : db.ingestionJobs.any (fun x => x.id = (newJob u o).row.id) = false :=
    any_eq_false_of ok.jobId
  have document : (db.documents ++ [(newDocument sha256 u o).row]).any
      (fun x => x.id = (newJob u o).row.documentId) = true := by
    simp [newDocument, Document.row, newJob, IngestionJob.row]
  have user : db.users.any (fun x => x.id = (newJob u o).row.userId) = true :=
    any_eq_true_of ok.user
  have organization : db.organizations.any (fun x => x.id = (newJob u o).row.tenantId) = true :=
    any_eq_true_of ok.organization
  simp only [jobViolation, fresh, document, user, organization, any_owned]
  rfl

theorem insertUpload_of_admitted (sha256 : Sha256) (u : Upload) (o : Outside)
    (ok : Admitted u.userId u.tenantId o db) :
    insertUpload db (newDocument sha256 u o) (newJob u o) =
      match insertFailure (owned Document.tenantId u.tenantId db.documents)
          (owned IngestionJob.tenantId u.tenantId db.ingestionJobs)
          (newDocument sha256 u o) (newJob u o) with
      | some e => .error e
      | none => .ok { db with
          documents := db.documents ++ [(newDocument sha256 u o).row]
          ingestionJobs := db.ingestionJobs ++ [(newJob u o).row] } := by
  rw [insertUpload, insertDocument, documentViolation_of_admitted sha256 u o ok, insertFailure]
  cases documentFits (newDocument sha256 u o) with
  | false => rfl
  | true =>
    cases (owned Document.tenantId u.tenantId db.documents).any
        fun x => x.contentHash = (newDocument sha256 u o).contentHash with
    | true => rfl
    | false =>
      simp only [Bool.not_true, Bool.false_eq_true, if_false, Except.bind, insertJob,
        jobViolation_of_admitted sha256 u o ok]
      cases fitsVarchar 255 (newJob u o).idempotencyKey with
      | false => rfl
      | true =>
        cases (owned IngestionJob.tenantId u.tenantId db.ingestionJobs).any
            fun x => x.idempotencyKey = (newJob u o).row.idempotencyKey with
        | true => rfl
        | false => rfl

theorem Agree.objects_changed (h : Agree tenantId s t) {f g : ObjectStore}
    (objects : ∀ k, UnderPrefix tenantId k → f k = g k) :
    Agree tenantId ⟨s.db, f⟩ ⟨t.db, g⟩ := ⟨h.documents, h.chunks, h.ingestionJobs, objects⟩

/-- Both states get the same rows of the tenant. -/
theorem Agree.rows_added (h : Agree tenantId s t) {d : Document} {j : IngestionJob}
    (hd : d.tenantId = tenantId) (hj : j.tenantId = tenantId) {f g : ObjectStore}
    (objects : ∀ k, UnderPrefix tenantId k → f k = g k) :
    Agree tenantId
      ⟨{ s.db with
        documents := s.db.documents ++ [d], ingestionJobs := s.db.ingestionJobs ++ [j] }, f⟩
      ⟨{ t.db with
        documents := t.db.documents ++ [d], ingestionJobs := t.db.ingestionJobs ++ [j] }, g⟩ where
  documents := by rw [owned_concat hd, owned_concat hd, h.documents]
  chunks := h.chunks
  ingestionJobs := by rw [owned_concat hj, owned_concat hj, h.ingestionJobs]
  objects := objects

theorem upload_agree (u : Upload) (own : u.tenantId = tenantId) (o : Outside) (sha256 : Sha256)
    (hs : Stored s.db) (ht : Stored t.db) (okS : Admitted u.userId tenantId o s.db)
    (okT : Admitted u.userId tenantId o t.db) (h : Agree tenantId s t) :
    (uploadDocument sha256 u o s.db s.objects).1 = (uploadDocument sha256 u o t.db t.objects).1 ∧
      Agree tenantId
        ⟨(uploadDocument sha256 u o s.db s.objects).2.1, (uploadDocument sha256 u o s.db s.objects).2.2⟩
        ⟨(uploadDocument sha256 u o t.db t.objects).2.1, (uploadDocument sha256 u o t.db t.objects).2.2⟩ := by
  subst own
  have lookup := findExistingUpload_agree hs ht h (contentHash sha256 u.content) u.idempotencyKey
  have stored := afterPut_agree (storageKey u.tenantId o.docId u.filename)
    ⟨u.content, contentTypeOf u.mimeType⟩ o.uploadError h.objects
  simp only [uploadDocument, lookup, insertUpload_of_admitted sha256 u o okS,
    insertUpload_of_admitted sha256 u o okT, h.documents, h.ingestionJobs]
  cases findExistingUpload t.db (contentHash sha256 u.content) u.idempotencyKey u.tenantId with
  | error e => exact ⟨rfl, h⟩
  | ok hit =>
    cases hit with
    | some hit => exact ⟨rfl, h⟩
    | none =>
      cases failed : o.uploadError with
      | some fault =>
        rw [failed] at stored
        exact ⟨rfl, h.objects_changed stored⟩
      | none =>
        rw [failed] at stored
        cases insertFailure (owned Document.tenantId u.tenantId t.db.documents)
            (owned IngestionJob.tenantId u.tenantId t.db.ingestionJobs) (newDocument sha256 u o)
            (newJob u o) with
        | none => exact ⟨rfl, h.rows_added rfl rfl stored⟩
        | some e =>
          cases e with
          | integrityError constraint => exact ⟨rfl, h.objects_changed (afterDelete_agree _ _ stored)⟩
          | _ =>
            exact ⟨rfl, h.objects_changed stored⟩

theorem upload_kept (u : Upload) (own : u.tenantId = tenantId) (o : Outside) (sha256 : Sha256)
    (s : Store) :
    OthersKept tenantId s ⟨(uploadDocument sha256 u o s.db s.objects).2.1,
      (uploadDocument sha256 u o s.db s.objects).2.2⟩ := by
  subst own
  have objects : ∀ k, ¬ UnderPrefix u.tenantId k →
      (uploadDocument sha256 u o s.db s.objects).2.2 k = s.objects k := fun k other =>
    uploadDocument_elsewhere sha256 u o s.db s.objects fun he =>
      other (he ▸ underPrefix_storageKey u.tenantId o.docId u.filename)
  rcases uploadDocument_db sha256 u o s.db s.objects with same | ⟨_, new⟩
  · rw [same]
    exact ⟨rfl, rfl, rfl, rfl, rfl, rfl, objects⟩
  · obtain ⟨_, grown⟩ := (insertUpload_ok_iff rfl rfl rfl).mp new
    rw [grown]
    exact ⟨rfl, rfl, rfl, others_concat rfl, rfl, others_concat rfl, objects⟩

/-! ## Soft delete -/

theorem deletedAs_tenantId (documentId : UUID) (now : Time) (d : Document) :
    (deletedAs documentId now d).tenantId = d.tenantId := (deletedAs_keeps documentId now d).2.1

theorem softDelete_agree (documentId : UUID) (now : Time) (deleteError : Option StorageFault)
    (h : Agree tenantId s t) :
    (softDeleteDocument documentId tenantId now deleteError s.db s.objects).1 =
        (softDeleteDocument documentId tenantId now deleteError t.db t.objects).1 ∧
      Agree tenantId
        ⟨(softDeleteDocument documentId tenantId now deleteError s.db s.objects).2.1,
          (softDeleteDocument documentId tenantId now deleteError s.db s.objects).2.2⟩
        ⟨(softDeleteDocument documentId tenantId now deleteError t.db t.objects).2.1,
          (softDeleteDocument documentId tenantId now deleteError t.db t.objects).2.2⟩ := by
  have found : getDocument documentId tenantId s.db = getDocument documentId tenantId t.db := by
    rw [← getDocument_tables, h.tables, getDocument_tables]
  have documents : owned Document.tenantId tenantId (s.db.documents.map (deletedAs documentId now)) =
      owned Document.tenantId tenantId (t.db.documents.map (deletedAs documentId now)) := by
    rw [owned_map (deletedAs_tenantId documentId now), owned_map (deletedAs_tenantId documentId now),
      h.documents]
  simp only [softDeleteDocument, found]
  cases getDocument documentId tenantId t.db with
  | error e => exact ⟨rfl, h⟩
  | ok doc =>
    refine ⟨rfl, documents, h.chunks, h.ingestionJobs, fun k hk => ?_⟩
    simp only
    cases doc.storageKey with
    | none => exact h.objects k hk
    | some key =>
      by_cases empty : key = ""
      · simp only [empty, if_true, h.objects k hk]
      · simp only [empty, if_false, afterDelete_agree key deleteError h.objects k hk]

/-- The UPDATE goes by id alone, but the id was looked up in the tenant. -/
theorem softDelete_others (documentId : UUID) (now : Time) (deleteError : Option StorageFault)
    (docIds : (db.documents.map Document.id).Nodup) (objects : ObjectStore) :
    others Document.tenantId tenantId
        (softDeleteDocument documentId tenantId now deleteError db objects).2.1.documents =
      others Document.tenantId tenantId db.documents := by
  rcases softDeleteDocument_db documentId tenantId now deleteError db objects with
    same | ⟨⟨doc, hg⟩, marked⟩
  · rw [same]
  · rw [marked]
    obtain ⟨hd, id, tenant, _⟩ := getDocument_spec hg
    refine others_map (deletedAs_tenantId documentId now) ?_
    intro d hmem other
    refine deletedAs_of_ne now fun same => other ?_
    rw [RowVersions.eq_of_key docIds hmem hd (same.trans id.symm), tenant]

theorem softDelete_elsewhere (documentId : UUID) (now : Time) (deleteError : Option StorageFault)
    (storageKeys : ∀ d ∈ db.documents, ∃ filename, d.storageKey = some (storageKey d.tenantId d.id filename))
    (objects : ObjectStore) {k : String} (other : ¬ UnderPrefix tenantId k) :
    (softDeleteDocument documentId tenantId now deleteError db objects).2.2 k = objects k := by
  simp only [softDeleteDocument]
  cases hg : getDocument documentId tenantId db with
  | error e => rfl
  | ok doc =>
    obtain ⟨hd, _, tenant, _⟩ := getDocument_spec hg
    obtain ⟨filename, key⟩ := storageKeys doc hd
    have elsewhere : k ≠ storageKey tenantId doc.id filename := fun he =>
      other (he ▸ underPrefix_storageKey tenantId doc.id filename)
    simp only [key, tenant]
    split
    · rfl
    · exact objects.afterDelete_of_ne deleteError elsewhere

theorem softDelete_kept (documentId : UUID) (now : Time) (deleteError : Option StorageFault)
    (hs : Stored s.db) :
    OthersKept tenantId s
      ⟨(softDeleteDocument documentId tenantId now deleteError s.db s.objects).2.1,
        (softDeleteDocument documentId tenantId now deleteError s.db s.objects).2.2⟩ := by
  have documents : others Document.tenantId tenantId
      (softDeleteDocument documentId tenantId now deleteError s.db s.objects).2.1.documents =
        others Document.tenantId tenantId s.db.documents :=
    softDelete_others documentId now deleteError hs.docIds s.objects
  have objects : ∀ k, ¬ UnderPrefix tenantId k →
      (softDeleteDocument documentId tenantId now deleteError s.db s.objects).2.2 k = s.objects k :=
    fun k => softDelete_elsewhere documentId now deleteError hs.storageKey s.objects
  rcases softDeleteDocument_db documentId tenantId now deleteError s.db s.objects with
    same | ⟨_, marked⟩
  · rw [same] at documents ⊢
    exact ⟨rfl, rfl, rfl, documents, rfl, rfl, objects⟩
  · rw [marked] at documents ⊢
    exact ⟨rfl, rfl, rfl, documents, rfl, rfl, objects⟩

/-! ## Two runs -/

/-- A state in which the request of the user is served in the tenant. -/
structure Served (userId tenantId : UUID) (o : Outside) (s : Store) : Prop where
  stored : Stored s.db
  admitted : Admitted userId tenantId o s.db

/-- Every operation of a tenant stays inside it. -/
theorem perform_confined (pf : Platform) (userId tenantId : UUID) (o : Outside) (op : Operation) :
    Confined (Served userId tenantId o) (Agree tenantId) (OthersKept tenantId)
      (perform pf userId tenantId o op) := by
  cases op with
  | uploadDocument filename content mimeType idempotencyKey =>
    have both := fun s t (hs : Served userId tenantId o s) (ht : Served userId tenantId o t)
        (h : Agree tenantId s t) =>
      upload_agree ⟨filename, content, mimeType, idempotencyKey, userId, tenantId⟩ rfl o pf.sha256
        hs.stored ht.stored hs.admitted ht.admitted h
    refine ⟨fun s t hs ht h => ?_, fun s t hs ht h => (both s t hs ht h).2, fun s _ => ?_⟩
    · simp only [perform, (both s t hs ht h).1]
    · exact upload_kept ⟨filename, content, mimeType, idempotencyKey, userId, tenantId⟩ rfl o
        pf.sha256 s
  | softDeleteDocument documentId =>
    refine ⟨fun s t _ _ h => ?_, fun s t _ _ h => ?_, fun s hs => ?_⟩
    · simp only [perform, (softDelete_agree documentId o.now o.deleteError h).1]
    · exact (softDelete_agree documentId o.now o.deleteError h).2
    · exact softDelete_kept documentId o.now o.deleteError hs.stored
  | read query =>
    exact confined_read (OthersKept.refl tenantId) fun s t hs ht h =>
      answer_agree hs.stored ht.stored h query

/-- What one tenant does is not seen by another. -/
theorem OthersKept.agree {a b : UUID} (ne : b ≠ a) (h : OthersKept a s t) : Agree b s t where
  documents := (owned_of_others_eq ne h.documents).symm
  chunks := (owned_of_others_eq ne h.chunks).symm
  ingestionJobs := (owned_of_others_eq ne h.ingestionJobs).symm
  objects k hk := (h.objects k fun other => ne (underPrefix_unique hk other)).symm

/-- The request of the user resolves to the tenant. -/
def ResolvesTo (userId : UUID) (orgId : Option UUID) (tenantId : UUID) (db : Database) : Prop :=
  ∃ m, resolveMembership userId orgId db = .ok m ∧ m.orgId = tenantId

/-- `gen_random_uuid()`: the ids that the call draws are new. -/
def FreshIds (o : Outside) (db : Database) : Prop :=
  (∀ d ∈ db.documents, d.id ≠ o.docId) ∧ ∀ j ∈ db.ingestionJobs, j.id ≠ o.jobId

instance (o : Outside) (db : Database) : Decidable (FreshIds o db) :=
  inferInstanceAs (Decidable ((∀ d ∈ db.documents, d.id ≠ o.docId) ∧
    ∀ j ∈ db.ingestionJobs, j.id ≠ o.jobId))

def store {n : Nat} (w : World n) : Store := ⟨w.db, w.objects⟩

/-- An upload leaves the other tenants' rows and objects as they are. -/
theorem upload_step_kept {n : Nat} {cfg : Settings} {w w' : World n} {u : Upload} {o : Outside}
    (h : (machine cfg n).step w (.upload u o) = some w') :
    OthersKept u.tenantId (store w) (store w') := by
  cases h
  exact upload_kept u rfl o cfg.sha256 (store w)

/-- An upload and the workers after it leave another tenant's objects as they are. -/
theorem objects_kept {n : Nat} {cfg : Settings} {w w' t : World n} {u : Upload} {o : Outside}
    {es : List (Event n)} (h : (machine cfg n).step w (.upload u o) = some w')
    (run : (machine cfg n).run w' es = some t) (workers : ∀ e ∈ es, (actor e).isSome)
    (other : tenantId ≠ u.tenantId) {key : String} (own : UnderPrefix tenantId key) :
    (store w).objects key = (store t).objects key := by
  have agree : Agree tenantId (store w) (store w') := (upload_step_kept h).agree other
  have same : (store t).objects = (store w').objects := workers_objects cfg workers run
  rw [same]
  exact agree.objects key own

theorem served_of_resolves {n : Nat} {cfg : Settings} {w : World n} {userId : UUID}
    {orgId : Option UUID} {o : Outside} (reach : (machine cfg n).Reachable (World.start n) w)
    (resolves : ResolvesTo userId orgId tenantId w.db) (fresh : FreshIds o w.db) :
    Served userId tenantId o (store w) := by
  obtain ⟨m, hm, rfl⟩ := resolves
  obtain ⟨row, user, _⟩ := resolveMembership_spec hm
  have stored := (sound_reachable cfg reach).stored
  obtain ⟨hasUser, hasOrganization⟩ := stored.members m row
  exact ⟨stored, user ▸ hasUser, hasOrganization, fresh.1, fresh.2⟩

theorem request_of_resolves {userId : UUID} {orgId : Option UUID} {o : Outside} {op : Operation}
    (resolves : ResolvesTo userId orgId tenantId s.db) :
    request pf userId o orgId op s = perform pf userId tenantId o op s := by
  obtain ⟨m, hm, rfl⟩ := resolves
  rw [request, hm]

/-- Tenant noninterference: in two reachable states that agree on the tenant, any
of its requests gives the same result and leaves states that agree on it, and in
neither changes anything of another tenant. -/
theorem tenant_noninterference (pf : Platform) {n₁ n₂ : Nat} (cfg₁ cfg₂ : Settings)
    {w₁ : World n₁} {w₂ : World n₂}
    (reach₁ : (machine cfg₁ n₁).Reachable (World.start n₁) w₁)
    (reach₂ : (machine cfg₂ n₂).Reachable (World.start n₂) w₂)
    (tenantId userId : UUID) (orgId : Option UUID)
    (resolves₁ : ResolvesTo userId orgId tenantId w₁.db)
    (resolves₂ : ResolvesTo userId orgId tenantId w₂.db)
    (o : Outside) (fresh₁ : FreshIds o w₁.db) (fresh₂ : FreshIds o w₂.db)
    (agree : Agree tenantId (store w₁) (store w₂)) (op : Operation) :
    (request pf userId o orgId op (store w₁)).1 = (request pf userId o orgId op (store w₂)).1 ∧
      Agree tenantId (request pf userId o orgId op (store w₁)).2
        (request pf userId o orgId op (store w₂)).2 ∧
      OthersKept tenantId (store w₁) (request pf userId o orgId op (store w₁)).2 ∧
      OthersKept tenantId (store w₂) (request pf userId o orgId op (store w₂)).2 := by
  have confined := perform_confined pf userId tenantId o op
  have served₁ := served_of_resolves reach₁ resolves₁ fresh₁
  have served₂ := served_of_resolves reach₂ resolves₂ fresh₂
  rw [request_of_resolves resolves₁, request_of_resolves resolves₂]
  exact ⟨confined.result _ _ served₁ served₂ agree, confined.agrees _ _ served₁ served₂ agree,
    confined.keeps _ served₁, confined.keeps _ served₂⟩

end Tables

namespace Demo

def platform : Platform where
  sha256 := WorkerMachine.Demo.settings.sha256
  codec := ⟨fun _ => .error (.valueError "cursor"), fun _ => .error (.valueError "cursor"),
    fun _ => "", fun _ => ""⟩
  index := ⟨fun texts => .ok (texts.map fun _ => [1]), fun _ _ => 0, fun _ _ => true, fun _ _ => 1⟩
  text := ⟨fun s => s, fun s => s, fun s => s⟩
  gateway _ := .ok "relevant|yes"

/-- A chunk of a file is its text. -/
def settings : Settings := { WorkerMachine.Demo.settings with
  pipeline := { WorkerMachine.Demo.settings.pipeline with
    extractText := fun content _ => .ok (String.ofList (content.map fun b => Char.ofNat b.toNat)) } }

/-- The only worker. -/
def w : Fin 1 := ⟨0, Nat.one_pos⟩

/-- Two tenants with one member each; the first one has a document with its chunk. -/
def events : List (Event 1) := [
  .accounts [⟨1, "a@example.com", true⟩, ⟨11, "b@example.com", true⟩]
    [⟨2, "A", "a", 0⟩, ⟨12, "B", "b", 0⟩] [⟨3, 2, 1, .editor, 0⟩, ⟨13, 12, 11, .editor, 0⟩],
  .upload WorkerMachine.Demo.upload ⟨4, 5, 10, none, none⟩] ++
  WorkerMachine.Demo.claims w 20 ++ WorkerMachine.Demo.ingests w 6 30

def first : World 1 := ((machine settings 1).run (World.start 1) events).getD (World.start 1)

theorem reachable_first : (machine settings 1).Reachable (World.start 1) first :=
  Machine.reachable_getD _ (by decide +kernel)

def foreignUpload (content : Bytes) : Upload :=
  { WorkerMachine.Demo.upload with content := content, userId := 11, tenantId := 12 }

/-- The second tenant uploads a document too. -/
def filed (content : Bytes) : World 1 :=
  let r := uploadDocument settings.sha256 (foreignUpload content) ⟨14, 15, 40, none, none⟩ first.db
    first.objects
  { first with db := r.2.1, objects := r.2.2 }

theorem filed_step (content : Bytes) : (machine settings 1).step first
    (.upload (foreignUpload content) ⟨14, 15, 40, none, none⟩) = some (filed content) := rfl

def ingest : List (Event 1) := WorkerMachine.Demo.claims w 50 ++ WorkerMachine.Demo.ingests w 7 60

/-- And its chunk is stored as well. -/
def second (content : Bytes) : World 1 :=
  ((machine settings 1).run (filed content) ingest).getD (World.start 1)

theorem run_second (content : Bytes) (ends : ((machine settings 1).run (filed content) ingest).isSome) :
    (machine settings 1).run (filed content) ingest = some (second content) :=
  Machine.run_getD _ ends

theorem reachable_second (content : Bytes) (ends : ((machine settings 1).run (filed content) ingest).isSome) :
    (machine settings 1).Reachable (World.start 1) (second content) := by
  obtain ⟨es, run⟩ := reachable_first.step (filed_step content)
  exact ⟨es ++ ingest, Machine.run_append_iff.mpr ⟨_, run, run_second content ends⟩⟩

theorem objects_second (content : Bytes) (ends : ((machine settings 1).run (filed content) ingest).isSome)
    (key : String) (own : UnderPrefix 2 key) :
    (store first).objects key = (store (second content)).objects key := by
  have other : (2 : UUID) ≠ (foreignUpload content).tenantId := show (2 : UUID) ≠ 12 by decide
  exact objects_kept (filed_step content) (run_second content ends) (by decide) other own

/-- The bytes of "hello" and of "hello!". -/
def before : World 1 := second [104, 101, 108, 108, 111]

def after : World 1 := second [104, 101, 108, 108, 111, 33]

def draw : Outside := ⟨16, 17, 70, none, none⟩

/-- What one evaluation of the two runs shows. -/
theorem runs : ((machine settings 1).run (filed [104, 101, 108, 108, 111]) ingest).isSome ∧
    ((machine settings 1).run (filed [104, 101, 108, 108, 111, 33]) ingest).isSome ∧
    (before.db.chunks.map fun c => (c.tenantId, c.content)) = [(2, "hello"), (12, "hello")] ∧
    (after.db.chunks.map fun c => (c.tenantId, c.content)) = [(2, "hello"), (12, "hello!")] ∧
    resolveMembership 1 none before.db = .ok ⟨3, 2, 1, .editor, 0⟩ ∧
    resolveMembership 1 none after.db = .ok ⟨3, 2, 1, .editor, 0⟩ ∧
    FreshIds draw before.db ∧ FreshIds draw after.db ∧
    owned Document.tenantId 2 before.db.documents = owned Document.tenantId 2 after.db.documents ∧
    owned Chunk.tenantId 2 before.db.chunks = owned Chunk.tenantId 2 after.db.chunks ∧
    owned IngestionJob.tenantId 2 before.db.ingestionJobs =
      owned IngestionJob.tenantId 2 after.db.ingestionJobs := by decide +kernel

theorem reachable_before : (machine settings 1).Reachable (World.start 1) before :=
  reachable_second _ runs.1

theorem reachable_after : (machine settings 1).Reachable (World.start 1) after :=
  reachable_second _ runs.2.1

end Demo

/-- Both tenants have a chunk that matches, and the second tenant's are not the same. -/
theorem tenant_noninterference_demo :
    let search : Operation := .read (.denseSearch "hello" 5)
    (Demo.before.db.chunks.map fun c => (c.tenantId, c.content)) = [(2, "hello"), (12, "hello")] ∧
      (Demo.after.db.chunks.map fun c => (c.tenantId, c.content)) = [(2, "hello"), (12, "hello!")] ∧
      (request Demo.platform 1 Demo.draw none search (store Demo.before)).1 =
        (request Demo.platform 1 Demo.draw none search (store Demo.after)).1 ∧
      Agree 2 (request Demo.platform 1 Demo.draw none search (store Demo.before)).2
        (request Demo.platform 1 Demo.draw none search (store Demo.after)).2 ∧
      OthersKept 2 (store Demo.before)
        (request Demo.platform 1 Demo.draw none search (store Demo.before)).2 ∧
      OthersKept 2 (store Demo.after)
        (request Demo.platform 1 Demo.draw none search (store Demo.after)).2 := by
  obtain ⟨ends, ends', chunks, chunks', member, member', fresh, fresh', documents, rows, jobs⟩ := Demo.runs
  have agree : Agree 2 (store Demo.before) (store Demo.after) :=
    ⟨documents, rows, jobs, fun key own =>
      (Demo.objects_second _ ends key own).symm.trans
        (Demo.objects_second _ ends' key own)⟩
  exact ⟨chunks, chunks', tenant_noninterference Demo.platform Demo.settings Demo.settings
    Demo.reachable_before Demo.reachable_after 2 1 none ⟨_, member, rfl⟩ ⟨_, member', rfl⟩ Demo.draw
    fresh fresh' agree (.read (.denseSearch "hello" 5))⟩

end TenantPlane
