import ResearchPlatform.Schema
import ResearchPlatform.Library.RowVersions

/-!
# Document service: upload, list, get, delete

`uploadDocument` and its siblings as one transaction run alone on the committed
database. What a call draws from outside (fresh ids, the clock, the answers of
the object store) is an argument. A savepoint that fails leaves the database as
it was, and a call that raises is rolled back by the request's session.
-/

namespace DocumentService

open Uuid Schema RowVersions

structure StoredObject where
  data : Bytes
  contentType : String
  deriving DecidableEq, Repr

abbrev ObjectStore := String → Option StoredObject

namespace ObjectStore

def put (objects : ObjectStore) (key : String) (object : StoredObject) : ObjectStore :=
  fun k => if k = key then some object else objects k

/-- No error if missing. -/
def delete (objects : ObjectStore) (key : String) : ObjectStore :=
  fun k => if k = key then none else objects k

end ObjectStore

/-- The keyword arguments of `upload_document`. -/
structure Upload where
  filename : String
  content : Bytes
  mimeType : Option String
  idempotencyKey : String
  userId : UUID
  tenantId : UUID
  deriving DecidableEq, Repr

/-- An exception of the store's client. After a timeout or a repeated request the
operation may have been carried out all the same. -/
structure StorageFault where
  message : String
  clientError : Bool
  carriedOut : Bool
  deriving DecidableEq, Repr

/-- `ObjectStorage` wraps a ClientError, and lets everything else through. -/
def StorageFault.failure (fault : StorageFault) : Failure :=
  if fault.clientError then .app (.externalServiceError "MinIO" fault.message)
  else .storageClientError fault.message

namespace ObjectStore

/-- What `put_object` leaves in the store, with the exception that it raises. -/
def afterPut (objects : ObjectStore) (key : String) (object : StoredObject) (error : Option StorageFault) :
    ObjectStore :=
  if error.all StorageFault.carriedOut then objects.put key object else objects

def afterDelete (objects : ObjectStore) (key : String) (error : Option StorageFault) : ObjectStore :=
  if error.all StorageFault.carriedOut then objects.delete key else objects

@[simp] theorem afterPut_none (objects : ObjectStore) (key : String) (object : StoredObject) :
    objects.afterPut key object none = objects.put key object := rfl

@[simp] theorem afterDelete_none (objects : ObjectStore) (key : String) :
    objects.afterDelete key none = objects.delete key := rfl

/-- A deletion that raises may or may not have removed the object. -/
theorem afterDelete_cases (objects : ObjectStore) (key : String) (error : Option StorageFault) :
    objects.afterDelete key error = objects ∨ objects.afterDelete key error = objects.delete key := by
  rw [afterDelete]
  split
  · exact Or.inr rfl
  · exact Or.inl rfl

theorem afterPut_cases (objects : ObjectStore) (key : String) (object : StoredObject) (error : Option StorageFault) :
    objects.afterPut key object error = objects ∨ objects.afterPut key object error = objects.put key object := by
  rw [afterPut]
  split
  · exact Or.inr rfl
  · exact Or.inl rfl

theorem afterPut_of_ne {objects : ObjectStore} {key other : String} (object : StoredObject)
    (error : Option StorageFault) (ne : other ≠ key) : objects.afterPut key object error other = objects other := by
  rcases objects.afterPut_cases key object error with same | stored
  · rw [same]
  · rw [stored, put, if_neg ne]

theorem afterDelete_of_ne {objects : ObjectStore} {key other : String} (error : Option StorageFault)
    (ne : other ≠ key) : objects.afterDelete key error other = objects other := by
  rcases objects.afterDelete_cases key error with same | deleted
  · rw [same]
  · rw [deleted, delete, if_neg ne]

end ObjectStore

/-- What one call draws from outside: `uuid4`, the server-generated job id, the
clock, and the exceptions, if any, that the object store raises. -/
structure Outside where
  docId : UUID
  jobId : UUID
  now : Time
  uploadError : Option StorageFault
  deleteError : Option StorageFault
  deriving DecidableEq, Repr

/-- The digest function of `hashlib`. -/
abbrev Sha256 := Bytes → BitVec 256

def contentHash (sha256 : Sha256) (content : Bytes) : String := hexdigest (sha256 content)

/-- `f"{tenant_id}/{doc_id}/{filename}"`. -/
def storageKey (tenantId docId : UUID) (filename : String) : String :=
  str tenantId ++ "/" ++ str docId ++ "/" ++ filename

/-- Both ids are written with a fixed length, so a key belongs to one document. -/
theorem storageKey_ids {a b d e : UUID} {f g : String} (h : storageKey a d f = storageKey b e g) :
    a = b ∧ d = e := by
  have split : ∀ {u v : UUID} {x y : List Char},
      (str u).toList ++ ("/".toList ++ x) = (str v).toList ++ ("/".toList ++ y) →
        u = v ∧ x = y := by
    intro u v x y he
    have length : (str u).toList.length = (str v).toList.length := by
      rw [String.length_toList, String.length_toList, length_str, length_str]
    obtain ⟨same, rest⟩ := List.append_inj he length
    exact ⟨str_injective (String.toList_injective same), List.append_cancel_left rest⟩
  have chars := congrArg String.toList h
  simp only [storageKey, String.toList_append, List.append_assoc] at chars
  obtain ⟨tenants, rest⟩ := split chars
  exact ⟨tenants, (split rest).1⟩

/-- A key that its column cuts is still a key of the same document. -/
theorem varchar_storageKey (tenantId docId : UUID) (filename : String) :
    varchar 500 (storageKey tenantId docId filename) = storageKey tenantId docId (varchar 426 filename) := by
  let folder := str tenantId ++ "/" ++ str docId ++ "/"
  have chars (name : String) : (storageKey tenantId docId name).toList = folder.toList ++ name.toList :=
    String.toList_append
  have length : folder.toList.length = 74 := by
    simp only [folder, String.length_toList, String.length_append, length_str]
    rfl
  refine String.toList_injective ?_
  rw [varchar, String.toList_ofList, chars, chars, List.take_append, length,
    List.take_of_length_le (by omega), varchar, String.toList_ofList]

def newDocument (sha256 : Sha256) (u : Upload) (o : Outside) : Document where
  id := o.docId
  userId := u.userId
  tenantId := u.tenantId
  filename := u.filename
  contentHash := contentHash sha256 u.content
  sizeBytes := u.content.length
  mimeType := u.mimeType
  storageKey := some (storageKey u.tenantId o.docId u.filename)
  status := .pending
  chunkCount := 0
  errorMessage := none
  createdAt := o.now
  updatedAt := o.now
  deletedAt := none

def newJob (u : Upload) (o : Outside) : IngestionJob where
  id := o.jobId
  documentId := o.docId
  userId := u.userId
  tenantId := u.tenantId
  status := .queued
  idempotencyKey := u.idempotencyKey
  workerId := none
  attemptCount := 0
  maxAttempts := 3
  version := 1
  errorMessage := none
  claimedAt := none
  startedAt := none
  completedAt := none
  createdAt := o.now

/-! ## Inserts -/

def documentFits (d : Document) : Bool :=
  fitsVarchar 500 d.filename && fitsVarchar 64 d.contentHash &&
    d.mimeType.all (fitsVarchar 100) && d.storageKey.all (fitsVarchar 500)

/-- The constraint of `documents` that the row would violate. -/
def documentViolation (db : Database) (d : Document) : Option String :=
  if db.documents.any (fun x => x.id = d.id) then some "pk_documents"
  else if db.documents.any (fun x => x.tenantId = d.tenantId && x.contentHash = d.contentHash) then
    some "uq_documents_tenant_content"
  else if !db.users.any (fun x => x.id = d.userId) then some "fk_documents_user_id_users"
  else if !db.organizations.any (fun x => x.id = d.tenantId) then
    some "fk_documents_tenant_id_organizations"
  else none

def insertDocument (db : Database) (d : Document) : Except Failure Database :=
  if !documentFits d then .error (.dataError "documents")
  else match documentViolation db d with
    | some constraint => .error (.integrityError constraint)
    | none => .ok { db with documents := db.documents ++ [d.row] }

/-- The constraint of `ingestion_jobs` that the row would violate. -/
def jobViolation (db : Database) (j : IngestionJob) : Option String :=
  if db.ingestionJobs.any (fun x => x.id = j.id) then some "pk_ingestion_jobs"
  else if db.ingestionJobs.any
      (fun x => x.tenantId = j.tenantId && x.idempotencyKey = j.idempotencyKey) then
    some "uq_jobs_tenant_idempotency"
  else if !db.documents.any (fun x => x.id = j.documentId) then
    some "fk_ingestion_jobs_document_id_documents"
  else if !db.users.any (fun x => x.id = j.userId) then some "fk_ingestion_jobs_user_id_users"
  else if !db.organizations.any (fun x => x.id = j.tenantId) then
    some "fk_ingestion_jobs_tenant_id_organizations"
  else none

def insertJob (db : Database) (j : IngestionJob) : Except Failure Database :=
  if !fitsVarchar 255 j.idempotencyKey then .error (.dataError "ingestion_jobs")
  else match jobViolation db j.row with
    | some constraint => .error (.integrityError constraint)
    | none => .ok { db with ingestionJobs := db.ingestionJobs ++ [j.row] }

/-- The savepoint: both rows are inserted or none is. -/
def insertUpload (db : Database) (d : Document) (j : IngestionJob) : Except Failure Database :=
  (insertDocument db d).bind fun db' => insertJob db' j

theorem documentFits_newDocument {sha256 : Sha256} {u : Upload} {o : Outside} :
    documentFits (newDocument sha256 u o) = true ↔
      fitsVarchar 500 u.filename = true ∧
        fitsVarchar 500 (storageKey u.tenantId o.docId u.filename) = true ∧
        u.mimeType.all (fitsVarchar 100) = true := by
  have hash : fitsVarchar 64 (contentHash sha256 u.content) = true := by
    refine fitsVarchar_of_length_le ?_ ?_
    · simp [sendable, contentHash, hexdigest_no_nul]
    · simp [contentHash, length_hexdigest]
  simp only [documentFits, newDocument, hash, Option.all_some, Bool.and_eq_true, and_true]
  constructor
  · rintro ⟨⟨name, mime⟩, key⟩
    exact ⟨name, key, mime⟩
  · rintro ⟨name, key, mime⟩
    exact ⟨⟨name, mime⟩, key⟩

/-- The constraints under which both rows of an upload go in. -/
structure Insertable (db : Database) (d : Document) (j : IngestionJob) : Prop where
  docFits : documentFits d = true
  keyFits : fitsVarchar 255 j.idempotencyKey = true
  docFresh : ∀ x ∈ db.documents, x.id ≠ d.id
  contentNew : ∀ x ∈ db.documents, x.tenantId = d.tenantId → x.contentHash ≠ d.contentHash
  jobFresh : ∀ x ∈ db.ingestionJobs, x.id ≠ j.id
  keyNew : ∀ x ∈ db.ingestionJobs, x.tenantId = j.tenantId → x.idempotencyKey ≠ j.row.idempotencyKey
  user : ∃ x ∈ db.users, x.id = d.userId
  organization : ∃ x ∈ db.organizations, x.id = d.tenantId

theorem insertDocument_ok_iff {db db' : Database} {d : Document} :
    insertDocument db d = .ok db' ↔ documentFits d = true ∧ documentViolation db d = none ∧
      db' = { db with documents := db.documents ++ [d.row] } := by
  rw [insertDocument]
  cases documentFits d with
  | false => simp
  | true =>
    cases documentViolation db d with
    | some constraint => simp
    | none => simp [eq_comm]

theorem insertJob_ok_iff {db db' : Database} {j : IngestionJob} :
    insertJob db j = .ok db' ↔ fitsVarchar 255 j.idempotencyKey = true ∧ jobViolation db j.row = none ∧
      db' = { db with ingestionJobs := db.ingestionJobs ++ [j.row] } := by
  rw [insertJob]
  cases fitsVarchar 255 j.idempotencyKey with
  | false => simp
  | true =>
    cases jobViolation db j.row with
    | some constraint => simp
    | none => simp [eq_comm]

theorem documentViolation_eq_none_iff {db : Database} {d : Document} :
    documentViolation db d = none ↔ (∀ x ∈ db.documents, x.id ≠ d.id) ∧
      (∀ x ∈ db.documents, x.tenantId = d.tenantId → x.contentHash ≠ d.contentHash) ∧
      (∃ x ∈ db.users, x.id = d.userId) ∧ ∃ x ∈ db.organizations, x.id = d.tenantId := by
  rw [documentViolation]
  split_ifs with h₁ h₂ h₃ h₄ <;> simp_all

theorem jobViolation_eq_none_iff {db : Database} {j : IngestionJob} :
    jobViolation db j = none ↔ (∀ x ∈ db.ingestionJobs, x.id ≠ j.id) ∧
      (∀ x ∈ db.ingestionJobs, x.tenantId = j.tenantId → x.idempotencyKey ≠ j.idempotencyKey) ∧
      (∃ x ∈ db.documents, x.id = j.documentId) ∧ (∃ x ∈ db.users, x.id = j.userId) ∧
      ∃ x ∈ db.organizations, x.id = j.tenantId := by
  rw [jobViolation]
  split_ifs with h₁ h₂ h₃ h₄ h₅ <;> simp_all

theorem insertUpload_ok_iff {db db' : Database} {d : Document} {j : IngestionJob}
    (doc : j.documentId = d.id) (user : j.userId = d.userId) (tenant : j.tenantId = d.tenantId) :
    insertUpload db d j = .ok db' ↔ Insertable db d j ∧
      db' = { db with
        documents := db.documents ++ [d.row]
        ingestionJobs := db.ingestionJobs ++ [j.row] } := by
  constructor
  · intro h
    simp only [insertUpload] at h
    cases hd : insertDocument db d with
    | error e => simp [hd, Except.bind] at h
    | ok m =>
      rw [hd] at h
      obtain ⟨fits, free, rfl⟩ := insertDocument_ok_iff.mp hd
      obtain ⟨keyFits, jobFree, rfl⟩ := insertJob_ok_iff.mp h
      obtain ⟨docFresh, contentNew, userOk, orgOk⟩ := documentViolation_eq_none_iff.mp free
      obtain ⟨jobFresh, keyNew, _⟩ := jobViolation_eq_none_iff.mp jobFree
      exact ⟨⟨fits, keyFits, docFresh, contentNew, jobFresh, keyNew, userOk, orgOk⟩, rfl⟩
  · rintro ⟨ok, rfl⟩
    have hd : insertDocument db d = .ok { db with documents := db.documents ++ [d.row] } :=
      insertDocument_ok_iff.mpr ⟨ok.docFits, documentViolation_eq_none_iff.mpr
        ⟨ok.docFresh, ok.contentNew, ok.user, ok.organization⟩, rfl⟩
    rw [insertUpload, hd]
    refine insertJob_ok_iff.mpr ⟨ok.keyFits, jobViolation_eq_none_iff.mpr
      ⟨ok.jobFresh, ok.keyNew, ⟨d.row, by simp, doc.symm⟩, ?_, ?_⟩, rfl⟩
    · exact user ▸ ok.user
    · exact tenant ▸ ok.organization

/-! ## Upload -/

/-- The idempotency lookup. -/
def findByKey (db : Database) (idempotencyKey : String) (tenantId : UUID) :
    Except Failure (Option (Document × IngestionJob)) :=
  if !sendable idempotencyKey then .error (.dataError "idempotency_key")
  else (scalarOneOrNone (db.ingestionJobs.filter fun j =>
    j.tenantId = tenantId && j.idempotencyKey = idempotencyKey)).map fun job =>
      job.bind fun j => (db.documents.find? fun d => d.id = j.documentId).map fun d => (d, j)

/-- The content lookup, with the latest job of the document it finds. -/
def findByContent (db : Database) (contentHash : String) (tenantId : UUID) :
    Except Failure (Option (Document × IngestionJob)) :=
  (scalarOneOrNone (db.documents.filter fun d =>
    d.tenantId = tenantId && d.contentHash = contentHash && d.deletedAt.isNone)).map fun doc =>
      doc.bind fun d => (orderByDesc IngestionJob.createdAt (db.ingestionJobs.filter fun j =>
        j.documentId = d.id && j.tenantId = tenantId)).head?.map fun j => (d, j)

theorem findByKey_spec {db : Database} {key : String} {tenantId : UUID} {d : Document}
    {j : IngestionJob} (h : findByKey db key tenantId = .ok (some (d, j))) :
    d ∈ db.documents ∧ j ∈ db.ingestionJobs ∧ j.documentId = d.id ∧ j.tenantId = tenantId ∧
      j.idempotencyKey = key := by
  simp only [findByKey] at h
  split at h
  · cases h
  · cases hr : scalarOneOrNone (db.ingestionJobs.filter fun j =>
        j.tenantId = tenantId && j.idempotencyKey = key) with
    | error e => simp [hr, Except.map] at h
    | ok row =>
      simp only [hr, Except.map, Except.ok.injEq, Option.bind_eq_some_iff, Option.map_eq_some_iff,
        Prod.mk.injEq] at h
      obtain ⟨j', rfl, d', hf, rfl, rfl⟩ := h
      have hj : j' ∈ db.ingestionJobs.filter fun j =>
          j.tenantId = tenantId && j.idempotencyKey = key := by
        simp [scalarOneOrNone_of_eq_some hr]
      simp only [List.mem_filter, Bool.and_eq_true, decide_eq_true_eq] at hj
      have hd : d'.id = j'.documentId := by simpa using List.find?_some hf
      exact ⟨List.mem_of_find?_eq_some hf, hj.1, hd.symm, hj.2⟩

theorem findByContent_spec {db : Database} {hash : String} {tenantId : UUID} {d : Document}
    {j : IngestionJob} (h : findByContent db hash tenantId = .ok (some (d, j))) :
    d ∈ db.documents ∧ d.tenantId = tenantId ∧ d.contentHash = hash ∧ d.deletedAt = none ∧
      j ∈ db.ingestionJobs ∧ j.documentId = d.id ∧ j.tenantId = tenantId := by
  simp only [findByContent] at h
  cases hr : scalarOneOrNone (db.documents.filter fun d =>
      d.tenantId = tenantId && d.contentHash = hash && d.deletedAt.isNone) with
  | error e => simp [hr, Except.map] at h
  | ok row =>
    simp only [hr, Except.map, Except.ok.injEq, Option.bind_eq_some_iff, Option.map_eq_some_iff,
      Prod.mk.injEq] at h
    obtain ⟨d', rfl, j', hh, rfl, rfl⟩ := h
    have hd : d' ∈ db.documents.filter fun d =>
        d.tenantId = tenantId && d.contentHash = hash && d.deletedAt.isNone := by
      simp [scalarOneOrNone_of_eq_some hr]
    have hj := mem_orderByDesc.mp (List.mem_of_head? hh)
    simp only [List.mem_filter, Bool.and_eq_true, decide_eq_true_eq,
      Option.isNone_iff_eq_none] at hd hj
    exact ⟨hd.1, hd.2.1.1, hd.2.1.2, hd.2.2, hj⟩

theorem findByKey_eq_none {db : Database} {key : String} {tenantId : UUID}
    (text : sendable key = true)
    (unknown : ∀ j ∈ db.ingestionJobs, j.tenantId = tenantId → j.idempotencyKey ≠ key) :
    findByKey db key tenantId = .ok none := by
  have none : (db.ingestionJobs.filter fun j =>
      j.tenantId = tenantId && j.idempotencyKey = key) = [] := by
    rw [List.filter_eq_nil_iff]
    intro j hj
    simpa using unknown j hj
  simp [findByKey, text, none, scalarOneOrNone, Except.map]

theorem findByContent_eq_none {db : Database} {hash : String} {tenantId : UUID}
    (unknown : ∀ d ∈ db.documents, d.tenantId = tenantId → d.contentHash = hash →
      d.deletedAt ≠ none) :
    findByContent db hash tenantId = .ok none := by
  have none : (db.documents.filter fun d =>
      d.tenantId = tenantId && d.contentHash = hash && d.deletedAt.isNone) = [] := by
    rw [List.filter_eq_nil_iff]
    intro d hd
    simp only [Bool.and_eq_true, decide_eq_true_eq, Option.isNone_iff_eq_none]
    rintro ⟨⟨tenant, same⟩, live⟩
    exact unknown d hd tenant same live
  simp [findByContent, none, scalarOneOrNone, Except.map]

/-- A stored key is found, with the document of its job. -/
theorem findByKey_of_mem {db : Database} {d : Document} {j : IngestionJob}
    (text : sendable j.idempotencyKey = true)
    (keys : (db.ingestionJobs.map fun j => (j.tenantId, j.idempotencyKey)).Nodup)
    (ids : (db.documents.map Document.id).Nodup) (hj : j ∈ db.ingestionJobs)
    (hd : d ∈ db.documents) (link : j.documentId = d.id) :
    findByKey db j.idempotencyKey j.tenantId = .ok (some (d, j)) := by
  have jobs : (db.ingestionJobs.filter fun k =>
      k.tenantId = j.tenantId && k.idempotencyKey = j.idempotencyKey) = [j] := by
    refine filter_eq_singleton (List.Nodup.of_map _ keys) hj fun k hk => ?_
    simp only [Bool.and_eq_true, decide_eq_true_eq]
    constructor
    · rintro ⟨tenant, key⟩
      exact eq_of_key keys hk hj (by simp only [tenant, key])
    · rintro rfl
      exact ⟨rfl, rfl⟩
  have docs : db.documents.find? (fun x => x.id = j.documentId) = some d := by
    rw [← List.head?_filter, filter_eq_singleton (List.Nodup.of_map _ ids) hd]
    · rfl
    · intro x hx
      simp only [decide_eq_true_eq, link]
      exact ⟨fun he => eq_of_key ids hx hd he, fun he => by rw [he]⟩
  simp [findByKey, text, jobs, scalarOneOrNone, docs, Except.map]

/-- Live content is found, with some job of its document. -/
theorem findByContent_of_mem {db : Database} {d : Document}
    (contents : (db.documents.map fun d => (d.tenantId, d.contentHash)).Nodup)
    (hd : d ∈ db.documents) (live : d.deletedAt = none)
    (job : ∃ j ∈ db.ingestionJobs, j.documentId = d.id ∧ j.tenantId = d.tenantId) :
    ∃ j, findByContent db d.contentHash d.tenantId = .ok (some (d, j)) := by
  have docs : (db.documents.filter fun x =>
      x.tenantId = d.tenantId && x.contentHash = d.contentHash && x.deletedAt.isNone) = [d] := by
    refine filter_eq_singleton (List.Nodup.of_map _ contents) hd fun x hx => ?_
    simp only [Bool.and_eq_true, decide_eq_true_eq, Option.isNone_iff_eq_none]
    constructor
    · rintro ⟨⟨tenant, hash⟩, _⟩
      exact eq_of_key contents hx hd (by simp only [tenant, hash])
    · rintro rfl
      exact ⟨⟨rfl, rfl⟩, live⟩
  obtain ⟨j, hj, link, tenant⟩ := job
  have found : j ∈ orderByDesc IngestionJob.createdAt (db.ingestionJobs.filter fun j =>
      j.documentId = d.id && j.tenantId = d.tenantId) := by
    simp [mem_orderByDesc, hj, link, tenant]
  obtain ⟨k, hk⟩ := Option.isSome_iff_exists.mp (List.isSome_head?.mpr (List.ne_nil_of_mem found))
  exact ⟨k, by simp [findByContent, docs, scalarOneOrNone, Except.map, hk]⟩

/-- Both lookups in turn. -/
def findExistingUpload (db : Database) (contentHash idempotencyKey : String) (tenantId : UUID) :
    Except Failure (Option (Document × IngestionJob)) :=
  match findByKey db idempotencyKey tenantId with
  | .error e => .error e
  | .ok (some hit) => .ok (some hit)
  | .ok none => findByContent db contentHash tenantId

/-- `mime_type or "application/octet-stream"`. -/
def contentTypeOf (mimeType : Option String) : String :=
  match mimeType with
  | none => "application/octet-stream"
  | some m => if m = "" then "application/octet-stream" else m

def uploadConflict : Failure :=
  .app (.conflictError "Upload conflicted with another request. Retry the upload.")

/-- `upload_document`. Its two lookups are the statements of
`_find_existing_upload`, which runs them again after a failed insert. -/
def uploadDocument (sha256 : Sha256) (u : Upload) (o : Outside) (db : Database)
    (objects : ObjectStore) : Except Failure (Document × IngestionJob) × Database × ObjectStore :=
  let hash := contentHash sha256 u.content
  match findExistingUpload db hash u.idempotencyKey u.tenantId with
  | .error e => (.error e, db, objects)
  | .ok (some hit) => (.ok hit, db, objects)
  | .ok none =>
    let key := storageKey u.tenantId o.docId u.filename
    let stored := objects.afterPut key ⟨u.content, contentTypeOf u.mimeType⟩ o.uploadError
    match o.uploadError with
    | some fault => (.error fault.failure, db, stored)
    | none =>
      match insertUpload db (newDocument sha256 u o) (newJob u o) with
      | .ok db' => (.ok (newDocument sha256 u o, newJob u o), db', stored)
      | .error (.integrityError _) =>
        -- a failed cleanup is only logged
        let cleaned := stored.afterDelete key o.deleteError
        match findExistingUpload db hash u.idempotencyKey u.tenantId with
        | .error e => (.error e, db, cleaned)
        | .ok (some hit) => (.ok hit, db, cleaned)
        | .ok none => (.error uploadConflict, db, cleaned)
      | .error e => (.error e, db, stored)

/-- An upload writes no object but its own. -/
theorem uploadDocument_elsewhere (sha256 : Sha256) (u : Upload) (o : Outside) (db : Database) (objects : ObjectStore)
    {key : String} (other : key ≠ storageKey u.tenantId o.docId u.filename) :
    (uploadDocument sha256 u o db objects).2.2 key = objects key := by
  have put := objects.afterPut_of_ne ⟨u.content, contentTypeOf u.mimeType⟩ o.uploadError other
  simp only [uploadDocument]
  cases findExistingUpload db (contentHash sha256 u.content) u.idempotencyKey u.tenantId with
  | error e => rfl
  | ok hit =>
    cases hit with
    | some hit => rfl
    | none =>
      cases failed : o.uploadError with
      | some fault =>
        rw [failed] at put
        exact put
      | none =>
        rw [failed] at put
        cases insertUpload db (newDocument sha256 u o) (newJob u o) with
        | ok db' => exact put
        | error e =>
          cases e with
          | integrityError constraint =>
            have cleaned := (objects.put (storageKey u.tenantId o.docId u.filename)
              ⟨u.content, contentTypeOf u.mimeType⟩).afterDelete_of_ne o.deleteError other
            cases findExistingUpload db (contentHash sha256 u.content) u.idempotencyKey u.tenantId with
            | error e => exact cleaned.trans put
            | ok hit => cases hit <;> exact cleaned.trans put
          | _ => exact put

/-- The database after an upload: unchanged, or grown by the call's own rows,
which are then what the call returns. -/
theorem uploadDocument_db (sha256 : Sha256) (u : Upload) (o : Outside) (db : Database)
    (objects : ObjectStore) :
    (uploadDocument sha256 u o db objects).2.1 = db ∨
      (uploadDocument sha256 u o db objects).1 = .ok (newDocument sha256 u o, newJob u o) ∧
      insertUpload db (newDocument sha256 u o) (newJob u o) =
        .ok (uploadDocument sha256 u o db objects).2.1 := by
  rw [uploadDocument]
  cases hf : findExistingUpload db (contentHash sha256 u.content) u.idempotencyKey u.tenantId with
  | error e => exact Or.inl rfl
  | ok hit =>
    cases hit with
    | some hit => exact Or.inl rfl
    | none =>
      cases hu : o.uploadError with
      | some fault => exact Or.inl rfl
      | none =>
        cases hi : insertUpload db (newDocument sha256 u o) (newJob u o) with
        | ok db' => exact Or.inr ⟨rfl, rfl⟩
        | error e => cases e <;> exact Or.inl rfl

/-! ## Listings -/

/-- `decode_cursor`, the lookup of the endpoint's sort key and the binding of the
value as a query parameter, taken together; and `encode_cursor` of a sort key. -/
structure CursorCodec where
  createdAt : String → Except Failure Time
  chunkIndex : String → Except Failure Int
  encodeCreatedAt : Time → String
  encodeChunkIndex : Nat → String

/-- `if cursor:` with the bound it carries. -/
def cursorBound {β : Type} (decode : String → Except Failure β) (cursor : Option String) :
    Except Failure (Option β) :=
  match cursor with
  | none => .ok none
  | some c => if c = "" then .ok none else (decode c).map some

def listDocuments (codec : CursorCodec) (tenantId : UUID) (cursor : Option String) (limit : Int)
    (db : Database) : Except Failure (List Document × Option String) := do
  let bound ← cursorBound codec.createdAt cursor
  let docs ← sqlLimit (limit + 1) (orderByDesc Document.createdAt (db.documents.filter fun d =>
    d.tenantId = tenantId && d.deletedAt.isNone && bound.all fun b => d.createdAt < b))
  page limit (fun last => codec.encodeCreatedAt last.createdAt) docs

def getDocument (documentId tenantId : UUID) (db : Database) : Except Failure Document := do
  let doc ← scalarOneOrNone (db.documents.filter fun d =>
    d.id = documentId && d.tenantId = tenantId && d.deletedAt.isNone)
  match doc with
  | none => .error (.app (.notFoundError "Document" (str documentId)))
  | some d => .ok d

theorem getDocument_spec {db : Database} {documentId tenantId : UUID} {d : Document}
    (h : getDocument documentId tenantId db = .ok d) :
    d ∈ db.documents ∧ d.id = documentId ∧ d.tenantId = tenantId ∧ d.deletedAt = none := by
  simp only [getDocument] at h
  cases hr : scalarOneOrNone (db.documents.filter fun d =>
      d.id = documentId && d.tenantId = tenantId && d.deletedAt.isNone) with
  | error e => simp [hr, bind, Except.bind] at h
  | ok row =>
    cases row with
    | none => simp [hr, bind, Except.bind] at h
    | some x =>
      simp only [hr, bind, Except.bind, Except.ok.injEq] at h
      subst h
      have hd : x ∈ db.documents.filter fun d =>
          d.id = documentId && d.tenantId = tenantId && d.deletedAt.isNone := by
        simp [scalarOneOrNone_of_eq_some hr]
      simp only [List.mem_filter, Bool.and_eq_true, decide_eq_true_eq,
        Option.isNone_iff_eq_none] at hd
      exact ⟨hd.1, hd.2.1.1, hd.2.1.2, hd.2.2⟩

def deletedAs (documentId : UUID) (now : Time) (d : Document) : Document :=
  if d.id = documentId then
    { d with deletedAt := some now, status := .failed, updatedAt := now }
  else d

def softDeleteDocument (documentId tenantId : UUID) (now : Time) (deleteError : Option StorageFault)
    (db : Database) (objects : ObjectStore) : Except Failure Unit × Database × ObjectStore :=
  match getDocument documentId tenantId db with
  | .error e => (.error e, db, objects)
  | .ok doc =>
    let objects' := match doc.storageKey with
      | none => objects
      | some key => if key = "" then objects else objects.afterDelete key deleteError
    (.ok (), { db with documents := db.documents.map (deletedAs documentId now) }, objects')

theorem deletedAs_id (documentId : UUID) (now : Time) (d : Document) :
    (deletedAs documentId now d).id = d.id := by
  rw [deletedAs]
  split <;> rfl

theorem deletedAs_of_ne {documentId : UUID} {d : Document} (now : Time) (h : d.id ≠ documentId) :
    deletedAs documentId now d = d := if_neg h

/-- The database after a soft delete: unchanged, or with the visible document marked. -/
theorem softDeleteDocument_db (documentId tenantId : UUID) (now : Time)
    (deleteError : Option StorageFault) (db : Database) (objects : ObjectStore) :
    (softDeleteDocument documentId tenantId now deleteError db objects).2.1 = db ∨
      (∃ doc, getDocument documentId tenantId db = .ok doc) ∧
      (softDeleteDocument documentId tenantId now deleteError db objects).2.1 =
        { db with documents := db.documents.map (deletedAs documentId now) } := by
  rw [softDeleteDocument]
  cases hg : getDocument documentId tenantId db with
  | error e => exact Or.inl rfl
  | ok doc => exact Or.inr ⟨⟨doc, rfl⟩, rfl⟩

def listChunks (codec : CursorCodec) (documentId tenantId : UUID) (cursor : Option String)
    (limit : Int) (db : Database) : Except Failure (List Chunk × Option String) := do
  let bound ← cursorBound codec.chunkIndex cursor
  let chunks ← sqlLimit (limit + 1) (orderByAsc Chunk.chunkIndex (db.chunks.filter fun c =>
    c.documentId = documentId && c.tenantId = tenantId && bound.all fun b => b < (c.chunkIndex : Int)))
  page limit (fun last => codec.encodeChunkIndex last.chunkIndex) chunks

end DocumentService
