import ResearchPlatform.WorkerRuns

/-!
# Uploading deleted content again

The content lookup skips soft-deleted documents, and the unique constraint on
`(tenant_id, content_hash)` does not. The two notions agree, and an upload that
finds neither its key nor its content goes in, exactly when the tenant has no
soft-deleted document of that content, the rows fit their columns, and no job has
the key as its column keeps it.
-/

namespace Reuploads

open Uuid Schema DocumentService WorkerMachine Machines

/-- The call is made with storage available, by a user and for a tenant that
exist, and with ids that no row has. -/
structure Ready (db : Database) (u : Upload) (o : Outside) : Prop where
  storage : o.uploadError = none
  user : ∃ x ∈ db.users, x.id = u.userId
  organization : ∃ x ∈ db.organizations, x.id = u.tenantId
  docFresh : ∀ d ∈ db.documents, d.id ≠ o.docId
  jobFresh : ∀ j ∈ db.ingestionJobs, j.id ≠ o.jobId

/-- The tenant has no live document with the content hash and no job with the key. -/
structure Unknown (db : Database) (hash : String) (u : Upload) : Prop where
  content : ∀ d ∈ db.documents, d.tenantId = u.tenantId → d.contentHash = hash → d.deletedAt ≠ none
  key : ∀ j ∈ db.ingestionJobs, j.tenantId = u.tenantId → j.idempotencyKey ≠ u.idempotencyKey

/-- The call returns a live document of its content with a queued job of its key. -/
def Uploads (sha256 : Sha256) (u : Upload) (o : Outside) (db : Database) (objects : ObjectStore) :
    Prop :=
  ∃ d j, (uploadDocument sha256 u o db objects).1 = .ok (d, j) ∧
    d.row ∈ (uploadDocument sha256 u o db objects).2.1.documents ∧
    j.row ∈ (uploadDocument sha256 u o db objects).2.1.ingestionJobs ∧
    d.tenantId = u.tenantId ∧ d.contentHash = contentHash sha256 u.content ∧ d.deletedAt = none ∧
    j.documentId = d.id ∧ j.idempotencyKey = u.idempotencyKey ∧ j.status = .queued

/-- The text columns of the two rows take the call's values, and no job of the tenant has what the
column keeps of the key. -/
def Fits (db : Database) (u : Upload) (o : Outside) : Prop :=
  (∀ j ∈ db.ingestionJobs, j.tenantId = u.tenantId → j.idempotencyKey ≠ varchar 255 u.idempotencyKey) ∧
    fitsVarchar 255 u.idempotencyKey = true ∧ fitsVarchar 500 u.filename = true ∧
    fitsVarchar 500 (storageKey u.tenantId o.docId u.filename) = true ∧
    u.mimeType.all (fitsVarchar 100) = true

variable {sha256 : Sha256} {u : Upload} {o : Outside} {db : Database} {objects : ObjectStore}

theorem findExistingUpload_of_unknown (known : sendable u.idempotencyKey = true)
    (unknown : Unknown db (contentHash sha256 u.content) u) :
    findExistingUpload db (contentHash sha256 u.content) u.idempotencyKey u.tenantId = .ok none := by
  rw [findExistingUpload, findByKey_eq_none known unknown.key]
  exact findByContent_eq_none unknown.content

/-- What the call comes to when neither lookup finds anything. -/
theorem uploadDocument_of_unknown (objects : ObjectStore) (ready : Ready db u o)
    (known : sendable u.idempotencyKey = true)
    (unknown : Unknown db (contentHash sha256 u.content) u) :
    (∃ db', insertUpload db (newDocument sha256 u o) (newJob u o) = .ok db' ∧
        (uploadDocument sha256 u o db objects).1 = .ok (newDocument sha256 u o, newJob u o) ∧
        (uploadDocument sha256 u o db objects).2.1 = db') ∨
      (∃ e, insertUpload db (newDocument sha256 u o) (newJob u o) = .error e) ∧
        ∃ e, (uploadDocument sha256 u o db objects).1 = .error e := by
  simp only [uploadDocument, findExistingUpload_of_unknown known unknown, ready.storage]
  cases hi : insertUpload db (newDocument sha256 u o) (newJob u o) with
  | ok db' => exact Or.inl ⟨db', rfl, rfl, rfl⟩
  | error e => exact Or.inr ⟨⟨e, rfl⟩, by cases e <;> exact ⟨_, rfl⟩⟩

/-- Content that only a soft-deleted document has runs into the unique constraint. -/
theorem uploadDocument_conflicts (objects : ObjectStore) (ready : Ready db u o)
    (known : sendable u.idempotencyKey = true)
    (unknown : Unknown db (contentHash sha256 u.content) u)
    (fits : documentFits (newDocument sha256 u o) = true)
    (deleted : ∃ d ∈ db.documents, d.tenantId = u.tenantId ∧
      d.contentHash = contentHash sha256 u.content) :
    (uploadDocument sha256 u o db objects).1 = .error uploadConflict := by
  obtain ⟨d, hd, tenant, same⟩ := deleted
  have fresh : db.documents.any (fun x => x.id = (newDocument sha256 u o).id) = false :=
    List.any_eq_false.mpr fun x hx taken => ready.docFresh x hx (of_decide_eq_true taken)
  have taken : db.documents.any (fun x => x.tenantId = (newDocument sha256 u o).tenantId &&
      x.contentHash = (newDocument sha256 u o).contentHash) = true := by
    refine List.any_eq_true.mpr ⟨d, hd, ?_⟩
    rw [Bool.and_eq_true]
    exact ⟨decide_eq_true tenant, decide_eq_true same⟩
  have violation : documentViolation db (newDocument sha256 u o) =
      some "uq_documents_tenant_content" := by
    rw [documentViolation, fresh, taken]
    rfl
  have refused : insertUpload db (newDocument sha256 u o) (newJob u o) =
      .error (.integrityError "uq_documents_tenant_content") := by
    rw [insertUpload, insertDocument, fits, violation]
    rfl
  simp only [uploadDocument, findExistingUpload_of_unknown known unknown, ready.storage, refused]

/-- An upload that the tenant does not know goes in exactly when no soft-deleted
document has its content and its texts fit. -/
theorem uploads_again_iff (ready : Ready db u o)
    (unknown : Unknown db (contentHash sha256 u.content) u) :
    Uploads sha256 u o db objects ↔
      (∀ d ∈ db.documents, d.tenantId = u.tenantId →
        d.contentHash = contentHash sha256 u.content → d.deletedAt = none) ∧ Fits db u o := by
  constructor
  · rintro ⟨d, j, returned, _⟩
    by_cases known : sendable u.idempotencyKey = true
    · rcases uploadDocument_of_unknown objects ready known unknown with
        ⟨db', hi, _⟩ | ⟨_, e, failed⟩
      · obtain ⟨fits, _⟩ := (insertUpload_ok_iff rfl rfl rfl).mp hi
        refine ⟨fun x hx tenant same => absurd same (fits.contentNew x hx tenant), fits.keyNew,
          fits.keyFits, ?_⟩
        exact documentFits_newDocument.mp fits.docFits
      · rw [failed] at returned
        cases returned
    · have refused : findExistingUpload db (contentHash sha256 u.content) u.idempotencyKey
          u.tenantId = .error (.dataError "idempotency_key") := by
        simp [findExistingUpload, findByKey, known]
      simp [uploadDocument, refused] at returned
  · rintro ⟨noDeleted, keyNew, keyFits, texts⟩
    have known : sendable u.idempotencyKey = true := by
      simp only [fitsVarchar, Bool.and_eq_true] at keyFits
      exact keyFits.1
    have fits : Insertable db (newDocument sha256 u o) (newJob u o) :=
      { docFits := documentFits_newDocument.mpr texts
        keyFits := keyFits
        docFresh := ready.docFresh
        contentNew := fun x hx tenant same =>
          unknown.content x hx tenant same (noDeleted x hx tenant same)
        jobFresh := ready.jobFresh
        keyNew := keyNew
        user := ready.user
        organization := ready.organization }
    have inserted : insertUpload db (newDocument sha256 u o) (newJob u o) = .ok _ :=
      (insertUpload_ok_iff rfl rfl rfl).mpr ⟨fits, rfl⟩
    rcases uploadDocument_of_unknown objects ready known unknown with
      ⟨db', hi, returned, stored⟩ | ⟨⟨e, hi⟩, _⟩
    · have same := Except.ok.inj (inserted.symm.trans hi)
      refine ⟨_, _, returned, ?_, ?_, rfl, rfl, rfl, rfl, rfl, rfl⟩
      · rw [stored, ← same]
        exact List.mem_append_right _ (List.mem_singleton.mpr rfl)
      · rw [stored, ← same]
        exact List.mem_append_right _ (List.mem_singleton.mpr rfl)
    · rw [inserted] at hi
      cases hi

/-- The demo document, uploaded and soft-deleted. -/
def deletedWorld : World 0 :=
  ((machine Demo.settings 0).run (World.start 0)
    (Demo.setup ++ [.softDelete Demo.documentId 2 100 none])).getD (World.start 0)

/-- The same content under a new key. -/
def again : Upload := { Demo.upload with idempotencyKey := "k2" }

def againOutside : Outside := ⟨6, 7, 200, none, none⟩

theorem deletedWorld_rows : (∃ x ∈ deletedWorld.db.users, x.id = again.userId) ∧
    (∃ x ∈ deletedWorld.db.organizations, x.id = again.tenantId) ∧
    (∀ d ∈ deletedWorld.db.documents, d.id ≠ againOutside.docId ∧ d.deletedAt ≠ none) ∧
    (∀ j ∈ deletedWorld.db.ingestionJobs, j.id ≠ againOutside.jobId ∧
      j.idempotencyKey ≠ again.idempotencyKey) ∧
    ∃ d ∈ deletedWorld.db.documents, d.tenantId = again.tenantId ∧
      d.contentHash = contentHash Demo.settings.sha256 again.content := by
  decide +kernel

theorem again_ready : Ready deletedWorld.db again againOutside := by
  obtain ⟨user, organization, documents, jobs, -⟩ := deletedWorld_rows
  exact ⟨rfl, user, organization, fun d hd => (documents d hd).1, fun j hj => (jobs j hj).1⟩

theorem again_unknown :
    Unknown deletedWorld.db (contentHash Demo.settings.sha256 again.content) again := by
  obtain ⟨-, -, documents, jobs, -⟩ := deletedWorld_rows
  exact ⟨fun d hd _ _ => (documents d hd).2, fun j hj _ => (jobs j hj).2⟩

theorem uploads_again_iff_demo :
    Uploads Demo.settings.sha256 again againOutside deletedWorld.db deletedWorld.objects ↔
      (∀ d ∈ deletedWorld.db.documents, d.tenantId = again.tenantId →
        d.contentHash = contentHash Demo.settings.sha256 again.content → d.deletedAt = none) ∧
      Fits deletedWorld.db again againOutside :=
  uploads_again_iff again_ready again_unknown

theorem deleted_content_conflicts :
    (machine Demo.settings 0).Reachable (World.start 0) deletedWorld ∧
      Ready deletedWorld.db again againOutside ∧
      Unknown deletedWorld.db (contentHash Demo.settings.sha256 again.content) again ∧
      (uploadDocument Demo.settings.sha256 again againOutside deletedWorld.db
        deletedWorld.objects).1 = .error uploadConflict ∧
      ¬ Uploads Demo.settings.sha256 again againOutside deletedWorld.db deletedWorld.objects := by
  obtain ⟨-, -, -, -, deleted⟩ := deletedWorld_rows
  have conflict : (uploadDocument Demo.settings.sha256 again againOutside deletedWorld.db
      deletedWorld.objects).1 = .error uploadConflict :=
    uploadDocument_conflicts deletedWorld.objects again_ready (by decide) again_unknown
      (documentFits_newDocument.mpr (by decide +kernel)) deleted
  refine ⟨Machine.reachable_getD _ (by decide +kernel), again_ready, again_unknown, conflict, ?_⟩
  rintro ⟨d, j, returned, _⟩
  rw [conflict] at returned
  cases returned

end Reuploads
