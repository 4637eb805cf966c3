import ResearchPlatform.DocumentService

/-!
# What a failed upload leaves in the object store

`upload_document` writes its object before the flush. It takes the object back where the
flush fails with an IntegrityError, and nowhere else: neither where the flush fails otherwise
nor where `put_object` raises after the store has taken the object.
-/

namespace FailedUploads

open Uuid Schema DocumentService

/-- The database's answer to the flush of both rows. -/
abbrev Flush := Database → Document → IngestionJob → Except Failure Database

/-- `upload_document` with any answer to its flush. -/
def uploadDocumentOn (flush : Flush) (sha256 : Sha256) (u : Upload) (o : Outside) (db : Database)
    (objects : ObjectStore) : Except Failure (Document × IngestionJob) × Database × ObjectStore :=
  let hash := contentHash sha256 u.content
  match findExistingUpload db hash u.idempotencyKey u.tenantId with
  | .error e => (.error e, db, objects)
  | .ok (some hit) => (.ok hit, db, objects)
  | .ok none =>
    let key := storageKey u.tenantId o.docId u.filename
    let stored := objects.afterPut key ⟨u.content, contentTypeOf u.mimeType⟩ o.uploadError
    match o.uploadError with
    | some fault => (.error fault.failure, db, stored)
    | none =>
      match flush db (newDocument sha256 u o) (newJob u o) with
      | .ok db' => (.ok (newDocument sha256 u o, newJob u o), db', stored)
      | .error (.integrityError _) =>
        let cleaned := stored.afterDelete key o.deleteError
        match findExistingUpload db hash u.idempotencyKey u.tenantId with
        | .error e => (.error e, db, cleaned)
        | .ok (some hit) => (.ok hit, db, cleaned)
        | .ok none => (.error uploadConflict, db, cleaned)
      | .error e => (.error e, db, stored)

/-- The flush of the code answers by the columns and the constraints of the tables. -/
theorem uploadDocumentOn_insertUpload : uploadDocumentOn insertUpload = uploadDocument := rfl

def isIntegrityError : Failure → Bool
  | .integrityError _ => true
  | _ => false

theorem delete_put {objects : ObjectStore} {key : String} (unused : objects key = none)
    (object : StoredObject) : (objects.put key object).delete key = objects := by
  funext k
  by_cases same : k = key
  · rw [ObjectStore.delete, if_pos same, same, unused]
  · rw [ObjectStore.delete, if_neg same, ObjectStore.put, if_neg same]

section Uploads
variable (flush : Flush) (sha256 : Sha256) (u : Upload) (o : Outside) (db : Database)
  (objects : ObjectStore)

/-- If the call raises, the store has the objects that it had before. -/
def KeepsObjects : Prop :=
  ∀ e, (uploadDocumentOn flush sha256 u o db objects).1 = .error e →
    (uploadDocumentOn flush sha256 u o db objects).2.2 = objects

/-- The store raises, and has taken the object. -/
def Overtaken : Prop := ∃ fault, o.uploadError = some fault ∧ fault.carriedOut = true

/-- The upload is new; and the store raises with the object in it, or the flush fails without an
IntegrityError. -/
structure Abandons : Prop where
  new : findExistingUpload db (contentHash sha256 u.content) u.idempotencyKey u.tenantId = .ok none
  left : Overtaken o ∨ o.uploadError = none ∧
    ∃ e, flush db (newDocument sha256 u o) (newJob u o) = .error e ∧ isIntegrityError e = false

variable {flush sha256 u o db objects}

theorem abandoned_run (objects : ObjectStore) (h : Abandons flush sha256 u o db) :
    ∃ e, uploadDocumentOn flush sha256 u o db objects = (.error e, db,
      objects.put (storageKey u.tenantId o.docId u.filename) ⟨u.content, contentTypeOf u.mimeType⟩) := by
  obtain ⟨new, ⟨fault, raised, carriedOut⟩ | ⟨stored, e, refused, other⟩⟩ := h
  · refine ⟨fault.failure, ?_⟩
    simp only [uploadDocumentOn, new, raised, ObjectStore.afterPut, Option.all_some, carriedOut, if_true]
  · refine ⟨e, ?_⟩
    simp only [uploadDocumentOn, new, stored, refused]
    cases e with
    | integrityError constraint => cases other
    | _ => rfl

theorem kept_otherwise (deletes : o.deleteError = none)
    (unused : objects (storageKey u.tenantId o.docId u.filename) = none)
    (h : ¬ Abandons flush sha256 u o db) : KeepsObjects flush sha256 u o db objects := by
  intro e raised
  rw [uploadDocumentOn] at raised ⊢
  cases hf : findExistingUpload db (contentHash sha256 u.content) u.idempotencyKey u.tenantId with
  | error e => rfl
  | ok hit =>
    cases hit with
    | some hit => rfl
    | none =>
      cases hu : o.uploadError with
      | some fault =>
        have kept : ¬ fault.carriedOut = true := fun carriedOut => h ⟨hf, Or.inl ⟨fault, hu, carriedOut⟩⟩
        exact if_neg kept
      | none =>
        simp only [hf, hu] at raised ⊢
        cases hn : flush db (newDocument sha256 u o) (newJob u o) with
        | ok db' =>
          rw [hn] at raised
          cases raised
        | error refusal =>
          cases refusal with
          | integrityError constraint =>
            -- the lookups found nothing, so they find nothing again
            simp only [deletes, ObjectStore.afterPut_none, ObjectStore.afterDelete_none]
            exact delete_put unused _
          | _ => exact absurd ⟨hf, Or.inr ⟨hu, _, hn, rfl⟩⟩ h

/-- The object stays behind exactly when the store raises with it, or the flush fails otherwise. -/
theorem keepsObjects_iff (deletes : o.deleteError = none)
    (unused : objects (storageKey u.tenantId o.docId u.filename) = none) :
    KeepsObjects flush sha256 u o db objects ↔ ¬ Abandons flush sha256 u o db := by
  refine ⟨fun keeps abandons => ?_, kept_otherwise deletes unused⟩
  obtain ⟨e, run⟩ := abandoned_run objects abandons
  have same := congrFun (keeps e (by rw [run])) (storageKey u.tenantId o.docId u.filename)
  simp [run, unused, ObjectStore.put] at same

/-! ## What the columns take -/

theorem sendable_storageKey (tenantId docId : UUID) (filename : String) :
    sendable (storageKey tenantId docId filename) = sendable filename := by
  simp [sendable, storageKey, str_no_nul]

theorem fitsVarchar_storageKey (tenantId docId : UUID) (filename : String) :
    fitsVarchar 500 (storageKey tenantId docId filename) = fitsVarchar 426 filename := by
  have ids : (str tenantId ++ "/" ++ str docId ++ "/").length = 74 := by
    simp only [String.length_append, length_str]
    rfl
  rw [fitsVarchar, fitsVarchar, sendable_storageKey, storageKey, String.toList_append, List.drop_append,
    String.length_toList, ids, List.drop_of_length_le (by rw [String.length_toList, ids]; omega)]
  rfl

theorem fitsVarchar_mono {m n : Nat} (le : m ≤ n) {s : String} (fits : fitsVarchar m s = true) :
    fitsVarchar n s = true := by
  rw [fitsVarchar, Bool.and_eq_true] at fits ⊢
  refine ⟨fits.1, List.all_eq_true.mpr fun c hc => List.all_eq_true.mp fits.2 c ?_⟩
  exact (List.drop_sublist_drop_left s.toList le).subset hc

/-- The file name fits with the two ids before it, and the MIME type fits. -/
def fitsColumns (u : Upload) : Bool := fitsVarchar 426 u.filename && u.mimeType.all (fitsVarchar 100)

theorem documentFits_eq : documentFits (newDocument sha256 u o) = fitsColumns u := by
  rw [Bool.eq_iff_iff, documentFits_newDocument, fitsVarchar_storageKey, fitsColumns, Bool.and_eq_true]
  exact ⟨fun h => ⟨h.2.1, h.2.2⟩, fun h => ⟨fitsVarchar_mono (by decide) h.1, h.1, h.2⟩⟩

/-- The rows are refused for another reason than their constraints. -/
theorem insertUpload_refused_iff :
    (∃ e, insertUpload db (newDocument sha256 u o) (newJob u o) = .error e ∧ isIntegrityError e = false) ↔
      fitsColumns u = false ∨ documentViolation db (newDocument sha256 u o) = none ∧
        fitsVarchar 255 u.idempotencyKey = false := by
  rw [insertUpload, insertDocument, documentFits_eq]
  cases fitsColumns u with
  | false => exact iff_of_true ⟨_, rfl, rfl⟩ (Or.inl rfl)
  | true =>
    cases documentViolation db (newDocument sha256 u o) with
    | some constraint => simp [Except.bind, isIntegrityError]
    | none =>
      show (∃ e, insertJob _ (newJob u o) = .error e ∧ _) ↔ _
      have key : (newJob u o).idempotencyKey = u.idempotencyKey := rfl
      rw [insertJob, key]
      cases fitsVarchar 255 u.idempotencyKey with
      | false => exact iff_of_true ⟨_, rfl, rfl⟩ (Or.inr ⟨rfl, rfl⟩)
      | true =>
        cases jobViolation { db with documents := db.documents ++ [(newDocument sha256 u o).row] } (newJob u o).row with
        | some constraint => simp [isIntegrityError]
        | none => simp

/-- The tables do not take the upload: but for blanks at the end, the file name is longer than 426 characters,
the MIME type than 100 or, where the document itself would go in, the key than 255. -/
def Oversized (sha256 : Sha256) (u : Upload) (o : Outside) (db : Database) : Prop :=
  fitsColumns u = false ∨ documentViolation db (newDocument sha256 u o) = none ∧
    fitsVarchar 255 u.idempotencyKey = false

/-- The upload is new; and the store raises with the object in it, or takes it and the tables do not. -/
structure Orphans (sha256 : Sha256) (u : Upload) (o : Outside) (db : Database) : Prop where
  new : findExistingUpload db (contentHash sha256 u.content) u.idempotencyKey u.tenantId = .ok none
  left : Overtaken o ∨ o.uploadError = none ∧ Oversized sha256 u o db

theorem abandons_insertUpload_iff :
    Abandons insertUpload sha256 u o db ↔ Orphans sha256 u o db :=
  ⟨fun h => ⟨h.new, h.left.imp_right fun left => ⟨left.1, insertUpload_refused_iff.mp left.2⟩⟩,
    fun h => ⟨h.new, h.left.imp_right fun left => ⟨left.1, insertUpload_refused_iff.mpr left.2⟩⟩⟩

end Uploads

/-- A failed upload leaves the object store as it was unless the store raises with the object in it, or the
flush fails without an IntegrityError; the flush of the code does so for values that their columns do not take. -/
theorem failed_upload_keeps_objects_iff (sha256 : Sha256) (u : Upload) (o : Outside) (db : Database)
    (objects : ObjectStore) (deletes : o.deleteError = none)
    (unused : objects (storageKey u.tenantId o.docId u.filename) = none) :
    (∀ flush, KeepsObjects flush sha256 u o db objects ↔ ¬ Abandons flush sha256 u o db) ∧
    ((∀ e, (uploadDocument sha256 u o db objects).1 = .error e →
      (uploadDocument sha256 u o db objects).2.2 = objects) ↔ ¬ Orphans sha256 u o db) := by
  refine ⟨fun flush => keepsObjects_iff deletes unused, ?_⟩
  rw [← uploadDocumentOn_insertUpload, ← abandons_insertUpload_iff]
  exact keepsObjects_iff deletes unused

namespace Demo

def sha256 : Sha256 := fun _ => 7

def upload (filename : String) : Upload := ⟨filename, [104, 105], some "text/plain", "k", 1, 2⟩

def outside : Outside := ⟨4, 5, 10, none, none⟩

def accounts : Database :=
  { Database.empty with users := [⟨1, "a@example.com", true⟩], organizations := [⟨2, "A", "a", 0⟩] }

end Demo

theorem failed_upload_keeps_objects_short :
    (∀ flush, KeepsObjects flush Demo.sha256 (Demo.upload "a.txt") Demo.outside Demo.accounts
        (fun _ => none) ↔ ¬ Abandons flush Demo.sha256 (Demo.upload "a.txt") Demo.outside Demo.accounts) ∧
    ((∀ e, (uploadDocument Demo.sha256 (Demo.upload "a.txt") Demo.outside Demo.accounts fun _ => none).1 =
        .error e →
      (uploadDocument Demo.sha256 (Demo.upload "a.txt") Demo.outside Demo.accounts fun _ => none).2.2 =
        fun _ => none) ↔ ¬ Orphans Demo.sha256 (Demo.upload "a.txt") Demo.outside Demo.accounts) :=
  failed_upload_keeps_objects_iff Demo.sha256 (Demo.upload "a.txt") Demo.outside Demo.accounts
    (fun _ => none) rfl rfl

/-- A file name of 427 characters fits its own column, and the storage key does not. -/
theorem long_name_leaves_object :
    ¬ ∀ e, (uploadDocument Demo.sha256 (Demo.upload (String.ofList (List.replicate 427 'a')))
        Demo.outside Demo.accounts fun _ => none).1 = .error e →
      (uploadDocument Demo.sha256 (Demo.upload (String.ofList (List.replicate 427 'a')))
        Demo.outside Demo.accounts fun _ => none).2.2 = fun _ => none := by
  rw [← uploadDocumentOn_insertUpload]
  refine mt (keepsObjects_iff rfl rfl).mp (not_not.mpr (abandons_insertUpload_iff.mpr ⟨?_, Or.inr ⟨rfl, ?_⟩⟩))
  · exact findByContent_eq_none fun d hd => by cases hd
  · have long : fitsVarchar 426 (String.ofList (List.replicate 427 'a')) = false := by
      rw [fitsVarchar, String.toList_ofList, List.drop_replicate]
      exact Bool.and_false _
    refine Or.inl ?_
    show (fitsVarchar 426 (String.ofList (List.replicate 427 'a')) && _) = false
    rw [long, Bool.false_and]

end FailedUploads
