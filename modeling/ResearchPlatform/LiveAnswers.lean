import ResearchPlatform.Ownership

/-!
# Whether an upload returns a live document

Uploads statement by statement beside soft deletes and workers. Three of the paths of
`upload_document` return a row that is not deleted; the idempotency lookup fetches the
document of its job by primary key, whatever has become of it.
-/

namespace LiveAnswers

open Uuid Schema RowVersions DocumentService WorkerInvariants WorkerRuns Machines Ownership

section Answers
variable {n m : Nat} (calls : Fin m → UploadRaces.Call)

/-- Every call that succeeded has returned a document of its tenant that is not deleted. -/
def AnswersLive (s : Deployment n m) : Prop :=
  ∀ i, ∀ a ∈ (s.uploads i).answer,
    a.1.deletedAt = none ∧ a.1.tenantId = (calls i).upload.tenantId

instance (s : Deployment n m) : Decidable (AnswersLive calls s) :=
  inferInstanceAs (Decidable (∀ i, ∀ a ∈ (s.uploads i).answer,
    a.1.deletedAt = none ∧ a.1.tenantId = (calls i).upload.tenantId))

/-- The step looks up a key whose job belongs to a deleted document. -/
def RetriesDeleted (s : Deployment n m) : Event n m → Prop
  | .upload (.byKey i) => ∃ j ∈ s.workers.db.ingestionJobs,
      j.tenantId = (calls i).upload.tenantId ∧ j.idempotencyKey = (calls i).upload.idempotencyKey ∧
      ∃ d ∈ s.workers.db.documents, d.id = j.documentId ∧ d.deletedAt ≠ none
  | _ => False

instance (s : Deployment n m) : (e : Event n m) → Decidable (RetriesDeleted calls s e)
  | .upload (.byKey i) => inferInstanceAs (Decidable (∃ j ∈ s.workers.db.ingestionJobs,
      j.tenantId = (calls i).upload.tenantId ∧ j.idempotencyKey = (calls i).upload.idempotencyKey ∧
      ∃ d ∈ s.workers.db.documents, d.id = j.documentId ∧ d.deletedAt ≠ none))
  | .upload (.byContent _) | .upload (.insert _) | .upload (.commit _) | .upload (.abort _)
  | .worker _ => isFalse id

end Answers

section Runs
variable {n m : Nat} {cfg : WorkerMachine.Settings} {calls : Fin m → UploadRaces.Call}
  {s t : Deployment n m} {i : Fin m} {p : UploadRaces.Phase}

/-! ## Keys -/

/-- A key of a tenant has one job, and it can be looked up. -/
structure Keyed (db : Database) : Prop where
  keys : (db.ingestionJobs.map fun j => (j.tenantId, j.idempotencyKey)).Nodup
  texts : ∀ j ∈ db.ingestionJobs, sendable j.idempotencyKey = true

theorem keyed_commit {w : WorkerMachine.World n} (h : Keyed w.db) (sound : Sound w) (v : Fin n) :
    Keyed ((w.phase v).session.commit w.db) := by
  have adv : ∀ j ∈ w.db.ingestionJobs, Advances j (current IngestionJob.id (w.phase v).session.jobs j) :=
    fun j hj => commit_job_advances sound.stored (sound.phases v) hj
  constructor
  · have same : (view IngestionJob.id (w.phase v).session.jobs w.db.ingestionJobs).map
        (fun j => (j.tenantId, j.idempotencyKey)) =
        w.db.ingestionJobs.map fun j => (j.tenantId, j.idempotencyKey) := by
      rw [view, List.map_map]
      exact List.map_congr_left fun j hj => Prod.ext (adv j hj).tenantId (adv j hj).idempotencyKey
    exact same ▸ h.keys
  · intro x hx
    obtain ⟨j, hj, rfl⟩ := mem_view_iff.mp hx
    rw [(adv j hj).idempotencyKey]
    exact h.texts j hj

theorem keyed_worker {w w' : WorkerMachine.World n} {e : WorkerMachine.Event n} (h : Keyed w.db)
    (sound : Sound w) (noUpload : ∀ u o, e ≠ .upload u o) (change : Change w e w') : Keyed w'.db := by
  cases change with
  | accounts _ _ _ _ => exact ⟨h.keys, h.texts⟩
  | beside _ _ _ => exact h
  | uploaded _ u o _ _ _ => exact absurd rfl (noUpload u o)
  | deleted _ _ _ _ _ _ => exact ⟨h.keys, h.texts⟩
  | own _ _ _ _ _ => exact h
  | commit v p c => exact keyed_commit h sound v

theorem keyed_upload (inv : Ownership.Inv cfg calls s) (h : Keyed s.workers.db)
    {e : UploadRaces.Event m} {u : UploadRaces.World m}
    (change : UploadRaces.Change cfg.sha256 calls s.uploadWorld e u) : Keyed u.db := by
  cases change with
  | foundKey k again d j hk hit key => exact h
  | foundContent k again d j hk hit tenant content => exact h
  | passed _ k p objects hk hp => exact h
  | inserted k objects hk free fits => exact h
  | committed k d j hk =>
    obtain ⟨_, _, fits⟩ := inv.pending k d j hk
    refine ⟨nodup_concat h.keys fun x hx same => ?_, List.forall_mem_append.mpr ⟨h.texts, ?_⟩⟩
    · simp only [Prod.mk.injEq] at same
      exact fits.keyNew x hx same.1 same.2
    · have fit := fits.keyFits
      simp only [fitsVarchar, Bool.and_eq_true] at fit
      exact List.forall_mem_singleton.mpr (sendable_varchar fit.1)

/-! ## Answers -/

/-- A statement of one upload leaves the answers of the others alone. -/
theorem answersLive_setPhase (h : AnswersLive calls s) {u : UploadRaces.World m}
    (same : u.phase = s.uploads) :
    AnswersLive calls (s.withUploads (u.setPhase i p)) ↔
      ∀ a ∈ p.answer, a.1.deletedAt = none ∧ a.1.tenantId = (calls i).upload.tenantId := by
  have own : (s.withUploads (u.setPhase i p)).uploads i = p := UploadRaces.setPhase_self
  constructor
  · intro live a ha
    exact live i a (by rwa [own])
  · intro live k a ha
    by_cases hk : k = i
    · subst hk
      rw [own] at ha
      exact live a ha
    · have other : (s.withUploads (u.setPhase i p)).uploads k = s.uploads k :=
        (UploadRaces.setPhase_of_ne hk).trans (congrFun same k)
      rw [other] at ha
      exact h k a ha

theorem answersLive_of_none (h : AnswersLive calls s) {u : UploadRaces.World m}
    (same : u.phase = s.uploads) (none_ : p.answer = none) :
    AnswersLive calls (s.withUploads (u.setPhase i p)) := by
  refine (answersLive_setPhase h same).mpr fun a ha => ?_
  rw [none_] at ha
  cases ha

/-- The idempotency lookup returns what it finds, deleted or not. -/
theorem answersLive_byKey (inv : Ownership.Inv cfg calls s) (keyed : Keyed s.workers.db)
    (h : AnswersLive calls s) (again : Bool) :
    AnswersLive calls (s.withUploads (s.uploadWorld.setPhase i
      (UploadRaces.keyLookup calls s.uploadWorld i again))) ↔
        ¬ RetriesDeleted calls s (.upload (.byKey i)) := by
  have stored := inv.workers.stored
  rw [answersLive_setPhase h rfl, UploadRaces.keyLookup]
  constructor
  · rintro live ⟨j, hj, tenant, key, d, hd, link, deleted⟩
    have hit := findByKey_of_mem (keyed.texts j hj) keyed.keys stored.docIds hj hd link.symm
    rw [tenant, key] at hit
    have answered : findByKey s.uploadWorld.db (calls i).upload.idempotencyKey
        (calls i).upload.tenantId = .ok (some (d, j)) := hit
    rw [answered] at live
    exact deleted (live (d, j) rfl).1
  · intro fine a ha
    split at ha
    · cases ha
    · rename_i hit found
      obtain ⟨hd, hj, link, tenant, key⟩ := findByKey_spec found
      cases ha
      refine ⟨?_, ?_⟩
      · by_contra deleted
        exact fine ⟨hit.2, hj, tenant, key, hit.1, hd, link.symm, deleted⟩
      · obtain ⟨d, hd', id, _, owner⟩ := stored.docOfJob hit.2 hj
        rw [← tenant, ← owner, eq_of_key stored.docIds hd hd' (link.symm.trans id.symm)]
    · cases ha

theorem answersLive_byContent (h : AnswersLive calls s) (again : Bool) :
    AnswersLive calls (s.withUploads (s.uploadWorld.setPhase i
      (UploadRaces.contentLookup cfg.sha256 calls s.uploadWorld i again))) := by
  rw [answersLive_setPhase h rfl, UploadRaces.contentLookup]
  intro a ha
  split at ha
  · cases ha
  · rename_i hit found
    obtain ⟨-, tenant, -, live, -⟩ := findByContent_spec found
    cases ha
    exact ⟨live, tenant⟩
  · cases again <;> cases ha

theorem answersLive_upload (inv : Ownership.Inv cfg calls s) (keyed : Keyed s.workers.db)
    (h : AnswersLive calls s) {e : UploadRaces.Event m} {u : UploadRaces.World m}
    (hu : (UploadRaces.machine cfg.sha256 calls).step s.uploadWorld e = some u) :
    AnswersLive calls (s.withUploads u) ↔ ¬ RetriesDeleted calls s (.upload e) := by
  cases e with
  | byKey k =>
    obtain ⟨again, _, rfl⟩ := UploadRaces.step_byKey hu
    exact answersLive_byKey inv keyed h again
  | byContent k =>
    obtain ⟨again, _, rfl⟩ := UploadRaces.step_byContent hu
    exact iff_of_true (answersLive_byContent h again) id
  | insert k =>
    refine iff_of_true ?_ id
    cases UploadRaces.step_change hu with
    | passed _ i p objects hi hp => exact answersLive_of_none h rfl hp.1
    | inserted i objects hi free fits => exact answersLive_of_none h rfl rfl
  | commit k =>
    refine iff_of_true ?_ id
    obtain ⟨d, j, hk, rfl⟩ := UploadRaces.step_commit hu
    obtain ⟨rfl, rfl, -⟩ := inv.pending k d j hk
    refine (answersLive_setPhase h rfl).mpr ?_
    rintro a ⟨⟩
    exact ⟨rfl, rfl⟩
  | abort k =>
    obtain ⟨-, rfl⟩ := UploadRaces.step_abort hu
    exact iff_of_true (answersLive_of_none h rfl rfl) id

/-- What the runs keep beside the answers. -/
def Kept (cfg : WorkerMachine.Settings) (calls : Fin m → UploadRaces.Call) (s : Deployment n m) : Prop :=
  Ownership.Inv cfg calls s ∧ Keyed s.workers.db

theorem kept_step {e : Event n m} (h : Kept cfg calls s)
    (hs : (machine cfg calls n).step s e = some t) : Kept cfg calls t := by
  refine ⟨inv_step h.1 hs, ?_⟩
  rcases step_cases hs with ⟨f, w, rfl, noUpload, hw, rfl⟩ | ⟨f, u, rfl, hu, rfl⟩
  · exact keyed_worker h.2 h.1.workers noUpload (step_change cfg h.1.workers hw)
  · exact keyed_upload h.1 h.2 (UploadRaces.step_change hu)

theorem answersLive_step {e : Event n m} (kept : Kept cfg calls s) (h : AnswersLive calls s)
    (hs : (machine cfg calls n).step s e = some t) :
    AnswersLive calls t ↔ ¬ RetriesDeleted calls s e := by
  rcases step_cases hs with ⟨f, w, rfl, noUpload, hw, rfl⟩ | ⟨f, u, rfl, hu, rfl⟩
  · exact iff_of_true h id
  · exact answersLive_upload kept.1 kept.2 h hu

/-- Successful uploads return live documents of their tenant in exactly those runs in which no
upload looks up a key whose job belongs to a deleted document. -/
theorem answers_live_iff (cfg : WorkerMachine.Settings) (n m : Nat)
    (calls : Fin m → UploadRaces.Call) (es : List (Event n m)) :
    (machine cfg calls n).Throughout (AnswersLive calls) (start n m) es ↔
      (machine cfg calls n).EveryStep (fun s e _ => ¬ RetriesDeleted calls s e) (start n m) es := by
  have first : AnswersLive calls (start n m) := by
    rintro i a ⟨⟩
  have empty : Keyed (start n m).workers.db := ⟨List.nodup_nil, fun j hj => by cases hj⟩
  rw [Machine.Throughout, and_iff_right first]
  exact Machine.everyStep_congr (I := fun s => Kept cfg calls s ∧ AnswersLive calls s)
    (fun _ _ _ i hs => answersLive_step i.1 i.2 hs)
    (fun _ _ _ i hs live => ⟨kept_step i.1 hs, live⟩) ⟨⟨inv_start, empty⟩, first⟩

end Runs

namespace Demo

open Ownership.Demo

/-- Call `i` uploads, its document is deleted, and call `k` comes with the same key. -/
def calls (_ : Fin 2) : UploadRaces.Call where
  upload := WorkerMachine.Demo.upload
  outside := ⟨4, 5, 10, none, none⟩

def run {n m : Nat} (i k : Fin m) : List (Event n m) :=
  [.worker (.accounts [⟨1, "a@example.com", true⟩] [⟨2, "A", "a", 0⟩] [⟨3, 2, 1, .editor, 0⟩])] ++
    statements i ++ [.upload (.commit i), .worker (.softDelete 4 2 20 none), .upload (.byKey k)]

end Demo

/-- A retry after the deletion returns the deleted document. -/
theorem retry_returns_deleted :
    ¬ (machine WorkerMachine.Demo.settings Demo.calls 1).Throughout (AnswersLive Demo.calls) (start 1 2)
      (Demo.run 0 1) := by
  decide +kernel

end LiveAnswers
