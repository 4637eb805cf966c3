import ResearchPlatform.Migration
import ResearchPlatform.Platform

/-!
# Rolling migration 0002 back

`downgrade` as its statements that can fail and what they leave, right after
`upgrade` and after any use of the platform. It restores unique constraints for each
user, where the platform keeps to those for each tenant.
-/

namespace Migration

open Uuid Schema Joins

/-! ## The statements -/

/-- `op.drop_column(table, "tenant_id")`, a row at a time. -/
def Initial.Document.dropTenant (d : Schema.Document) : Initial.Document :=
  ⟨d.id, d.userId, d.filename, d.contentHash, d.sizeBytes, d.mimeType, d.storageKey, d.status,
    d.chunkCount, d.errorMessage, d.createdAt, d.updatedAt, d.deletedAt⟩

def Initial.Chunk.dropTenant (c : Schema.Chunk) : Initial.Chunk :=
  ⟨c.id, c.documentId, c.userId, c.content, c.pageNumber, c.chunkIndex, c.embedding, c.createdAt⟩

def Initial.IngestionJob.dropTenant (j : Schema.IngestionJob) : Initial.IngestionJob :=
  ⟨j.id, j.documentId, j.userId, j.status, j.idempotencyKey, j.workerId, j.attemptCount, j.maxAttempts,
    j.version, j.errorMessage, j.claimedAt, j.startedAt, j.completedAt, j.createdAt⟩

/-- Policies, indexes and foreign keys go without a look at the rows, and so do the tables
of organizations, whose invitations a later revision has taken back before. -/
def downgrade (db : Database) : Except Failure Initial.Database := do
  require (db.ingestionJobs.map fun j => (j.userId, j.idempotencyKey)).Nodup
    (.integrityError "uq_jobs_user_idempotency")
  require (db.documents.map fun d => (d.userId, d.contentHash)).Nodup
    (.integrityError "uq_documents_user_content")
  return ⟨db.users, db.documents.map Initial.Document.dropTenant,
    db.chunks.map Initial.Chunk.dropTenant, db.ingestionJobs.map Initial.IngestionJob.dropTenant⟩

/-- The unique constraints of schema 0001. -/
structure UniquePerUser (db : Database) : Prop where
  idempotencyKeys : (db.ingestionJobs.map fun j => (j.userId, j.idempotencyKey)).Nodup
  contents : (db.documents.map fun d => (d.userId, d.contentHash)).Nodup

theorem downgrade_eq {db : Database} (unique : UniquePerUser db) :
    downgrade db = .ok ⟨db.users, db.documents.map Initial.Document.dropTenant,
      db.chunks.map Initial.Chunk.dropTenant,
      db.ingestionJobs.map Initial.IngestionJob.dropTenant⟩ := by
  rw [downgrade, require_of _ unique.idempotencyKeys, require_of _ unique.contents]
  rfl

theorem holds_of_require {holds : Prop} [Decidable holds] {failure : Failure} {done : Unit}
    (h : require holds failure = .ok done) : holds := by
  rw [require] at h
  split at h
  · assumption
  · cases h

theorem downgrade_ok_iff {db : Database} : (∃ old, downgrade db = .ok old) ↔ UniquePerUser db := by
  constructor
  · rintro ⟨old, h⟩
    obtain ⟨_, keys, h⟩ := of_bind_ok h
    obtain ⟨_, contents, _⟩ := of_bind_ok h
    exact ⟨holds_of_require keys, holds_of_require contents⟩
  · exact fun unique => ⟨_, downgrade_eq unique⟩

/-! ## Right after the upgrade -/

section Rows
variable {ρ σ : Type} {rows : List (Widened ρ)} {filled : List (ρ × UUID)}

theorem row_addColumn (rows : List ρ) : (addColumn rows).map Widened.row = rows := by
  rw [addColumn, List.map_map]
  exact List.map_id rows

/-- An update that sets the tenant keeps the rest of the row. -/
theorem row_updateFrom {on : Widened ρ → σ → Bool} {set : Widened ρ → σ → Widened ρ}
    (keeps : ∀ x y, (set x y).row = x.row) (source : List σ) (rows : List (Widened ρ)) :
    (updateFrom on set source rows).map Widened.row = rows.map Widened.row := by
  rw [updateFrom, List.map_map]
  refine List.map_congr_left fun x _ => ?_
  rw [Function.comp_apply]
  split
  · exact keeps x _
  · rfl

theorem row_updateDocuments (organizations : List Organization) (documents : List Initial.Document) :
    (updateDocuments organizations (addColumn documents)).map Widened.row = documents := by
  refine Eq.trans (row_updateFrom ?_ organizations _) (row_addColumn documents)
  exact fun _ _ => rfl

theorem row_updateFromDocuments (documentId : ρ → UUID) (documents : List (Widened Initial.Document))
    (rows : List ρ) : (updateFromDocuments documentId documents (addColumn rows)).map Widened.row = rows := by
  refine Eq.trans (row_updateFrom ?_ documents _) (row_addColumn rows)
  exact fun _ _ => rfl

theorem row_setNotNull {column : String} (h : setNotNull column rows = .ok filled) :
    filled.map Prod.fst = rows.map Widened.row := by
  induction rows generalizing filled with
  | nil =>
    cases h
    rfl
  | cons x rows ih =>
    rw [setNotNull, List.mapM_cons] at h
    obtain ⟨first, hx, h⟩ := of_bind_ok h
    obtain ⟨rest, hrest, h⟩ := of_bind_ok h
    cases h
    have row : first.1 = x.row := by
      split at hx
      · cases hx
      · cases hx
        rfl
    rw [List.map_cons, List.map_cons, row, ih hrest]

end Rows

/-- What an upgrade that succeeded has kept and has checked. -/
structure Upgraded (before : Initial.Database) (after : Database) : Prop where
  users : after.users = before.users
  documents : after.documents.map Initial.Document.dropTenant = before.documents
  chunks : after.chunks.map Initial.Chunk.dropTenant = before.chunks
  jobs : after.ingestionJobs.map Initial.IngestionJob.dropTenant = before.ingestionJobs
  contents : (after.documents.map fun d => (d.tenantId, d.contentHash)).Nodup
  idempotencyKeys : (after.ingestionJobs.map fun j => (j.tenantId, j.idempotencyKey)).Nodup

section Rollback
variable {draws : Draws} {before : Initial.Database} {after : Database}

theorem upgraded (h : upgrade draws before = .ok after) : Upgraded before after := by
  obtain ⟨organizations, _, h⟩ := of_bind_ok h
  obtain ⟨orgMemberships, _, h⟩ := of_bind_ok h
  obtain ⟨documents, filledDocuments, h⟩ := of_bind_ok h
  obtain ⟨chunks, filledChunks, h⟩ := of_bind_ok h
  obtain ⟨ingestionJobs, filledJobs, h⟩ := of_bind_ok h
  obtain ⟨_, _, h⟩ := of_bind_ok h
  obtain ⟨_, _, h⟩ := of_bind_ok h
  obtain ⟨_, _, h⟩ := of_bind_ok h
  obtain ⟨_, contents, h⟩ := of_bind_ok h
  obtain ⟨_, keys, h⟩ := of_bind_ok h
  cases h
  have documentRows := (row_setNotNull filledDocuments).trans (row_updateDocuments _ _)
  have chunkRows := (row_setNotNull filledChunks).trans (row_updateFromDocuments _ _ _)
  have jobRows := (row_setNotNull filledJobs).trans (row_updateFromDocuments _ _ _)
  constructor
  case users => rfl
  case documents =>
    rw [List.map_map]
    exact documentRows
  case chunks =>
    rw [List.map_map]
    exact chunkRows
  case jobs =>
    rw [List.map_map]
    exact jobRows
  case contents =>
    rw [List.map_map]
    exact holds_of_require contents
  case idempotencyKeys =>
    rw [List.map_map]
    exact holds_of_require keys

/-- What a table of the old schema shows, the table it comes from shows as well. -/
theorem map_of_dropped {ρ σ τ : Type} {drop : σ → ρ} {old : List ρ} {rows : List σ}
    (dropped : rows.map drop = old) (f : ρ → τ) : (rows.map fun x => f (drop x)) = old.map f := by
  rw [← dropped, List.map_map]
  rfl

theorem Upgraded.uniquePerUser (h : Upgraded before after) (valid : Initial.Constraints before) :
    UniquePerUser after where
  idempotencyKeys := by
    have same := map_of_dropped h.jobs fun j => (j.userId, j.idempotencyKey)
    exact same ▸ valid.idempotencyKeys
  contents := by
    have same := map_of_dropped h.documents fun d => (d.userId, d.contentHash)
    exact same ▸ valid.contents

/-- With nothing in between, the downgrade gives back what the upgrade was given. -/
theorem downgrade_upgrade (valid : Initial.Constraints before) (h : upgrade draws before = .ok after) :
    downgrade after = .ok before := by
  have kept := upgraded h
  rw [downgrade_eq (kept.uniquePerUser valid), kept.users, kept.documents, kept.chunks, kept.jobs]

end Rollback

/-! ## After any use -/

/-- The user of the two rows has the content or the key already, in another tenant. -/
def Elsewhere (db : Database) (d : Document) (j : IngestionJob) : Prop :=
  (∃ x ∈ db.documents, x.userId = d.userId ∧ x.tenantId ≠ d.tenantId ∧ x.contentHash = d.contentHash) ∨
    ∃ x ∈ db.ingestionJobs,
      x.userId = j.userId ∧ x.tenantId ≠ j.tenantId ∧ x.idempotencyKey = j.row.idempotencyKey

instance (db : Database) (d : Document) (j : IngestionJob) : Decidable (Elsewhere db d j) :=
  inferInstanceAs (Decidable (_ ∨ _))

section Runs
variable {w u r : Nat} {cfg : WorkerMachine.Settings} {lower : String → String}
  {calls : Fin u → UploadRaces.Call} {requests : Fin r → LastAdmin.Request}
  {s t : Platform.World w u r} {e : Platform.Event w u r}

/-- The step commits an upload of something that its user has in another tenant. -/
def CrossTenant (s : Platform.World w u r) : Platform.Event w u r → Prop
  | .deployment (.upload (.commit i)) =>
    ∃ p ∈ (s.deployment.uploads i).pending, Elsewhere s.db p.1 p.2
  | _ => False

instance (s : Platform.World w u r) (e : Platform.Event w u r) : Decidable (CrossTenant s e) := by
  unfold CrossTenant
  split <;> infer_instance

theorem crossTenant_commit (h : CrossTenant s e) : ∃ i, e = .deployment (.upload (.commit i)) := by
  unfold CrossTenant at h
  split at h
  · exact ⟨_, rfl⟩
  · cases h

/-- A committed upload keeps what is unique for each user, unless the user has the same in
another tenant: in its own tenant the platform has checked. -/
theorem uniquePerUser_append_iff {db : Database} {d : Document} {j : IngestionJob}
    (fits : DocumentService.Insertable db d j) (unique : UniquePerUser db) :
    UniquePerUser { db with
      documents := db.documents ++ [d.row], ingestionJobs := db.ingestionJobs ++ [j.row] } ↔
      ¬ Elsewhere db d j := by
  constructor
  · rintro after (⟨x, hx, user, _, content⟩ | ⟨x, hx, user, _, key⟩)
    · exact RowVersions.fresh_of_nodup_concat after.contents x hx (Prod.ext user content)
    · exact RowVersions.fresh_of_nodup_concat after.idempotencyKeys x hx (Prod.ext user key)
  · intro apart
    constructor
    · refine RowVersions.nodup_concat unique.idempotencyKeys fun x hx same => ?_
      obtain ⟨user, key⟩ := Prod.mk.inj same
      exact apart (Or.inr ⟨x, hx, user, fun tenant => fits.keyNew x hx tenant key, key⟩)
    · refine RowVersions.nodup_concat unique.contents fun x hx same => ?_
      obtain ⟨user, content⟩ := Prod.mk.inj same
      exact apart (Or.inl ⟨x, hx, user, fun tenant => fits.contentNew x hx tenant content, content⟩)

theorem UniquePerUser.keeps {before after : Database} (rows : Platform.KeepsRows before after)
    (unique : UniquePerUser before) : UniquePerUser after where
  idempotencyKeys := by
    have same := Platform.map_of_columns rows.jobs fun c => (c.2.1, c.2.2.2)
    exact same ▸ unique.idempotencyKeys
  contents := by
    have same := Platform.map_of_columns rows.documents fun c => (c.2.1, c.2.2.2)
    exact same ▸ unique.contents

/-- One step keeps what the downgrade needs exactly if it is not such a commit. -/
theorem uniquePerUser_step_iff (i : Platform.Inv cfg calls s) (unique : UniquePerUser s.db)
    (hs : (Platform.machine cfg lower calls requests).step s e = some t) :
    UniquePerUser t.db ↔ ¬ CrossTenant s e := by
  cases Platform.step_change i hs with
  | kept _ _ notCommit rows sessions opens =>
    refine iff_of_true (unique.keeps rows) fun cross => ?_
    obtain ⟨k, rfl⟩ := crossTenant_commit cross
    exact notCommit k rfl
  | committed k d j hk =>
    obtain ⟨_, _, fits⟩ := i.opens.pending k d j hk
    have here : CrossTenant s (.deployment (.upload (.commit k))) ↔ Elsewhere s.db d j := by
      simp [CrossTenant, hk, UploadRaces.Phase.pending]
    exact (uniquePerUser_append_iff fits unique).trans (not_congr here.symm)

theorem Upgraded.inv {before : Initial.Database} {db : Database} (h : Upgraded before db)
    (valid : Initial.Constraints before) (objects : DocumentService.ObjectStore) :
    Platform.Inv cfg calls (Platform.World.start db objects : Platform.World w u r) := by
  refine Platform.inv_start objects ?_ ?_ h.contents h.idempotencyKeys
  · have same := map_of_dropped h.documents Initial.Document.id
    exact same ▸ valid.documentIds
  · have same := map_of_dropped h.jobs Initial.IngestionJob.id
    exact same ▸ valid.jobIds

/-- Through a whole run the upgrade can be rolled back exactly as long as no commit brings
in content or a key that its user has in another tenant. -/
theorem downgrade_throughout_iff (cfg : WorkerMachine.Settings) (lower : String → String)
    (calls : Fin u → UploadRaces.Call) (requests : Fin r → LastAdmin.Request) (draws : Draws)
    (before : Initial.Database) (db : Database) (objects : DocumentService.ObjectStore)
    (es : List (Platform.Event w u r)) (valid : Initial.Constraints before)
    (h : upgrade draws before = .ok db) :
    (Platform.machine cfg lower calls requests).Throughout (fun s => ∃ old, downgrade s.db = .ok old)
        (Platform.World.start db objects) es ↔
      (Platform.machine cfg lower calls requests).EveryStep (fun s e _ => ¬ CrossTenant s e)
        (Platform.World.start db objects) es := by
  have first : ∃ old, downgrade db = .ok old := ⟨before, downgrade_upgrade valid h⟩
  have steps : (Platform.machine cfg lower calls requests).EveryStep
      (fun _ _ t => ∃ old, downgrade t.db = .ok old) (Platform.World.start db objects) es ↔
      (Platform.machine cfg lower calls requests).EveryStep (fun s e _ => ¬ CrossTenant s e)
        (Platform.World.start db objects) es := by
    apply Machines.Machine.everyStep_congr (I := fun s => Platform.Inv cfg calls s ∧ UniquePerUser s.db)
    · exact fun s e t i hs => downgrade_ok_iff.trans (uniquePerUser_step_iff i.1 i.2 hs)
    · exact fun s e t i hs ok => ⟨Platform.inv_step i.1 hs, downgrade_ok_iff.mp ok⟩
    · exact ⟨(upgraded h).inv valid objects, downgrade_ok_iff.mp first⟩
  constructor
  · exact fun all => steps.mp all.2
  · exact fun apart => ⟨first, steps.mpr apart⟩

/-- In one state: the constraints for each tenant are those for each user once no user has
the same twice in different tenants. -/
theorem unique_of_tenant_iff {ρ : Type} (userId : ρ → UUID) {tenantId : ρ → UUID}
    {column : ρ → String} {rows : List ρ} (unique : (rows.map fun x => (tenantId x, column x)).Nodup) :
    (rows.map fun x => (userId x, column x)).Nodup ↔
      ∀ x ∈ rows, ∀ y ∈ rows, userId x = userId y → column x = column y → tenantId x = tenantId y := by
  constructor
  · intro perUser x hx y hy user same
    have row := RowVersions.eq_of_key perUser hx hy (Prod.ext user same)
    rw [row]
  · intro together
    refine List.Nodup.map_on (fun x hx y hy same => ?_) (List.Nodup.of_map _ unique)
    obtain ⟨user, value⟩ := Prod.mk.inj same
    have tenant := together x hx y hy user value
    exact RowVersions.eq_of_key unique hx hy (Prod.ext tenant value)

/-- Which of the states that the platform can reach can be rolled back. -/
theorem downgrade_reachable_iff {draws : Draws} {before : Initial.Database} {db : Database}
    {objects : DocumentService.ObjectStore} (valid : Initial.Constraints before)
    (h : upgrade draws before = .ok db)
    (reached : (Platform.machine cfg lower calls requests).Reachable
      (Platform.World.start db objects) s) :
    (∃ old, downgrade s.db = .ok old) ↔
      (∀ x ∈ s.db.ingestionJobs, ∀ y ∈ s.db.ingestionJobs, x.userId = y.userId →
        x.idempotencyKey = y.idempotencyKey → x.tenantId = y.tenantId) ∧
      ∀ x ∈ s.db.documents, ∀ y ∈ s.db.documents, x.userId = y.userId →
        x.contentHash = y.contentHash → x.tenantId = y.tenantId := by
  have i : Platform.Inv cfg calls s := Machines.Machine.reachable_invariant
    ((upgraded h).inv valid objects) (fun _ _ _ i hs => Platform.inv_step i hs) reached
  have keys := unique_of_tenant_iff IngestionJob.userId i.keys
  have contents := unique_of_tenant_iff Document.userId i.contents
  rw [downgrade_ok_iff]
  constructor
  · exact fun unique => ⟨keys.mp unique.idempotencyKeys, contents.mp unique.contents⟩
  · exact fun together => ⟨keys.mpr together.1, contents.mpr together.2⟩

end Runs

namespace Demo

/-- Ada invites Bob to her workspace, and Bob accepts. -/
def requests : Fin 2 → LastAdmin.Request
  | 0 => .createInvite 1 (some 101) "bob@example.org" .editor
  | 1 => .acceptInvite 12 2 "bob@example.org"

/-- Bob's uploads of one file, first to his own workspace and then to Ada's. -/
def uploads (i : Fin 2) : UploadRaces.Call where
  upload := { WorkerMachine.Demo.upload with
    idempotencyKey := "upload-" ++ i.val.repr
    userId := 2
    tenantId := if i.val = 0 then 102 else 101 }
  outside := ⟨BitVec.ofNat 128 (400 + i), BitVec.ofNat 128 (410 + i), 30, none, none⟩

def joins (invite accept : Fin 2) : List (Platform.Event 0 2 2) :=
  [.request (.resolve invite), .request (.work invite (LastAdmin.Demo.draw 12)),
    .request (.commit invite), .request (.work accept (LastAdmin.Demo.draw 14)),
    .request (.commit accept)]

def uploaded (i : Fin 2) : List (Platform.Event 0 2 2) :=
  [.deployment (.upload (.byKey i)), .deployment (.upload (.byContent i)),
    .deployment (.upload (.insert i)), .deployment (.upload (.commit i))]

def platform : Machines.Machine (Platform.World 0 2 2) (Platform.Event 0 2 2) :=
  Platform.machine WorkerMachine.Demo.settings LastAdmin.Demo.lower uploads requests

def opened : Platform.World 0 2 2 := Platform.World.start (migrated draws before) fun _ => none

theorem upgrade_before : upgrade draws before = .ok (migrated draws before) :=
  upgrade_eq constraints_before ownersAgree_before (by decide) ⟨by decide, by decide⟩

end Demo

/-- A user who uploads one file to two organizations leaves a platform that cannot go back. -/
theorem same_file_in_two_organizations :
    Initial.Constraints Demo.before ∧ upgrade Demo.draws Demo.before = .ok (migrated Demo.draws Demo.before) ∧
      ∃ s, Demo.platform.Reachable Demo.opened s ∧
        downgrade s.db = .error (.integrityError "uq_documents_user_content") := by
  have ran : ∃ s ∈ Demo.platform.run Demo.opened (Demo.joins 0 1 ++ Demo.uploaded 0 ++ Demo.uploaded 1),
      downgrade s.db = .error (.integrityError "uq_documents_user_content") := by decide +kernel
  obtain ⟨s, reached, fails⟩ := ran
  exact ⟨Demo.constraints_before, Demo.upgrade_before, s, ⟨_, reached⟩, fails⟩

theorem downgrade_throughout_one_organization :
    Demo.platform.Throughout (fun s => ∃ old, downgrade s.db = .ok old) Demo.opened
      (Demo.joins 0 1 ++ Demo.uploaded 1) :=
  (downgrade_throughout_iff WorkerMachine.Demo.settings LastAdmin.Demo.lower Demo.uploads Demo.requests
    Demo.draws Demo.before (migrated Demo.draws Demo.before) (fun _ => none) _ Demo.constraints_before
    Demo.upgrade_before).mpr (by decide +kernel)

end Migration
