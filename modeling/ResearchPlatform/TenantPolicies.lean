import ResearchPlatform.ParallelRetrieval
import ResearchPlatform.TenantPlane

/-!
# The document plane under row-level security

The operations of the services as a role runs them to which the policies of migration
0002 apply. A statement sees the visible rows only, and a row that `WITH CHECK` does not
admit ends the transaction with an error that no handler expects. Keys and references
hold among all rows, visible or not.
-/

namespace TenantPolicies

open Uuid Schema OwnedRows RowLevelSecurity ParallelRetrieval DocumentService TenantService
  TenantPlane WorkerMachine WorkerInvariants WorkerRuns Machines

/-! ## Operations -/

section Operations
variable (pf : Platform) (userId tenantId : UUID) (o : Outside) (vars : SessionVars) (blanks : Blanks)

/-- The flush of both rows; `none` is the error of a policy. -/
def insertUnder (db : Database) (d : Document) (j : IngestionJob) : Option (Except Failure Database) :=
  if writable vars d.tenantId && writable vars j.tenantId then some (insertUpload db d j) else none

/-- `upload_document`. The second lookup comes behind the rollback to the savepoint. -/
def uploadUnder (u : Upload) (s : Store) : Option (Except Failure (Document × IngestionJob)) × Store :=
  let hash := contentHash pf.sha256 u.content
  match findExistingUpload (underPolicies vars s.db) hash u.idempotencyKey u.tenantId with
  | .error e => (some (.error e), s)
  | .ok (some hit) => (some (.ok hit), s)
  | .ok none =>
    let key := storageKey u.tenantId o.docId u.filename
    let stored := s.objects.afterPut key ⟨u.content, contentTypeOf u.mimeType⟩ o.uploadError
    match o.uploadError with
    | some fault => (some (.error fault.failure), ⟨s.db, stored⟩)
    | none =>
      match insertUnder vars s.db (newDocument pf.sha256 u o) (newJob u o) with
      | none => (none, ⟨s.db, stored⟩)
      | some (.ok db') => (some (.ok (newDocument pf.sha256 u o, newJob u o)), ⟨db', stored⟩)
      | some (.error (.integrityError _)) =>
        let cleaned := stored.afterDelete key o.deleteError
        match findExistingUpload (underPolicies (vars.reverted blanks) s.db) hash u.idempotencyKey u.tenantId with
        | .error e => (some (.error e), ⟨s.db, cleaned⟩)
        | .ok (some hit) => (some (.ok hit), ⟨s.db, cleaned⟩)
        | .ok none => (some (.error uploadConflict), ⟨s.db, cleaned⟩)
      | some (.error e) => (some (.error e), ⟨s.db, stored⟩)

/-- `soft_delete_document`; its UPDATE reaches the visible rows. -/
def softDeleteUnder (documentId : UUID) (s : Store) : Option (Except Failure Unit) × Store :=
  match getDocument documentId tenantId (underPolicies vars s.db) with
  | .error e => (some (.error e), s)
  | .ok doc =>
    if writable vars doc.tenantId then
      let documents := s.db.documents.map fun d =>
        if visible vars d.tenantId then deletedAs documentId o.now d else d
      let objects' := match doc.storageKey with
        | none => s.objects
        | some key => if key = "" then s.objects else s.objects.afterDelete key o.deleteError
      (some (.ok ()), ⟨{ s.db with documents := documents }, objects'⟩)
    else (none, s)

def performUnder (op : Operation) (s : Store) : Option (Except Failure Result) × Store :=
  match op with
  | .uploadDocument filename content mimeType idempotencyKey =>
    let r := uploadUnder pf o vars blanks ⟨filename, content, mimeType, idempotencyKey, userId, tenantId⟩ s
    (r.1.map fun outcome => outcome.map fun x => .upload x.1 x.2, r.2)
  | .softDeleteDocument documentId =>
    let r := softDeleteUnder tenantId o vars documentId s
    (r.1.map fun outcome => outcome.map fun _ => .deleted, r.2)
  | .read query => (some (answer pf tenantId (underPolicies vars s.db) query), s)

/-- A request on a connection of the pool: `resolve_membership`, whose table has no policy, then
`set_tenant_context` and the operation. -/
def requestUnder (c : PooledConnection) (orgId : Option UUID) (op : Operation) (s : Store) :
    Option (Except Failure Result) × Store :=
  match resolveMembership userId orgId (underPolicies c.ownSession s.db) with
  | .error e => (some (.error e), s)
  | .ok membership =>
    performUnder pf userId membership.orgId o (c.requestSession membership.orgId) blanks op s

end Operations

/-! ## What is visible -/

section Visible
variable {vars : SessionVars} {tenantId : UUID} {db : Database}

theorem stored_underPolicies (vars : SessionVars) (stored : Stored db) : Stored (underPolicies vars db) where
  jobIds := stored.jobIds.sublist (List.filter_sublist.map IngestionJob.id)
  docIds := stored.docIds.sublist (List.filter_sublist.map Document.id)
  jobDocs := stored.jobDocs.sublist (List.filter_sublist.map IngestionJob.documentId)
  docOfJob j hj := by
    obtain ⟨mem, seen⟩ := List.mem_filter.mp hj
    obtain ⟨d, hd, id, user, tenant⟩ := stored.docOfJob j mem
    exact ⟨d, List.mem_filter.mpr ⟨hd, tenant ▸ seen⟩, id, user, tenant⟩
  jobOfDoc d hd := by
    obtain ⟨mem, seen⟩ := List.mem_filter.mp hd
    obtain ⟨j, hj, link⟩ := stored.jobOfDoc d mem
    obtain ⟨d', hd', id, _, tenant⟩ := stored.docOfJob j hj
    obtain rfl := RowVersions.eq_of_key stored.docIds hd' mem (id.trans link)
    exact ⟨j, List.mem_filter.mpr ⟨hj, tenant ▸ seen⟩, link⟩
  docOfChunk x hx := by
    obtain ⟨mem, seen⟩ := List.mem_filter.mp hx
    obtain ⟨d, hd, id, user, tenant⟩ := stored.docOfChunk x mem
    exact ⟨d, List.mem_filter.mpr ⟨hd, tenant ▸ seen⟩, id, user, tenant⟩
  storageKey d hd := stored.storageKey d (List.mem_filter.mp hd).1
  attempts j hj := stored.attempts j (List.mem_filter.mp hj).1
  members := stored.members

theorem owned_seen {ρ : Type} {owner : ρ → UUID} (seen : visible vars tenantId = true) (rows : List ρ) :
    owned owner tenantId (rows.filter fun r => visible vars (owner r)) = owned owner tenantId rows := by
  rw [owned, List.filter_filter]
  refine List.filter_congr fun r _ => ?_
  by_cases own : owner r = tenantId
  · simp [own, seen]
  · simp [own]

theorem owned_unseen {ρ : Type} {owner : ρ → UUID} (unseen : visible vars tenantId = false) (rows : List ρ) :
    owned owner tenantId (rows.filter fun r => visible vars (owner r)) = [] := by
  rw [owned, List.filter_filter, List.filter_eq_nil_iff]
  intro r _
  by_cases own : owner r = tenantId
  · simp [own, unseen]
  · simp [own]

theorem tables_seen (seen : visible vars tenantId = true) :
    tenantTables tenantId (underPolicies vars db) = tenantTables tenantId db := by
  simp only [tenantTables, underPolicies, owned_seen seen]

theorem tables_unseen (unseen : visible vars tenantId = false) :
    tenantTables tenantId (underPolicies vars db) = Database.empty := by
  simp only [tenantTables, underPolicies, owned_unseen unseen, Database.empty]

/-- A rollback to a savepoint does not change what the policies see. -/
theorem visible_reverted (vars : SessionVars) (blanks : Blanks) (t : UUID) :
    visible (vars.reverted blanks) t = visible vars t := by
  have worker : workerAccess (vars.reverted blanks) = workerAccess vars := by
    rw [workerAccess, workerAccess, SessionVars.reverted]
    cases vars.workerMode with
    | some mode => rfl
    | none => cases blanks.workerMode <;> rfl
  rw [visible, visible, worker, tenantIsolation, tenantIsolation, SessionVars.reverted, nullif_reverted]

theorem findExistingUpload_tables (stored : Stored db) (hash key : String) :
    findExistingUpload (tenantTables tenantId db) hash key tenantId = findExistingUpload db hash key tenantId := by
  rw [findExistingUpload, findByKey_tables stored, findByContent_tables, findExistingUpload]

end Visible

/-! ## The tenant of the context -/

section Seen
variable {pf : Platform} {userId tenantId : UUID} {o : Outside} {vars : SessionVars} {blanks : Blanks} {s : Store}

theorem findExistingUpload_seen (stored : Stored s.db) (seen : visible vars tenantId = true) (hash key : String) :
    findExistingUpload (underPolicies vars s.db) hash key tenantId = findExistingUpload s.db hash key tenantId := by
  rw [← findExistingUpload_tables (stored_underPolicies vars stored), tables_seen seen, findExistingUpload_tables stored]

theorem answer_seen (stored : Stored s.db) (seen : visible vars tenantId = true) (query : Query) :
    answer pf tenantId (underPolicies vars s.db) query = answer pf tenantId s.db query := by
  rw [← answer_tables (stored_underPolicies vars stored), tables_seen seen, answer_tables stored]

theorem uploadUnder_seen (stored : Stored s.db) {u : Upload} (seen : visible vars u.tenantId = true) :
    uploadUnder pf o vars blanks u s =
      (some (uploadDocument pf.sha256 u o s.db s.objects).1, ⟨(uploadDocument pf.sha256 u o s.db s.objects).2.1,
        (uploadDocument pf.sha256 u o s.db s.objects).2.2⟩) := by
  have admitted : insertUnder vars s.db (newDocument pf.sha256 u o) (newJob u o) =
      some (insertUpload s.db (newDocument pf.sha256 u o) (newJob u o)) := by
    rw [insertUnder, if_pos]
    have both : writable vars u.tenantId = true := seen
    rw [Bool.and_eq_true]
    exact ⟨both, both⟩
  have back : visible (vars.reverted blanks) u.tenantId = true := (visible_reverted vars blanks _).trans seen
  simp only [uploadUnder, uploadDocument, findExistingUpload_seen stored seen, findExistingUpload_seen stored back,
    admitted]
  cases findExistingUpload s.db (contentHash pf.sha256 u.content) u.idempotencyKey u.tenantId with
  | error e => rfl
  | ok hit =>
    cases hit with
    | some hit => rfl
    | none =>
      cases o.uploadError with
      | some fault => rfl
      | none =>
        cases insertUpload s.db (newDocument pf.sha256 u o) (newJob u o) with
        | ok db' => rfl
        | error e => cases e <;> rfl

theorem getDocument_seen (seen : visible vars tenantId = true) (documentId : UUID) :
    getDocument documentId tenantId (underPolicies vars s.db) = getDocument documentId tenantId s.db := by
  rw [← getDocument_tables, tables_seen seen, getDocument_tables]

/-- The UPDATE reaches the row, since it is visible and no other row has its id. -/
theorem softDeleteUnder_seen (stored : Stored s.db) (seen : visible vars tenantId = true) (documentId : UUID) :
    softDeleteUnder tenantId o vars documentId s =
      (some (softDeleteDocument documentId tenantId o.now o.deleteError s.db s.objects).1,
        ⟨(softDeleteDocument documentId tenantId o.now o.deleteError s.db s.objects).2.1,
          (softDeleteDocument documentId tenantId o.now o.deleteError s.db s.objects).2.2⟩) := by
  rw [softDeleteUnder, softDeleteDocument, getDocument_seen seen]
  cases found : getDocument documentId tenantId s.db with
  | error e => rfl
  | ok doc =>
    obtain ⟨hd, id, tenant, _⟩ := getDocument_spec found
    have own : writable vars doc.tenantId = true := tenant ▸ seen
    have documents : (s.db.documents.map fun d => if visible vars d.tenantId then deletedAs documentId o.now d else d) =
        s.db.documents.map (deletedAs documentId o.now) := by
      refine List.map_congr_left fun d mem => ?_
      by_cases same : d.id = documentId
      · obtain rfl := RowVersions.eq_of_key stored.docIds mem hd (same.trans id.symm)
        rw [if_pos (tenant ▸ seen)]
      · rw [deletedAs_of_ne o.now same, ite_self]
    cases key : doc.storageKey with
    | none => simp only [own, documents, key, if_true]
    | some key' => simp only [own, documents, key, if_true]

/-- In the tenant of the context the policies change nothing. -/
theorem performUnder_seen (stored : Stored s.db) (seen : visible vars tenantId = true) (op : Operation) :
    performUnder pf userId tenantId o vars blanks op s =
      (some (perform pf userId tenantId o op s).1, (perform pf userId tenantId o op s).2) := by
  cases op with
  | uploadDocument filename content mimeType idempotencyKey =>
    simp only [performUnder, perform]
    rw [uploadUnder_seen stored seen]
    rfl
  | softDeleteDocument documentId =>
    simp only [performUnder, perform]
    rw [softDeleteUnder_seen stored seen]
    rfl
  | read query => rw [performUnder, perform, answer_seen stored seen]

end Seen

/-! ## Any other tenant -/

section Unseen
variable {pf : Platform} {userId tenantId : UUID} {o : Outside} {vars : SessionVars} {blanks : Blanks} {s : Store}

theorem answer_unseen (stored : Stored s.db) (unseen : visible vars tenantId = false) (query : Query) :
    answer pf tenantId (underPolicies vars s.db) query = answer pf tenantId Database.empty query := by
  rw [← answer_tables (stored_underPolicies vars stored), tables_unseen unseen]

theorem uploadUnder_unseen {u : Upload} (unseen : visible vars u.tenantId = false) :
    (uploadUnder pf o vars blanks u s).2.db = s.db := by
  have refused : insertUnder vars s.db (newDocument pf.sha256 u o) (newJob u o) = none := by
    rw [insertUnder, if_neg]
    have neither : writable vars u.tenantId = false := unseen
    simp [newDocument, neither]
  simp only [uploadUnder, refused]
  split
  · rfl
  · rfl
  · split <;> rfl

theorem softDeleteUnder_unseen (unseen : visible vars tenantId = false) (documentId : UUID) :
    (softDeleteUnder tenantId o vars documentId s).2 = s := by
  rw [softDeleteUnder]
  split
  · rfl
  · rename_i doc found
    obtain ⟨hd, _, tenant, _⟩ := getDocument_spec found
    have seen := (List.mem_filter.mp hd).2
    rw [tenant, unseen] at seen
    cases seen

/-- In a tenant that the context does not name, nothing is read and no row is written. -/
theorem performUnder_unseen (stored : Stored s.db) (unseen : visible vars tenantId = false) (op : Operation) :
    (performUnder pf userId tenantId o vars blanks op s).2.db = s.db ∧
      ∀ query, op = .read query →
        (performUnder pf userId tenantId o vars blanks op s).1 = some (answer pf tenantId Database.empty query) := by
  cases op with
  | uploadDocument filename content mimeType idempotencyKey =>
    exact ⟨uploadUnder_unseen unseen, by simp⟩
  | softDeleteDocument documentId =>
    exact ⟨congrArg Store.db (softDeleteUnder_unseen unseen documentId), by simp⟩
  | read query =>
    refine ⟨rfl, fun query' same => ?_⟩
    cases same
    rw [performUnder, answer_unseen stored unseen]

end Unseen

/-! ## Requests -/

/-- Under the policies a request on any connection of the pool does what it does without them. An operation in
a tenant that the context of its transaction does not name, or in one without a context, reads what an empty
database gives and writes no row. -/
theorem policies_confine (pf : Platform) {n : Nat} (cfg : Settings) {w : World n}
    (reach : (machine cfg n).Reachable (World.start n) w) (c : PooledConnection) (userId : UUID) (o : Outside)
    (blanks : Blanks) (op : Operation) :
    (∀ orgId, requestUnder pf userId o blanks c orgId op (store w) =
        (some (request pf userId o orgId op (store w)).1, (request pf userId o orgId op (store w)).2)) ∧
      ∀ vars tenantId, (vars = c.ownSession ∨ ∃ other ≠ tenantId, vars = c.requestSession other) →
        (performUnder pf userId tenantId o vars blanks op (store w)).2.db = w.db ∧
          ∀ query, op = .read query → (performUnder pf userId tenantId o vars blanks op (store w)).1 =
            some (answer pf tenantId Database.empty query) := by
  have stored : Stored (store w).db := (sound_reachable cfg reach).stored
  constructor
  · intro orgId
    have accounts : resolveMembership userId orgId (underPolicies c.ownSession (store w).db) =
        resolveMembership userId orgId (store w).db := rfl
    rw [requestUnder, request, accounts]
    cases resolveMembership userId orgId (store w).db with
    | error e => rfl
    | ok m =>
      have seen : visible (c.requestSession m.orgId) m.orgId = true :=
        (visible_setTenantContext c.property.clear m.orgId m.orgId).trans (decide_eq_true rfl)
      exact performUnder_seen stored seen op
  · intro vars tenantId elsewhere
    have unseen : visible vars tenantId = false := by
      rcases elsewhere with rfl | ⟨other, ne, rfl⟩
      · exact visible_of_clear c.property.clear tenantId
      · exact (visible_setTenantContext c.property.clear other tenantId).trans (decide_eq_false ne.symm)
    exact performUnder_unseen stored unseen op

/-- A member of the first tenant searches; in the second tenant the same transaction would find nothing. -/
theorem policies_confine_demo :
    let search : Query := .denseSearch "hello" 5
    let c : PooledConnection := ⟨.new, .refl _, rfl⟩
    requestUnder Demo.platform 1 ⟨6, 7, 30, none, none⟩ ⟨true, true⟩ c none (.read search) (store Demo.after) =
        (some (request Demo.platform 1 ⟨6, 7, 30, none, none⟩ none (.read search) (store Demo.after)).1,
          (request Demo.platform 1 ⟨6, 7, 30, none, none⟩ none (.read search) (store Demo.after)).2) ∧
      (performUnder Demo.platform 1 12 ⟨6, 7, 30, none, none⟩ (c.requestSession 2) ⟨true, true⟩ (.read search)
        (store Demo.after)).1 = some (answer Demo.platform 12 Database.empty search) := by
  intro search c
  have confine := policies_confine Demo.platform TenantPlane.Demo.settings Demo.reachable_after c 1
    ⟨6, 7, 30, none, none⟩ ⟨true, true⟩ (.read search)
  exact ⟨confine.1 none, (confine.2 _ 12 (Or.inr ⟨2, by decide, rfl⟩)).2 search rfl⟩

end TenantPolicies
