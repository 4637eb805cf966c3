import ResearchPlatform.Ownership
import ResearchPlatform.LastAdmin

/-!
# Every writer of the tables together

Uploads, workers and soft deletes beside logins and the requests that write
memberships and invitations, step by step over one database. Of these only the
commit of an upload brings in a document or a job, and none changes the columns
that the unique constraints are about.
-/

namespace Platform

open Uuid Schema RowVersions DocumentService JobService TenantService Machines

structure World (w u r : Nat) where
  deployment : Ownership.Deployment w u
  invites : List OrganizationInvite
  requests : Fin r → LastAdmin.Phase

inductive Event (w u r : Nat) where
  /-- a first login; the personal organization is a request of its own -/
  | login (id : UUID) (email : String)
  | request (e : LastAdmin.Event r)
  | deployment (e : Ownership.Event w u)

namespace World
variable {w u r : Nat}

def db (s : World w u r) : Database := s.deployment.workers.db

def withDb (s : World w u r) (db : Database) : World w u r :=
  { s with deployment := { s.deployment with workers := { s.deployment.workers with db := db } } }

/-- What the requests see of the platform. -/
def requestWorld (s : World w u r) : LastAdmin.World r := ⟨s.db, s.invites, s.requests⟩

def withRequests (s : World w u r) (q : LastAdmin.World r) : World w u r :=
  { s.withDb q.db with invites := q.invites, requests := q.phase }

/-- Everything is about to start on these tables; there are no invitations yet. -/
def start (db : Database) (objects : ObjectStore) : World w u r where
  deployment := ⟨⟨db, objects, fun _ => .idle⟩, fun _ => .looking false⟩
  invites := []
  requests := fun _ => .start

end World

/-- What the route of an upload checks before it calls the service. -/
def mayUpload (u : Upload) (db : Database) : Except Failure Unit := do
  let membership ← resolveMembership u.userId (some u.tenantId) db
  requireRole membership.role [.admin, .editor]

section Machine
variable {w u r : Nat} (cfg : WorkerMachine.Settings) (lower : String → String)
  (calls : Fin u → UploadRaces.Call) (requests : Fin r → LastAdmin.Request)

/-- Accounts change by logins and requests alone, and an upload starts once its route lets
it through. -/
def admitted (s : World w u r) : Ownership.Event w u → Bool
  | .worker (.accounts _ _ _) => false
  | .upload (.byKey i) => match s.deployment.uploads i with
    | .looking false => (mayUpload (calls i).upload s.db).isOk
    | _ => true
  | _ => true

def step (s : World w u r) : Event w u r → Option (World w u r)
  | .login id email =>
    if fitsVarchar 255 email = true ∧ ∀ x ∈ s.db.users, x.id ≠ id ∧ x.email ≠ varchar 255 email then
      some (s.withDb { s.db with users := s.db.users ++ [(⟨id, email, true⟩ : User).row] })
    else none
  | .request e => (LastAdmin.step lower requests s.requestWorld e).map s.withRequests
  | .deployment e =>
    if admitted calls s e then
      (Ownership.step cfg calls s.deployment e).map fun d => { s with deployment := d }
    else none

def machine : Machine (World w u r) (Event w u r) := ⟨step cfg lower calls requests⟩

end Machine

/-! ## The columns of the unique constraints -/

def documentColumns (d : Document) : UUID × UUID × UUID × String :=
  (d.id, d.userId, d.tenantId, d.contentHash)

def jobColumns (j : IngestionJob) : UUID × UUID × UUID × String :=
  (j.id, j.userId, j.tenantId, j.idempotencyKey)

/-- No document or job comes, goes, or changes in these columns, and nothing that they
refer to goes. -/
structure KeepsRows (before after : Database) : Prop where
  documents : after.documents.map documentColumns = before.documents.map documentColumns
  jobs : after.ingestionJobs.map jobColumns = before.ingestionJobs.map jobColumns
  users : ∀ x ∈ before.users, x ∈ after.users
  organizations : ∀ o ∈ before.organizations, o ∈ after.organizations

/-- The rows that an open transaction has written. -/
structure Retained (db : Database) (tx : Session) : Prop where
  jobs : Retains jobColumns db.ingestionJobs tx.jobs
  documents : Retains documentColumns db.documents tx.documents

section Columns
variable {ρ π σ : Type} {cols : ρ → π} {before after : List ρ} {db db' : Database} {tx tx' : Session}

/-- What is computed from the columns is the same for all the rows. -/
theorem map_of_columns (same : after.map cols = before.map cols) (g : π → σ) :
    (after.map fun x => g (cols x)) = before.map fun x => g (cols x) := by
  have mapped := congrArg (List.map g) same
  rw [List.map_map, List.map_map] at mapped
  exact mapped

theorem exists_of_columns (same : after.map cols = before.map cols) {x : ρ} (hx : x ∈ after) :
    ∃ y ∈ before, cols y = cols x := by
  have image : cols x ∈ before.map cols := same ▸ List.mem_map_of_mem hx
  exact List.mem_map.mp image

theorem KeepsRows.refl (db : Database) : KeepsRows db db :=
  ⟨rfl, rfl, fun _ h => h, fun _ h => h⟩

theorem retained_empty (db : Database) : Retained db Session.empty := ⟨retains_nil, retains_nil⟩

theorem Retained.mono (h : Retained db tx)
    (jobs : ∀ j ∈ db.ingestionJobs, ∃ x ∈ db'.ingestionJobs, jobColumns x = jobColumns j)
    (documents : ∀ d ∈ db.documents, ∃ x ∈ db'.documents, documentColumns x = documentColumns d) :
    Retained db' tx := ⟨h.jobs.mono jobs, h.documents.mono documents⟩

theorem Retained.keeps (h : Retained db tx) (rows : KeepsRows db db') : Retained db' tx :=
  h.mono (fun _ => exists_of_columns rows.jobs.symm) fun _ => exists_of_columns rows.documents.symm

/-- Rows still go in while no unique value is taken and no parent goes. -/
theorem KeepsRows.insertable (rows : KeepsRows db db') (d : Document) (j : IngestionJob)
    (fits : Insertable db d j) : Insertable db' d j := by
  refine Ownership.insertable_mono fits (fun x hx => ?_) (fun x hx => ?_)
    (fun x hx => ⟨x, rows.users x hx, rfl⟩) fun o ho => ⟨o, rows.organizations o ho, rfl⟩
  · obtain ⟨y, hy, same⟩ := exists_of_columns rows.documents hx
    simp only [documentColumns, Prod.mk.injEq] at same
    exact ⟨y, hy, same.1.symm, same.2.2.1.symm, same.2.2.2.symm⟩
  · obtain ⟨y, hy, same⟩ := exists_of_columns rows.jobs hx
    simp only [jobColumns, Prod.mk.injEq] at same
    exact ⟨y, hy, same.1.symm, same.2.2.1.symm, same.2.2.2.symm⟩

end Columns

/-! ## Workers -/

section Workers
variable {db : Database} {tx tx' : Session} {locked lockedDocuments : UUID → Prop}
  [DecidablePred locked] [DecidablePred lockedDocuments]

theorem retained_resetStaleClaims {staleTimeout now : Time} (h : Retained db tx)
    (hs : resetStaleClaims locked staleTimeout now db tx = some tx') : Retained db tx' := by
  obtain ⟨r, hr, rfl⟩ := Option.map_eq_some_iff.mp hs
  exact ⟨h.jobs.update hr fun _ => rfl, h.documents⟩

theorem retained_claimQueued (worker : Nat) (now : Time) (h : Retained db tx) :
    Retained db (claimQueued locked worker now db tx).1 := by
  rw [claimQueued]
  cases hj : nextQueued locked db tx with
  | none => exact h
  | some j =>
    have seen : j ∈ view IngestionJob.id tx.jobs db.ingestionJobs :=
      (List.mem_filter.mp (mem_orderByAsc.mp (List.mem_of_head? hj))).1
    refine ⟨h.jobs.write fun x hx => ?_, h.documents⟩
    obtain ⟨r, hr, same⟩ := h.jobs.seen seen
    rw [List.mem_singleton.mp hx]
    exact ⟨r, hr, same⟩

theorem retained_markRunning {jobId : UUID} {version : Nat} {now : Time} {r : Session × Bool}
    (h : Retained db tx) (hs : markRunning locked jobId version now db tx = some r) :
    Retained db r.1 := by
  obtain ⟨own, hr, rfl⟩ := Option.map_eq_some_iff.mp hs
  exact ⟨h.jobs.update hr fun _ => rfl, h.documents⟩

theorem retained_completeJob {jobId documentId userId tenantId : UUID} {chunks : List ChunkData}
    {chunkId : Nat → UUID} {now : Time} (h : Retained db tx)
    (hs : completeJob locked lockedDocuments jobId documentId chunks userId tenantId chunkId now db
      tx = some tx') : Retained db tx' := by
  simp only [completeJob, Option.bind_eq_bind, Option.bind_eq_some_iff, Option.some.injEq] at hs
  obtain ⟨documents, hd, jobs, hj, rfl⟩ := hs
  exact ⟨h.jobs.update hj fun _ => rfl, h.documents.update hd fun _ => rfl⟩

theorem retained_failJob {jobId documentId : UUID} {errorMessage : String}
    {attemptCount maxAttempts : Nat} {now : Time} (h : Retained db tx)
    (hs : failJob locked lockedDocuments jobId documentId errorMessage attemptCount maxAttempts now
      db tx = some tx') : Retained db tx' := by
  rw [failJob] at hs
  split at hs
  · simp only [Option.bind_eq_bind, Option.bind_eq_some_iff, Option.some.injEq] at hs
    obtain ⟨jobs, hj, documents, hd, rfl⟩ := hs
    exact ⟨h.jobs.update hj fun _ => rfl, h.documents.update hd fun _ => rfl⟩
  · simp only [Option.bind_eq_bind, Option.bind_eq_some_iff, Option.some.injEq] at hs
    obtain ⟨jobs, hj, rfl⟩ := hs
    exact ⟨h.jobs.update hj fun _ => rfl, h.documents⟩

theorem keepsRows_commit (h : Retained db tx) (documentIds : (db.documents.map Document.id).Nodup)
    (jobIds : (db.ingestionJobs.map IngestionJob.id).Nodup) : KeepsRows db (tx.commit db) where
  documents := map_cols_view h.documents documentIds fun _ _ same => congrArg Prod.fst same
  jobs := map_cols_view h.jobs jobIds fun _ _ same => congrArg Prod.fst same
  users _ hx := hx
  organizations _ ho := ho

theorem keepsRows_softDelete (documentId tenantId : UUID) (now : Time) (deleteError : Option StorageFault)
    (db : Database) (objects : ObjectStore) :
    KeepsRows db (softDeleteDocument documentId tenantId now deleteError db objects).2.1 := by
  rcases softDeleteDocument_db documentId tenantId now deleteError db objects with same | ⟨_, same⟩
  · rw [same]
    exact KeepsRows.refl db
  · rw [same]
    refine ⟨?_, rfl, fun _ hx => hx, fun _ ho => ho⟩
    rw [List.map_map]
    refine List.map_congr_left fun d _ => ?_
    rw [Function.comp_apply, deletedAs]
    split
    · rfl
    · rfl

end Workers

section WorkerSteps
variable {n : Nat} {cfg : WorkerMachine.Settings} {s t : WorkerMachine.World n}

/-- Every open transaction of a worker. -/
def AllRetained (s : WorkerMachine.World n) : Prop := ∀ v, Retained s.db (s.phase v).session

theorem allRetained_setPhase (h : AllRetained s) {v : Fin n} {p : WorkerMachine.Phase}
    (hp : Retained s.db p.session) : AllRetained (s.setPhase v p) := by
  intro x
  simp only [WorkerMachine.World.setPhase]
  split
  · exact hp
  · exact h x

theorem allRetained_keeps (h : AllRetained s) {db : Database} {objects : ObjectStore}
    (rows : KeepsRows s.db db) : AllRetained { s with db := db, objects := objects } :=
  fun v => (h v).keeps rows

/-- No statement of a worker writes the columns. -/
theorem retained_moves {e : WorkerMachine.Event n} {v : Fin n} {p : WorkerMachine.Phase}
    (own : Retained s.db (s.phase v).session) (m : WorkerRuns.Moves cfg s v e p)
    (notCommit : ∀ w, e ≠ .commit w) : Retained s.db p.session := by
  cases m with
  | resetStale now tx hv run => exact retained_resetStaleClaims (retained_empty s.db) run
  | claim now tx hv =>
    rw [hv] at own
    exact retained_claimQueued v.val now own
  | started now c tx hv run => exact retained_markRunning (retained_empty s.db) run
  | processed c tx chunks hv run =>
    rw [hv] at own
    exact own
  | complete chunkId now c tx tx' chunks hv run =>
    rw [hv] at own
    exact retained_completeJob own run
  | fail now c error tx hv run => exact retained_failJob (retained_empty s.db) run
  | commit _ _ => exact absurd rfl (notCommit v)
  | refused _ _ _ _ _ | broke _ _ _ _ _ | raise _ _ _ | drop _ _ | crash => exact retained_empty s.db

/-- A worker's step leaves the columns alone, whatever the worker still owns. -/
theorem worker_step {e : WorkerMachine.Event n} (h : AllRetained s)
    (documentIds : (s.db.documents.map Document.id).Nodup)
    (jobIds : (s.db.ingestionJobs.map IngestionJob.id).Nodup)
    (noUpload : ∀ u o, e ≠ .upload u o) (noAccounts : ∀ a b c, e ≠ .accounts a b c)
    (hs : WorkerMachine.step cfg s e = some t) : KeepsRows s.db t.db ∧ AllRetained t := by
  cases WorkerRuns.step_stepped cfg hs with
  | accounts a b c _ => exact absurd rfl (noAccounts a b c)
  | upload u o => exact absurd rfl (noUpload u o)
  | softDelete documentId tenantId now deleteError _ =>
    have rows := keepsRows_softDelete documentId tenantId now deleteError s.db s.objects
    exact ⟨rows, allRetained_keeps h rows⟩
  | moved _ v p notCommit m =>
    exact ⟨KeepsRows.refl s.db, allRetained_setPhase h (retained_moves (h v) m notCommit)⟩
  | commit v p m =>
    have rows := keepsRows_commit (h v) documentIds jobIds
    refine ⟨rows, allRetained_setPhase (allRetained_keeps h rows) ?_⟩
    rw [m.session]
    exact retained_empty _

end WorkerSteps

/-! ## What every run keeps -/

/-- The rows are told apart by their ids and, within a tenant, by content and by key; no
transaction has written over these columns, and uncommitted uploads still fit. -/
structure Inv {w u r : Nat} (cfg : WorkerMachine.Settings) (calls : Fin u → UploadRaces.Call)
    (s : World w u r) : Prop where
  documentIds : (s.db.documents.map Document.id).Nodup
  jobIds : (s.db.ingestionJobs.map IngestionJob.id).Nodup
  contents : (s.db.documents.map fun d => (d.tenantId, d.contentHash)).Nodup
  keys : (s.db.ingestionJobs.map fun j => (j.tenantId, j.idempotencyKey)).Nodup
  sessions : AllRetained s.deployment.workers
  opens : UploadRaces.OpenUploads cfg.sha256 calls s.db s.deployment.uploads

/-- Everything that one step can do to documents and jobs. -/
inductive Change {w u r : Nat} (cfg : WorkerMachine.Settings) (calls : Fin u → UploadRaces.Call)
    (s : World w u r) : Event w u r → World w u r → Prop
  | kept (e : Event w u r) (t : World w u r) (notCommit : ∀ i, e ≠ .deployment (.upload (.commit i)))
      (rows : KeepsRows s.db t.db) (sessions : AllRetained t.deployment.workers)
      (opens : UploadRaces.OpenUploads cfg.sha256 calls t.db t.deployment.uploads) :
      Change cfg calls s e t
  | committed (i : Fin u) (d : Document) (j : IngestionJob)
      (hi : s.deployment.uploads i = .inserted d j) :
      Change cfg calls s (.deployment (.upload (.commit i))) { s with
        deployment := s.deployment.withUploads ({ s.deployment.uploadWorld with db := { s.db with
          documents := s.db.documents ++ [d.row]
          ingestionJobs := s.db.ingestionJobs ++ [j.row] } }.setPhase i (.answered d j)) }

section Runs
variable {w u r : Nat} {cfg : WorkerMachine.Settings} {lower : String → String}
  {calls : Fin u → UploadRaces.Call} {requests : Fin r → LastAdmin.Request} {s t : World w u r}
  {e : Event w u r}

/-- New accounts or memberships under the same documents and jobs. -/
theorem Inv.beside (i : Inv cfg calls s) {db : Database} (rows : KeepsRows s.db db) :
    AllRetained { s.deployment.workers with db := db } ∧
      UploadRaces.OpenUploads cfg.sha256 calls db s.deployment.uploads :=
  ⟨allRetained_keeps i.sessions rows, i.opens.mono rows.insertable⟩

theorem request_step {v v' : LastAdmin.World r} {f : LastAdmin.Event r}
    (hs : LastAdmin.step lower requests v f = some v') : KeepsRows v.db v'.db := by
  cases LastAdmin.step_cases hs with
  | committed i p hi =>
    cases p with
    | creation o m => exact ⟨rfl, rfl, fun _ hx => hx, fun _ ho => List.mem_append_left _ ho⟩
    | invitation o => exact KeepsRows.refl v.db
    | acceptance o m => exact ⟨rfl, rfl, fun _ hx => hx, fun _ ho => ho⟩
    | removal m t => exact ⟨rfl, rfl, fun _ hx => hx, fun _ ho => ho⟩
  | _ => exact KeepsRows.refl v.db

/-- Only the commit of an upload writes to the database. -/
theorem upload_db {v v' : UploadRaces.World u} {f : UploadRaces.Event u}
    (notCommit : ∀ i, f ≠ .commit i) (change : UploadRaces.Change cfg.sha256 calls v f v') :
    v'.db = v.db := by
  cases change with
  | committed i d j hi => exact absurd rfl (notCommit i)
  | _ => rfl

theorem upload_change (i : Inv cfg calls s) {f : UploadRaces.Event u} {v : UploadRaces.World u}
    (hs : (UploadRaces.machine cfg.sha256 calls).step s.deployment.uploadWorld f = some v) :
    Change cfg calls s (.deployment (.upload f)) { s with deployment := s.deployment.withUploads v } := by
  by_cases commit : ∃ k, f = .commit k
  · obtain ⟨k, rfl⟩ := commit
    obtain ⟨d, j, hk, rfl⟩ := UploadRaces.step_commit hs
    exact .committed k d j hk
  · have change := UploadRaces.step_change hs
    have same : v.db = s.db := upload_db (fun k he => commit ⟨k, he⟩) change
    have opens := i.opens.change (s := s.deployment.uploadWorld) change
    refine .kept _ _ ?_ ?_ ?_ opens
    · intro k he
      cases he
      exact commit ⟨k, rfl⟩
    · exact same ▸ KeepsRows.refl s.db
    · exact allRetained_keeps i.sessions (same ▸ KeepsRows.refl s.db)

theorem step_change (i : Inv cfg calls s)
    (hs : (machine cfg lower calls requests).step s e = some t) : Change cfg calls s e t := by
  simp only [machine] at hs
  cases e with
  | login id email =>
    simp only [step] at hs
    split at hs
    · cases hs
      have rows : KeepsRows s.db { s.db with users := s.db.users ++ [(⟨id, email, true⟩ : User).row] } :=
        ⟨rfl, rfl, fun _ hx => List.mem_append_left _ hx, fun _ ho => ho⟩
      obtain ⟨sessions, opens⟩ := i.beside rows
      exact .kept _ _ nofun rows sessions opens
    · cases hs
  | request f =>
    obtain ⟨q, hq, rfl⟩ := Option.map_eq_some_iff.mp hs
    have rows : KeepsRows s.db q.db := request_step hq
    obtain ⟨sessions, opens⟩ := i.beside rows
    exact .kept _ _ nofun rows sessions opens
  | deployment f =>
    simp only [step, Option.ite_none_right_eq_some] at hs
    obtain ⟨entered, hs⟩ := hs
    obtain ⟨d, hd, rfl⟩ := Option.map_eq_some_iff.mp hs
    rcases Ownership.step_cases hd with ⟨g, v, rfl, noUpload, hv, rfl⟩ | ⟨g, v, rfl, hv, rfl⟩
    · have noAccounts : ∀ a b c, g ≠ .accounts a b c := by
        rintro a b c rfl
        cases entered
      obtain ⟨rows, sessions⟩ :=
        worker_step i.sessions i.documentIds i.jobIds noUpload noAccounts hv
      exact .kept _ _ nofun rows sessions (i.opens.mono rows.insertable)
    · exact upload_change i hv

theorem inv_kept (i : Inv cfg calls s) (rows : KeepsRows s.db t.db)
    (sessions : AllRetained t.deployment.workers)
    (opens : UploadRaces.OpenUploads cfg.sha256 calls t.db t.deployment.uploads) :
    Inv cfg calls t where
  documentIds := by
    rw [show t.db.documents.map Document.id = s.db.documents.map Document.id from
      map_of_columns rows.documents Prod.fst]
    exact i.documentIds
  jobIds := by
    rw [show t.db.ingestionJobs.map IngestionJob.id = s.db.ingestionJobs.map IngestionJob.id from
      map_of_columns rows.jobs Prod.fst]
    exact i.jobIds
  contents := by
    have same := map_of_columns rows.documents fun c => (c.2.2.1, c.2.2.2)
    exact same ▸ i.contents
  keys := by
    have same := map_of_columns rows.jobs fun c => (c.2.2.1, c.2.2.2)
    exact same ▸ i.keys
  sessions := sessions
  opens := opens

theorem inv_committed (i : Inv cfg calls s) {k : Fin u} {d : Document} {j : IngestionJob}
    (hk : s.deployment.uploads k = .inserted d j) :
    Inv cfg calls { s with
      deployment := s.deployment.withUploads ({ s.deployment.uploadWorld with db := { s.db with
        documents := s.db.documents ++ [d.row]
        ingestionJobs := s.db.ingestionJobs ++ [j.row] } }.setPhase k (.answered d j)) } := by
  obtain ⟨_, _, fits⟩ := i.opens.pending k d j hk
  constructor
  case documentIds => exact nodup_concat i.documentIds fits.docFresh
  case jobIds => exact nodup_concat i.jobIds fits.jobFresh
  case contents =>
    refine nodup_concat i.contents fun x hx same => ?_
    obtain ⟨tenant, content⟩ := Prod.mk.inj same
    exact fits.contentNew x hx tenant content
  case keys =>
    refine nodup_concat i.keys fun x hx same => ?_
    obtain ⟨tenant, key⟩ := Prod.mk.inj same
    exact fits.keyNew x hx tenant key
  case sessions =>
    intro v
    refine (i.sessions v).mono (fun x hx => ?_) fun x hx => ?_
    · exact ⟨x, List.mem_append_left _ hx, rfl⟩
    · exact ⟨x, List.mem_append_left _ hx, rfl⟩
  case opens => exact i.opens.committed (s := s.deployment.uploadWorld) hk

theorem inv_step (i : Inv cfg calls s)
    (hs : (machine cfg lower calls requests).step s e = some t) : Inv cfg calls t := by
  cases step_change i hs with
  | kept _ _ notCommit rows sessions opens => exact inv_kept i rows sessions opens
  | committed k d j hk => exact inv_committed i hk

theorem inv_start {db : Database} (objects : ObjectStore)
    (documentIds : (db.documents.map Document.id).Nodup)
    (jobIds : (db.ingestionJobs.map IngestionJob.id).Nodup)
    (contents : (db.documents.map fun d => (d.tenantId, d.contentHash)).Nodup)
    (keys : (db.ingestionJobs.map fun j => (j.tenantId, j.idempotencyKey)).Nodup) :
    Inv cfg calls (World.start db objects : World w u r) where
  documentIds := documentIds
  jobIds := jobIds
  contents := contents
  keys := keys
  sessions _ := retained_empty db
  opens := by
    constructor
    · intro i d j hi
      cases hi
    · intro i k c a d b _ hi
      cases hi

end Runs

end Platform
