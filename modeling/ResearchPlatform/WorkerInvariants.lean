import ResearchPlatform.WorkerMachine

/-!
# What every interleaving of workers keeps

Each uncommitted row version is a known function of the committed row under it,
because its lock keeps that row still. From this, the claims that workers
remember never run ahead of the committed rows, and no two of them agree on the
attempt. Nothing here assumes that a worker still owns the job it writes.
-/

namespace WorkerInvariants

open Uuid Schema RowVersions DocumentService JobService WorkerMachine Machines

/-! ## Uncommitted versions -/

/-- `q` is what a claim transaction makes of the committed row `j`, which it may
have reset itself. -/
def ClaimVersion (j q : IngestionJob) : Prop :=
  ∃ b worker now, (b = j ∨ j.status = .claimed ∧ b = requeued j) ∧ claimable b = true ∧
    q = claimedBy worker now b

/-- `q` is the version of the committed row `j` that a worker in phase `p` has written. -/
def PendingJob (p : Phase) (j q : IngestionJob) : Prop :=
  match p with
  | .requeued _ | .selected _ none => j.status = .claimed ∧ q = requeued j
  | .selected _ (some c) => j.status = .claimed ∧ q = requeued j ∨ q = c ∧ ClaimVersion j c
  | .running c _ | .processed c _ _ =>
      j.id = c.id ∧ j.version = c.version ∧ ∃ now, q = startedAs c.version now j
  | .storing c _ =>
      j.id = c.id ∧ j.version = c.version ∧
        ∃ now later, q = completedAs later (startedAs c.version now j)
  | .failing c _ =>
      j.id = c.id ∧ ((c.maxAttempts ≤ c.attemptCount ∧ ∃ e, q = deadAs e j) ∨
        c.attemptCount < c.maxAttempts ∧ ∃ e, q = retriedAs e j)
  | .idle | .holding _ | .raised _ _ => False

def PendingDocument (p : Phase) (d q : Document) : Prop :=
  match p with
  | .storing c tx => d.id = c.documentId ∧ ∃ now, q = readyAs tx.chunks.length now d
  | .failing c _ =>
      d.id = c.documentId ∧ c.maxAttempts ≤ c.attemptCount ∧ ∃ e now, q = failedAs e now d
  | _ => False

/-- The row locks that a phase cannot be without. -/
def Held (p : Phase) : Prop :=
  match p with
  | .selected tx (some c) => c ∈ tx.jobs ∧ c.status = .claimed
  | .running c tx | .processed c tx _ => Locks IngestionJob.id tx.jobs c.id
  | .storing c tx => Locks IngestionJob.id tx.jobs c.id ∧ Locks Document.id tx.documents c.documentId
  | .failing c tx => Locks IngestionJob.id tx.jobs c.id ∧
      (c.maxAttempts ≤ c.attemptCount → Locks Document.id tx.documents c.documentId)
  | _ => True

/-- Chunk rows are pending only between `complete_job` and its commit. -/
def ChunksOk (p : Phase) : Prop :=
  match p with
  | .storing c tx => tx.chunks.map Chunk.chunkIndex = List.range tx.chunks.length ∧
      ∀ x ∈ tx.chunks, x.documentId = c.documentId ∧ x.userId = c.userId ∧ x.tenantId = c.tenantId
  | .processed _ tx chunks =>
      tx.chunks = [] ∧ chunks.map ChunkData.chunkIndex = List.range chunks.length
  | p => p.session.chunks = []

structure PhaseOk (db : Database) (p : Phase) : Prop where
  jobs : ∀ q ∈ p.session.jobs, ∃ j ∈ db.ingestionJobs, j.id = q.id ∧ PendingJob p j q
  documents : ∀ q ∈ p.session.documents, ∃ d ∈ db.documents, d.id = q.id ∧ PendingDocument p d q
  jobIds : (p.session.jobs.map IngestionJob.id).Nodup
  docIds : (p.session.documents.map Document.id).Nodup
  held : Held p
  chunks : ChunksOk p

/-- A phase stays sound while the rows it has locked stay as they are. -/
theorem PhaseOk.mono {db db' : Database} {p : Phase} (h : PhaseOk db p)
    (jobs : ∀ j ∈ db.ingestionJobs, Locks IngestionJob.id p.session.jobs j.id →
      j ∈ db'.ingestionJobs)
    (documents : ∀ d ∈ db.documents, Locks Document.id p.session.documents d.id →
      d ∈ db'.documents) : PhaseOk db' p where
  jobs q hq := by
    obtain ⟨j, hj, hid, hp⟩ := h.jobs q hq
    exact ⟨j, jobs j hj ⟨q, hq, hid.symm⟩, hid, hp⟩
  documents q hq := by
    obtain ⟨d, hd, hid, hp⟩ := h.documents q hq
    exact ⟨d, documents d hd ⟨q, hq, hid.symm⟩, hid, hp⟩
  jobIds := h.jobIds
  docIds := h.docIds
  held := h.held
  chunks := h.chunks

/-- A phase without an open transaction. -/
theorem phaseOk_of_no_session {db : Database} {p : Phase} (empty : p.session = Session.empty)
    (held : Held p) (chunks : ChunksOk p) : PhaseOk db p where
  jobs q hq := by rw [empty] at hq; cases hq
  documents q hq := by rw [empty] at hq; cases hq
  jobIds := by rw [empty]; exact List.nodup_nil
  docIds := by rw [empty]; exact List.nodup_nil
  held := held
  chunks := chunks

/-! ## How a job row moves -/

/-- What all versions of one job share, and how its counters go. -/
structure Advances (j q : IngestionJob) : Prop where
  id : q.id = j.id
  documentId : q.documentId = j.documentId
  userId : q.userId = j.userId
  tenantId : q.tenantId = j.tenantId
  idempotencyKey : q.idempotencyKey = j.idempotencyKey
  maxAttempts : q.maxAttempts = j.maxAttempts
  version : j.version ≤ q.version
  attemptCount : j.attemptCount ≤ q.attemptCount
  ticket : q.version = j.version → q.attemptCount = j.attemptCount

theorem Advances.refl (j : IngestionJob) : Advances j j :=
  ⟨rfl, rfl, rfl, rfl, rfl, rfl, le_rfl, le_rfl, fun _ => rfl⟩

theorem claimVersion_advances {j q : IngestionJob} (h : ClaimVersion j q) :
    Advances j q ∧ q.version = j.version + 1 ∧ q.attemptCount = j.attemptCount + 1 := by
  obtain ⟨b, worker, now, hb, _, rfl⟩ := h
  rcases hb with rfl | ⟨_, rfl⟩
  · exact ⟨⟨rfl, rfl, rfl, rfl, rfl, rfl, Nat.le_succ _, Nat.le_succ _,
      fun h => absurd h (Nat.succ_ne_self _)⟩, rfl, rfl⟩
  · exact ⟨⟨rfl, rfl, rfl, rfl, rfl, rfl, Nat.le_succ _, Nat.le_succ _,
      fun h => absurd h (Nat.succ_ne_self _)⟩, rfl, rfl⟩

/-- The statements behind a version of the committed row `j`, whoever has written it. -/
inductive Written (p : Phase) (j : IngestionJob) : IngestionJob → Prop
  | reset (claimed : j.status = .claimed) : Written p j (requeued j)
  | claimed (q : IngestionJob) (version : ClaimVersion j q) : Written p j q
  | started (now : Time) : Written p j (startedAs j.version now j)
  | completed (now later : Time) : Written p j (completedAs later (startedAs j.version now j))
  | buried (c : IngestionJob) (tx : Session) (error : String) (failing : p = .failing c tx)
      (same : j.id = c.id) (last : c.maxAttempts ≤ c.attemptCount) : Written p j (deadAs error j)
  | retried (c : IngestionJob) (tx : Session) (error : String) (failing : p = .failing c tx)
      (same : j.id = c.id) (left : c.attemptCount < c.maxAttempts) : Written p j (retriedAs error j)

theorem pendingJob_written {p : Phase} {j q : IngestionJob} (h : PendingJob p j q) : Written p j q := by
  cases p with
  | idle | holding _ | raised _ _ => exact h.elim
  | requeued tx => exact h.2 ▸ .reset h.1
  | selected tx c =>
    cases c with
    | none => exact h.2 ▸ .reset h.1
    | some c =>
      rcases h with ⟨claimed, rfl⟩ | ⟨rfl, version⟩
      · exact .reset claimed
      · exact .claimed _ version
  | running c tx | processed c tx _ =>
    obtain ⟨_, same, now, rfl⟩ := h
    exact same ▸ .started now
  | storing c tx =>
    obtain ⟨_, same, now, later, rfl⟩ := h
    exact same ▸ .completed now later
  | failing c tx =>
    obtain ⟨same, ⟨last, error, rfl⟩ | ⟨left, error, rfl⟩⟩ := h
    · exact .buried c tx error rfl same last
    · exact .retried c tx error rfl same left

theorem pendingJob_advances {p : Phase} {j q : IngestionJob} (h : PendingJob p j q) :
    Advances j q := by
  cases pendingJob_written h with
  | claimed q version => exact (claimVersion_advances version).1
  | started now | completed now later =>
    exact ⟨rfl, rfl, rfl, rfl, rfl, rfl, Nat.le_succ j.version, le_rfl, fun _ => rfl⟩
  | reset _ | buried _ _ _ _ _ _ | retried _ _ _ _ _ _ =>
    exact ⟨rfl, rfl, rfl, rfl, rfl, rfl, le_rfl, le_rfl, fun _ => rfl⟩

/-- A claim transaction moves rows between 'queued' and 'claimed'. -/
theorem pendingJob_selected {tx : Session} {job : Option IngestionJob} {j q : IngestionJob}
    (h : PendingJob (.selected tx job) j q) :
    (j.status = .queued ∨ j.status = .claimed) ∧ (q.status = .queued ∨ q.status = .claimed) := by
  have reset : j.status = .claimed ∧ q = requeued j →
      (j.status = .queued ∨ j.status = .claimed) ∧ (q.status = .queued ∨ q.status = .claimed) := by
    rintro ⟨claimed, rfl⟩
    exact ⟨Or.inr claimed, Or.inl rfl⟩
  cases job with
  | none => exact reset h
  | some c =>
    rcases h with h | ⟨rfl, b, worker, now, hb, claimable, rfl⟩
    · exact reset h
    · refine ⟨?_, Or.inr rfl⟩
      rcases hb with rfl | ⟨claimed, _⟩
      · simp only [JobService.claimable, Bool.and_eq_true, decide_eq_true_eq] at claimable
        exact Or.inl claimable.1
      · exact Or.inr claimed

/-- Without a new version, a row moves only by a reset or by a `fail_job`. -/
theorem pendingJob_same_version {p : Phase} {j q : IngestionJob} (h : PendingJob p j q)
    (same : q.version = j.version) :
    j.status = .claimed ∧ q = requeued j ∨
      ∃ c tx, p = .failing c tx ∧ j.id = c.id ∧
        ((c.maxAttempts ≤ c.attemptCount ∧ ∃ e, q = deadAs e j) ∨
          c.attemptCount < c.maxAttempts ∧ ∃ e, q = retriedAs e j) := by
  cases pendingJob_written h with
  | reset claimed => exact Or.inl ⟨claimed, rfl⟩
  | claimed q version =>
    have new := (claimVersion_advances version).2.1
    omega
  | started now | completed now later =>
    simp only [completedAs, startedAs] at same
    omega
  | buried c tx error failing id last =>
    exact Or.inr ⟨c, tx, failing, id, Or.inl ⟨last, error, rfl⟩⟩
  | retried c tx error failing id left =>
    exact Or.inr ⟨c, tx, failing, id, Or.inr ⟨left, error, rfl⟩⟩

theorem pendingJob_attempts {p : Phase} {j q : IngestionJob} (h : PendingJob p j q)
    (bound : j.attemptCount ≤ j.maxAttempts) : q.attemptCount ≤ q.maxAttempts := by
  cases pendingJob_written h with
  | claimed q version =>
    obtain ⟨b, worker, now, _, claimable, rfl⟩ := version
    simp only [JobService.claimable, Bool.and_eq_true, decide_eq_true_eq] at claimable
    simp only [claimedBy]
    omega
  | reset _ | started _ | completed _ _ | buried _ _ _ _ _ _ | retried _ _ _ _ _ _ => exact bound

theorem Advances.trans {i j k : IngestionJob} (h : Advances i j) (g : Advances j k) :
    Advances i k where
  id := g.id.trans h.id
  documentId := g.documentId.trans h.documentId
  userId := g.userId.trans h.userId
  tenantId := g.tenantId.trans h.tenantId
  idempotencyKey := g.idempotencyKey.trans h.idempotencyKey
  maxAttempts := g.maxAttempts.trans h.maxAttempts
  version := h.version.trans g.version
  attemptCount := h.attemptCount.trans g.attemptCount
  ticket := by
    intro e
    have hv := h.version
    have gv := g.version
    exact (g.ticket (by omega)).trans (h.ticket (by omega))

/-- What no worker changes of a document row. -/
structure SameUpload (d q : Document) : Prop where
  id : q.id = d.id
  userId : q.userId = d.userId
  tenantId : q.tenantId = d.tenantId
  filename : q.filename = d.filename
  contentHash : q.contentHash = d.contentHash
  storageKey : q.storageKey = d.storageKey
  deletedAt : q.deletedAt = d.deletedAt

theorem SameUpload.refl (d : Document) : SameUpload d d := ⟨rfl, rfl, rfl, rfl, rfl, rfl, rfl⟩

theorem pendingDocument_same {p : Phase} {d q : Document} (h : PendingDocument p d q) :
    SameUpload d q := by
  cases p with
  | storing c tx =>
    obtain ⟨_, now, rfl⟩ := h
    exact ⟨rfl, rfl, rfl, rfl, rfl, rfl, rfl⟩
  | failing c tx =>
    obtain ⟨_, _, e, now, rfl⟩ := h
    exact ⟨rfl, rfl, rfl, rfl, rfl, rfl, rfl⟩
  | _ => exact h.elim

/-! ## The invariant -/

/-- The keys and the ownership that the committed tables keep. -/
structure Stored (db : Database) : Prop where
  jobIds : (db.ingestionJobs.map IngestionJob.id).Nodup
  docIds : (db.documents.map Document.id).Nodup
  jobDocs : (db.ingestionJobs.map IngestionJob.documentId).Nodup
  docOfJob : ∀ j ∈ db.ingestionJobs, ∃ d ∈ db.documents,
    d.id = j.documentId ∧ d.userId = j.userId ∧ d.tenantId = j.tenantId
  jobOfDoc : ∀ d ∈ db.documents, ∃ j ∈ db.ingestionJobs, j.documentId = d.id
  docOfChunk : ∀ c ∈ db.chunks, ∃ d ∈ db.documents,
    d.id = c.documentId ∧ d.userId = c.userId ∧ d.tenantId = c.tenantId
  storageKey : ∀ d ∈ db.documents, ∃ filename, d.storageKey = some (storageKey d.tenantId d.id filename)
  attempts : ∀ j ∈ db.ingestionJobs, j.attemptCount ≤ j.maxAttempts
  members : ∀ m ∈ db.orgMemberships,
    (∃ u ∈ db.users, u.id = m.userId) ∧ ∃ o ∈ db.organizations, o.id = m.orgId

theorem stored_empty : Stored Database.empty where
  jobIds := List.nodup_nil
  docIds := List.nodup_nil
  jobDocs := List.nodup_nil
  docOfJob := by simp [Database.empty]
  jobOfDoc := by simp [Database.empty]
  docOfChunk := by simp [Database.empty]
  storageKey := by simp [Database.empty]
  attempts := by simp [Database.empty]
  members := by simp [Database.empty]

section Worlds
variable {n : Nat} {s : World n} {w : Fin n} {p : Phase}

@[simp] theorem setPhase_db : (s.setPhase w p).db = s.db := rfl

@[simp] theorem setPhase_self : (s.setPhase w p).phase w = p := if_pos rfl

theorem setPhase_of_ne {v : Fin n} (h : v ≠ w) : (s.setPhase w p).phase v = s.phase v := if_neg h

structure Sound (s : World n) : Prop where
  stored : Stored s.db
  phases : ∀ w, PhaseOk s.db (s.phase w)
  jobLocks : ∀ v w k, v ≠ w → Locks IngestionJob.id (s.phase v).session.jobs k →
    ¬ Locks IngestionJob.id (s.phase w).session.jobs k
  docLocks : ∀ v w k, v ≠ w → Locks Document.id (s.phase v).session.documents k →
    ¬ Locks Document.id (s.phase w).session.documents k
  claims : ∀ w c, (s.phase w).claim = some c → ∃ j ∈ s.db.ingestionJobs, Advances c j
  tickets : ∀ v w b c, v ≠ w → (s.phase v).claim = some b → (s.phase w).claim = some c →
    b.id = c.id → b.attemptCount ≠ c.attemptCount

theorem sound_start (n : Nat) : Sound (World.start n) where
  stored := stored_empty
  phases w := phaseOk_of_no_session rfl trivial rfl
  jobLocks := by simp [World.start, Phase.session, Session.empty]
  docLocks := by simp [World.start, Phase.session, Session.empty]
  claims := by simp [World.start, Phase.claim]
  tickets := by simp [World.start, Phase.claim]

/-! ## Steps inside one worker -/

/-- A statement of worker `w` that takes it to phase `p`: it locks only free
rows, and it keeps or drops the claim. -/
structure LocalStep (s : World n) (w : Fin n) (p : Phase) : Prop where
  ok : PhaseOk s.db p
  jobLocks : ∀ k, Locks IngestionJob.id p.session.jobs k →
    Locks IngestionJob.id (s.phase w).session.jobs k ∨ ¬ s.JobLocked w k
  docLocks : ∀ k, Locks Document.id p.session.documents k →
    Locks Document.id (s.phase w).session.documents k ∨ ¬ s.DocumentLocked w k
  claim : ∀ c, p.claim = some c → (s.phase w).claim = some c

theorem LocalStep.no_session (empty : p.session = Session.empty) (held : Held p)
    (chunks : ChunksOk p) (claim : ∀ c, p.claim = some c → (s.phase w).claim = some c) :
    LocalStep s w p where
  ok := phaseOk_of_no_session empty held chunks
  jobLocks k hk := by rw [empty] at hk; exact absurd hk (not_locks_nil k)
  docLocks k hk := by rw [empty] at hk; exact absurd hk (not_locks_nil k)
  claim := claim

/-- Locks stay exclusive when one worker takes only rows that are free. -/
theorem exclusive_setPhase (L : Phase → UUID → Prop)
    (exclusive : ∀ v u k, v ≠ u → L (s.phase v) k → ¬ L (s.phase u) k)
    (free : ∀ k, L p k → L (s.phase w) k ∨ ¬ ∃ v, v ≠ w ∧ L (s.phase v) k) :
    ∀ v u k, v ≠ u → L ((s.setPhase w p).phase v) k → ¬ L ((s.setPhase w p).phase u) k := by
  intro v u k hne hv hu
  by_cases h₁ : v = w
  · subst h₁
    rw [setPhase_self] at hv
    rw [setPhase_of_ne hne.symm] at hu
    rcases free k hv with old | none
    · exact exclusive v u k hne old hu
    · exact none ⟨u, hne.symm, hu⟩
  · rw [setPhase_of_ne h₁] at hv
    by_cases h₂ : u = w
    · subst h₂
      rw [setPhase_self] at hu
      rcases free k hu with old | none
      · exact exclusive v u k hne hv old
      · exact none ⟨v, hne, hv⟩
    · rw [setPhase_of_ne h₂] at hu
      exact exclusive v u k hne hv hu

/-- Statements inside one worker keep the invariant: the database is untouched. -/
theorem Sound.local (h : Sound s) (l : LocalStep s w p) : Sound (s.setPhase w p) where
  stored := h.stored
  phases v := by
    by_cases hv : v = w
    · subst hv
      simpa using l.ok
    · simpa only [setPhase_db, setPhase_of_ne hv] using h.phases v
  jobLocks := exclusive_setPhase (fun p => Locks IngestionJob.id p.session.jobs) h.jobLocks l.jobLocks
  docLocks := exclusive_setPhase (fun p => Locks Document.id p.session.documents) h.docLocks l.docLocks
  claims v c hc := by
    by_cases hv : v = w
    · subst hv
      rw [setPhase_self] at hc
      exact h.claims v c (l.claim c hc)
    · rw [setPhase_of_ne hv] at hc
      exact h.claims v c hc
  tickets v u b c hne hb hc hid := by
    have old : ∀ x y, ((s.setPhase w p).phase x).claim = some y → (s.phase x).claim = some y := by
      intro x y hy
      by_cases hx : x = w
      · subst hx
        rw [setPhase_self] at hy
        exact l.claim y hy
      · rwa [setPhase_of_ne hx] at hy
    exact h.tickets v u b c hne (old v b hb) (old u c hc) hid

/-- Before `complete_job` a process transaction has written only its job row. -/
theorem documents_eq_nil {db : Database} (ok : PhaseOk db p)
    (none : ∀ d q, ¬ PendingDocument p d q) : p.session.documents = [] := by
  apply List.eq_nil_iff_forall_not_mem.mpr
  intro q hq
  obtain ⟨d, _, _, hp⟩ := ok.documents q hq
  exact none d q hp

theorem localStep_resetStale (h : Sound s) {staleTimeout now : Time} {tx : Session}
    (run : resetStaleClaims (s.JobLocked w) staleTimeout now s.db Session.empty = some tx) :
    LocalStep s w (.requeued tx) := by
  simp only [resetStaleClaims, Option.map_eq_some_iff] at run
  obtain ⟨⟨jobs, count⟩, hu, rfl⟩ := run
  have keeps : ∀ j, (requeued j).id = j.id := fun _ => rfl
  refine ⟨⟨?_, ?_, nodup_update keeps hu h.stored.jobIds List.nodup_nil, List.nodup_nil, trivial, rfl⟩,
    ?_, ?_, ?_⟩
  · intro q hq
    obtain ⟨j, hj, hit, rfl⟩ := mem_first_update keeps hu hq
    simp only [isStale, Bool.and_eq_true, decide_eq_true_eq] at hit
    exact ⟨j, hj, rfl, hit.1, rfl⟩
  · intro q hq
    exact absurd hq List.not_mem_nil
  · intro k hk
    exact Or.inr (first_update_locks keeps hu hk)
  · intro k hk
    exact absurd hk (not_locks_nil k)
  · intro c hc
    cases hc

/-- The picked row is claimable, free, and committed up to an own reset. -/
theorem nextQueued_spec {locked : UUID → Prop} [DecidablePred locked] {db : Database}
    {tx : Session} {b : IngestionJob} (hb : nextQueued locked db tx = some b) :
    b ∈ view IngestionJob.id tx.jobs db.ingestionJobs ∧ claimable b = true ∧ ¬ locked b.id := by
  have hm := mem_orderByAsc.mp (List.mem_of_head? hb)
  obtain ⟨hv, hc⟩ := List.mem_filter.mp hm
  simp only [Bool.and_eq_true, decide_eq_true_eq] at hc
  exact ⟨hv, hc.1, hc.2⟩

theorem localStep_claim (h : Sound s) {tx : Session} (hw : s.phase w = .requeued tx)
    (worker : Nat) (now : Time) :
    LocalStep s w (.selected (claimQueued (s.JobLocked w) worker now s.db tx).1
      (claimQueued (s.JobLocked w) worker now s.db tx).2) := by
  have ok : PhaseOk s.db (.requeued tx) := hw ▸ h.phases w
  have noDocs : tx.documents = [] := documents_eq_nil ok fun _ _ hp => hp
  rw [claimQueued]
  cases hb : nextQueued (s.JobLocked w) s.db tx with
  | none =>
    refine ⟨⟨ok.jobs, ok.documents, ok.jobIds, ok.docIds, trivial, ok.chunks⟩, ?_, ?_, ?_⟩
    · intro k hk
      exact Or.inl (by rw [hw]; exact hk)
    · intro k hk
      exact Or.inl (by rw [hw]; exact hk)
    · intro c hc
      cases hc
  | some b =>
    obtain ⟨hv, hc, free⟩ := nextQueued_spec hb
    refine ⟨⟨?_, ?_, nodup_write (List.nodup_singleton _) ok.jobIds, ok.docIds, ?_, ok.chunks⟩,
      ?_, ?_, ?_⟩
    · intro q hq
      rcases mem_write_cases hq with hq | ⟨hq, _⟩
      · rw [List.mem_singleton] at hq
        subst hq
        obtain ⟨j, hj, hid, own | ⟨rfl, _⟩⟩ := mem_view_cases hv
        · obtain ⟨j', hj', hid', hs, hr⟩ := ok.jobs b own
          exact ⟨j', hj', hid', Or.inr ⟨rfl, b, worker, now, Or.inr ⟨hs, hr⟩, hc, rfl⟩⟩
        · exact ⟨b, hj, rfl, Or.inr ⟨rfl, b, worker, now, Or.inl rfl, hc, rfl⟩⟩
      · obtain ⟨j, hj, hid, hp⟩ := ok.jobs q hq
        exact ⟨j, hj, hid, Or.inl hp⟩
    · intro q hq
      exact absurd (noDocs ▸ hq) List.not_mem_nil
    · exact ⟨List.mem_append_left _ (List.mem_singleton.mpr rfl), rfl⟩
    · intro k hk
      rcases locks_write_iff.mp hk with ⟨q, hq, rfl⟩ | old
      · rw [List.mem_singleton] at hq
        subst hq
        exact Or.inr free
      · exact Or.inl (by rw [hw]; exact old)
    · intro k hk
      exact Or.inl (by rw [hw]; exact hk)
    · intro c hc'
      cases hc'

theorem localStep_markRunning (h : Sound s) {c : IngestionJob} (hw : s.phase w = .holding c)
    {now : Time} {r : Session × Bool}
    (run : JobService.markRunning (s.JobLocked w) c.id c.version now s.db Session.empty = some r) :
    LocalStep s w (if r.2 then .running c r.1 else .idle) := by
  simp only [JobService.markRunning, Option.map_eq_some_iff] at run
  obtain ⟨⟨jobs, count⟩, hu, rfl⟩ := run
  have keeps : ∀ j, (startedAs c.version now j).id = j.id := fun _ => rfl
  by_cases hn : 0 < count
  · simp only [hn, decide_true, if_true]
    refine ⟨⟨?_, ?_, nodup_update keeps hu h.stored.jobIds List.nodup_nil, List.nodup_nil, ?_, rfl⟩,
      ?_, ?_, ?_⟩
    · intro q hq
      obtain ⟨j, hj, hit, rfl⟩ := mem_first_update keeps hu hq
      simp only [Bool.and_eq_true, decide_eq_true_eq] at hit
      exact ⟨j, hj, rfl, hit.1, hit.2, now, rfl⟩
    · intro q hq
      exact absurd hq List.not_mem_nil
    · obtain ⟨_, _, rfl⟩ := update_spec hu
      obtain ⟨j, hj⟩ := List.exists_mem_of_length_pos hn
      obtain ⟨hv, hit⟩ := List.mem_filter.mp hj
      have locked := (update_locks_hit keeps hu hv hit).2
      simp only [Bool.and_eq_true, decide_eq_true_eq] at hit
      show Locks IngestionJob.id _ c.id
      rw [← hit.1]
      exact locked
    · intro k hk
      exact Or.inr (first_update_locks keeps hu hk)
    · intro k hk
      exact absurd hk (not_locks_nil k)
    · intro b hb
      rw [hw]
      exact hb
  · simp only [hn, decide_false, Bool.false_eq_true, if_false]
    exact .no_session rfl trivial rfl fun b hb => by cases hb

theorem fetchAndProcess_indices {cfg : Settings} {db : Database} {objects : ObjectStore}
    {tx : Session} {documentId : UUID} {chunks : List ChunkData}
    (run : fetchAndProcess cfg db objects tx documentId = .ok chunks) :
    chunks.map ChunkData.chunkIndex = List.range chunks.length := by
  simp only [fetchAndProcess] at run
  split at run
  · cases run
  · split at run
    · cases run
    · split at run
      · cases run
      · exact process_indices run

theorem localStep_process (cfg : Settings) (h : Sound s) {c : IngestionJob} {tx : Session}
    (hw : s.phase w = .running c tx) :
    LocalStep s w (match fetchAndProcess cfg s.db s.objects tx c.documentId with
      | .ok chunks => .processed c tx chunks
      | .error e => .raised c e) := by
  have ok : PhaseOk s.db (.running c tx) := hw ▸ h.phases w
  cases hp : fetchAndProcess cfg s.db s.objects tx c.documentId with
  | error e =>
    refine .no_session rfl trivial rfl fun b hb => ?_
    rw [hw]
    exact hb
  | ok chunks =>
    refine ⟨⟨ok.jobs, ok.documents, ok.jobIds, ok.docIds, ok.held,
      ok.chunks, fetchAndProcess_indices hp⟩, ?_, ?_, ?_⟩
    · intro k hk
      exact Or.inl (by rw [hw]; exact hk)
    · intro k hk
      exact Or.inl (by rw [hw]; exact hk)
    · intro b hb
      rw [hw]
      exact hb

theorem localStep_complete (h : Sound s) {c : IngestionJob} {tx tx' : Session}
    {chunks : List ChunkData} (hw : s.phase w = .processed c tx chunks)
    {chunkId : Nat → UUID} {now : Time}
    (run : completeJob (s.JobLocked w) (s.DocumentLocked w) c.id c.documentId chunks c.userId
      c.tenantId chunkId now s.db tx = some tx') :
    LocalStep s w (.storing c tx') := by
  have ok : PhaseOk s.db (.processed c tx chunks) := hw ▸ h.phases w
  have noDocs : tx.documents = [] := documents_eq_nil ok fun _ _ hp => hp
  obtain ⟨noChunks, indices⟩ : tx.chunks = [] ∧
    chunks.map ChunkData.chunkIndex = List.range chunks.length := ok.chunks
  simp only [completeJob, Option.bind_eq_bind, Option.bind_eq_some_iff, Option.some.injEq] at run
  obtain ⟨⟨docs, docCount⟩, hd, ⟨jobs, jobCount⟩, hj, rfl⟩ := run
  have jobKeeps : ∀ j, (completedAs now j).id = j.id := fun _ => rfl
  have docKeeps : ∀ d, (readyAs chunks.length now d).id = d.id := fun _ => rfl
  rw [noDocs] at hd
  refine ⟨⟨?_, ?_, nodup_update jobKeeps hj h.stored.jobIds ok.jobIds,
    nodup_update docKeeps hd h.stored.docIds List.nodup_nil, ⟨?_, ?_⟩, ?_⟩, ?_, ?_, ?_⟩
  · intro q hq
    rcases mem_update_cases jobKeeps hj hq with ⟨r, hr, hit, _, rfl⟩ | ⟨hq, missed⟩
    · obtain ⟨j, hjm, hid, own | ⟨_, free⟩⟩ := mem_view_cases hr
      · obtain ⟨j', hj', hid', hjc, hv, t, rfl⟩ := ok.jobs r own
        exact ⟨j', hj', hid', hjc, hv, t, now, rfl⟩
      · have same : r.id = c.id := by simpa using hit
        exact absurd ok.held (by rwa [hid, same] at free)
    · obtain ⟨j, hjm, hid, hjc, _⟩ := ok.jobs q hq
      obtain ⟨x, hx, hxj⟩ := exists_mem_view IngestionJob.id tx.jobs hjm
      exact absurd (by simpa using hxj.trans hjc) (missed x hx (hxj.trans hid))
  · intro q hq
    obtain ⟨d, hdm, hit, rfl⟩ := mem_first_update docKeeps hd hq
    refine ⟨d, hdm, rfl, by simpa using hit, now, ?_⟩
    simp [noChunks]
  · obtain ⟨q, hq, hqc⟩ := ok.held
    obtain ⟨j, hjm, hid, _⟩ := ok.jobs q hq
    obtain ⟨x, hx, hxj⟩ := exists_mem_view IngestionJob.id tx.jobs hjm
    have hxc : x.id = c.id := hxj.trans (hid.trans hqc)
    exact hxc ▸ (update_locks_hit jobKeeps hj hx (by simpa using hxc)).2
  · obtain ⟨j, hjm, adv⟩ := h.claims w c (by rw [hw]; rfl)
    obtain ⟨d, hdm, hid, _⟩ := h.stored.docOfJob j hjm
    have hdc : d.id = c.documentId := hid.trans adv.documentId
    exact hdc ▸ (update_locks_hit docKeeps hd (by simpa using hdm) (by simpa using hdc)).2
  · refine ⟨?_, ?_⟩
    · rw [noChunks, List.nil_append, chunkRow_indices, indices, List.length_mapIdx]
    · intro x hx
      simp only [noChunks, List.nil_append, List.mem_mapIdx] at hx
      obtain ⟨i, hi, rfl⟩ := hx
      exact ⟨rfl, rfl, rfl⟩
  · intro k hk
    rw [hw]
    exact update_locks jobKeeps hj hk
  · intro k hk
    exact Or.inr (first_update_locks docKeeps hd hk)
  · intro b hb
    rw [hw]
    exact hb

theorem localStep_fail (h : Sound s) {c : IngestionJob} {error : String} {tx : Session}
    (hw : s.phase w = .raised c error) {now : Time}
    (run : failJob (s.JobLocked w) (s.DocumentLocked w) c.id c.documentId error
      c.attemptCount c.maxAttempts now s.db Session.empty = some tx) :
    LocalStep s w (.failing c tx) := by
  have deadKeeps : ∀ j, (deadAs error j).id = j.id := fun _ => rfl
  have retryKeeps : ∀ j, (retriedAs error j).id = j.id := fun _ => rfl
  have failKeeps : ∀ d, (failedAs error now d).id = d.id := fun _ => rfl
  obtain ⟨j, hjm, adv⟩ := h.claims w c (by rw [hw]; rfl)
  have hjv : j ∈ view IngestionJob.id [] s.db.ingestionJobs := by simpa using hjm
  rw [failJob] at run
  split at run
  · rename_i spent
    simp only [Option.bind_eq_bind, Option.bind_eq_some_iff, Option.some.injEq] at run
    obtain ⟨⟨jobs, jobCount⟩, hj, ⟨docs, docCount⟩, hd, rfl⟩ := run
    refine ⟨⟨?_, ?_, nodup_update deadKeeps hj h.stored.jobIds List.nodup_nil,
      nodup_update failKeeps hd h.stored.docIds List.nodup_nil, ⟨?_, ?_⟩, rfl⟩, ?_, ?_, ?_⟩
    · intro q hq
      obtain ⟨r, hr, hit, rfl⟩ := mem_first_update deadKeeps hj hq
      exact ⟨r, hr, rfl, by simpa using hit, Or.inl ⟨spent, error, rfl⟩⟩
    · intro q hq
      obtain ⟨d, hdm, hit, rfl⟩ := mem_first_update failKeeps hd hq
      exact ⟨d, hdm, rfl, by simpa using hit, spent, error, now, rfl⟩
    · exact adv.id ▸ (update_locks_hit deadKeeps hj hjv (by simpa using adv.id)).2
    · intro _
      obtain ⟨d, hdm, hid, _⟩ := h.stored.docOfJob j hjm
      have hdc : d.id = c.documentId := hid.trans adv.documentId
      have hdv : d ∈ view Document.id [] s.db.documents := by simpa using hdm
      exact hdc ▸ (update_locks_hit failKeeps hd hdv (by simpa using hdc)).2
    · intro k hk
      exact Or.inr (first_update_locks deadKeeps hj hk)
    · intro k hk
      exact Or.inr (first_update_locks failKeeps hd hk)
    · intro b hb
      rw [hw]
      exact hb
  · rename_i left
    simp only [Option.bind_eq_bind, Option.bind_eq_some_iff, Option.some.injEq] at run
    obtain ⟨⟨jobs, jobCount⟩, hj, rfl⟩ := run
    refine ⟨⟨?_, ?_, nodup_update retryKeeps hj h.stored.jobIds List.nodup_nil, List.nodup_nil,
      ⟨?_, fun spent => absurd spent left⟩, rfl⟩, ?_, ?_, ?_⟩
    · intro q hq
      obtain ⟨r, hr, hit, rfl⟩ := mem_first_update retryKeeps hj hq
      exact ⟨r, hr, rfl, by simpa using hit, Or.inr ⟨by omega, error, rfl⟩⟩
    · intro q hq
      exact absurd hq List.not_mem_nil
    · exact adv.id ▸ (update_locks_hit retryKeeps hj hjv (by simpa using adv.id)).2
    · intro k hk
      exact Or.inr (first_update_locks retryKeeps hj hk)
    · intro k hk
      exact absurd hk (not_locks_nil k)
    · intro b hb
      rw [hw]
      exact hb

/-- A rollback, whether by an exception or by a crash, drops the session. -/
theorem localStep_raise (error : String) :
    LocalStep s w (match s.phase w with
      | .holding j | .running j _ | .processed j _ _ | .storing j _ => .raised j error
      | _ => .idle) := by
  cases hp : s.phase w with
  | holding j | running j _ | processed j _ _ | storing j _ =>
    exact .no_session rfl trivial rfl fun b hb => by rw [hp]; exact hb
  | idle | requeued _ | selected _ _ | raised _ _ | failing _ _ =>
    exact .no_session rfl trivial rfl fun b hb => by cases hb

theorem localStep_crash : LocalStep s w .idle :=
  .no_session rfl trivial rfl fun b hb => by cases hb

end Worlds

end WorkerInvariants
