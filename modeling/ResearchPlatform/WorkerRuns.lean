import ResearchPlatform.WorkerInvariants

/-!
# What a step does to the committed rows

Only commits move job rows, and each commit moves a row to the version that its
phase has written. Every step is one of six changes, and each of them keeps the
invariant, so it holds in every reachable state.
-/

namespace WorkerRuns

open Uuid Schema RowVersions DocumentService JobService WorkerMachine WorkerInvariants Machines

section Worlds
variable {n : Nat} {s : World n} {w : Fin n} {p q : Phase}

/-! ## Commits -/

/-- The phases that commit, and the phase that follows. -/
inductive Committed : Phase → Phase → Prop
  | claim (tx : Session) (job : Option IngestionJob) :
      Committed (.selected tx job) (job.elim .idle .holding)
  | complete (c : IngestionJob) (tx : Session) : Committed (.storing c tx) .idle
  | fail (c : IngestionJob) (tx : Session) : Committed (.failing c tx) .idle

/-- The commit of a sound phase leaves a job row alone, or moves it to the
version that the phase has written. -/
theorem commit_job {db : Database} (stored : Stored db) (ok : PhaseOk db p) {j : IngestionJob}
    (hj : j ∈ db.ingestionJobs) :
    (current IngestionJob.id p.session.jobs j = j ∧ ¬ Locks IngestionJob.id p.session.jobs j.id) ∨
      (current IngestionJob.id p.session.jobs j ∈ p.session.jobs ∧
        PendingJob p j (current IngestionJob.id p.session.jobs j)) := by
  rcases current_cases IngestionJob.id p.session.jobs j with ⟨own, hid⟩ | untouched
  · obtain ⟨j', hj', hid', hp⟩ := ok.jobs _ own
    have same : j' = j := eq_of_key stored.jobIds hj' hj (hid'.trans hid)
    exact Or.inr ⟨own, same ▸ hp⟩
  · exact Or.inl untouched

theorem commit_document {db : Database} (stored : Stored db) (ok : PhaseOk db p) {d : Document}
    (hd : d ∈ db.documents) :
    (current Document.id p.session.documents d = d ∧
        ¬ Locks Document.id p.session.documents d.id) ∨
      (current Document.id p.session.documents d ∈ p.session.documents ∧
        PendingDocument p d (current Document.id p.session.documents d)) := by
  rcases current_cases Document.id p.session.documents d with ⟨own, hid⟩ | untouched
  · obtain ⟨d', hd', hid', hp⟩ := ok.documents _ own
    have same : d' = d := eq_of_key stored.docIds hd' hd (hid'.trans hid)
    exact Or.inr ⟨own, same ▸ hp⟩
  · exact Or.inl untouched

theorem commit_job_advances {db : Database} (stored : Stored db) (ok : PhaseOk db p)
    {j : IngestionJob} (hj : j ∈ db.ingestionJobs) :
    Advances j (current IngestionJob.id p.session.jobs j) := by
  rcases commit_job stored ok hj with ⟨same, _⟩ | ⟨_, hp⟩
  · exact same.symm ▸ Advances.refl j
  · exact pendingJob_advances hp

theorem commit_document_same {db : Database} (stored : Stored db) (ok : PhaseOk db p)
    {d : Document} (hd : d ∈ db.documents) :
    SameUpload d (current Document.id p.session.documents d) := by
  rcases commit_document stored ok hd with ⟨same, _⟩ | ⟨_, hp⟩
  · exact same.symm ▸ SameUpload.refl d
  · exact pendingDocument_same hp

theorem current_mem_commit_jobs {db : Database} (tx : Session) {j : IngestionJob}
    (hj : j ∈ db.ingestionJobs) :
    current IngestionJob.id tx.jobs j ∈ (tx.commit db).ingestionJobs :=
  mem_view_iff.mpr ⟨j, hj, rfl⟩

theorem current_mem_commit_documents {db : Database} (tx : Session) {d : Document}
    (hd : d ∈ db.documents) :
    current Document.id tx.documents d ∈ (tx.commit db).documents :=
  mem_view_iff.mpr ⟨d, hd, rfl⟩

theorem chunksOk_owner (ok : ChunksOk p) {x : Chunk} (hx : x ∈ p.session.chunks) :
    ∃ c, p.claim = some c ∧ c.documentId = x.documentId ∧ c.userId = x.userId ∧
      c.tenantId = x.tenantId := by
  cases p with
  | storing c tx =>
    obtain ⟨hid, hu, ht⟩ := ok.2 x hx
    exact ⟨c, rfl, hid.symm, hu.symm, ht.symm⟩
  | processed c tx chunks =>
    have none : tx.chunks = [] := ok.1
    exact absurd (none ▸ hx) List.not_mem_nil
  | idle | requeued _ | selected _ _ | holding _ | running _ _ | raised _ _ | failing _ _ =>
    rw [show Session.chunks _ = [] from ok] at hx
    cases hx

/-- A commit keeps the keys and the ownership. -/
theorem commit_stored (h : Sound s) (w : Fin n) :
    Stored ((s.phase w).session.commit s.db) := by
  have ok := h.phases w
  refine ⟨?_, ?_, ?_, ?_, ?_, ?_, ?_, ?_, h.stored.members⟩
  · simpa [Session.commit] using h.stored.jobIds
  · simpa [Session.commit] using h.stored.docIds
  · have same : (view IngestionJob.id (s.phase w).session.jobs s.db.ingestionJobs).map
        IngestionJob.documentId = s.db.ingestionJobs.map IngestionJob.documentId := by
      rw [view, List.map_map]
      exact List.map_congr_left fun j hj => (commit_job_advances h.stored ok hj).documentId
    exact same ▸ h.stored.jobDocs
  · intro x hx
    obtain ⟨j, hj, rfl⟩ := mem_view_iff.mp hx
    obtain ⟨d, hd, hid, hu, ht⟩ := h.stored.docOfJob j hj
    have adv := commit_job_advances h.stored ok hj
    have same := commit_document_same h.stored ok hd
    exact ⟨_, current_mem_commit_documents _ hd, by rw [same.id, hid, adv.documentId],
      by rw [same.userId, hu, adv.userId], by rw [same.tenantId, ht, adv.tenantId]⟩
  · intro x hx
    obtain ⟨d, hd, rfl⟩ := mem_view_iff.mp hx
    obtain ⟨j, hj, hid⟩ := h.stored.jobOfDoc d hd
    have adv := commit_job_advances h.stored ok hj
    have same := commit_document_same h.stored ok hd
    exact ⟨_, current_mem_commit_jobs _ hj, by rw [adv.documentId, hid, same.id]⟩
  · intro c hc
    obtain ⟨d, hd, hid, hu, ht⟩ : ∃ d ∈ s.db.documents,
        d.id = c.documentId ∧ d.userId = c.userId ∧ d.tenantId = c.tenantId := by
      rcases List.mem_append.mp hc with old | new
      · exact h.stored.docOfChunk c old
      · -- chunk rows are pending only for the claimed job's own document
        obtain ⟨b, hb, hid, hu, ht⟩ := chunksOk_owner ok.chunks new
        obtain ⟨j, hj, adv⟩ := h.claims w b hb
        obtain ⟨d, hd, hid', hu', ht'⟩ := h.stored.docOfJob j hj
        exact ⟨d, hd, by rw [hid', adv.documentId, hid], by rw [hu', adv.userId, hu],
          by rw [ht', adv.tenantId, ht]⟩
    have same := commit_document_same h.stored ok hd
    exact ⟨_, current_mem_commit_documents _ hd, by rw [same.id, hid],
      by rw [same.userId, hu], by rw [same.tenantId, ht]⟩
  · intro x hx
    obtain ⟨d, hd, rfl⟩ := mem_view_iff.mp hx
    have same := commit_document_same h.stored ok hd
    rw [same.storageKey, same.tenantId, same.id]
    exact h.stored.storageKey d hd
  · intro x hx
    obtain ⟨j, hj, rfl⟩ := mem_view_iff.mp hx
    rcases commit_job h.stored ok hj with ⟨same, _⟩ | ⟨_, pending⟩
    · exact same.symm ▸ h.stored.attempts j hj
    · exact pendingJob_attempts pending (h.stored.attempts j hj)

/-- A claim about to be committed: its version of the committed row. -/
theorem selected_version (h : Sound s) {tx : Session} {c : IngestionJob}
    (hw : s.phase w = .selected tx (some c)) :
    c.status = .claimed ∧ ∃ j ∈ s.db.ingestionJobs, j.id = c.id ∧ ClaimVersion j c ∧
      c ∈ (tx.commit s.db).ingestionJobs := by
  have ok : PhaseOk s.db (.selected tx (some c)) := hw ▸ h.phases w
  obtain ⟨own, claimed⟩ := ok.held
  obtain ⟨j, hj, hid, reset | ⟨_, version⟩⟩ := ok.jobs c own
  · rw [reset.2] at claimed
    cases claimed
  · exact ⟨claimed, j, hj, hid, version, mem_view_of_mem ok.jobIds own hj hid⟩

/-- A new claim has counted an attempt that no remembered claim has. -/
theorem new_ticket (h : Sound s) {tx : Session} {v : Fin n} {b c : IngestionJob}
    (hw : s.phase w = .selected tx (some c)) (hb : (s.phase v).claim = some b) (hid : c.id = b.id) :
    c.attemptCount ≠ b.attemptCount := by
  obtain ⟨_, j, hj, hjc, version, _⟩ := selected_version h hw
  obtain ⟨j', hj', adv⟩ := h.claims v b hb
  have same : j = j' := eq_of_key h.stored.jobIds hj hj' (by rw [hjc, hid, adv.id])
  subst same
  have more := (claimVersion_advances version).2.2
  have less := adv.attemptCount
  omega

theorem Committed.session (m : Committed p q) : q.session = Session.empty := by
  cases m with
  | claim tx job => cases job <;> rfl
  | complete c tx => rfl
  | fail c tx => rfl

theorem Committed.ok {db : Database} (m : Committed p q) : PhaseOk db q := by
  cases m with
  | claim tx job => cases job <;> exact phaseOk_of_no_session rfl trivial rfl
  | complete c tx => exact phaseOk_of_no_session rfl trivial rfl
  | fail c tx => exact phaseOk_of_no_session rfl trivial rfl

theorem Committed.new_claim (m : Committed p q) {c : IngestionJob} (hc : q.claim = some c) :
    p = .selected p.session (some c) := by
  cases m with
  | claim tx job =>
    cases job with
    | none => cases hc
    | some j =>
      cases hc
      rfl
  | complete c tx => cases hc
  | fail c tx => cases hc

theorem Committed.after (m : Committed p q) : q = .idle ∨ ∃ c, q = .holding c := by
  cases m with
  | claim tx job =>
    cases job with
    | none => exact Or.inl rfl
    | some j => exact Or.inr ⟨j, rfl⟩
  | complete c tx => exact Or.inl rfl
  | fail c tx => exact Or.inl rfl

theorem commit_sound (h : Sound s) (m : Committed (s.phase w) p) :
    Sound ({ s with db := (s.phase w).session.commit s.db }.setPhase w p) where
  stored := commit_stored h w
  phases v := by
    by_cases hv : v = w
    · subst hv
      rw [setPhase_self]
      exact m.ok
    · rw [setPhase_of_ne hv]
      refine (h.phases v).mono (fun j hj hl => ?_) fun d hd hl => ?_
      · exact mem_view_of_not_locks hj (h.jobLocks v w j.id hv hl)
      · exact mem_view_of_not_locks hd (h.docLocks v w d.id hv hl)
  jobLocks := by
    refine exclusive_setPhase (fun p => Locks IngestionJob.id p.session.jobs) h.jobLocks
      fun k hk => ?_
    rw [m.session] at hk
    exact absurd hk (not_locks_nil k)
  docLocks := by
    refine exclusive_setPhase (fun p => Locks Document.id p.session.documents) h.docLocks
      fun k hk => ?_
    rw [m.session] at hk
    exact absurd hk (not_locks_nil k)
  claims v c hc := by
    by_cases hv : v = w
    · subst hv
      rw [setPhase_self] at hc
      obtain ⟨_, _, _, _, _, committed⟩ := selected_version h (m.new_claim hc)
      exact ⟨c, committed, Advances.refl c⟩
    · rw [setPhase_of_ne hv] at hc
      obtain ⟨j, hj, adv⟩ := h.claims v c hc
      exact ⟨_, current_mem_commit_jobs _ hj, adv.trans (commit_job_advances h.stored (h.phases w) hj)⟩
  tickets v u b c hne hb hc hid := by
    by_cases hv : v = w
    · subst hv
      rw [setPhase_self] at hb
      rw [setPhase_of_ne hne.symm] at hc
      exact new_ticket h (m.new_claim hb) hc hid
    · rw [setPhase_of_ne hv] at hb
      by_cases hu : u = w
      · subst hu
        rw [setPhase_self] at hc
        exact (new_ticket h (m.new_claim hc) hb hid.symm).symm
      · rw [setPhase_of_ne hu] at hc
        exact h.tickets v u b c hne hb hc hid

/-! ## Uploads, deletions and account changes -/

/-- A change of the database beside the workers: it drops no job row and no
document row that a worker has locked. -/
theorem beside_sound (h : Sound s) {db : Database} (objects : ObjectStore) (stored : Stored db)
    (jobs : ∀ j ∈ s.db.ingestionJobs, j ∈ db.ingestionJobs)
    (documents : ∀ d ∈ s.db.documents,
      (∃ v, Locks Document.id (s.phase v).session.documents d.id) → d ∈ db.documents) :
    Sound { s with db := db, objects := objects } where
  stored := stored
  phases v := (h.phases v).mono (fun j hj _ => jobs j hj) fun d hd hl => documents d hd ⟨v, hl⟩
  jobLocks := h.jobLocks
  docLocks := h.docLocks
  claims v c hc := by
    obtain ⟨j, hj, adv⟩ := h.claims v c hc
    exact ⟨j, jobs j hj, adv⟩
  tickets := h.tickets

theorem accounts_stored {db : Database} (h : Stored db) {users : List User}
    {organizations : List Organization} {orgMemberships : List OrgMembership}
    (ok : AccountsOk db users organizations orgMemberships) :
    Stored { db with
      users := users, organizations := organizations, orgMemberships := orgMemberships } where
  jobIds := h.jobIds
  docIds := h.docIds
  jobDocs := h.jobDocs
  docOfJob := h.docOfJob
  jobOfDoc := h.jobOfDoc
  docOfChunk := h.docOfChunk
  storageKey := h.storageKey
  attempts := h.attempts
  members := ok.2.2

theorem insertUpload_stored {db db' : Database} (h : Stored db) (sha256 : Sha256) (u : Upload)
    (o : Outside) (hi : insertUpload db (newDocument sha256 u o) (newJob u o) = .ok db') :
    Stored db' := by
  obtain ⟨fits, rfl⟩ := (insertUpload_ok_iff rfl rfl rfl).mp hi
  have newDoc : ∀ j ∈ db.ingestionJobs, j.documentId ≠ o.docId := by
    intro j hj he
    obtain ⟨d, hd, hid, _⟩ := h.docOfJob j hj
    exact fits.docFresh d hd (hid.trans he)
  refine ⟨nodup_concat h.jobIds fits.jobFresh, nodup_concat h.docIds fits.docFresh,
    nodup_concat h.jobDocs newDoc, ?_, ?_, ?_, ?_, ?_, h.members⟩
  · intro j hj
    rcases List.mem_append.mp hj with old | new
    · obtain ⟨d, hd, owner⟩ := h.docOfJob j old
      exact ⟨d, List.mem_append_left _ hd, owner⟩
    · rw [List.mem_singleton] at new
      subst new
      exact ⟨(newDocument sha256 u o).row, by simp, rfl, rfl, rfl⟩
  · intro d hd
    rcases List.mem_append.mp hd with old | new
    · obtain ⟨j, hj, hid⟩ := h.jobOfDoc d old
      exact ⟨j, List.mem_append_left _ hj, hid⟩
    · rw [List.mem_singleton] at new
      subst new
      exact ⟨(newJob u o).row, by simp, rfl⟩
  · intro c hc
    obtain ⟨d, hd, owner⟩ := h.docOfChunk c hc
    exact ⟨d, List.mem_append_left _ hd, owner⟩
  · intro d hd
    rcases List.mem_append.mp hd with old | new
    · exact h.storageKey d old
    · rw [List.mem_singleton] at new
      subst new
      exact ⟨_, congrArg some (varchar_storageKey _ _ _)⟩
  · intro j hj
    rcases List.mem_append.mp hj with old | new
    · exact h.attempts j old
    · rw [List.mem_singleton] at new
      subst new
      exact Nat.zero_le _

theorem deletedAs_keeps (documentId : UUID) (now : Time) (d : Document) :
    (deletedAs documentId now d).userId = d.userId ∧
      (deletedAs documentId now d).tenantId = d.tenantId ∧
      (deletedAs documentId now d).storageKey = d.storageKey := by
  rw [deletedAs]
  split
  · exact ⟨rfl, rfl, rfl⟩
  · exact ⟨rfl, rfl, rfl⟩

theorem softDelete_stored {db : Database} (h : Stored db) (documentId : UUID) (now : Time) :
    Stored { db with documents := db.documents.map (deletedAs documentId now) } := by
  have moved : ∀ d ∈ db.documents,
      deletedAs documentId now d ∈ db.documents.map (deletedAs documentId now) :=
    fun d hd => List.mem_map_of_mem hd
  refine ⟨h.jobIds, ?_, h.jobDocs, ?_, ?_, ?_, ?_, h.attempts, h.members⟩
  · simpa [Function.comp_def, deletedAs_id] using h.docIds
  · intro j hj
    obtain ⟨d, hd, hid, hu, ht⟩ := h.docOfJob j hj
    obtain ⟨ku, kt, _⟩ := deletedAs_keeps documentId now d
    exact ⟨_, moved d hd, (deletedAs_id documentId now d).trans hid, ku.trans hu, kt.trans ht⟩
  · intro x hx
    obtain ⟨d, hd, rfl⟩ := List.mem_map.mp hx
    rw [deletedAs_id]
    exact h.jobOfDoc d hd
  · intro c hc
    obtain ⟨d, hd, hid, hu, ht⟩ := h.docOfChunk c hc
    obtain ⟨ku, kt, _⟩ := deletedAs_keeps documentId now d
    exact ⟨_, moved d hd, (deletedAs_id documentId now d).trans hid, ku.trans hu, kt.trans ht⟩
  · intro x hx
    obtain ⟨d, hd, rfl⟩ := List.mem_map.mp hx
    obtain ⟨_, kt, ks⟩ := deletedAs_keeps documentId now d
    rw [ks, kt, deletedAs_id]
    exact h.storageKey d hd

/-- What a worker remembers of its claim is behind the committed row. -/
theorem claim_advances (h : Sound s) {c j : IngestionJob} (hc : (s.phase w).claim = some c)
    (hj : j ∈ s.db.ingestionJobs) (hid : j.id = c.id) : Advances c j := by
  obtain ⟨j', hj', adv⟩ := h.claims w c hc
  have same : j' = j := eq_of_key h.stored.jobIds hj' hj (adv.id.trans hid.symm)
  exact same ▸ adv

/-! ## Every step -/

/-- The worker whose phase the event moves. -/
def actor : Event n → Option (Fin n)
  | .accounts _ _ _ | .upload _ _ | .softDelete _ _ _ _ => none
  | .resetStale w _ | .claim w _ | .markRunning w _ | .process w | .complete w _ _ | .fail w _
  | .commit w | .raise w _ | .crash w => some w

/-- The phase that a worker's own step leaves it in. -/
inductive Moves (cfg : Settings) (s : World n) (w : Fin n) : Event n → Phase → Prop
  | resetStale (now : Time) (tx : Session) (hw : s.phase w = .idle)
      (run : resetStaleClaims (s.JobLocked w) cfg.staleTimeout now s.db Session.empty = some tx) :
      Moves cfg s w (.resetStale w now) (.requeued tx)
  | claim (now : Time) (tx : Session) (hw : s.phase w = .requeued tx) :
      Moves cfg s w (.claim w now) (.selected (claimQueued (s.JobLocked w) w.val now s.db tx).1
        (claimQueued (s.JobLocked w) w.val now s.db tx).2)
  | started (now : Time) (c : IngestionJob) (tx : Session) (hw : s.phase w = .holding c)
      (run : JobService.markRunning (s.JobLocked w) c.id c.version now s.db Session.empty =
        some (tx, true)) :
      Moves cfg s w (.markRunning w now) (.running c tx)
  | refused (now : Time) (c : IngestionJob) (tx : Session) (hw : s.phase w = .holding c)
      (run : JobService.markRunning (s.JobLocked w) c.id c.version now s.db Session.empty =
        some (tx, false)) :
      Moves cfg s w (.markRunning w now) .idle
  | processed (c : IngestionJob) (tx : Session) (chunks : List ChunkData)
      (hw : s.phase w = .running c tx)
      (run : fetchAndProcess cfg s.db s.objects tx c.documentId = .ok chunks) :
      Moves cfg s w (.process w) (.processed c tx chunks)
  | broke (c : IngestionJob) (tx : Session) (error : String) (hw : s.phase w = .running c tx)
      (run : fetchAndProcess cfg s.db s.objects tx c.documentId = .error error) :
      Moves cfg s w (.process w) (.raised c error)
  | complete (chunkId : Nat → UUID) (now : Time) (c : IngestionJob) (tx tx' : Session)
      (chunks : List ChunkData) (hw : s.phase w = .processed c tx chunks)
      (run : completeJob (s.JobLocked w) (s.DocumentLocked w) c.id c.documentId chunks c.userId
        c.tenantId chunkId now s.db tx = some tx') :
      Moves cfg s w (.complete w chunkId now) (.storing c tx')
  | fail (now : Time) (c : IngestionJob) (error : String) (tx : Session)
      (hw : s.phase w = .raised c error)
      (run : failJob (s.JobLocked w) (s.DocumentLocked w) c.id c.documentId error c.attemptCount
        c.maxAttempts now s.db Session.empty = some tx) :
      Moves cfg s w (.fail w now) (.failing c tx)
  | commit (p : Phase) (m : Committed (s.phase w) p) : Moves cfg s w (.commit w) p
  | raise (error : String) (c : IngestionJob)
      (hw : s.phase w = .holding c ∨ (∃ tx, s.phase w = .running c tx) ∨
        (∃ tx chunks, s.phase w = .processed c tx chunks) ∨ ∃ tx, s.phase w = .storing c tx) :
      Moves cfg s w (.raise w error) (.raised c error)
  | drop (error : String)
      (hw : (s.phase w).claim = none ∨ (∃ c e, s.phase w = .raised c e) ∨
        ∃ c tx, s.phase w = .failing c tx) :
      Moves cfg s w (.raise w error) .idle
  | crash : Moves cfg s w (.crash w) .idle

theorem Moves.actor {cfg : Settings} {e : Event n} (m : Moves cfg s w e p) : actor e = some w := by
  cases m <;> rfl

/-- Every step: what runs beside the workers, a statement of one worker, or its commit. -/
inductive Stepped (cfg : Settings) (s : World n) : Event n → World n → Prop
  | accounts (users : List User) (organizations : List Organization)
      (orgMemberships : List OrgMembership)
      (ok : AccountsOk s.db users organizations orgMemberships) :
      Stepped cfg s (.accounts users organizations orgMemberships) { s with db := { s.db with
        users := users, organizations := organizations, orgMemberships := orgMemberships } }
  | upload (u : Upload) (o : Outside) : Stepped cfg s (.upload u o) { s with
      db := (uploadDocument cfg.sha256 u o s.db s.objects).2.1
      objects := (uploadDocument cfg.sha256 u o s.db s.objects).2.2 }
  | softDelete (documentId tenantId : UUID) (now : Time) (deleteError : Option StorageFault)
      (free : ¬ ∃ v, Locks Document.id (s.phase v).session.documents documentId) :
      Stepped cfg s (.softDelete documentId tenantId now deleteError) { s with
        db := (softDeleteDocument documentId tenantId now deleteError s.db s.objects).2.1
        objects := (softDeleteDocument documentId tenantId now deleteError s.db s.objects).2.2 }
  | moved (e : Event n) (w : Fin n) (p : Phase) (notCommit : ∀ v, e ≠ .commit v)
      (m : Moves cfg s w e p) : Stepped cfg s e (s.setPhase w p)
  | commit (w : Fin n) (p : Phase) (m : Committed (s.phase w) p) :
      Stepped cfg s (.commit w) ({ s with db := (s.phase w).session.commit s.db }.setPhase w p)

/-! The machine is unfolded here, for one event at a time. -/

theorem stepped_accounts (cfg : Settings) {users : List User} {organizations : List Organization}
    {orgMemberships : List OrgMembership} {t : World n}
    (hs : step cfg s (.accounts users organizations orgMemberships) = some t) :
    Stepped cfg s (.accounts users organizations orgMemberships) t := by
  simp only [step] at hs
  split at hs
  · rename_i ok
    cases hs
    exact .accounts users organizations orgMemberships ok
  · cases hs

theorem stepped_softDelete (cfg : Settings) {documentId tenantId : UUID} {now : Time}
    {deleteError : Option StorageFault} {t : World n}
    (hs : step cfg s (.softDelete documentId tenantId now deleteError) = some t) :
    Stepped cfg s (.softDelete documentId tenantId now deleteError) t := by
  simp only [step] at hs
  split at hs
  · cases hs
  · rename_i free
    cases hs
    exact .softDelete documentId tenantId now deleteError free

theorem stepped_resetStale (cfg : Settings) {now : Time} {t : World n}
    (hs : step cfg s (.resetStale w now) = some t) : Stepped cfg s (.resetStale w now) t := by
  simp only [step] at hs
  split at hs
  · rename_i hw
    obtain ⟨tx, run, rfl⟩ := Option.map_eq_some_iff.mp hs
    exact .moved _ w _ (by simp) (.resetStale now tx hw run)
  · cases hs

theorem stepped_claim (cfg : Settings) {now : Time} {t : World n}
    (hs : step cfg s (.claim w now) = some t) : Stepped cfg s (.claim w now) t := by
  simp only [step] at hs
  split at hs
  · rename_i tx hw
    cases hs
    exact .moved _ w _ (by simp) (.claim now tx hw)
  · cases hs

theorem stepped_markRunning (cfg : Settings) {now : Time} {t : World n}
    (hs : step cfg s (.markRunning w now) = some t) : Stepped cfg s (.markRunning w now) t := by
  simp only [step] at hs
  split at hs
  · rename_i c hw
    obtain ⟨⟨tx, ok⟩, run, rfl⟩ := Option.map_eq_some_iff.mp hs
    cases ok with
    | true => exact .moved _ w _ (by simp) (.started now c tx hw run)
    | false => exact .moved _ w _ (by simp) (.refused now c tx hw run)
  · cases hs

theorem stepped_process (cfg : Settings) {t : World n} (hs : step cfg s (.process w) = some t) :
    Stepped cfg s (.process w) t := by
  simp only [step] at hs
  split at hs
  · rename_i c tx hw
    cases hs
    cases run : fetchAndProcess cfg s.db s.objects tx c.documentId with
    | ok chunks => exact .moved _ w _ (by simp) (.processed c tx chunks hw run)
    | error error => exact .moved _ w _ (by simp) (.broke c tx error hw run)
  · cases hs

theorem stepped_complete (cfg : Settings) {chunkId : Nat → UUID} {now : Time} {t : World n}
    (hs : step cfg s (.complete w chunkId now) = some t) : Stepped cfg s (.complete w chunkId now) t := by
  simp only [step] at hs
  split at hs
  · rename_i c tx chunks hw
    split at hs
    · obtain ⟨tx', run, rfl⟩ := Option.map_eq_some_iff.mp hs
      exact .moved _ w _ (by simp) (.complete chunkId now c tx tx' chunks hw run)
    · cases hs
  · cases hs

theorem stepped_fail (cfg : Settings) {now : Time} {t : World n}
    (hs : step cfg s (.fail w now) = some t) : Stepped cfg s (.fail w now) t := by
  simp only [step] at hs
  split at hs
  · rename_i c error hw
    obtain ⟨tx, run, rfl⟩ := Option.map_eq_some_iff.mp hs
    exact .moved _ w _ (by simp) (.fail now c error tx hw run)
  · cases hs

theorem stepped_commit (cfg : Settings) {t : World n} (hs : step cfg s (.commit w) = some t) :
    Stepped cfg s (.commit w) t := by
  have done : ∀ tx p, (s.phase w).session = tx → Committed (s.phase w) p →
      t = { s with db := tx.commit s.db }.setPhase w p → Stepped cfg s (.commit w) t := by
    rintro tx p rfl m rfl
    exact .commit w p m
  simp only [step] at hs
  split at hs
  · rename_i tx job hw
    cases hs
    exact done tx _ (by rw [hw]; rfl) (hw ▸ .claim tx job) rfl
  · rename_i c tx hw
    cases hs
    exact done tx _ (by rw [hw]; rfl) (hw ▸ .complete c tx) rfl
  · rename_i c tx hw
    cases hs
    exact done tx _ (by rw [hw]; rfl) (hw ▸ .fail c tx) rfl
  · cases hs

theorem stepped_raise (cfg : Settings) {error : String} {t : World n}
    (hs : step cfg s (.raise w error) = some t) : Stepped cfg s (.raise w error) t := by
  cases hs
  refine .moved _ w _ (by simp) ?_
  cases hw : s.phase w with
  | holding c => exact .raise error c (Or.inl hw)
  | running c tx => exact .raise error c (Or.inr (Or.inl ⟨tx, hw⟩))
  | processed c tx chunks => exact .raise error c (Or.inr (Or.inr (Or.inl ⟨tx, chunks, hw⟩)))
  | storing c tx => exact .raise error c (Or.inr (Or.inr (Or.inr ⟨tx, hw⟩)))
  | raised c e => exact .drop error (Or.inr (Or.inl ⟨c, e, hw⟩))
  | failing c tx => exact .drop error (Or.inr (Or.inr ⟨c, tx, hw⟩))
  | idle | requeued _ | selected _ _ => exact .drop error (Or.inl (by rw [hw]; rfl))

theorem step_stepped (cfg : Settings) {e : Event n} {t : World n}
    (hs : (machine cfg n).step s e = some t) : Stepped cfg s e t := by
  simp only [machine] at hs
  cases e with
  | accounts _ _ _ => exact stepped_accounts cfg hs
  | upload u o =>
    cases hs
    exact .upload u o
  | softDelete _ _ _ _ => exact stepped_softDelete cfg hs
  | resetStale w now => exact stepped_resetStale cfg hs
  | claim w now => exact stepped_claim cfg hs
  | markRunning w now => exact stepped_markRunning cfg hs
  | process w => exact stepped_process cfg hs
  | complete w chunkId now => exact stepped_complete cfg hs
  | fail w now => exact stepped_fail cfg hs
  | commit w => exact stepped_commit cfg hs
  | raise w error => exact stepped_raise cfg hs
  | crash w =>
    cases hs
    exact .moved _ w _ (by simp) .crash

/-- Workers only read the stored objects. -/
theorem workers_objects (cfg : Settings) {es : List (Event n)} {t : World n}
    (workers : ∀ e ∈ es, (actor e).isSome) (run : (machine cfg n).run s es = some t) :
    t.objects = s.objects := by
  refine Machine.run_keeps (I := fun t => t.objects = s.objects) (G := fun _ e _ => (actor e).isSome)
    (fun u e v same hs worker => ?_) rfl (Machine.everyStep_of_events s workers) run
  cases step_stepped cfg hs with
  | moved _ _ _ _ _ => exact same
  | commit _ _ _ => exact same
  | accounts _ _ _ _ | upload _ _ | softDelete _ _ _ _ _ => cases worker

theorem phase_of_other (cfg : Settings) {e : Event n} {t : World n}
    (hs : (machine cfg n).step s e = some t) (other : actor e ≠ some w) :
    t.phase w = s.phase w := by
  cases step_stepped cfg hs with
  | accounts _ _ _ _ | upload _ _ | softDelete _ _ _ _ _ => rfl
  | moved _ v p _ m =>
    have apart : w ≠ v := by
      rintro rfl
      exact other m.actor
    exact setPhase_of_ne apart
  | commit v p m =>
    have apart : w ≠ v := by
      rintro rfl
      exact other rfl
    exact setPhase_of_ne apart

theorem step_moves (cfg : Settings) {e : Event n} {t : World n}
    (hs : (machine cfg n).step s e = some t) (own : actor e = some w) :
    Moves cfg s w e (t.phase w) := by
  cases step_stepped cfg hs with
  | accounts _ _ _ _ | upload _ _ | softDelete _ _ _ _ _ => cases own
  | moved _ v p _ m =>
    obtain rfl : v = w := Option.some.inj (m.actor.symm.trans own)
    rw [setPhase_self]
    exact m
  | commit v p m =>
    cases own
    rw [setPhase_self]
    exact .commit p m

/-- Everything that one step can do. -/
inductive Change (s : World n) : Event n → World n → Prop
  | accounts (users : List User) (organizations : List Organization)
      (orgMemberships : List OrgMembership)
      (ok : AccountsOk s.db users organizations orgMemberships) :
      Change s (.accounts users organizations orgMemberships) { s with db := { s.db with
        users := users, organizations := organizations, orgMemberships := orgMemberships } }
  | beside (e : Event n) (objects : ObjectStore) (notCommit : ∀ w, e ≠ .commit w) :
      Change s e { s with objects := objects }
  | uploaded (sha256 : Sha256) (u : Upload) (o : Outside) (db : Database) (objects : ObjectStore)
      (new : insertUpload s.db (newDocument sha256 u o) (newJob u o) = .ok db) :
      Change s (.upload u o) { s with db := db, objects := objects }
  | deleted (documentId tenantId : UUID) (now : Time) (deleteError : Option StorageFault)
      (objects : ObjectStore)
      (free : ¬ ∃ v, Locks Document.id (s.phase v).session.documents documentId) :
      Change s (.softDelete documentId tenantId now deleteError) { s with
        db := { s.db with documents := s.db.documents.map (deletedAs documentId now) }
        objects := objects }
  | own (e : Event n) (w : Fin n) (p : Phase) (notCommit : ∀ w, e ≠ .commit w)
      (l : LocalStep s w p) : Change s e (s.setPhase w p)
  | commit (w : Fin n) (p : Phase) (m : Committed (s.phase w) p) :
      Change s (.commit w) ({ s with db := (s.phase w).session.commit s.db }.setPhase w p)

theorem localStep_moves (cfg : Settings) {e : Event n} (h : Sound s) (m : Moves cfg s w e p)
    (notCommit : ∀ v, e ≠ .commit v) : LocalStep s w p := by
  cases m with
  | resetStale now tx hw run => exact localStep_resetStale h run
  | claim now tx hw => exact localStep_claim h hw w.val now
  | started now c tx hw run => exact localStep_markRunning h hw run
  | refused now c tx hw run => exact localStep_markRunning h hw run
  | processed c tx chunks hw run =>
    have l := localStep_process cfg h hw
    rw [run] at l
    exact l
  | broke c tx error hw run =>
    have l := localStep_process cfg h hw
    rw [run] at l
    exact l
  | complete chunkId now c tx tx' chunks hw run => exact localStep_complete h hw run
  | fail now c error tx hw run => exact localStep_fail h hw run
  | commit _ m => exact absurd rfl (notCommit w)
  | raise error c hw =>
    have l := localStep_raise (s := s) (w := w) error
    rcases hw with hw | ⟨tx, hw⟩ | ⟨tx, chunks, hw⟩ | ⟨tx, hw⟩
    all_goals
      rw [hw] at l
      exact l
  | drop _ _ | crash => exact localStep_crash

theorem step_change (cfg : Settings) {e : Event n} {t : World n} (h : Sound s)
    (hs : (machine cfg n).step s e = some t) : Change s e t := by
  cases step_stepped cfg hs with
  | accounts users organizations orgMemberships ok => exact .accounts users organizations orgMemberships ok
  | upload u o =>
    rcases uploadDocument_db cfg.sha256 u o s.db s.objects with same | ⟨_, new⟩
    · rw [same]
      exact .beside _ _ (by simp)
    · exact .uploaded cfg.sha256 u o _ _ new
  | softDelete documentId tenantId now deleteError free =>
    rcases softDeleteDocument_db documentId tenantId now deleteError s.db s.objects with same | ⟨_, same⟩
    · rw [same]
      exact .beside _ _ (by simp)
    · rw [same]
      exact .deleted documentId tenantId now deleteError _ free
  | moved e w p notCommit m => exact .own e w p notCommit (localStep_moves cfg h m notCommit)
  | commit w p m => exact .commit w p m

theorem sound_change {e : Event n} {t : World n} (h : Sound s) (c : Change s e t) : Sound t := by
  cases c with
  | accounts users organizations orgMemberships ok =>
    exact beside_sound h s.objects (accounts_stored h.stored ok) (fun j hj => hj) fun d hd _ => hd
  | beside _ objects _ =>
    exact beside_sound h objects h.stored (fun j hj => hj) fun d hd _ => hd
  | uploaded sha256 u o db objects new =>
    obtain ⟨_, grown⟩ := (insertUpload_ok_iff rfl rfl rfl).mp new
    refine beside_sound h objects (insertUpload_stored h.stored sha256 u o new) (fun j hj => ?_) fun d hd _ => ?_
    · exact grown ▸ List.mem_append_left _ hj
    · exact grown ▸ List.mem_append_left _ hd
  | deleted documentId tenantId now deleteError objects free =>
    refine beside_sound h objects (softDelete_stored h.stored documentId now) (fun j hj => hj) ?_
    intro d hd locked
    have other : d.id ≠ documentId := fun he => free (he ▸ locked)
    exact List.mem_map.mpr ⟨d, hd, deletedAs_of_ne now other⟩
  | own _ w p _ l => exact h.local l
  | commit w p m => exact commit_sound h m

/-- The commit of worker `w` moves the row `j` to its version `q`. -/
structure CommitMoves (s : World n) (w : Fin n) (j q : IngestionJob) : Prop where
  pending : PendingJob (s.phase w) j q
  own : q ∈ (s.phase w).session.jobs
  committed : ∃ p, Committed (s.phase w) p

theorem CommitMoves.locks {w : Fin n} {j q : IngestionJob} (m : CommitMoves s w j q) :
    Locks IngestionJob.id (s.phase w).session.jobs j.id :=
  ⟨q, m.own, (pendingJob_advances m.pending).id⟩

/-- A job row after a step is an old one, a new one, or what a commit made of an old one. -/
theorem change_job {e : Event n} {t : World n} (h : Sound s) (c : Change s e t)
    {x : IngestionJob} (hx : x ∈ t.db.ingestionJobs) :
    x ∈ s.db.ingestionJobs ∨ (∃ u o, x = (newJob u o).row) ∨
      ∃ w, ∃ j ∈ s.db.ingestionJobs, e = .commit w ∧ CommitMoves s w j x := by
  cases c with
  | accounts _ _ _ | beside _ _ _ | deleted _ _ _ _ _ _ | own _ _ _ _ _ => exact Or.inl hx
  | uploaded sha256 u o db objects new =>
    obtain ⟨_, grown⟩ := (insertUpload_ok_iff rfl rfl rfl).mp new
    rw [grown] at hx
    rcases List.mem_append.mp hx with old | new
    · exact Or.inl old
    · exact Or.inr (Or.inl ⟨u, o, List.mem_singleton.mp new⟩)
  | commit w p m =>
    obtain ⟨j, hj, rfl⟩ := mem_view_iff.mp hx
    rcases commit_job h.stored (h.phases w) hj with ⟨same, _⟩ | ⟨own, pending⟩
    · exact Or.inl (same.symm ▸ hj)
    · exact Or.inr (Or.inr ⟨w, j, hj, rfl, pending, own, p, m⟩)

/-- A claim after a step was there before, or its transaction has just committed. -/
theorem change_claim {e : Event n} {t : World n} (c : Change s e t) {v : Fin n} {b : IngestionJob}
    (hb : (t.phase v).claim = some b) :
    (e ≠ .commit v ∧ (s.phase v).claim = some b) ∨
      e = .commit v ∧ s.phase v = .selected (s.phase v).session (some b) ∧
        t.db = (s.phase v).session.commit s.db := by
  cases c with
  | accounts _ _ _ | deleted _ _ _ _ _ _ | uploaded _ _ _ _ _ _ => exact Or.inl ⟨by simp, hb⟩
  | beside _ objects notCommit => exact Or.inl ⟨notCommit v, hb⟩
  | own _ w p notCommit l =>
    refine Or.inl ⟨notCommit v, ?_⟩
    by_cases hv : v = w
    · subst hv
      rw [setPhase_self] at hb
      exact l.claim b hb
    · rwa [setPhase_of_ne hv] at hb
  | commit w p m =>
    by_cases hv : v = w
    · subst hv
      rw [setPhase_self] at hb
      exact Or.inr ⟨rfl, m.new_claim hb, rfl⟩
    · rw [setPhase_of_ne hv] at hb
      exact Or.inl ⟨by simpa using fun h => hv h.symm, hb⟩

/-- Every job row has its successor in the next state. -/
theorem change_job_keeps {e : Event n} {t : World n} (h : Sound s) (c : Change s e t)
    {j : IngestionJob} (hj : j ∈ s.db.ingestionJobs) :
    j ∈ t.db.ingestionJobs ∨
      ∃ w, e = .commit w ∧ ∃ q ∈ t.db.ingestionJobs, CommitMoves s w j q := by
  cases c with
  | accounts _ _ _ | beside _ _ _ | deleted _ _ _ _ _ _ | own _ _ _ _ _ => exact Or.inl hj
  | uploaded sha256 u o db objects new =>
    obtain ⟨_, grown⟩ := (insertUpload_ok_iff rfl rfl rfl).mp new
    exact Or.inl (grown ▸ List.mem_append_left _ hj)
  | commit w p m =>
    have moved := current_mem_commit_jobs (s.phase w).session hj
    rcases commit_job h.stored (h.phases w) hj with ⟨same, _⟩ | ⟨own, pending⟩
    · exact Or.inl (same ▸ moved)
    · exact Or.inr ⟨w, rfl, _, moved, pending, own, p, m⟩

/-- The row of a known id after a step is the old one, or what a commit made of it. -/
theorem change_job_same {e : Event n} {t : World n} (h : Sound s) (c : Change s e t)
    {j x : IngestionJob} (hj : j ∈ s.db.ingestionJobs) (hx : x ∈ t.db.ingestionJobs)
    (hid : x.id = j.id) : x = j ∨ ∃ w, e = .commit w ∧ CommitMoves s w j x := by
  have ids := (sound_change h c).stored.jobIds
  rcases change_job_keeps h c hj with same | ⟨w, he, q, hq, moves⟩
  · exact Or.inl (eq_of_key ids hx same hid)
  · have same : x = q := eq_of_key ids hx hq (hid.trans (pendingJob_advances moves.pending).id.symm)
    exact Or.inr ⟨w, he, same ▸ moves⟩

theorem commit_db {w : Fin n} {t : World n} (change : Change s (.commit w) t) :
    t.db = (s.phase w).session.commit s.db ∧ ∃ p, Committed (s.phase w) p := by
  cases change with
  | beside _ objects notCommit => exact absurd rfl (notCommit w)
  | own _ _ p notCommit l => exact absurd rfl (notCommit w)
  | commit _ p m => exact ⟨rfl, p, m⟩

/-- A commit writes every row that its worker has locked. -/
theorem locked_commit (h : Sound s) {w : Fin n} {t : World n} (change : Change s (.commit w) t)
    {j : IngestionJob} (hj : j ∈ s.db.ingestionJobs)
    (locked : Locks IngestionJob.id (s.phase w).session.jobs j.id) :
    ∃ q ∈ t.db.ingestionJobs, CommitMoves s w j q := by
  obtain ⟨hdb, committed⟩ := commit_db change
  rcases commit_job h.stored (h.phases w) hj with ⟨_, free⟩ | ⟨own, pending⟩
  · exact absurd locked free
  · exact ⟨_, hdb ▸ current_mem_commit_jobs _ hj, pending, own, committed⟩

theorem locked_document_commit (h : Sound s) {w : Fin n} {t : World n}
    (change : Change s (.commit w) t) {d : Document} (hd : d ∈ s.db.documents)
    (locked : Locks Document.id (s.phase w).session.documents d.id) :
    ∃ q ∈ t.db.documents, q ∈ (s.phase w).session.documents ∧
      PendingDocument (s.phase w) d q := by
  rcases commit_document h.stored (h.phases w) hd with ⟨_, free⟩ | ⟨own, pending⟩
  · exact absurd locked free
  · exact ⟨_, (commit_db change).1 ▸ current_mem_commit_documents _ hd, own, pending⟩

/-- A worker that commits the end of its claim writes the claimed row. -/
theorem claim_commit (h : Sound s) {w : Fin n} {t : World n} (change : Change s (.commit w) t)
    {c j : IngestionJob} (hc : (s.phase w).claim = some c) (hj : j ∈ s.db.ingestionJobs)
    (hid : j.id = c.id) : ∃ q ∈ t.db.ingestionJobs, CommitMoves s w j q := by
  refine locked_commit h change hj ?_
  rw [hid]
  have held := (h.phases w).held
  obtain ⟨_, p, m⟩ := commit_db change
  generalize s.phase w = ph at m hc held ⊢
  cases m with
  | claim tx job => cases hc
  | complete b tx =>
    cases hc
    exact held.1
  | fail b tx =>
    cases hc
    exact held.1

/-- A claim that commits has counted one version and one attempt on. -/
theorem selected_commit (h : Sound s) {w : Fin n} {t : World n} (change : Change s (.commit w) t)
    {c : IngestionJob} {tx : Session} (hw : s.phase w = .selected tx (some c)) :
    c ∈ t.db.ingestionJobs ∧ ∃ j ∈ s.db.ingestionJobs, j.id = c.id ∧
      c.version = j.version + 1 ∧ c.attemptCount = j.attemptCount + 1 := by
  obtain ⟨_, j, hj, hid, version, committed⟩ := selected_version h hw
  obtain ⟨_, more, counted⟩ := claimVersion_advances version
  refine ⟨?_, j, hj, hid, more, counted⟩
  rw [(commit_db change).1, hw]
  exact committed

/-- Every document row has a successor: itself, its deletion, or what a commit made of it. -/
theorem change_document_keeps {e : Event n} {t : World n} (h : Sound s) (c : Change s e t)
    {d : Document} (hd : d ∈ s.db.documents) :
    d ∈ t.db.documents ∨
      (∃ documentId tenantId now deleteError, e = .softDelete documentId tenantId now deleteError ∧
        deletedAs documentId now d ∈ t.db.documents) ∨
      ∃ w, e = .commit w ∧ ∃ q ∈ t.db.documents, PendingDocument (s.phase w) d q := by
  cases c with
  | accounts _ _ _ | beside _ _ _ | own _ _ _ _ _ => exact Or.inl hd
  | uploaded sha256 u o db objects new =>
    obtain ⟨_, rfl⟩ := (insertUpload_ok_iff rfl rfl rfl).mp new
    exact Or.inl (List.mem_append_left _ hd)
  | deleted documentId tenantId now deleteError objects free =>
    exact Or.inr (Or.inl ⟨documentId, tenantId, now, deleteError, rfl, List.mem_map_of_mem hd⟩)
  | commit w p m =>
    have moved := current_mem_commit_documents (s.phase w).session hd
    rcases commit_document h.stored (h.phases w) hd with ⟨same, _⟩ | ⟨_, pending⟩
    · exact Or.inl (same ▸ moved)
    · exact Or.inr (Or.inr ⟨w, rfl, _, moved, pending⟩)

/-- A document row after a step is new, or the successor of an old one. -/
theorem change_document {e : Event n} {t : World n} (h : Sound s) (c : Change s e t)
    {x : Document} (hx : x ∈ t.db.documents) :
    x ∈ s.db.documents ∨ (∃ sha256 u o, x = (newDocument sha256 u o).row) ∨
      ∃ d ∈ s.db.documents, (∃ documentId now, x = deletedAs documentId now d) ∨
        ∃ w, e = .commit w ∧ PendingDocument (s.phase w) d x := by
  cases c with
  | accounts _ _ _ | beside _ _ _ | own _ _ _ _ _ => exact Or.inl hx
  | uploaded sha256 u o db objects new =>
    obtain ⟨_, rfl⟩ := (insertUpload_ok_iff rfl rfl rfl).mp new
    rcases List.mem_append.mp hx with old | new
    · exact Or.inl old
    · exact Or.inr (Or.inl ⟨sha256, u, o, List.mem_singleton.mp new⟩)
  | deleted documentId tenantId now deleteError objects free =>
    obtain ⟨d, hd, rfl⟩ := List.mem_map.mp hx
    exact Or.inr (Or.inr ⟨d, hd, Or.inl ⟨documentId, now, rfl⟩⟩)
  | commit w p m =>
    obtain ⟨d, hd, rfl⟩ := mem_view_iff.mp hx
    rcases commit_document h.stored (h.phases w) hd with ⟨same, _⟩ | ⟨_, pending⟩
    · exact Or.inl (same.symm ▸ hd)
    · exact Or.inr (Or.inr ⟨d, hd, Or.inr ⟨w, rfl, pending⟩⟩)

/-- A chunk row after a step is an old one, or one that `complete_job` has made. -/
theorem change_chunk {e : Event n} {t : World n} (h : Sound s) (c : Change s e t)
    {x : Chunk} (hx : x ∈ t.db.chunks) :
    x ∈ s.db.chunks ∨ ∃ w b tx, e = .commit w ∧ s.phase w = .storing b tx ∧ x ∈ tx.chunks := by
  cases c with
  | accounts _ _ _ | beside _ _ _ | deleted _ _ _ _ _ _ | own _ _ _ _ _ => exact Or.inl hx
  | uploaded sha256 u o db objects new =>
    obtain ⟨_, rfl⟩ := (insertUpload_ok_iff rfl rfl rfl).mp new
    exact Or.inl hx
  | commit w p m =>
    rcases List.mem_append.mp hx with old | new
    · exact Or.inl old
    · have ok := (h.phases w).chunks
      generalize hw : s.phase w = ph at m ok new
      cases m with
      | claim tx job =>
        have none : tx.chunks = [] := ok
        exact absurd (none ▸ new) List.not_mem_nil
      | complete b tx => exact Or.inr ⟨w, b, tx, rfl, hw, new⟩
      | fail b tx =>
        have none : tx.chunks = [] := ok
        exact absurd (none ▸ new) List.not_mem_nil

theorem sound_step (cfg : Settings) {e : Event n} {t : World n} (h : Sound s)
    (hs : (machine cfg n).step s e = some t) : Sound t := sound_change h (step_change cfg h hs)

theorem sound_reachable (cfg : Settings) (h : (machine cfg n).Reachable (World.start n) s) : Sound s :=
  Machine.reachable_invariant (sound_start n) (fun _ _ _ hi hs => sound_step cfg hi hs) h

theorem commit_phase (cfg : Settings) {t : World n}
    (hs : (machine cfg n).step s (.commit w) = some t) : Committed (s.phase w) (t.phase w) := by
  have moves := step_moves cfg hs rfl
  generalize t.phase w = p at moves
  cases moves with
  | commit _ m => exact m

/-! ## Late failures -/

/-- The claim whose `fail_job` transaction the step commits. -/
def failCommitted (s : World n) : Event n → Option IngestionJob
  | .commit w => match s.phase w with
    | .failing c _ => some c
    | _ => none
  | _ => none

/-- The step commits a `fail_job` of a claim `c` onto a row `j` with `P c j`. -/
def FailsOn (P : IngestionJob → IngestionJob → Prop) (s : World n) (e : Event n) : Prop :=
  ∃ c ∈ failCommitted s e, ∃ j ∈ s.db.ingestionJobs, j.id = c.id ∧ P c j

instance (P : IngestionJob → IngestionJob → Prop) [∀ c j, Decidable (P c j)] (s : World n)
    (e : Event n) : Decidable (FailsOn P s e) :=
  inferInstanceAs (Decidable (∃ c ∈ failCommitted s e, ∃ j ∈ s.db.ingestionJobs, j.id = c.id ∧ P c j))

theorem failCommitted_eq_some {e : Event n} {c : IngestionJob} (h : failCommitted s e = some c) :
    ∃ w tx, e = .commit w ∧ s.phase w = .failing c tx := by
  cases e with
  | commit w =>
    cases hw : s.phase w with
    | failing b tx =>
      simp only [failCommitted, hw, Option.some.injEq] at h
      exact ⟨w, tx, rfl, h ▸ hw⟩
    | _ => simp [failCommitted, hw] at h
  | _ => cases h

theorem failsOn_iff {P : IngestionJob → IngestionJob → Prop} {e : Event n} :
    FailsOn P s e ↔ ∃ w c tx, e = .commit w ∧ s.phase w = .failing c tx ∧
      ∃ j ∈ s.db.ingestionJobs, j.id = c.id ∧ P c j := by
  constructor
  · rintro ⟨c, hc, row⟩
    obtain ⟨w, tx, he, hw⟩ := failCommitted_eq_some hc
    exact ⟨w, c, tx, he, hw, row⟩
  · rintro ⟨w, c, tx, rfl, hw, row⟩
    exact ⟨c, by simp [failCommitted, hw], row⟩

end Worlds

end WorkerRuns
