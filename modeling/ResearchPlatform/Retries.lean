import ResearchPlatform.ExactlyOnce
import ResearchPlatform.JobHistories

/-!
# One worker and its retries

A single worker that does not crash, over any database and beside any uploads,
account changes and deletions of other documents. An attempt may raise between
any two of its statements; its `fail_job` transaction then commits. What the job
and its document look like after an attempt is a function of the outcomes so far.
-/

namespace Retries

open Uuid Schema RowVersions DocumentService JobService WorkerMachine WorkerInvariants WorkerRuns
  Machines ExactlyOnce JobHistories

/-! ## Attempts -/

inductive Outcome where
  /-- the chunk rows that `complete_job` has inserted -/
  | succeeded (chunks : List Chunk)
  | failed (error : String)
  deriving DecidableEq, Repr

section Worlds
variable {n : Nat} {jobId documentId : UUID}

/-- How an attempt on the job ends: its process transaction commits, or an
exception leaves `process_single_job`'s first block. -/
def outcome (cfg : Settings) (jobId : UUID) (s : World n) : Event n → Option Outcome
  | .process w => match s.phase w with
    | .running c tx =>
      if c.id = jobId then
        match fetchAndProcess cfg s.db s.objects tx c.documentId with
        | .ok _ => none
        | .error error => some (.failed error)
      else none
    | _ => none
  | .raise w error => match s.phase w with
    | .holding c | .running c _ | .processed c _ _ | .storing c _ =>
      if c.id = jobId then some (.failed error) else none
    | _ => none
  | .commit w => match s.phase w with
    | .storing c tx => if c.id = jobId then some (.succeeded tx.chunks) else none
    | _ => none
  | _ => none

/-- A crash, an exception of a `fail_job` transaction, or a deletion of the document. -/
def disturbs (documentId : UUID) (s : World n) : Event n → Bool
  | .crash _ => true
  | .raise w _ => match s.phase w with
    | .raised _ _ | .failing _ _ => true
    | _ => false
  | .softDelete id _ _ _ => id = documentId
  | _ => false

/-- An attempt of another job shows nothing of this one. -/
theorem outcome_eq_none {cfg : Settings} {s : World n} {e : Event n}
    (free : ∀ w c, actor e = some w → (s.phase w).claim = some c → c.id ≠ jobId) :
    outcome cfg jobId s e = none := by
  cases e with
  | process w =>
    cases hw : s.phase w with
    | running c tx => simp [outcome, hw, free w c rfl (by rw [hw]; rfl)]
    | _ => simp [outcome, hw]
  | raise w error =>
    cases hw : s.phase w with
    | holding c | running c tx | processed c tx chunks | storing c tx =>
      simp [outcome, hw, free w c rfl (by rw [hw]; rfl)]
    | _ => simp [outcome, hw]
  | commit w =>
    cases hw : s.phase w with
    | storing c tx => simp [outcome, hw, free w c rfl (by rw [hw]; rfl)]
    | _ => simp [outcome, hw]
  | _ => rfl

/-! ## Where a job stands -/

/-- The job and its document between two attempts, for the outcomes so far. -/
inductive Between (jobId documentId : UUID) (maxAttempts : Nat) (db : Database) :
    List Outcome → Prop
  | queued (errors : List String) (j : IngestionJob) (hj : j ∈ db.ingestionJobs)
      (hid : j.id = jobId) (link : j.documentId = documentId) (most : j.maxAttempts = maxAttempts)
      (status : j.status = .queued) (count : j.attemptCount = errors.length)
      (left : errors.length < maxAttempts) (empty : chunksOf db documentId = []) :
      Between jobId documentId maxAttempts db (errors.map .failed)
  | dead (errors : List String) (j : IngestionJob) (d : Document) (hj : j ∈ db.ingestionJobs)
      (hd : d ∈ db.documents) (hid : j.id = jobId) (link : j.documentId = documentId)
      (most : j.maxAttempts = maxAttempts) (status : j.status = .dead)
      (count : j.attemptCount = errors.length) (spent : errors.length = maxAttempts)
      (doc : d.id = documentId) (failed : d.status = .failed)
      (last : d.errorMessage = errors.getLast?) (empty : chunksOf db documentId = []) :
      Between jobId documentId maxAttempts db (errors.map .failed)
  | completed (errors : List String) (rows : List Chunk) (j : IngestionJob) (d : Document)
      (hj : j ∈ db.ingestionJobs) (hd : d ∈ db.documents) (hid : j.id = jobId)
      (link : j.documentId = documentId) (most : j.maxAttempts = maxAttempts)
      (status : j.status = .completed) (count : j.attemptCount = errors.length + 1)
      (bound : errors.length + 1 ≤ maxAttempts) (doc : d.id = documentId)
      (ready : d.status = .ready) (chunkCount : d.chunkCount = rows.length)
      (chunks : chunksOf db documentId = rows) :
      Between jobId documentId maxAttempts db (errors.map .failed ++ [.succeeded rows])

/-- The claim of attempt `errors.length + 1` is the committed row. -/
structure Attempting (documentId : UUID) (maxAttempts : Nat) (db : Database)
    (errors : List String) (c : IngestionJob) : Prop where
  committed : c ∈ db.ingestionJobs
  link : c.documentId = documentId
  most : c.maxAttempts = maxAttempts
  count : c.attemptCount = errors.length + 1
  empty : chunksOf db documentId = []

/-- The error that a `fail_job` transaction has written, or is about to. -/
def Fails (p : Phase) (c : IngestionJob) (error : String) : Prop :=
  p = .raised c error ∨
    ∃ tx, p = .failing c tx ∧ ∀ q ∈ tx.documents, q.errorMessage = some error

def Works (p : Phase) (c : IngestionJob) : Prop :=
  p = .holding c ∨ (∃ tx, p = .running c tx) ∨ (∃ tx chunks, p = .processed c tx chunks) ∨
    ∃ tx, p = .storing c tx

/-- The state of the job, of its document and of the worker, for the outcomes so far. -/
inductive Standing (jobId documentId : UUID) (maxAttempts : Nat) (s : World 1) :
    List Outcome → Prop
  | resting (past : List Outcome) (free : ∀ c, (s.phase 0).claim = some c → c.id ≠ jobId)
      (between : Between jobId documentId maxAttempts s.db past) :
      Standing jobId documentId maxAttempts s past
  | working (errors : List String) (c : IngestionJob) (hid : c.id = jobId)
      (works : Works (s.phase 0) c) (claim : Attempting documentId maxAttempts s.db errors c) :
      Standing jobId documentId maxAttempts s (errors.map .failed)
  | failing (errors : List String) (error : String) (c : IngestionJob) (hid : c.id = jobId)
      (fails : Fails (s.phase 0) c error) (claim : Attempting documentId maxAttempts s.db errors c) :
      Standing jobId documentId maxAttempts s ((errors ++ [error]).map .failed)

/-! ## What the steps of other jobs leave alone -/

section Frame
variable {s t : World n} {e : Event n} {j : IngestionJob}

theorem job_kept (h : Sound s) (change : Change s e t)
    (free : ∀ w c, (s.phase w).claim = some c → c.id ≠ j.id) (unclaimed : claimed j.id s e = none)
    (hj : j ∈ s.db.ingestionJobs) (status : j.status ≠ .claimed) : j ∈ t.db.ingestionJobs := by
  rcases change_job_keeps h change hj with same | ⟨w, rfl, q, hq, pending, _, p, m⟩
  · exact same
  · cases hw : s.phase w with
    | selected tx job =>
      rw [hw] at pending
      cases job with
      | none => exact absurd pending.1 status
      | some c =>
        rcases pending with ⟨reset, _⟩ | ⟨rfl, version⟩
        · exact absurd reset status
        · simp [claimed, hw, (claimVersion_advances version).1.id] at unclaimed
    | storing c tx =>
      rw [hw] at pending
      exact absurd pending.1.symm (free w c (by rw [hw]; rfl))
    | failing c tx =>
      rw [hw] at pending
      exact absurd pending.1.symm (free w c (by rw [hw]; rfl))
    | _ =>
      rw [hw] at m
      cases m

theorem document_kept (h : Sound s) (change : Change s e t)
    (free : ∀ w c, (s.phase w).claim = some c → c.id ≠ j.id) (hj : j ∈ s.db.ingestionJobs)
    (undeleted : ∀ tenantId now error, e ≠ .softDelete j.documentId tenantId now error)
    {d : Document} (hd : d ∈ s.db.documents) (link : d.id = j.documentId) :
    d ∈ t.db.documents := by
  have elsewhere : ∀ w c, (s.phase w).claim = some c → d.id ≠ c.documentId := fun w c hc =>
    link ▸ other_document h hc hj (free w c hc).symm
  rcases change_document_keeps h change hd with
    same | ⟨id, tenantId, now, error, he, moved⟩ | ⟨w, rfl, q, hq, pending⟩
  · exact same
  · have other : d.id ≠ id := by
      rintro rfl
      exact undeleted tenantId now error (link ▸ he)
    rwa [deletedAs_of_ne now other] at moved
  · cases hw : s.phase w with
    | storing c tx =>
      rw [hw] at pending
      exact absurd pending.1 (elsewhere w c (by rw [hw]; rfl))
    | failing c tx =>
      rw [hw] at pending
      exact absurd pending.1 (elsewhere w c (by rw [hw]; rfl))
    | _ =>
      rw [hw] at pending
      exact pending.elim

theorem chunks_kept (h : Sound s) (change : Change s e t)
    (free : ∀ w c, (s.phase w).claim = some c → c.id ≠ j.id) (hj : j ∈ s.db.ingestionJobs) :
    chunksOf t.db j.documentId = chunksOf s.db j.documentId := by
  cases change with
  | accounts _ _ _ _ | beside _ _ _ | deleted _ _ _ _ _ _ | own _ _ _ _ _ => rfl
  | uploaded sha256 u o db objects new =>
    obtain ⟨_, rfl⟩ := (insertUpload_ok_iff rfl rfl rfl).mp new
    rfl
  | commit w p m =>
    refine chunksOf_commit_of_not_mem j.documentId fun x hx => ?_
    obtain ⟨c, hc, link, _, _⟩ := chunksOk_owner (h.phases w).chunks hx
    rw [← link]
    exact (other_document h hc hj (free w c hc).symm).symm

theorem between_kept {maxAttempts : Nat} {past : List Outcome} (h : Sound s)
    (change : Change s e t) (free : ∀ w c, (s.phase w).claim = some c → c.id ≠ jobId)
    (unclaimed : claimed jobId s e = none)
    (undeleted : ∀ tenantId now error, e ≠ .softDelete documentId tenantId now error)
    (between : Between jobId documentId maxAttempts s.db past) :
    Between jobId documentId maxAttempts t.db past := by
  cases between with
  | queued errors j hj hid link most status count left empty =>
    subst hid link
    have kept := job_kept h change free unclaimed hj (by simp [status])
    exact .queued errors j kept rfl rfl most status count left
      ((chunks_kept h change free hj).trans empty)
  | dead errors j d hj hd hid link most status count spent doc failed last empty =>
    subst hid link
    have kept := job_kept h change free unclaimed hj (by simp [status])
    have keptDoc := document_kept h change free hj undeleted hd doc
    exact .dead errors j d kept keptDoc rfl rfl most status count spent doc failed last
      ((chunks_kept h change free hj).trans empty)
  | completed errors rows j d hj hd hid link most status count bound doc ready chunkCount chunks =>
    subst hid link
    have kept := job_kept h change free unclaimed hj (by simp [status])
    have keptDoc := document_kept h change free hj undeleted hd doc
    exact .completed errors rows j d kept keptDoc rfl rfl most status count bound doc ready
      chunkCount ((chunks_kept h change free hj).trans chunks)

end Frame

end Worlds

/-! ## One step of the one worker -/

section Steps
variable {cfg : Settings} {jobId documentId : UUID} {maxAttempts : Nat} {s t : World 1}
  {e : Event 1} {past : List Outcome} {errors : List String} {c : IngestionJob}

theorem attempting_quiet (h : Sound s) (change : Change s e t) (notCommit : ∀ w, e ≠ .commit w)
    (claim : Attempting documentId maxAttempts s.db errors c) :
    Attempting documentId maxAttempts t.db errors c := by
  refine ⟨?_, claim.link, claim.most, claim.count, ?_⟩
  · rcases change_job_keeps h change claim.committed with same | ⟨w, he, _⟩
    · exact same
    · exact absurd he (notCommit w)
  · rw [← claim.empty]
    cases change with
    | accounts _ _ _ _ | beside _ _ _ | deleted _ _ _ _ _ _ | own _ _ _ _ _ => rfl
    | uploaded sha256 u o db objects new =>
      obtain ⟨_, rfl⟩ := (insertUpload_ok_iff rfl rfl rfl).mp new
      rfl
    | commit w p m => exact absurd rfl (notCommit w)

theorem free_worker (free : ∀ c, (s.phase 0).claim = some c → c.id ≠ jobId) :
    ∀ w c, (s.phase w).claim = some c → c.id ≠ jobId := by
  intro w
  rw [Subsingleton.elim w 0]
  exact free

theorem outcome_eq_none_of_other (other : actor e ≠ some 0) : outcome cfg jobId s e = none := by
  refine outcome_eq_none fun w c he => ?_
  rw [Subsingleton.elim w 0] at he
  exact absurd he other

theorem undeleted_of_calm (calm : disturbs documentId s e = false) :
    ∀ tenantId now error, e ≠ .softDelete documentId tenantId now error := by
  rintro tenantId now error rfl
  simp [disturbs] at calm

/-- While no attempt on the job is going on, only the commit of a claim starts one. -/
theorem resting_quiet (h : Sound s) (change : Change s e t)
    (calm : disturbs documentId s e = false) (notCommit : ∀ w, e ≠ .commit w)
    (free : ∀ c, (s.phase 0).claim = some c → c.id ≠ jobId)
    (between : Between jobId documentId maxAttempts s.db past) :
    Standing jobId documentId maxAttempts t (past ++ (outcome cfg jobId s e).toList) := by
  have everywhere := free_worker free
  rw [outcome_eq_none fun w c _ => everywhere w c, Option.toList_none, List.append_nil]
  refine .resting past (fun c hc => ?_) (between_kept h change everywhere
    (claimed_eq_none notCommit) (undeleted_of_calm calm) between)
  rcases change_claim change hc with ⟨_, old⟩ | ⟨he, _⟩
  · exact free c old
  · exact absurd he (notCommit 0)

/-- The worker's own claim is committed under its version, so `mark_running` meets it. -/
theorem not_refused {lockedJobs : UUID → Prop} [DecidablePred lockedJobs] {db : Database}
    {now : Time} {tx : Session} (committed : c ∈ db.ingestionJobs) :
    JobService.markRunning lockedJobs c.id c.version now db Session.empty ≠ some (tx, false) := by
  intro run
  simp only [JobService.markRunning, Option.map_eq_some_iff, Prod.mk.injEq,
    decide_eq_false_iff_not] at run
  obtain ⟨⟨jobs, count⟩, hu, _, missed⟩ := run
  obtain ⟨_, _, rfl⟩ := update_spec hu
  refine missed (List.length_pos_of_mem (a := c) ?_)
  simpa [List.mem_filter, Session.empty] using committed

theorem working_quiet (h : Sound s) (change : Change s e t)
    (hs : (machine cfg 1).step s e = some t) (calm : disturbs documentId s e = false)
    (notCommit : ∀ w, e ≠ .commit w) (hid : c.id = jobId) (works : Works (s.phase 0) c)
    (claim : Attempting documentId maxAttempts s.db errors c) :
    Standing jobId documentId maxAttempts t
      (errors.map .failed ++ (outcome cfg jobId s e).toList) := by
  have still := attempting_quiet h change notCommit claim
  by_cases own : actor e = some 0
  · have moves := step_moves cfg hs own
    have works_on : ∀ {p}, t.phase 0 = p → Works p c → outcome cfg jobId s e = none →
        Standing jobId documentId maxAttempts t
          (errors.map .failed ++ (outcome cfg jobId s e).toList) := by
      rintro p rfl works shown
      rw [shown, Option.toList_none, List.append_nil]
      exact .working errors c hid works still
    have fails_with : ∀ {p error}, t.phase 0 = p → Fails p c error →
        outcome cfg jobId s e = some (.failed error) →
        Standing jobId documentId maxAttempts t
          (errors.map .failed ++ (outcome cfg jobId s e).toList) := by
      rintro p error rfl fails shown
      have shape : Standing jobId documentId maxAttempts t ((errors ++ [error]).map .failed) :=
        .failing errors error c hid fails still
      rw [shown]
      simpa using shape
    generalize after : t.phase 0 = p at moves
    cases moves with
    | resetStale now tx hw _ => simp [Works, hw] at works
    | claim now tx hw => simp [Works, hw] at works
    | started now c' tx hw run =>
      have same : c' = c := by simpa [Works, hw] using works
      subst same
      exact works_on after (Or.inr (Or.inl ⟨tx, rfl⟩)) rfl
    | refused now c' tx hw run =>
      have same : c' = c := by simpa [Works, hw] using works
      subst same
      exact absurd run (not_refused claim.committed)
    | processed c' tx chunks hw run =>
      have same : c' = c := by simpa [Works, hw] using works
      subst same
      exact works_on after (Or.inr (Or.inr (Or.inl ⟨tx, chunks, rfl⟩))) (by simp [outcome, hw, run])
    | broke c' tx error hw run =>
      have same : c' = c := by simpa [Works, hw] using works
      subst same
      exact fails_with after (Or.inl rfl) (by simp [outcome, hw, run, hid])
    | complete chunkId now c' tx tx' chunks hw run =>
      have same : c' = c := by simpa [Works, hw] using works
      subst same
      exact works_on after (Or.inr (Or.inr (Or.inr ⟨tx', rfl⟩))) rfl
    | fail now c' error tx hw run => simp [Works, hw] at works
    | commit p m => exact absurd rfl (notCommit 0)
    | raise error c' hw =>
      have same : c' = c := by
        rcases hw with hw | ⟨tx, hw⟩ | ⟨tx, chunks, hw⟩ | ⟨tx, hw⟩ <;> simpa [Works, hw] using works
      subst same
      refine fails_with after (Or.inl rfl) ?_
      rcases hw with hw | ⟨tx, hw⟩ | ⟨tx, chunks, hw⟩ | ⟨tx, hw⟩ <;> simp [outcome, hw, hid]
    | drop error hw =>
      rcases works with hp | ⟨tx, hp⟩ | ⟨tx, chunks, hp⟩ | ⟨tx, hp⟩ <;> simp [hp, Phase.claim] at hw
    | crash => simp [disturbs] at calm
  · rw [outcome_eq_none_of_other own, Option.toList_none, List.append_nil]
    exact .working errors c hid ((phase_of_other cfg hs own).symm ▸ works) still

theorem failJob_errors {lockedJobs lockedDocuments : UUID → Prop} [DecidablePred lockedJobs]
    [DecidablePred lockedDocuments] {jobId documentId : UUID} {error : String}
    {attemptCount maxAttempts : Nat} {now : Time} {db : Database} {tx : Session}
    (run : failJob lockedJobs lockedDocuments jobId documentId error attemptCount maxAttempts now db
      Session.empty = some tx) : ∀ q ∈ tx.documents, q.errorMessage = some error := by
  have keeps : ∀ d, (failedAs error now d).id = d.id := fun _ => rfl
  rw [failJob] at run
  split at run
  · simp only [Option.bind_eq_bind, Option.bind_eq_some_iff, Option.some.injEq] at run
    obtain ⟨_, _, ⟨docs, count⟩, hd, rfl⟩ := run
    intro q hq
    obtain ⟨d, -, -, rfl⟩ := mem_first_update keeps hd hq
    rfl
  · simp only [Option.bind_eq_bind, Option.bind_eq_some_iff, Option.some.injEq] at run
    obtain ⟨_, _, rfl⟩ := run
    intro q hq
    exact absurd hq List.not_mem_nil

theorem failing_quiet (h : Sound s) (change : Change s e t)
    (hs : (machine cfg 1).step s e = some t) (calm : disturbs documentId s e = false)
    (notCommit : ∀ w, e ≠ .commit w) (hid : c.id = jobId) {error : String}
    (fails : Fails (s.phase 0) c error)
    (claim : Attempting documentId maxAttempts s.db errors c) :
    Standing jobId documentId maxAttempts t
      ((errors ++ [error]).map .failed ++ (outcome cfg jobId s e).toList) := by
  have still := attempting_quiet h change notCommit claim
  by_cases own : actor e = some 0
  · have moves := step_moves cfg hs own
    generalize after : t.phase 0 = p at moves
    cases moves with
    | fail now c' error' tx hw run =>
      have same : c' = c ∧ error' = error := by simpa [Fails, hw] using fails
      obtain ⟨rfl, rfl⟩ := same
      rw [show outcome cfg jobId s (.fail 0 now) = none from rfl, Option.toList_none,
        List.append_nil]
      exact .failing errors error' c' hid (after ▸ Or.inr ⟨tx, rfl, failJob_errors run⟩) still
    | commit p m => exact absurd rfl (notCommit 0)
    | crash => simp [disturbs] at calm
    | drop error' hw =>
      rcases fails with hp | ⟨tx, hp, _⟩
      · simp [disturbs, hp] at calm
      · simp [disturbs, hp] at calm
    | raise error' c' hw =>
      rcases hw with hw | ⟨tx, hw⟩ | ⟨tx, chunks, hw⟩ | ⟨tx, hw⟩ <;> simp [Fails, hw] at fails
    | resetStale now tx hw _ | claim now tx hw | started now c' tx hw _ | refused now c' tx hw _
    | processed c' tx chunks hw _ | broke c' tx error' hw _
    | complete chunkId now c' tx tx' chunks hw _ => simp [Fails, hw] at fails
  · rw [outcome_eq_none_of_other own, Option.toList_none, List.append_nil]
    exact .failing errors error c hid ((phase_of_other cfg hs own).symm ▸ fails) still

/-! ## Commits -/

theorem chunks_after {tx : Session} (empty : chunksOf s.db documentId = [])
    (mine : ∀ x ∈ tx.chunks, x.documentId = documentId) :
    chunksOf (tx.commit s.db) documentId = tx.chunks := by
  rw [chunksOf_commit, empty, List.nil_append, List.filter_eq_self]
  simpa using mine

/-- The commit of a claim starts the next attempt of a job that has one left. -/
theorem resting_commit (h : Sound s) (change : Change s (.commit 0) t)
    (hs : (machine cfg 1).step s (.commit 0) = some t)
    (free : ∀ c, (s.phase 0).claim = some c → c.id ≠ jobId)
    (between : Between jobId documentId maxAttempts s.db past) :
    Standing jobId documentId maxAttempts t (past ++ (outcome cfg jobId s (.commit 0)).toList) := by
  have everywhere := free_worker free
  rw [outcome_eq_none fun w c _ => everywhere w c, Option.toList_none, List.append_nil]
  by_cases mine : ∃ tx c, s.phase 0 = .selected tx (some c) ∧ c.id = jobId
  · obtain ⟨tx, c, hw, hid⟩ := mine
    have after : t.phase 0 = .holding c := by
      have m := commit_phase cfg hs
      rw [hw] at m
      generalize t.phase 0 = p at m
      cases m
      rfl
    obtain ⟨committed, _⟩ := selected_commit h change hw
    obtain ⟨_, i, hi, hic, version, _⟩ := selected_version h hw
    obtain ⟨adv, _, counted⟩ := claimVersion_advances version
    have open_ : ∀ j ∈ s.db.ingestionJobs, j.id = jobId →
        j = i ∧ (j.status = .queued ∨ j.status = .claimed) := by
      intro j hj hjid
      have same : j = i := eq_of_key h.stored.jobIds hj hi (hjid.trans (hid.symm.trans hic.symm))
      have pending : PendingJob (.selected tx (some c)) j c := same ▸ Or.inr ⟨rfl, version⟩
      exact ⟨same, (pendingJob_selected pending).1⟩
    cases between with
    | queued errors j hj hjid link most status count left empty =>
      obtain ⟨rfl, _⟩ := open_ j hj hjid
      refine .working errors c hid (Or.inl after) ⟨committed, adv.documentId.trans link,
        adv.maxAttempts.trans most, by rw [counted, count], ?_⟩
      rw [← link, chunks_kept h change (fun w c hc => hjid ▸ everywhere w c hc) hj, link, empty]
    | dead errors j d hj hd hjid link most status count spent doc failed last empty =>
      obtain ⟨_, claimable⟩ := open_ j hj hjid
      simp [status] at claimable
    | completed errors rows j d hj hd hjid link most status _ _ _ _ _ _ =>
      obtain ⟨_, claimable⟩ := open_ j hj hjid
      simp [status] at claimable
  · have unclaimed : claimed jobId s (.commit 0) = none := by
      rw [Option.eq_none_iff_forall_not_mem]
      intro version shown
      obtain ⟨w, c, tx, he, hw, hid, _⟩ := claimed_eq_some shown
      cases he
      exact mine ⟨tx, c, hw, hid⟩
    refine .resting past (fun c hc => ?_) (between_kept h change everywhere unclaimed (by simp)
      between)
    rcases change_claim change hc with ⟨_, old⟩ | ⟨_, hw, _⟩
    · exact free c old
    · exact fun hid => mine ⟨_, c, hw, hid⟩

theorem idle_free (after : t.phase 0 = .idle) :
    ∀ c, (t.phase 0).claim = some c → c.id ≠ jobId := by
  intro c hc
  rw [after] at hc
  cases hc

/-- The commit of `complete_job` finishes the job with the chunks of this attempt. -/
theorem working_commit (h : Sound s) (change : Change s (.commit 0) t)
    (hs : (machine cfg 1).step s (.commit 0) = some t) (hid : c.id = jobId)
    (works : Works (s.phase 0) c) (claim : Attempting documentId maxAttempts s.db errors c) :
    Standing jobId documentId maxAttempts t
      (errors.map .failed ++ (outcome cfg jobId s (.commit 0)).toList) := by
  have m := commit_phase cfg hs
  rcases works with hw | ⟨tx, hw⟩ | ⟨tx, chunks, hw⟩ | ⟨tx, hw⟩
  · rw [hw] at m
    cases m
  · rw [hw] at m
    cases m
  · rw [hw] at m
    cases m
  · have after : t.phase 0 = .idle := by
      rw [hw] at m
      generalize t.phase 0 = p at m
      cases m
      rfl
    have ok := h.phases 0
    rw [hw] at ok
    obtain ⟨q, hq, moves⟩ := claim_commit h change (by rw [hw]; rfl) claim.committed rfl
    have pending := moves.pending
    rw [hw] at pending
    obtain ⟨_, _, now, later, rfl⟩ := pending
    obtain ⟨d, hd, hdoc, _⟩ := h.stored.docOfJob c claim.committed
    obtain ⟨x, hx, _, document⟩ := locked_document_commit h change hd
      (by rw [hw, hdoc]; exact ok.held.2)
    rw [hw] at document
    obtain ⟨_, now', rfl⟩ := document
    have rows : chunksOf t.db documentId = tx.chunks := by
      rw [(commit_db change).1, hw]
      exact chunks_after claim.empty fun x hx => (ok.chunks.2 x hx).1.trans claim.link
    have bound := h.stored.attempts c claim.committed
    rw [claim.count, claim.most] at bound
    rw [show (outcome cfg jobId s (.commit 0)).toList = [.succeeded tx.chunks] by
      simp [outcome, hw, hid]]
    refine .resting _ (idle_free after) (.completed errors tx.chunks _ _ hq hx hid claim.link
      claim.most rfl claim.count bound (hdoc.trans claim.link) rfl rfl rows)

/-- The commit of `fail_job` requeues the job, or buries it with its document. -/
theorem failing_commit (h : Sound s) (change : Change s (.commit 0) t)
    (hs : (machine cfg 1).step s (.commit 0) = some t) (hid : c.id = jobId) {error : String}
    (fails : Fails (s.phase 0) c error)
    (claim : Attempting documentId maxAttempts s.db errors c) :
    Standing jobId documentId maxAttempts t
      ((errors ++ [error]).map .failed ++ (outcome cfg jobId s (.commit 0)).toList) := by
  have m := commit_phase cfg hs
  rcases fails with hw | ⟨tx, hw, written⟩
  · rw [hw] at m
    cases m
  · have after : t.phase 0 = .idle := by
      rw [hw] at m
      generalize t.phase 0 = p at m
      cases m
      rfl
    have ok := h.phases 0
    rw [hw] at ok
    obtain ⟨q, hq, moves⟩ := claim_commit h change (by rw [hw]; rfl) claim.committed rfl
    have pending := moves.pending
    rw [hw] at pending
    have noChunks : tx.chunks = [] := ok.chunks
    have empty : chunksOf t.db documentId = [] := by
      rw [(commit_db change).1, hw]
      exact (chunks_after claim.empty (by simp [Phase.session, noChunks])).trans noChunks
    rw [show outcome cfg jobId s (.commit 0) = none by simp [outcome, hw], Option.toList_none,
      List.append_nil]
    obtain ⟨_, ⟨spent, e, rfl⟩ | ⟨left, e, rfl⟩⟩ := pending
    · obtain ⟨d, hd, hdoc, _⟩ := h.stored.docOfJob c claim.committed
      obtain ⟨x, hx, own, document⟩ := locked_document_commit h change hd
        (by rw [hw, hdoc]; exact ok.held.2 spent)
      rw [hw] at document own
      obtain ⟨_, _, e', now, rfl⟩ := document
      have bound := h.stored.attempts c claim.committed
      have last : (failedAs e' now d).errorMessage = (errors ++ [error]).getLast? := by
        rw [written _ own, List.getLast?_concat]
      refine .resting _ (idle_free after) (.dead (errors ++ [error]) _ _ hq hx hid claim.link
        claim.most rfl ?_ ?_ (hdoc.trans claim.link) rfl last empty)
      · rw [List.length_append, List.length_singleton]
        exact claim.count
      · rw [List.length_append, List.length_singleton, ← claim.count, ← claim.most]
        exact le_antisymm bound spent
    · refine .resting _ (idle_free after) (.queued (errors ++ [error]) _ hq hid claim.link
        claim.most rfl ?_ ?_ empty)
      · rw [List.length_append, List.length_singleton]
        exact claim.count
      · rw [List.length_append, List.length_singleton, ← claim.count, ← claim.most]
        exact left

theorem standing_step (h : Sound s) (standing : Standing jobId documentId maxAttempts s past)
    (calm : disturbs documentId s e = false) (hs : (machine cfg 1).step s e = some t) :
    Standing jobId documentId maxAttempts t (past ++ (outcome cfg jobId s e).toList) := by
  have change := step_change cfg h hs
  by_cases commit : ∃ w, e = .commit w
  · obtain ⟨w, rfl⟩ := commit
    obtain rfl := Subsingleton.elim w 0
    cases standing with
    | resting past free between => exact resting_commit h change hs free between
    | working errors c hid works claim => exact working_commit h change hs hid works claim
    | failing errors error c hid fails claim => exact failing_commit h change hs hid fails claim
  · have notCommit : ∀ w, e ≠ .commit w := fun w he => commit ⟨w, he⟩
    cases standing with
    | resting past free between => exact resting_quiet h change calm notCommit free between
    | working errors c hid works claim =>
      exact working_quiet h change hs calm notCommit hid works claim
    | failing errors error c hid fails claim =>
      exact failing_quiet h change hs calm notCommit hid fails claim

end Steps

/-! ## Whole runs -/

/-- The job is completed by the given attempt, with its chunks. -/
structure Completed (db : Database) (j : IngestionJob) (attempt : Nat) (rows : List Chunk) : Prop where
  job : ∃ q ∈ db.ingestionJobs, q.id = j.id ∧ q.status = .completed ∧ q.attemptCount = attempt
  document : ∃ d ∈ db.documents, d.id = j.documentId ∧ d.status = .ready ∧
    d.chunkCount = rows.length
  chunks : chunksOf db j.documentId = rows

/-- The job is dead, and its document failed with the given error and no chunks. -/
structure Buried (db : Database) (j : IngestionJob) (error : Option String) : Prop where
  job : ∃ q ∈ db.ingestionJobs, q.id = j.id ∧ q.status = .dead ∧ q.attemptCount = j.maxAttempts
  document : ∃ d ∈ db.documents, d.id = j.documentId ∧ d.status = .failed ∧ d.errorMessage = error
  chunks : chunksOf db j.documentId = []

theorem map_failed_injective {errors errors' : List String}
    (h : errors.map Outcome.failed = errors'.map .failed) : errors = errors' :=
  List.map_injective_iff.mpr (fun _ _ he => Outcome.failed.inj he) h

theorem map_failed_ne {errors errors' : List String} {rows : List Chunk} :
    errors.map Outcome.failed ≠ errors'.map .failed ++ [.succeeded rows] := by
  intro h
  have last : Outcome.succeeded rows ∈ errors.map Outcome.failed := by simp [h]
  simp at last

theorem sound_of_idle {s : World 1} (stored : Stored s.db) (idle : s.phase 0 = .idle) : Sound s := by
  have none : ∀ w, s.phase w = .idle := by
    intro w
    rw [Subsingleton.elim w 0]
    exact idle
  refine ⟨stored, fun w => ?_, ?_, ?_, ?_, ?_⟩
  · rw [none w]
    exact phaseOk_of_no_session rfl trivial rfl
  · intro v w k _ hk
    rw [none v] at hk
    exact absurd hk (not_locks_nil k)
  · intro v w k _ hk
    rw [none v] at hk
    exact absurd hk (not_locks_nil k)
  · intro w c hc
    rw [none w] at hc
    cases hc
  · intro v w b c _ hb
    rw [none v] at hb
    cases hb

/-- A queued job with any number of permitted attempts: it ends completed by the
first attempt that succeeds, or dead with its last error when all have failed, and
no attempt is made beyond either. -/
theorem retry_protocol (cfg : Settings) (s t : World 1) (j : IngestionJob) (es : List (Event 1))
    (stored : Stored s.db) (idle : s.phase 0 = .idle) (hj : j ∈ s.db.ingestionJobs)
    (queued : j.status = .queued) (unclaimed : j.attemptCount = 0) (permitted : 1 ≤ j.maxAttempts)
    (empty : chunksOf s.db j.documentId = [])
    (calm : (machine cfg 1).EveryStep (fun s e _ => disturbs j.documentId s e = false) s es)
    (run : (machine cfg 1).run s es = some t)
    (ended : ∀ c, (t.phase 0).claim = some c → c.id ≠ j.id) :
    ((machine cfg 1).observed (claimed j.id) s es).length ≤ j.maxAttempts ∧
      (∃ errors : List String, (machine cfg 1).observed (outcome cfg j.id) s es = errors.map .failed ∨
        ∃ rows, (machine cfg 1).observed (outcome cfg j.id) s es =
          errors.map .failed ++ [.succeeded rows]) ∧
      (∀ (errors : List String) rows, (machine cfg 1).observed (outcome cfg j.id) s es =
          errors.map .failed ++ [.succeeded rows] →
        errors.length + 1 ≤ j.maxAttempts ∧ Completed t.db j (errors.length + 1) rows) ∧
      ∀ errors : List String, (machine cfg 1).observed (outcome cfg j.id) s es = errors.map .failed →
        errors.length = j.maxAttempts → Buried t.db j errors.getLast? := by
  have sound := sound_of_idle stored idle
  have first : Standing j.id j.documentId j.maxAttempts s [] := by
    refine .resting [] (by simp [idle, Phase.claim]) ?_
    exact .queued [] j hj rfl rfl rfl queued unclaimed permitted empty
  have uncounted : Counted j.id s [] := by
    refine ⟨fun i hi hid => ?_, fun none => absurd rfl (none j hj)⟩
    rw [eq_of_key stored.jobIds hi hj hid, unclaimed]
    rfl
  obtain ⟨h, standing⟩ := Machine.run_keeps_history
    (J := fun s past => Sound s ∧ Standing j.id j.documentId j.maxAttempts s past)
    (fun s e t past i hs calm => ⟨sound_step cfg i.1 hs, standing_step i.1 i.2 calm hs⟩)
    ⟨sound, first⟩ calm run
  obtain ⟨_, counted⟩ := Machine.run_keeps_history
    (J := fun s claims => Sound s ∧ Counted j.id s claims)
    (fun s e t claims i hs _ => ⟨sound_step cfg i.1 hs,
      counted_change i.1 i.2 (step_change cfg i.1 hs)⟩)
    ⟨sound, uncounted⟩ calm run
  rw [List.nil_append] at standing counted
  have bounded : ∀ q ∈ t.db.ingestionJobs, q.id = j.id → q.maxAttempts = j.maxAttempts →
      ((machine cfg 1).observed (claimed j.id) s es).length ≤ j.maxAttempts := by
    intro q hq hid most
    rw [← counted.1 q hq hid, ← most]
    exact h.stored.attempts q hq
  generalize (machine cfg 1).observed (outcome cfg j.id) s es = outcomes at standing ⊢
  cases standing with
  | resting past free between =>
    cases between with
    | queued errors q hq hid link most status count left none =>
      refine ⟨bounded q hq hid most, ⟨errors, Or.inl rfl⟩, fun errors' rows he => ?_,
        fun errors' he spent => ?_⟩
      · exact absurd he map_failed_ne
      · rw [map_failed_injective he] at left
        omega
    | dead errors q d hq hd hid link most status count spent doc failed last none =>
      refine ⟨bounded q hq hid most, ⟨errors, Or.inl rfl⟩, fun errors' rows he => ?_,
        fun errors' he _ => ?_⟩
      · exact absurd he map_failed_ne
      · rw [← map_failed_injective he]
        exact ⟨⟨q, hq, hid, status, count.trans spent⟩, ⟨d, hd, doc, failed, last⟩, none⟩
    | completed errors rows q d hq hd hid link most status count bound doc ready chunkCount chunks =>
      refine ⟨bounded q hq hid most, ⟨errors, Or.inr ⟨rows, rfl⟩⟩, fun errors' rows' he => ?_,
        fun errors' he _ => ?_⟩
      · obtain ⟨same, last⟩ := List.append_inj' he rfl
        cases last
        rw [← map_failed_injective same]
        exact ⟨bound, ⟨q, hq, hid, status, count⟩, ⟨d, hd, doc, ready, chunkCount⟩, chunks⟩
      · exact absurd he.symm map_failed_ne
  | working errors c hid works claim =>
    refine absurd hid (ended c ?_)
    rcases works with hw | ⟨tx, hw⟩ | ⟨tx, chunks, hw⟩ | ⟨tx, hw⟩ <;> rw [hw] <;> rfl
  | failing errors error c hid fails claim =>
    refine absurd hid (ended c ?_)
    rcases fails with hw | ⟨tx, hw, _⟩ <;> rw [hw] <;> rfl

/-- Workers that have a queued job before them. -/
def demoStart (n : Nat) : World n :=
  ((machine Demo.settings n).run (World.start n) Demo.setup).getD (World.start n)

def demoEnd {n : Nat} (w : Fin n) : World n :=
  ((machine Demo.settings n).run (demoStart n) (retries w)).getD (demoStart n)

theorem retry_protocol_demo :
    Completed (demoEnd (0 : Fin 1)).db (newJob Demo.upload ⟨Demo.documentId, 5, 10, none, none⟩) 2
      [⟨6, Demo.documentId, 1, 2, "hello", none, 0, [1], 50⟩] := by
  -- one evaluation of the run serves all of these
  obtain ⟨uploaded, enabled, ended, queued, empty, calm, failsOnce⟩ :
      ((machine Demo.settings 1).run (World.start 1) Demo.setup).isSome = true ∧
      ((machine Demo.settings 1).run (demoStart 1) (retries 0)).isSome = true ∧
      ((demoEnd (0 : Fin 1)).phase 0).claim = none ∧
      newJob Demo.upload ⟨Demo.documentId, 5, 10, none, none⟩ ∈ (demoStart 1).db.ingestionJobs ∧
      chunksOf (demoStart 1).db Demo.documentId = [] ∧
      (machine Demo.settings 1).EveryStep (fun s e _ => disturbs Demo.documentId s e = false)
        (demoStart 1) (retries 0) ∧
      (machine Demo.settings 1).observed (outcome Demo.settings 5) (demoStart 1) (retries 0) =
        ["timeout"].map .failed ++
          [.succeeded [⟨6, Demo.documentId, 1, 2, "hello", none, 0, [1], 50⟩]] := by
    decide +kernel
  have reached : (machine Demo.settings 1).Reachable (World.start 1) (demoStart 1) :=
    Machine.reachable_getD _ uploaded
  have ran : (machine Demo.settings 1).run (demoStart 1) (retries 0) = some (demoEnd 0) := by
    obtain ⟨t, ht⟩ := Option.isSome_iff_exists.mp enabled
    rw [demoEnd, ht]
    rfl
  have ends := retry_protocol Demo.settings (demoStart 1) (demoEnd 0)
    (newJob Demo.upload ⟨Demo.documentId, 5, 10, none, none⟩) (retries 0)
    (sound_reachable _ reached).stored rfl queued rfl rfl (by decide) empty calm ran
    (by simp [ended])
  exact (ends.2.2.1 ["timeout"] _ failsOnce).2

end Retries
