import ResearchPlatform.WorkerRuns

/-!
# Attempts that run out

`claim_next_job` selects only queued jobs with attempts left, so a queued job
without any is never picked up again. Two statements can leave such a row: the
reset of a stale claim, which does not look at the attempts, and a `fail_job`
that decides from the count its caller remembers. And nothing dead-letters a job
whose last attempt was lost with its worker. These are all the ways in which a job
is stranded.
-/

namespace Stranding

open Uuid Schema RowVersions DocumentService JobService WorkerMachine WorkerInvariants WorkerRuns
  Machines

section Worlds
variable {n : Nat} {s t : World n} {e : Event n}

def Spent (j : IngestionJob) : Prop := j.maxAttempts ≤ j.attemptCount

instance (j : IngestionJob) : Decidable (Spent j) :=
  inferInstanceAs (Decidable (j.maxAttempts ≤ j.attemptCount))

def Claimable (db : Database) : Prop :=
  ∀ j ∈ db.ingestionJobs, j.status = .queued → j.attemptCount < j.maxAttempts

instance (db : Database) : Decidable (Claimable db) := by
  unfold Claimable
  infer_instance

/-- A worker still remembers the claim of the committed attempt. -/
def Attempted (s : World n) (j : IngestionJob) : Prop :=
  ∃ w, ∃ c ∈ (s.phase w).claim, c.id = j.id ∧ c.attemptCount = j.attemptCount

instance (s : World n) (j : IngestionJob) : Decidable (Attempted s j) :=
  inferInstanceAs (Decidable (∃ w, ∃ c ∈ (s.phase w).claim, c.id = j.id ∧ c.attemptCount = j.attemptCount))

def DeadLettered (db : Database) (j : IngestionJob) : Prop :=
  j.status = .dead ∧ ∃ d ∈ db.documents, d.id = j.documentId ∧ d.status = .failed

instance (db : Database) (j : IngestionJob) : Decidable (DeadLettered db j) :=
  inferInstanceAs (Decidable (j.status = .dead ∧ ∃ d ∈ db.documents, d.id = j.documentId ∧ d.status = .failed))

/-- A queued job can be claimed, and a job whose last permitted attempt was lost is
dead-lettered: without a worker that still makes that attempt, it has succeeded or it is dead. -/
structure NoneStranded (s : World n) : Prop where
  claimable : Claimable s.db
  lost : ∀ j ∈ s.db.ingestionJobs, Spent j → ¬ Attempted s j → j.status = .completed ∨ DeadLettered s.db j

instance (s : World n) : Decidable (NoneStranded s) :=
  decidable_of_iff (Claimable s.db ∧ ∀ j ∈ s.db.ingestionJobs, Spent j → ¬ Attempted s j →
      j.status = .completed ∨ DeadLettered s.db j)
    ⟨fun h => ⟨h.1, h.2⟩, fun h => ⟨h.claimable, h.lost⟩⟩

/-- The claim transaction that the step commits. -/
def claimCommitted (s : World n) : Event n → Option Session
  | .commit w => match s.phase w with
    | .selected tx _ => some tx
    | _ => none
  | _ => none

/-- The step commits a `claim_next_job` that has reset a spent job. -/
def ResetsSpent (s : World n) (e : Event n) : Prop :=
  ∃ tx ∈ claimCommitted s e,
    ∃ j ∈ s.db.ingestionJobs, Locks IngestionJob.id tx.jobs j.id ∧ Spent j

theorem claimCommitted_eq_some {tx : Session} (h : claimCommitted s e = some tx) :
    ∃ w job, e = .commit w ∧ s.phase w = .selected tx job := by
  cases e with
  | commit w =>
    cases hw : s.phase w with
    | selected tx' job =>
      simp only [claimCommitted, hw, Option.some.injEq] at h
      exact ⟨w, job, rfl, h ▸ hw⟩
    | _ => simp [claimCommitted, hw] at h
  | _ => cases h

/-- The step commits a `fail_job` that still counts attempts, on a spent job. -/
def RetriesSpent (s : World n) (e : Event n) : Prop :=
  FailsOn (fun c j => c.attemptCount < c.maxAttempts ∧ Spent j) s e

/-- The claim that a worker forgets: it crashes, or its fail transaction raises. -/
def forgotten (s : World n) : Event n → Option IngestionJob
  | .crash w => (s.phase w).claim
  | .raise w _ => match s.phase w with
    | .raised c _ | .failing c _ => some c
    | _ => none
  | _ => none

/-- The step loses the last permitted attempt of a job that has neither succeeded nor been
dead-lettered. -/
def LosesLast (s : World n) (e : Event n) : Prop :=
  ∃ c ∈ forgotten s e, ∃ j ∈ s.db.ingestionJobs, j.id = c.id ∧ j.attemptCount = c.attemptCount ∧
    Spent j ∧ j.status ≠ .completed ∧ ¬ DeadLettered s.db j

theorem not_claimable_of_spent {j c : IngestionJob} (spent : Spent j) : ¬ ClaimVersion j c := by
  rintro ⟨b, worker, now, hb, claimable, _⟩
  simp only [JobService.claimable, Bool.and_eq_true, decide_eq_true_eq] at claimable
  have more := claimable.2
  rw [Spent] at spent
  rcases hb with rfl | ⟨_, rfl⟩
  · omega
  · simp only [requeued] at more
    omega

/-- A claim transaction can only requeue a spent row. -/
theorem requeued_of_spent {tx : Session} {job : Option IngestionJob} {j q : IngestionJob}
    (pending : PendingJob (.selected tx job) j q) (spent : Spent j) : q = requeued j := by
  cases job with
  | none => exact pending.2
  | some c =>
    rcases pending with reset | ⟨_, version⟩
    · exact reset.2
    · exact absurd version (not_claimable_of_spent spent)

/-- Otherwise no commit leaves a spent row queued. -/
theorem spent_move {w : Fin n} {j q : IngestionJob} (hj : j ∈ s.db.ingestionJobs)
    (spent : Spent j) (m : CommitMoves s w j q) (noReset : ¬ ResetsSpent s (.commit w))
    (noRetry : ¬ RetriesSpent s (.commit w)) : q.status ≠ .queued := by
  have pending := m.pending
  obtain ⟨p, committed⟩ := m.committed
  cases hw : s.phase w with
  | selected tx job =>
    refine absurd ?_ noReset
    have locked := m.locks
    rw [hw] at locked
    exact ⟨tx, by simp [claimCommitted, hw], j, hj, locked, spent⟩
  | storing c tx =>
    rw [hw] at pending
    obtain ⟨-, -, now, later, rfl⟩ := pending
    simp [completedAs]
  | failing c tx =>
    rw [hw] at pending
    obtain ⟨hid, ⟨-, error, rfl⟩ | ⟨left, -⟩⟩ := pending
    · simp [deadAs]
    · exact absurd (failsOn_iff.mpr ⟨w, c, tx, rfl, hw, j, hj, hid, left, spent⟩) noRetry
  | _ =>
    rw [hw] at committed
    cases committed

/-- A commit that leaves a row queued has counted no attempt. -/
theorem attempts_of_queued {p : Phase} {j q : IngestionJob} (pending : PendingJob p j q)
    (queued : q.status = .queued) : q.attemptCount = j.attemptCount := by
  cases pendingJob_written pending with
  | claimed q version =>
    obtain ⟨b, worker, now, _, _, rfl⟩ := version
    cases queued
  | reset _ | started _ | completed _ _ | buried _ _ _ _ _ _ | retried _ _ _ _ _ _ => rfl

theorem claimable_change (h : Sound s) (change : Change s e t) (ok : Claimable s.db)
    (noReset : ¬ ResetsSpent s e) (noRetry : ¬ RetriesSpent s e) : Claimable t.db := by
  intro q hq queued
  rcases change_job h change hq with old | ⟨u, o, rfl⟩ | ⟨w, j, hj, rfl, m⟩
  · exact ok q old queued
  · exact Nat.zero_lt_succ 2
  · have same := attempts_of_queued m.pending queued
    have most := (pendingJob_advances m.pending).maxAttempts
    by_cases spent : Spent j
    · exact absurd queued (spent_move hj spent m noReset noRetry)
    · rw [Spent] at spent
      omega

/-! ## Lost attempts -/

/-- The worker that makes the committed attempt knows the committed version. -/
def Current (s : World n) : Prop :=
  ∀ w, ∀ c ∈ (s.phase w).claim, ∀ j ∈ s.db.ingestionJobs, j.id = c.id →
    j.attemptCount = c.attemptCount → j.version = c.version

/-- Between two claims the version moves only when the worker of the attempt stores its result. -/
theorem version_of_move (h : Sound s) (current : Current s) {v w : Fin n} (other : v ≠ w)
    {c j q : IngestionJob} (hc : (s.phase w).claim = some c) (hj : j ∈ s.db.ingestionJobs)
    (hid : j.id = c.id) (m : CommitMoves s v j q) (same : q.attemptCount = c.attemptCount) :
    q.version = c.version := by
  have adv := claim_advances h hc hj hid
  have forward := pendingJob_advances m.pending
  have now_ : j.attemptCount = c.attemptCount := by
    have := adv.attemptCount
    have := forward.attemptCount
    omega
  have old := current w c hc j hj hid now_
  have pending := m.pending
  obtain ⟨p, committed⟩ := m.committed
  cases hv : s.phase v with
  | selected tx job =>
    cases pendingJob_written m.pending with
    | reset _ => exact old
    | claimed q version =>
      have := (claimVersion_advances version).2.2
      omega
    | started _ | completed _ _ =>
      rw [hv] at pending
      have := (pendingJob_selected pending).2
      simp [startedAs, completedAs] at this
    | buried _ _ _ failing _ _ | retried _ _ _ failing _ _ =>
      rw [hv] at failing
      cases failing
  | storing b tx =>
    rw [hv] at pending
    obtain ⟨hb, version, -⟩ := pending
    have mine : (s.phase v).claim = some b := by rw [hv]; rfl
    have ticket := (claim_advances h mine hj hb).ticket version
    exact absurd (ticket.symm.trans now_) (h.tickets v w b c other mine hc (hb.symm.trans hid))
  | failing b tx =>
    rw [hv] at pending
    obtain ⟨-, ⟨-, error, rfl⟩ | ⟨-, error, rfl⟩⟩ := pending
    · exact old
    · exact old
  | _ =>
    rw [hv] at committed
    cases committed

theorem current_change (h : Sound s) (current : Current s) (change : Change s e t) : Current t := by
  intro w c hc x hx hid same
  rcases change_claim change hc with ⟨other, hc⟩ | ⟨rfl, hw, -⟩
  · obtain ⟨j, hj, adv⟩ := h.claims w c hc
    rcases change_job_same h change hj hx (hid.trans adv.id.symm) with rfl | ⟨v, rfl, m⟩
    · exact current w c hc x hj hid same
    · exact version_of_move h current (by rintro rfl; exact other rfl) hc hj adv.id m same
  · have committed := (selected_commit h change hw).1
    rw [eq_of_key (sound_change h change).stored.jobIds hx committed hid]

/-- Only a claim of an earlier version is refused. -/
theorem version_of_refused {w : Fin n} {c j : IngestionJob} {now : Time} {tx : Session}
    (run : JobService.markRunning (s.JobLocked w) c.id c.version now s.db Session.empty = some (tx, false))
    (hj : j ∈ s.db.ingestionJobs) (hid : j.id = c.id) : j.version ≠ c.version := by
  intro version
  simp only [JobService.markRunning, Option.map_eq_some_iff, Prod.mk.injEq, decide_eq_false_iff_not] at run
  obtain ⟨⟨jobs, count⟩, hu, -, missed⟩ := run
  obtain ⟨-, -, rfl⟩ := update_spec hu
  refine missed (List.length_pos_of_mem (a := j) ?_)
  simp [Session.empty, List.mem_filter, hj, hid, version]

section Commits
variable {w : Fin n} {j q : IngestionJob}

/-- A `fail_job` of the last attempt marks the document with the job. -/
theorem deadLettered_of_fail (h : Sound s) (change : Change s (.commit w) t) {c : IngestionJob}
    {tx : Session} (hw : s.phase w = .failing c tx) (last : c.maxAttempts ≤ c.attemptCount)
    (hj : j ∈ s.db.ingestionJobs) (hid : j.id = c.id) (error : String) :
    DeadLettered t.db (deadAs error j) := by
  have mine : (s.phase w).claim = some c := by rw [hw]; rfl
  have same := (claim_advances h mine hj hid).documentId
  obtain ⟨d, hd, own, -, -⟩ := h.stored.docOfJob j hj
  have held := (h.phases w).held
  rw [hw] at held
  obtain ⟨d', hd', -, pending⟩ := locked_document_commit h change hd
    (by rw [hw, own.trans same]; exact held.2 last)
  rw [hw] at pending
  obtain ⟨-, -, text, now, rfl⟩ := pending
  exact ⟨rfl, _, hd', own, rfl⟩

/-- What a commit leaves spent is claimed by its worker, completed or dead-lettered. -/
theorem lost_of_commit (cfg : Settings) (h : Sound s) (hs : (machine cfg n).step s (.commit w) = some t)
    (hj : j ∈ s.db.ingestionJobs) (m : CommitMoves s w j q) (noReset : ¬ ResetsSpent s (.commit w))
    (noRetry : ¬ RetriesSpent s (.commit w)) (spent : Spent q) :
    Attempted t q ∨ q.status = .completed ∨ DeadLettered t.db q := by
  have change := step_change cfg h hs
  have pending := m.pending
  have after := commit_phase cfg hs
  obtain ⟨p, committed⟩ := m.committed
  cases hw : s.phase w with
  | selected tx job =>
    by_cases before : Spent j
    · have locked := m.locks
      rw [hw] at locked
      exact absurd ⟨tx, by simp [claimCommitted, hw], j, hj, locked, before⟩ noReset
    rw [hw] at pending after
    cases job with
    | none =>
      obtain ⟨-, rfl⟩ := pending
      exact absurd spent before
    | some c =>
      rcases pending with ⟨-, rfl⟩ | ⟨rfl, -⟩
      · exact absurd spent before
      · refine Or.inl ⟨w, q, ?_, rfl, rfl⟩
        generalize t.phase w = p' at after
        cases after
        rfl
  | storing c tx =>
    rw [hw] at pending
    obtain ⟨-, -, now, later, rfl⟩ := pending
    exact Or.inr (Or.inl rfl)
  | failing c tx =>
    rw [hw] at pending
    obtain ⟨hid, ⟨last, error, rfl⟩ | ⟨left, error, rfl⟩⟩ := pending
    · exact Or.inr (Or.inr (deadLettered_of_fail h change hw last hj hid error))
    · exact absurd (failsOn_iff.mpr ⟨w, c, tx, rfl, hw, j, hj, hid, left, spent⟩) noRetry
  | _ =>
    rw [hw] at committed
    cases committed

/-- The commit of a worker with a claim moves the claimed row. -/
theorem moves_of_claim (h : Sound s) (change : Change s (.commit w) t) {c : IngestionJob}
    (hc : (s.phase w).claim = some c) (hj : j ∈ s.db.ingestionJobs) (hid : j.id = c.id)
    (kept : j ∈ t.db.ingestionJobs) : CommitMoves s w j j := by
  obtain ⟨q, hq, m⟩ := claim_commit h change hc hj hid
  have same : j = q := eq_of_key (sound_change h change).stored.jobIds kept hq
    (pendingJob_advances m.pending).id.symm
  rwa [← same] at m

end Commits

section Steps
variable {q : IngestionJob}

/-- A worker keeps the claim of the committed attempt until it commits or forgets it. -/
theorem claim_kept (cfg : Settings) (current : Current s) (hs : (machine cfg n).step s e = some t)
    {w : Fin n} {c : IngestionJob} (hc : (s.phase w).claim = some c) (hq : q ∈ s.db.ingestionJobs)
    (hid : q.id = c.id) (same : q.attemptCount = c.attemptCount) :
    (t.phase w).claim = some c ∨ e = .commit w ∨ forgotten s e = some c := by
  by_cases own : actor e = some w
  · have moves := step_moves cfg hs own
    generalize t.phase w = p at moves
    cases moves with
    | resetStale now tx hw run | claim now tx hw =>
      rw [hw] at hc
      cases hc
    | started now b tx hw run | processed b tx chunks hw run | broke b tx error hw run
    | complete chunkId now b tx tx' chunks hw run | fail now b error tx hw run =>
      rw [hw] at hc
      exact Or.inl hc
    | refused now b tx hw run =>
      rw [hw] at hc
      obtain rfl : b = c := Option.some.inj hc
      exact absurd (current w b (by rw [hw]; rfl) q hq hid same) (version_of_refused run hq hid)
    | commit p m => exact Or.inr (Or.inl rfl)
    | raise error b hw =>
      refine Or.inl (Eq.trans ?_ hc)
      rcases hw with hw | ⟨tx, hw⟩ | ⟨tx, chunks, hw⟩ | ⟨tx, hw⟩ <;> rw [hw] <;> rfl
    | drop error hw =>
      refine Or.inr (Or.inr ?_)
      rcases hw with none_ | ⟨b, text, hw⟩ | ⟨b, tx, hw⟩
      · rw [none_] at hc
        cases hc
      · rw [hw] at hc
        simp only [forgotten, hw]
        exact hc
      · rw [hw] at hc
        simp only [forgotten, hw]
        exact hc
    | crash => exact Or.inr (Or.inr hc)
  · exact Or.inl (by rw [phase_of_other cfg hs own, hc])

/-- A document that failed stays so, unless its job is completed. -/
theorem deadLettered_kept (cfg : Settings) (h : Sound s) (hs : (machine cfg n).step s e = some t)
    (hq : q ∈ s.db.ingestionJobs) (kept : q ∈ t.db.ingestionJobs) (dead : DeadLettered s.db q) :
    DeadLettered t.db q := by
  obtain ⟨status, d, hd, own, failed⟩ := dead
  have change := step_change cfg h hs
  rcases change_document_keeps h change hd with same | ⟨documentId, tenantId, now, fault, rfl, deleted⟩ |
    ⟨w, rfl, d', hd', pending⟩
  · exact ⟨status, d, same, own, failed⟩
  · refine ⟨status, _, deleted, (deletedAs_id documentId now d).trans own, ?_⟩
    rw [deletedAs]
    split
    · rfl
    · exact failed
  · cases hw : s.phase w with
    | storing c tx =>
      -- the job of the document is the one that the same commit completes
      rw [hw] at pending
      have mine : (s.phase w).claim = some c := by rw [hw]; rfl
      obtain ⟨j, hj, adv⟩ := h.claims w c mine
      have job : q = j := eq_of_key h.stored.jobDocs hq hj
        (own.symm.trans (pending.1.trans adv.documentId.symm))
      subst job
      have moved := (moves_of_claim h change mine hq adv.id kept).pending
      rw [hw] at moved
      obtain ⟨-, -, later, stored, completed⟩ := moved
      rw [completed] at status
      cases status
    | failing c tx =>
      rw [hw] at pending
      obtain ⟨-, -, text, now, rfl⟩ := pending
      exact ⟨status, _, hd', own, rfl⟩
    | _ =>
      rw [hw] at pending
      exact pending.elim

theorem lost_change (cfg : Settings) (h : Sound s) (current : Current s) (ok : NoneStranded s)
    (hs : (machine cfg n).step s e = some t) (noReset : ¬ ResetsSpent s e) (noRetry : ¬ RetriesSpent s e)
    (noLoss : ¬ LosesLast s e) (hq : q ∈ t.db.ingestionJobs) (spent : Spent q) :
    Attempted t q ∨ q.status = .completed ∨ DeadLettered t.db q := by
  have change := step_change cfg h hs
  rcases change_job h change hq with old | ⟨u, o, rfl⟩ | ⟨w, j, hj, rfl, m⟩
  · by_cases attempted : Attempted s q
    · obtain ⟨w, c, hc, hid, same⟩ := attempted
      rcases claim_kept cfg current hs hc old hid.symm same.symm with still | rfl | lost
      · exact Or.inl ⟨w, c, still, hid, same⟩
      · exact lost_of_commit cfg h hs old (moves_of_claim h change hc old hid.symm hq) noReset noRetry spent
      · by_contra stranded
        obtain ⟨-, open_⟩ := not_or.mp stranded
        obtain ⟨unfinished, alive⟩ := not_or.mp open_
        exact noLoss ⟨c, lost, q, old, hid.symm, same.symm, spent, unfinished,
          fun dead => alive (deadLettered_kept cfg h hs old hq dead)⟩
    · rcases ok.lost q old spent attempted with completed | dead
      · exact Or.inr (Or.inl completed)
      · exact Or.inr (Or.inr (deadLettered_kept cfg h hs old hq dead))
  · exact absurd spent (show ¬ 3 ≤ 0 by decide)
  · exact lost_of_commit cfg h hs hj m noReset noRetry spent

/-- The worker that forgets a claim has no other, and changes no row. -/
theorem of_forgotten (cfg : Settings) (hs : (machine cfg n).step s e = some t) {c : IngestionJob}
    (lost : forgotten s e = some c) :
    ∃ w, (s.phase w).claim = some c ∧ t = s.setPhase w .idle := by
  cases e with
  | crash w =>
    cases hs
    exact ⟨w, lost, rfl⟩
  | raise w error =>
    cases hw : s.phase w with
    | raised b text | failing b tx =>
      simp only [forgotten, hw, Option.some.injEq] at lost
      have after : some (s.setPhase w .idle) = some t := by
        rw [← hs]
        simp [machine, step, hw]
      exact ⟨w, by rw [hw, ← lost]; rfl, (Option.some.inj after).symm⟩
    | _ => simp [forgotten, hw] at lost
  | _ => cases lost

theorem not_noneStranded_of_losesLast (cfg : Settings) (h : Sound s)
    (hs : (machine cfg n).step s e = some t) (loses : LosesLast s e) : ¬ NoneStranded t := by
  intro ok
  obtain ⟨c, lost, j, hj, hid, same, spent, unfinished, alive⟩ := loses
  obtain ⟨w, hc, rfl⟩ := of_forgotten cfg hs lost
  refine (ok.lost j hj spent ?_).elim unfinished alive
  rintro ⟨v, b, hb, hid', same'⟩
  by_cases hv : v = w
  · subst hv
    rw [setPhase_self] at hb
    cases hb
  · rw [setPhase_of_ne hv] at hb
    exact h.tickets v w b c hv hb hc (hid'.trans hid) (same'.trans same)

end Steps

/-- Either statement leaves a queued row that no claim selects. -/
theorem not_claimable_of_strands (h : Sound s) (change : Change s e t)
    (strands : ResetsSpent s e ∨ RetriesSpent s e) : ¬ Claimable t.db := by
  intro ok
  rcases strands with resets | retries
  · obtain ⟨tx, htx, j, hj, locked, spent⟩ := resets
    obtain ⟨w, job, rfl, hw⟩ := claimCommitted_eq_some htx
    obtain ⟨q, hq, m⟩ := locked_commit h change hj (by rw [hw]; exact locked)
    have reset := requeued_of_spent (hw ▸ m.pending) spent
    subst reset
    exact absurd (ok _ hq rfl) (by simpa [requeued, Spent] using spent)
  · obtain ⟨w, c, tx, rfl, hw, j, hj, hid, left, spent⟩ := failsOn_iff.mp retries
    obtain ⟨q, hq, m⟩ := claim_commit h change (by rw [hw]; rfl) hj hid
    have pending := m.pending
    rw [hw] at pending
    obtain ⟨_, ⟨last, _⟩ | ⟨_, error, rfl⟩⟩ := pending
    · omega
    · exact absurd (ok _ hq rfl) (by simpa [retriedAs, Spent] using spent)

/-- No job is stranded in exactly those runs in which no committed claim has reset a spent
job, no `fail_job` retries one, and no worker loses the last attempt of a job that has neither
succeeded nor been dead-lettered. -/
theorem no_stranded_job_iff (cfg : Settings) (n : Nat) (es : List (Event n)) :
    (machine cfg n).Throughout NoneStranded (World.start n) es ↔
      (machine cfg n).EveryStep (fun s e _ => ¬ ResetsSpent s e ∧ ¬ RetriesSpent s e ∧ ¬ LosesLast s e)
        (World.start n) es := by
  have start : NoneStranded (World.start n) :=
    ⟨by simp [Claimable, World.start, Database.empty], fun j hj => absurd hj List.not_mem_nil⟩
  rw [Machine.Throughout, and_iff_right start]
  refine Machine.everyStep_congr (I := fun s => Sound s ∧ Current s ∧ NoneStranded s) ?_ ?_
    ⟨sound_start n, fun w c hc => (by cases hc), start⟩
  · intro s e t i hs
    obtain ⟨sound, current, ok⟩ := i
    have change := step_change cfg sound hs
    constructor
    · intro after
      have moved := not_or.mp fun strands => not_claimable_of_strands sound change strands after.claimable
      exact ⟨moved.1, moved.2, fun loses => not_noneStranded_of_losesLast cfg sound hs loses after⟩
    · rintro ⟨noReset, noRetry, noLoss⟩
      refine ⟨claimable_change sound change ok.claimable noReset noRetry, fun q hq spent forgotten_ => ?_⟩
      exact (lost_change cfg sound current ok hs noReset noRetry noLoss hq spent).resolve_left forgotten_
  · intro s e t i hs after
    exact ⟨sound_step cfg i.1 hs, current_change i.1 i.2.1 (step_change cfg i.1 hs), after⟩

/-- Three crashes, the last of them on the last permitted attempt. -/
def crashRun : List (Event 1) :=
  Demo.setup ++ Demo.claims 0 20 ++ [.crash 0] ++ Demo.claims 0 1000 ++ [.crash 0] ++
    Demo.claims 0 2000 ++ [.crash 0] ++ Demo.claims 0 3000

theorem crash_strands : ¬ (machine Demo.settings 1).Throughout NoneStranded (World.start 1) crashRun := by
  decide +kernel

end Worlds

end Stranding
