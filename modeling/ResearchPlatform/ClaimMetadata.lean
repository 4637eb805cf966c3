import ResearchPlatform.Ownership

/-!
# What a job's status says about its claim

Five statements write the status of a job, most of them without looking at the row
they write. Each writes the claim columns that go with its status, or a status that
asks nothing of them. So a late write may take a claim away from its worker, but it
leaves no row whose columns are those of another status.
-/

namespace ClaimMetadata

open Uuid Schema RowVersions DocumentService JobService WorkerMachine WorkerInvariants WorkerRuns
  Ownership Machines

/-- The claim columns are as the status wants them. -/
structure Paired (j : IngestionJob) : Prop where
  queued : j.status = .queued → j.workerId = none ∧ j.claimedAt = none
  claimed : j.status = .claimed → j.workerId ≠ none ∧ j.claimedAt ≠ none

/-! ## Rows -/

section Rows
variable {j q : IngestionJob}

theorem paired_of_queued (worker : j.workerId = none) (time : j.claimedAt = none)
    (status : j.status = .queued) : Paired j where
  queued _ := ⟨worker, time⟩
  claimed claimed := by
    rw [status] at claimed
    cases claimed

/-- A status past the claim leaves the columns as they were. -/
theorem paired_of_past (notQueued : j.status ≠ .queued) (notClaimed : j.status ≠ .claimed) : Paired j where
  queued queued := absurd queued notQueued
  claimed claimed := absurd claimed notClaimed

theorem paired_newJob (u : Upload) (o : Outside) : Paired (newJob u o).row := paired_of_queued rfl rfl rfl

theorem paired_requeued (j : IngestionJob) : Paired (requeued j) := paired_of_queued rfl rfl rfl

theorem paired_retriedAs (errorMessage : String) (j : IngestionJob) : Paired (retriedAs errorMessage j) :=
  paired_of_queued rfl rfl rfl

theorem paired_claimedBy (worker : Nat) (now : Time) (j : IngestionJob) : Paired (claimedBy worker now j) where
  queued queued := by cases queued
  claimed _ := ⟨by simp [claimedBy], by simp [claimedBy]⟩

/-- Whatever row it meets, a worker writes a version that is paired. -/
theorem paired_pending {p : Phase} (h : PendingJob p j q) : Paired q := by
  cases pendingJob_written h with
  | reset _ => exact paired_requeued j
  | claimed q version =>
    obtain ⟨b, worker, now, _, _, rfl⟩ := version
    exact paired_claimedBy worker now b
  | started now => exact paired_of_past (by simp [startedAs]) (by simp [startedAs])
  | completed now later => exact paired_of_past (by simp [completedAs]) (by simp [completedAs])
  | buried c tx error _ _ _ => exact paired_of_past (by simp [deadAs]) (by simp [deadAs])
  | retried c tx error _ _ _ => exact paired_retriedAs error j

/-- The WHERE of the stale reset on a claimed row comes down to two times. -/
theorem Paired.isStale (h : Paired j) (claimed : j.status = .claimed) : ∃ c, j.claimedAt = some c ∧
    ∀ staleTimeout now, isStale staleTimeout now j = decide (c + staleTimeout < now) := by
  obtain ⟨c, time⟩ := Option.ne_none_iff_exists'.mp (h.claimed claimed).2
  refine ⟨c, time, fun staleTimeout now => ?_⟩
  simp [JobService.isStale, claimed, time]

/-- NULL is not less than any cutoff. -/
theorem isStale_null (staleTimeout now : Time) (null : j.claimedAt = none) :
    isStale staleTimeout now j = false := by
  simp [JobService.isStale, null]

end Rows

/-! ## Runs -/

section Runs
variable {n m : Nat} {cfg : Settings} {calls : Fin m → UploadRaces.Call} {s t : Deployment n m}

def AllPaired (db : Database) : Prop := ∀ j ∈ db.ingestionJobs, Paired j

theorem paired_change {w w' : World n} {e : WorkerMachine.Event n} (h : Sound w) (paired : AllPaired w.db)
    (change : Change w e w') : AllPaired w'.db := by
  intro j hj
  rcases change_job h change hj with old | ⟨u, o, rfl⟩ | ⟨v, x, _, _, moves⟩
  · exact paired j old
  · exact paired_newJob u o
  · exact paired_pending moves.pending

theorem paired_upload (i : Inv cfg calls s) (paired : AllPaired s.workers.db) {e : UploadRaces.Event m}
    {u : UploadRaces.World m} (change : UploadRaces.Change cfg.sha256 calls s.uploadWorld e u) :
    AllPaired u.db := by
  cases change with
  | foundKey _ _ _ _ _ _ _ => exact paired
  | foundContent _ _ _ _ _ _ _ _ => exact paired
  | passed _ _ _ _ _ _ => exact paired
  | inserted _ _ _ _ _ => exact paired
  | committed k d j hk =>
    intro x hx
    rcases List.mem_append.mp hx with old | new
    · exact paired x old
    · obtain ⟨_, made, _⟩ := i.pending k d j hk
      rw [List.mem_singleton.mp new, made]
      exact paired_newJob _ _

theorem paired_step {e : Event n m} (h : Inv cfg calls s ∧ AllPaired s.workers.db)
    (hs : (machine cfg calls n).step s e = some t) : Inv cfg calls t ∧ AllPaired t.workers.db := by
  refine ⟨inv_step h.1 hs, ?_⟩
  rcases step_cases hs with ⟨f, w, _, _, hw, rfl⟩ | ⟨f, u, _, hu, rfl⟩
  · exact paired_change h.1.workers h.2 (step_change cfg h.1.workers hw)
  · exact paired_upload h.1 h.2 (UploadRaces.step_change hu)

theorem paired_reachable (reached : (machine cfg calls n).Reachable (start n m) s) :
    Inv cfg calls s ∧ AllPaired s.workers.db :=
  Machine.reachable_invariant (I := fun s => Inv cfg calls s ∧ AllPaired s.workers.db)
    ⟨inv_start, fun j hj => by cases hj⟩ (fun _ _ _ h hs => paired_step h hs) reached

/-- What a worker's open transaction sees: its own versions over committed rows. -/
theorem paired_seen {w : World n} (h : Sound w) (paired : AllPaired w.db) (v : Fin n) {j : IngestionJob}
    (hj : j ∈ view IngestionJob.id (w.phase v).session.jobs w.db.ingestionJobs) : Paired j := by
  obtain ⟨r, hr, rfl⟩ := mem_view_iff.mp hj
  rcases commit_job h.stored (h.phases v) hr with ⟨same, _⟩ | ⟨_, pending⟩
  · exact same.symm ▸ paired r hr
  · exact paired_pending pending

/-- The claim columns go with the status in every row, stored or about to be. -/
structure Matched (s : Deployment n m) : Prop where
  stored : ∀ j ∈ s.workers.db.ingestionJobs, Paired j
  seen : ∀ v, ∀ j ∈ view IngestionJob.id (s.workers.phase v).session.jobs s.workers.db.ingestionJobs,
    Paired j
  uploaded : ∀ i d j, s.uploads i = .inserted d j → Paired j
  /-- the stale reset compares two times whenever it meets a claimed row -/
  compared : ∀ j ∈ s.workers.db.ingestionJobs, j.status = .claimed → ∃ c, j.claimedAt = some c ∧
    ∀ staleTimeout now, isStale staleTimeout now j = decide (c + staleTimeout < now)

/-- A claimed row is requeued by any reset that runs late enough. -/
theorem resetStaleClaims_recovers (reached : (machine cfg calls n).Reachable (start n m) s)
    {j : IngestionJob} (hj : j ∈ s.workers.db.ingestionJobs) (claimed : j.status = .claimed) :
    ∃ c, ∀ now, c < now → ∀ (locked : UUID → Prop) [DecidablePred locked] (tx : Session),
      resetStaleClaims locked cfg.staleTimeout now s.workers.db Session.empty = some tx →
        requeued j ∈ tx.jobs := by
  obtain ⟨c, _, stale⟩ := ((paired_reachable reached).2 j hj).isStale claimed
  refine ⟨c + cfg.staleTimeout, fun now late locked _ tx run => ?_⟩
  obtain ⟨r, hr, rfl⟩ := Option.map_eq_some_iff.mp run
  have met : JobService.isStale cfg.staleTimeout now j = true := by
    rw [stale, decide_eq_true_eq]
    exact late
  have visible : j ∈ view IngestionJob.id [] s.workers.db.ingestionJobs := by
    rw [view_nil]
    exact hj
  have keeps : ∀ x, (requeued x).id = x.id := fun _ => rfl
  exact (update_locks_hit keeps hr visible met).1

theorem matched_of_paired (i : Inv cfg calls s) (paired : AllPaired s.workers.db) : Matched s where
  stored := paired
  seen v j hj := paired_seen i.workers paired v hj
  uploaded k d j hk := by
    obtain ⟨_, made, _⟩ := i.pending k d j hk
    rw [made]
    exact paired_of_queued rfl rfl rfl
  compared j hj := (paired j hj).isStale

/-- In every state that uploads, resets, claims, processing, failures and crashes of any number
of workers reach, the claim columns go with the status. So the reset never meets the NULL
that would keep a job claimed for good. -/
theorem claim_metadata_matches (cfg : Settings) (n m : Nat) (calls : Fin m → UploadRaces.Call)
    (s : Deployment n m) (reached : (machine cfg calls n).Reachable (start n m) s) :
    Matched s ∧ ∀ (j : IngestionJob) (staleTimeout now : Time), j.claimedAt = none →
      isStale staleTimeout now j = false := by
  obtain ⟨i, paired⟩ := paired_reachable reached
  exact ⟨matched_of_paired i paired, fun j => isStale_null⟩

end Runs

/-! ## A claim about to be processed -/

namespace Demo
variable {n m : Nat}

/-- Two uploads beside a worker, up to the commit of its claim. -/
def run (w : Fin n) (i k : Fin m) : Option (Deployment n m) :=
  (machine WorkerMachine.Demo.settings Ownership.Demo.calls n).run (start n m)
    ((Ownership.Demo.run w i k).take 11)

def claims (s : Deployment n m) : List (JobStatus × Option Nat × Option Time) :=
  s.workers.db.ingestionJobs.map fun j => (j.status, j.workerId, j.claimedAt)

theorem run_claims : (run (0 : Fin 1) (0 : Fin 2) 1).map claims = some [(.claimed, some 0, some 20)] := by
  decide +kernel

end Demo

theorem claim_metadata_matches_demo : ∃ s, Demo.run (0 : Fin 1) (0 : Fin 2) 1 = some s ∧
    Demo.claims s = [(.claimed, some 0, some 20)] ∧ Matched s := by
  obtain ⟨s, run, claims⟩ := Option.map_eq_some_iff.mp Demo.run_claims
  exact ⟨s, run, claims, (claim_metadata_matches _ _ _ _ s ⟨_, run⟩).1⟩

end ClaimMetadata
