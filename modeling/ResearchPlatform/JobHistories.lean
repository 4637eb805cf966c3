import ResearchPlatform.WorkerRuns

/-!
# Tickets and attempts

The pair of a job and its version is the ticket of a claim. Only a claim and
`mark_running` write a new version, and a `mark_running` that is rolled back
leaves the old one, so a version may be reached twice; yet no two claims hand out
one ticket, and no ticket is used twice. The attempt count is the number of
claims, also under late failures.
-/

namespace JobHistories

open Uuid Schema RowVersions DocumentService JobService WorkerMachine WorkerInvariants WorkerRuns
  Machines

section Worlds
variable {n : Nat} {s t : World n} {e : Event n} {jobId : UUID}

/-! ## What a step shows of a job -/

/-- The version that a claim of the job hands out as it commits. -/
def claimed (jobId : UUID) (s : World n) : Event n → Option Nat
  | .commit w => match s.phase w with
    | .selected _ (some c) => if c.id = jobId then some c.version else none
    | _ => none
  | _ => none

/-- The job and the version for which `mark_running` returned true in the process
transaction that commits. -/
def ran (s : World n) : Event n → Option (UUID × Nat)
  | .commit w => match s.phase w with
    | .storing c _ => some (c.id, c.version)
    | _ => none
  | _ => none

theorem claimed_eq_some {version : Nat} (shown : claimed jobId s e = some version) :
    ∃ w c tx, e = .commit w ∧ s.phase w = .selected tx (some c) ∧ c.id = jobId ∧
      c.version = version := by
  cases e with
  | commit w =>
    simp only [claimed] at shown
    split at shown
    · rename_i tx c hw
      split at shown
      · rename_i hid
        exact ⟨w, c, tx, rfl, hw, hid, Option.some.inj shown⟩
      · cases shown
    · cases shown
  | _ => cases shown

theorem claimed_eq_none (notCommit : ∀ w, e ≠ .commit w) : claimed jobId s e = none := by
  cases e with
  | commit w => exact absurd rfl (notCommit w)
  | _ => rfl

theorem ran_eq_some {ticket : UUID × Nat} (shown : ran s e = some ticket) :
    ∃ w c tx, e = .commit w ∧ s.phase w = .storing c tx ∧ (c.id, c.version) = ticket := by
  cases e with
  | commit w =>
    simp only [ran] at shown
    split at shown
    · rename_i c tx hw
      exact ⟨w, c, tx, rfl, hw, Option.some.inj shown⟩
    · cases shown
  | _ => cases shown

/-- Every job row has a successor, which is no older. -/
theorem change_job_advances (h : Sound s) (change : Change s e t) {j : IngestionJob}
    (hj : j ∈ s.db.ingestionJobs) : ∃ q ∈ t.db.ingestionJobs, Advances j q := by
  rcases change_job_keeps h change hj with same | ⟨w, _, q, hq, moves⟩
  · exact ⟨j, same, Advances.refl j⟩
  · exact ⟨q, hq, pendingJob_advances moves.pending⟩

/-! ## Tickets -/

/-- The version was handed out or passed over. -/
def Past (jobId : UUID) (s : World n) (version : Nat) : Prop :=
  ∃ j ∈ s.db.ingestionJobs, j.id = jobId ∧ version ≤ j.version

theorem past_stays (h : Sound s) (change : Change s e t) {version : Nat}
    (past : Past jobId s version) : Past jobId t version := by
  obtain ⟨j, hj, hid, hv⟩ := past
  obtain ⟨q, hq, adv⟩ := change_job_advances h change hj
  exact ⟨q, hq, adv.id.trans hid, hv.trans adv.version⟩

theorem claimed_marks (h : Sound s) (change : Change s e t) {version : Nat}
    (shown : claimed jobId s e = some version) :
    (∀ a, Past jobId s a → a < version) ∧ Past jobId t version := by
  obtain ⟨w, c, tx, rfl, hw, hid, rfl⟩ := claimed_eq_some shown
  obtain ⟨committed, j, hj, hjc, more, _⟩ := selected_commit h change hw
  refine ⟨?_, c, committed, hid, le_rfl⟩
  rintro a ⟨i, hi, hij, ha⟩
  have same : i = j := eq_of_key h.stored.jobIds hi hj (by rw [hij, hjc, hid])
  subst same
  omega

/-- The ticket was used by a process transaction that committed, or passed over. -/
def Used (s : World n) (ticket : UUID × Nat) : Prop :=
  ∃ j ∈ s.db.ingestionJobs, j.id = ticket.1 ∧ ticket.2 < j.version

theorem used_stays (h : Sound s) (change : Change s e t) {ticket : UUID × Nat}
    (used : Used s ticket) : Used t ticket := by
  obtain ⟨j, hj, hid, hv⟩ := used
  obtain ⟨q, hq, adv⟩ := change_job_advances h change hj
  exact ⟨q, hq, adv.id.trans hid, hv.trans_le adv.version⟩

/-- A process transaction commits on the version that its claim handed out. -/
theorem ran_marks (h : Sound s) (change : Change s e t) {ticket : UUID × Nat}
    (shown : ran s e = some ticket) : ¬ Used s ticket ∧ Used t ticket := by
  obtain ⟨w, c, tx, rfl, hw, rfl⟩ := ran_eq_some shown
  have hc : (s.phase w).claim = some c := by rw [hw]; rfl
  obtain ⟨j, hj, adv⟩ := h.claims w c hc
  obtain ⟨q, hq, pending, _, _⟩ := claim_commit h change hc hj adv.id
  rw [hw] at pending
  obtain ⟨hjc, hv, now, later, rfl⟩ := pending
  constructor
  · rintro ⟨i, hi, hic, less⟩
    have same : i = j := eq_of_key h.stored.jobIds hi hj (hic.trans hjc.symm)
    subst same
    omega
  · exact ⟨_, hq, hjc, Nat.lt_succ_self c.version⟩

/-- No job row goes back to an earlier version. -/
def VersionsGrow (s t : World n) : Prop :=
  ∀ j ∈ s.db.ingestionJobs, ∃ q ∈ t.db.ingestionJobs, q.id = j.id ∧ j.version ≤ q.version

theorem versionsGrow_change (h : Sound s) (change : Change s e t) : VersionsGrow s t := by
  intro j hj
  obtain ⟨q, hq, adv⟩ := change_job_advances h change hj
  exact ⟨q, hq, adv.id, adv.version⟩

/-- In every run the claims of a job hand out increasing versions, its committed
version never decreases, and each ticket is used by at most one process
transaction that commits. -/
theorem tickets_used_once (cfg : Settings) (n : Nat) (es : List (Event n)) :
    (∀ jobId, ((machine cfg n).observed (claimed jobId) (World.start n) es).Pairwise (· < ·)) ∧
      (machine cfg n).EveryStep (fun s _ t => VersionsGrow s t) (World.start n) es ∧
      ((machine cfg n).observed ran (World.start n) es).Nodup := by
  have free := Machine.everyStep_true (M := machine cfg n) (World.start n) es
  have keeps : ∀ s e t, Sound s → (machine cfg n).step s e = some t → True → Sound t :=
    fun s e t h hs _ => sound_step cfg h hs
  refine ⟨fun jobId => ?_, ?_, ?_⟩
  · exact (Machine.observed_pairwise (I := Sound) (Past jobId) keeps
      (fun s e t a h hs _ => past_stays h (step_change cfg h hs))
      (fun s e t a h hs _ => claimed_marks h (step_change cfg h hs)) (sound_start n) free).1
  · exact Machine.everyStep_mono (I := Sound)
      (fun s e t h hs _ => ⟨keeps s e t h hs trivial, versionsGrow_change h (step_change cfg h hs)⟩)
      (sound_start n) free
  · exact Machine.observed_nodup (I := Sound) Used keeps
      (fun s e t a h hs _ => used_stays h (step_change cfg h hs))
      (fun s e t a h hs _ => ran_marks h (step_change cfg h hs)) (sound_start n) free

/-! ## Attempts -/

/-- A commit counts an attempt on a row exactly when it is the commit of a claim of it. -/
theorem commit_attempts (h : Sound s) (w : Fin n) {j : IngestionJob}
    (hj : j ∈ s.db.ingestionJobs) :
    (current IngestionJob.id (s.phase w).session.jobs j).attemptCount =
      j.attemptCount + (claimed j.id s (.commit w)).toList.length := by
  have ok := h.phases w
  rcases commit_job h.stored ok hj with ⟨same, free⟩ | ⟨own, pending⟩
  · have none : claimed j.id s (.commit w) = none := by
      rw [Option.eq_none_iff_forall_not_mem]
      intro version shown
      obtain ⟨v, c, tx, he, hv, hid, _⟩ := claimed_eq_some shown
      cases he
      rw [hv] at ok free
      exact free ⟨c, ok.held.1, hid⟩
    rw [same, none]
    rfl
  · generalize hq : current IngestionJob.id (s.phase w).session.jobs j = q at own pending
    have hqj : q.id = j.id := (pendingJob_advances pending).id
    cases hw : s.phase w with
    | idle | holding _ | raised _ _ =>
      rw [hw] at pending
      exact pending.elim
    | requeued tx =>
      rw [hw] at pending
      simp [claimed, hw, pending.2, requeued]
    | selected tx job =>
      rw [hw] at pending own ok
      cases job with
      | none => simp [claimed, hw, pending.2, requeued]
      | some c =>
        obtain ⟨mine, status⟩ := ok.held
        by_cases hid : c.id = j.id
        · have same : q = c := eq_of_key ok.jobIds own mine (hqj.trans hid.symm)
          subst same
          rcases pending with ⟨_, reset⟩ | ⟨_, version⟩
          · rw [reset] at status
            cases status
          · simp [claimed, hw, hid, (claimVersion_advances version).2.2]
        · rcases pending with ⟨_, reset⟩ | ⟨same, _⟩
          · simp [claimed, hw, hid, reset, requeued]
          · exact absurd (same ▸ hqj) hid
    | running c tx | processed c tx _ =>
      rw [hw] at pending
      obtain ⟨_, _, now, rfl⟩ := pending
      simp [claimed, hw, startedAs]
    | storing c tx =>
      rw [hw] at pending
      obtain ⟨_, _, now, later, rfl⟩ := pending
      simp [claimed, hw, completedAs, startedAs]
    | failing c tx =>
      rw [hw] at pending
      obtain ⟨_, ⟨_, error, rfl⟩ | ⟨_, error, rfl⟩⟩ := pending
      · simp [claimed, hw, deadAs]
      · simp [claimed, hw, retriedAs]

/-- As many claims of the job were committed as its row counts attempts. -/
def Counted (jobId : UUID) (s : World n) (claims : List Nat) : Prop :=
  (∀ j ∈ s.db.ingestionJobs, j.id = jobId → j.attemptCount = claims.length) ∧
    ((∀ j ∈ s.db.ingestionJobs, j.id ≠ jobId) → claims = [])

theorem counted_of_same_jobs {claims : List Nat} (counted : Counted jobId s claims)
    (jobs : t.db.ingestionJobs = s.db.ingestionJobs) (notCommit : ∀ w, e ≠ .commit w) :
    Counted jobId t (claims ++ (claimed jobId s e).toList) := by
  rw [claimed_eq_none notCommit, Option.toList_none, List.append_nil, Counted, jobs]
  exact counted

theorem counted_change (h : Sound s) {claims : List Nat} (counted : Counted jobId s claims)
    (change : Change s e t) : Counted jobId t (claims ++ (claimed jobId s e).toList) := by
  cases change with
  | accounts _ _ _ _ => exact counted_of_same_jobs counted rfl (by simp)
  | beside _ _ notCommit => exact counted_of_same_jobs counted rfl notCommit
  | deleted _ _ _ _ _ _ => exact counted_of_same_jobs counted rfl (by simp)
  | own _ w p notCommit _ => exact counted_of_same_jobs counted rfl notCommit
  | uploaded sha256 u o db objects new =>
    obtain ⟨fits, rfl⟩ := (insertUpload_ok_iff rfl rfl rfl).mp new
    rw [claimed_eq_none (by simp), Option.toList_none, List.append_nil]
    refine ⟨fun x hx hid => ?_, fun none => ?_⟩
    · rcases List.mem_append.mp hx with old | new
      · exact counted.1 x old hid
      · rw [List.mem_singleton] at new
        subst new
        have unknown : claims = [] := counted.2 fun j hj he =>
          fits.jobFresh j hj (he.trans hid.symm)
        rw [unknown]
        rfl
    · exact counted.2 fun j hj => none j (List.mem_append_left _ hj)
  | commit w p m =>
    refine ⟨fun x hx hid => ?_, fun none => ?_⟩
    · obtain ⟨j, hj, rfl⟩ := mem_view_iff.mp hx
      have same : j.id = jobId := (key_current (s.phase w).session.jobs j).symm.trans hid
      rw [commit_attempts h w hj, counted.1 j hj same, same, List.length_append]
    · have unknown : ∀ j ∈ s.db.ingestionJobs, j.id ≠ jobId := fun j hj he =>
        none _ (current_mem_commit_jobs (s.phase w).session hj)
          ((key_current (s.phase w).session.jobs j).trans he)
      have unclaimed : claimed jobId s (.commit w) = Option.none := by
        rw [Option.eq_none_iff_forall_not_mem]
        intro version shown
        obtain ⟨v, c, tx, _, hv, hid, _⟩ := claimed_eq_some shown
        obtain ⟨_, j, hj, hjc, _⟩ := selected_version h hv
        exact unknown j hj (hjc.trans hid)
      rw [counted.2 unknown, unclaimed]
      rfl

/-- A dead job has made its last attempt. -/
def DeadSpent (s : World n) : Prop :=
  ∀ j ∈ s.db.ingestionJobs, j.status = .dead → j.attemptCount = j.maxAttempts

/-- What `fail_job` remembers is behind the stored count, and the stored count
never passes the maximum: so a remembered maximum is the stored one. -/
theorem deadSpent_change (h : Sound s) (spent : DeadSpent s) (change : Change s e t) :
    DeadSpent t := by
  intro x hx dead
  rcases change_job h change hx with old | ⟨u, o, rfl⟩ | ⟨w, j, hj, rfl, pending, _, p, m⟩
  · exact spent x old dead
  · cases dead
  · cases hw : s.phase w with
    | selected tx job =>
      rw [hw] at pending
      rcases (pendingJob_selected pending).2 with status | status
      · simp [status] at dead
      · simp [status] at dead
    | storing c tx =>
      rw [hw] at pending
      obtain ⟨_, _, now, later, rfl⟩ := pending
      cases dead
    | failing c tx =>
      rw [hw] at pending
      obtain ⟨hid, ⟨last, error, rfl⟩ | ⟨_, error, rfl⟩⟩ := pending
      · have behind := claim_advances h (w := w) (by rw [hw]; rfl) hj hid
        have counted := behind.attemptCount
        have most := behind.maxAttempts
        have bound := h.stored.attempts j hj
        show j.attemptCount = j.maxAttempts
        omega
      · cases dead
    | _ =>
      rw [hw] at m
      cases m

/-- In every reachable state each job has counted exactly its committed claims,
which are no more than it may have, and all of them if it is dead. -/
theorem attempts_accounted (cfg : Settings) (n : Nat) (es : List (Event n)) (t : World n)
    (run : (machine cfg n).run (World.start n) es = some t) :
    ∀ j ∈ t.db.ingestionJobs,
      j.attemptCount = ((machine cfg n).observed (claimed j.id) (World.start n) es).length ∧
        j.attemptCount ≤ j.maxAttempts ∧ (j.status = .dead → j.attemptCount = j.maxAttempts) := by
  intro j hj
  have free := Machine.everyStep_true (M := machine cfg n) (World.start n) es
  have spent : DeadSpent (World.start n) := by simp [DeadSpent, World.start, Database.empty]
  have counted : Counted j.id (World.start n) [] := by simp [Counted, World.start, Database.empty]
  have ends := Machine.run_keeps_history
    (J := fun s claims => Sound s ∧ DeadSpent s ∧ Counted j.id s claims)
    (fun s e t claims i hs _ => by
      have change := step_change cfg i.1 hs
      exact ⟨sound_change i.1 change, deadSpent_change i.1 i.2.1 change,
        counted_change i.1 i.2.2 change⟩)
    ⟨sound_start n, spent, counted⟩ free run
  exact ⟨ends.2.2.1 j hj rfl, ends.1.stored.attempts j hj, ends.2.1 j hj⟩

/-- The first attempt raises and is failed, and the second one succeeds. -/
def retries (w : Fin n) : List (Event n) :=
  Demo.claims w 20 ++ [.raise w "timeout"] ++ Demo.fails w 30 ++ Demo.claims w 40 ++
    Demo.ingests w 6 50

def retriedRun (w : Fin n) : List (Event n) := Demo.setup ++ retries w

theorem attempts_accounted_demo : ∃ t,
    (machine Demo.settings 2).run (World.start 2) (retriedRun 1) = some t ∧
      ∀ j ∈ t.db.ingestionJobs, j.attemptCount =
          ((machine Demo.settings 2).observed (claimed j.id) (World.start 2) (retriedRun 1)).length ∧
        j.attemptCount ≤ j.maxAttempts ∧ (j.status = .dead → j.attemptCount = j.maxAttempts) := by
  have enabled : ((machine Demo.settings 2).run (World.start 2) (retriedRun 1)).isSome = true := by
    decide +kernel
  obtain ⟨t, ran⟩ := Option.isSome_iff_exists.mp enabled
  exact ⟨t, ran, attempts_accounted _ _ _ t ran⟩

end Worlds

end JobHistories
