import ResearchPlatform.WorkerRuns

/-!
# Claims that were taken away

`mark_running` looks at the version alone, and neither the reset of a stale claim
nor `fail_job` writes a new one. So a paused worker whose claim was reset, or
requeued or buried by the late `fail_job` of an earlier claim, still starts the
job. This is the only way: a claim that nobody takes away is live.
-/

namespace LiveClaims

open Uuid Schema RowVersions JobService WorkerMachine WorkerInvariants WorkerRuns Machines

section Worlds
variable {n : Nat} {s t : World n} {e : Event n} {w : Fin n} {c : IngestionJob}

def ClaimedBy (w : Fin n) (j : IngestionJob) : Prop := j.status = .claimed ∧ j.workerId = some w.val

instance (w : Fin n) (j : IngestionJob) : Decidable (ClaimedBy w j) :=
  inferInstanceAs (Decidable (j.status = .claimed ∧ j.workerId = some w.val))

/-- The claim with which the worker is about to call `mark_running`. -/
def heldClaim : Phase → Option IngestionJob
  | .holding c => some c
  | _ => none

/-- `mark_running(job_id, version)` of worker `w` would return true now. -/
def Starts (s : World n) (w : Fin n) (c : IngestionJob) : Prop :=
  ∃ now tx, JobService.markRunning (s.JobLocked w) c.id c.version now s.db Session.empty =
    some (tx, true)

/-- A worker can start a held claim only while the committed job is claimed by it. -/
def StartsLive (s : World n) : Prop :=
  ∀ w, ∀ c ∈ heldClaim (s.phase w), Starts s w c →
    ∃ j ∈ s.db.ingestionJobs, j.id = c.id ∧ ClaimedBy w j

/-- The step commits a row version that still carries the ticket of a held claim:
a stale reset or a `fail_job` takes the claim from its worker. -/
def TakesOver (s : World n) (e : Event n) : Prop :=
  ∃ v, e = .commit v ∧ ∃ w, ∃ c ∈ heldClaim (s.phase w),
    ∃ q ∈ (s.phase v).session.jobs, q.id = c.id ∧ q.version = c.version

theorem heldClaim_eq_some {p : Phase} (h : heldClaim p = some c) : p = .holding c := by
  cases p with
  | holding b => exact congrArg Phase.holding (Option.some.inj h)
  | _ => cases h

/-- `mark_running` returns true when the row with its version is there and free. -/
theorem starts_iff : Starts s w c ↔
    (∃ j ∈ s.db.ingestionJobs, j.id = c.id ∧ j.version = c.version) ∧ ¬ s.JobLocked w c.id := by
  have hits : ∀ j, j ∈ (view IngestionJob.id [] s.db.ingestionJobs).filter
      (fun j => j.id = c.id && j.version = c.version) ↔
      j ∈ s.db.ingestionJobs ∧ j.id = c.id ∧ j.version = c.version := by
    intro j
    simp [List.mem_filter]
  constructor
  · rintro ⟨now, tx, run⟩
    simp only [JobService.markRunning, Option.map_eq_some_iff, Prod.mk.injEq,
      decide_eq_true_eq] at run
    obtain ⟨⟨jobs, count⟩, hu, _, met⟩ := run
    obtain ⟨free, _, rfl⟩ := update_spec hu
    obtain ⟨j, hj⟩ := List.exists_mem_of_length_pos met
    obtain ⟨hv, hit⟩ := List.mem_filter.mp hj
    obtain ⟨hm, hid, hver⟩ := (hits j).mp hj
    exact ⟨⟨j, hm, hid, hver⟩, hid ▸ free j hv hit⟩
  · rintro ⟨⟨j, hm, hid, hver⟩, free⟩
    have hj := (hits j).mpr ⟨hm, hid, hver⟩
    refine ⟨0, ?_⟩
    simp only [JobService.markRunning, update]
    split
    · rename_i blocked
      obtain ⟨r, hr, locked⟩ := blocked
      exact absurd (((hits r).mp hr).2.1 ▸ locked) free
    · exact ⟨_, congrArg (fun b => some (_, b)) (decide_eq_true (List.length_pos_of_mem hj))⟩

instance : Decidable (Starts s w c) := decidable_of_iff _ starts_iff.symm

instance (s : World n) : Decidable (StartsLive s) :=
  inferInstanceAs (Decidable (∀ w, ∀ c ∈ heldClaim (s.phase w), Starts s w c →
    ∃ j ∈ s.db.ingestionJobs, j.id = c.id ∧ ClaimedBy w j))

/-! ## Where claims come from -/

/-- A worker selects a job in its own name. -/
theorem selected_after (cfg : Settings) (hs : (machine cfg n).step s e = some t) {tx : Session}
    (ht : t.phase w = .selected tx (some c)) :
    s.phase w = .selected tx (some c) ∨ c.workerId = some w.val := by
  by_cases own : actor e = some w
  · have moves := step_moves cfg hs own
    rw [ht] at moves
    generalize after : Phase.selected tx (some c) = p at moves
    cases moves with
    | claim now tx' hw =>
      simp only [Phase.selected.injEq, claimQueued] at after
      split at after
      · cases after.2
      · refine Or.inr ?_
        rw [Option.some.inj after.2]
        rfl
    | commit p m =>
      rcases m.after with rfl | ⟨b, rfl⟩
      · cases after
      · cases after
    | _ => cases after
  · exact Or.inl ((phase_of_other cfg hs own).symm.trans ht)

/-- A worker holds a claim from the commit of its claim transaction on. -/
theorem holding_after (cfg : Settings) (hs : (machine cfg n).step s e = some t)
    (ht : t.phase w = .holding c) :
    s.phase w = .holding c ∨ e = .commit w ∧ ∃ tx, s.phase w = .selected tx (some c) := by
  by_cases own : actor e = some w
  · have moves := step_moves cfg hs own
    rw [ht] at moves
    cases moves with
    | commit p m => exact Or.inr ⟨rfl, _, m.new_claim rfl⟩
  · exact Or.inl ((phase_of_other cfg hs own).symm.trans ht)

/-! ## Runs -/

/-- A selected job carries the name of the worker that selected it. -/
def Signed (s : World n) : Prop :=
  ∀ w tx c, s.phase w = .selected tx (some c) → c.workerId = some w.val

/-- A held claim whose ticket is still the committed one is live. -/
def LiveHeld (s : World n) : Prop :=
  ∀ w c, s.phase w = .holding c → ∀ j ∈ s.db.ingestionJobs, j.id = c.id →
    j.version = c.version → ClaimedBy w j

structure Inv (s : World n) : Prop where
  sound : Sound s
  signed : Signed s
  live : LiveHeld s

theorem inv_start (n : Nat) : Inv (World.start n) where
  sound := sound_start n
  signed w tx c hw := by cases hw
  live w c hw := by cases hw

theorem signed_step (cfg : Settings) (signed : Signed s)
    (hs : (machine cfg n).step s e = some t) : Signed t := by
  intro w tx c ht
  rcases selected_after cfg hs ht with old | mine
  · exact signed w tx c old
  · exact mine

theorem liveHeld_step (cfg : Settings) (i : Inv s) (hs : (machine cfg n).step s e = some t)
    (kept : ¬ TakesOver s e) : LiveHeld t := by
  have change := step_change cfg i.sound hs
  intro w c ht x hx hid hv
  rcases holding_after cfg hs ht with hw | ⟨rfl, tx, hw⟩
  · have hc : (s.phase w).claim = some c := by rw [hw]; rfl
    obtain ⟨j, hj, adv⟩ := i.sound.claims w c hc
    rcases change_job_same i.sound change hj hx (hid.trans adv.id.symm) with
      rfl | ⟨v, he, moves⟩
    · exact i.live w c hw x hj hid hv
    · exact absurd ⟨v, he, w, c, by rw [hw]; rfl, x, moves.own, hid, hv⟩ kept
  · have ids := (sound_change i.sound change).stored.jobIds
    have same : x = c := eq_of_key ids hx (selected_commit i.sound change hw).1 hid
    subst same
    exact ⟨(selected_version i.sound hw).1, i.signed w tx x hw⟩

theorem inv_step (cfg : Settings) (i : Inv s) (hs : (machine cfg n).step s e = some t)
    (kept : ¬ TakesOver s e) : Inv t where
  sound := sound_step cfg i.sound hs
  signed := signed_step cfg i.signed hs
  live := liveHeld_step cfg i hs kept

theorem startsLive_of_inv (i : Inv s) : StartsLive s := by
  intro w c hc starts
  obtain ⟨⟨j, hj, hid, hv⟩, _⟩ := starts_iff.mp starts
  exact ⟨j, hj, hid, i.live w c (heldClaim_eq_some hc) j hj hid hv⟩

/-- A claim that is taken over can be started all the same: the row keeps the
ticket, it is queued or dead, and the commit has left it free. -/
theorem not_startsLive_of_takesOver (cfg : Settings) (i : Inv s)
    (hs : (machine cfg n).step s e = some t) (taken : TakesOver s e) : ¬ StartsLive t := by
  intro live
  have change := step_change cfg i.sound hs
  obtain ⟨v, rfl, w, c, hc, q, own, hid, hver⟩ := taken
  have hw := heldClaim_eq_some hc
  have ne : v ≠ w := by
    rintro rfl
    rw [hw] at own
    cases own
  have still : t.phase w = .holding c :=
    (phase_of_other cfg hs (by simpa [actor] using ne)).trans hw
  obtain ⟨j, hj, adv⟩ := i.sound.claims w c (by rw [hw]; rfl)
  have locked : Locks IngestionJob.id (s.phase v).session.jobs j.id :=
    ⟨q, own, hid.trans adv.id.symm⟩
  obtain ⟨x, hx, moves⟩ := locked_commit i.sound change hj locked
  have forward := pendingJob_advances moves.pending
  have same : x = q := eq_of_key (i.sound.phases v).jobIds moves.own own
    (forward.id.trans (adv.id.trans hid.symm))
  subst same
  have unbumped : x.version = j.version := by
    have := adv.version
    have := forward.version
    omega
  have free : ¬ t.JobLocked w c.id := by
    rintro ⟨u, hu, lock⟩
    by_cases huv : u = v
    · subst huv
      rw [(commit_phase cfg hs).session] at lock
      exact not_locks_nil c.id lock
    · rw [phase_of_other cfg hs (by simpa [actor] using Ne.symm huv)] at lock
      exact i.sound.jobLocks u v c.id huv lock ⟨x, own, hid⟩
  have starts : Starts t w c := starts_iff.mpr ⟨⟨x, hx, hid, hver⟩, free⟩
  obtain ⟨y, hy, hyc, claimed⟩ := live w c (by rw [still]; rfl) starts
  have same : y = x := eq_of_key (sound_change i.sound change).stored.jobIds hy hx
    (hyc.trans hid.symm)
  subst same
  rcases pendingJob_same_version moves.pending unbumped with
    ⟨_, rfl⟩ | ⟨b, tx, _, _, ⟨_, error, rfl⟩ | ⟨_, error, rfl⟩⟩
  · cases claimed.1
  · cases claimed.1
  · cases claimed.1

/-- Held claims can be started only while they are live in exactly those runs in
which no stale reset and no `fail_job` commits on a job whose current ticket
another worker still holds. -/
theorem starts_live_iff (cfg : Settings) (n : Nat) (es : List (Event n)) :
    (machine cfg n).Throughout StartsLive (World.start n) es ↔
      (machine cfg n).EveryStep (fun s e _ => ¬ TakesOver s e) (World.start n) es := by
  rw [Machine.Throughout, and_iff_right (startsLive_of_inv (inv_start n))]
  refine Machine.everyStep_congr (I := Inv) (fun s e t i hs => ?_) (fun s e t i hs live => ?_)
    (inv_start n)
  · constructor
    · exact fun live taken => not_startsLive_of_takesOver cfg i hs taken live
    · exact fun kept => startsLive_of_inv (inv_step cfg i hs kept)
  · exact inv_step cfg i hs fun taken => not_startsLive_of_takesOver cfg i hs taken live

/-- Worker `w` raises, its claim goes stale and is claimed by worker `v`, and then
the late `fail_job` of `w` requeues the job under `v`. -/
def takenRun (w v : Fin n) : List (Event n) :=
  Demo.setup ++ Demo.claims w 20 ++ [.raise w "timeout"] ++ Demo.claims v 1000 ++ Demo.fails w 1001

theorem taken_claim_starts :
    ¬ (machine Demo.settings 2).Throughout StartsLive (World.start 2) (takenRun 0 1) := by
  decide +kernel

end Worlds

end LiveClaims
