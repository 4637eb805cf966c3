import ResearchPlatform.WorkerRuns

/-!
# Terminal jobs and exactly-once ingestion

`mark_running` is guarded by the version, and nothing else is: a `fail_job` may
land on a job that another worker has taken over and finished. Two things are
shown. A worker whose remembered version is still the committed one finds the
job open, so no process transaction reopens or repeats a finished job. And in
every run in which no `fail_job` lands on a finished job, each document is
ingested at most once.
-/

namespace ExactlyOnce

open Uuid Schema RowVersions DocumentService JobService WorkerMachine WorkerInvariants WorkerRuns
  Machines

section Worlds
variable {n : Nat} {s t : World n} {e : Event n}

def Terminal (j : IngestionJob) : Prop := j.status = .completed ∨ j.status = .dead

instance (j : IngestionJob) : Decidable (Terminal j) :=
  inferInstanceAs (Decidable (j.status = .completed ∨ j.status = .dead))

/-- A job whose committed version a worker still remembers is open. -/
def Settled (s : World n) : Prop :=
  ∀ w c, (s.phase w).claim = some c → ∀ j ∈ s.db.ingestionJobs, j.id = c.id →
    j.version = c.version → ¬ Terminal j

theorem settled_start (n : Nat) : Settled (World.start n) := by
  intro w c hc
  cases hc

theorem settled_change (h : Sound s) (settled : Settled s) (change : Change s e t) :
    Settled t := by
  intro v b hb x hx hid hver
  rcases change_claim change hb with ⟨other, hb⟩ | ⟨rfl, hv, hdb⟩
  · rcases change_job h change hx with old | ⟨u, o, rfl⟩ | ⟨w, j, hj, rfl, ⟨pending, _, _⟩⟩
    · exact settled v b hb x old hid hver
    · simp [Terminal, newJob]
    · have adv := pendingJob_advances pending
      have remembered := claim_advances h hb hj (adv.id.symm.trans hid)
      have hjb : j.version = b.version := by
        have := remembered.version
        have := adv.version
        omega
      rcases pendingJob_same_version pending (hver.trans hjb.symm) with
        ⟨_, rfl⟩ | ⟨c, tx, hw, hjc, ⟨spent, error, rfl⟩ | ⟨_, error, rfl⟩⟩
      · simp [Terminal, requeued]
      · -- a spent claim and a current claim of one job would have counted the same attempt
        have hc : (s.phase w).claim = some c := by rw [hw]; rfl
        have failed := claim_advances h hc hj hjc
        have bound := h.stored.attempts j hj
        have most := failed.maxAttempts
        have less := failed.attemptCount
        have mine := remembered.ticket hjb
        have ne : v ≠ w := fun he => other (he ▸ rfl)
        exact absurd (by omega) (h.tickets v w b c ne hb hc (remembered.id.symm.trans hjc))
      · simp [Terminal, retriedAs]
  · obtain ⟨claimed, _, _, _, _, committed⟩ := selected_version h hv
    have ids := (sound_change h change).stored.jobIds
    rw [hdb] at hx ids
    have same : x = b := eq_of_key ids hx committed hid
    simp [Terminal, same, claimed]

/-! ## Terminal states -/

/-- The step leaves the status of every terminal job as it is. -/
def KeepsTerminal (s t : World n) : Prop :=
  ∀ j ∈ s.db.ingestionJobs, Terminal j → ∃ q ∈ t.db.ingestionJobs, q.id = j.id ∧ q.status = j.status

/-- A `fail_job` whose caller still counts attempts, or any on a completed job. -/
def Reopens (c j : IngestionJob) : Prop :=
  j.status = .completed ∨ j.status = .dead ∧ c.attemptCount < c.maxAttempts

instance (c j : IngestionJob) : Decidable (Reopens c j) :=
  inferInstanceAs (Decidable (j.status = .completed ∨ j.status = .dead ∧ c.attemptCount < c.maxAttempts))

instance (s t : World n) : Decidable (KeepsTerminal s t) := by
  unfold KeepsTerminal
  infer_instance

/-- Only a `fail_job` moves a terminal job. -/
theorem terminal_cases (h : Sound s) (settled : Settled s) (change : Change s e t)
    {j : IngestionJob} (hj : j ∈ s.db.ingestionJobs) (terminal : Terminal j) :
    (∃ q ∈ t.db.ingestionJobs, Advances j q ∧ q.status = j.status) ∨
      ∃ w c tx, e = .commit w ∧ s.phase w = .failing c tx ∧ j.id = c.id ∧ Reopens c j := by
  rcases change_job_keeps h change hj with same | ⟨w, rfl, q, hq, pending, _, p, m⟩
  · exact Or.inl ⟨j, same, Advances.refl j, rfl⟩
  · have adv := pendingJob_advances pending
    cases hw : s.phase w with
    | selected tx job =>
      rw [hw] at pending
      have open_ := (pendingJob_selected pending).1
      rcases terminal with status | status
      · simp [status] at open_
      · simp [status] at open_
    | storing c tx =>
      rw [hw] at pending
      exact absurd terminal (settled w c (by rw [hw]; rfl) j hj pending.1 pending.2.1)
    | failing c tx =>
      rw [hw] at pending
      obtain ⟨hjc, ⟨spent, error, rfl⟩ | ⟨left, error, rfl⟩⟩ := pending
      · rcases terminal with completed | dead
        · exact Or.inr ⟨w, c, tx, rfl, hw, hjc, Or.inl completed⟩
        · exact Or.inl ⟨_, hq, adv, dead.symm⟩
      · rcases terminal with completed | dead
        · exact Or.inr ⟨w, c, tx, rfl, hw, hjc, Or.inl completed⟩
        · exact Or.inr ⟨w, c, tx, rfl, hw, hjc, Or.inr ⟨dead, left⟩⟩
    | _ =>
      rw [hw] at m
      cases m

theorem keepsTerminal_iff (h : Sound s) (settled : Settled s) (change : Change s e t) :
    KeepsTerminal s t ↔ ¬ FailsOn Reopens s e := by
  constructor
  · intro keeps fails
    obtain ⟨w, c, tx, rfl, hw, j, hj, hjc, reopens⟩ := failsOn_iff.mp fails
    have terminal : Terminal j := by
      rcases reopens with completed | ⟨dead, _⟩
      · exact Or.inl completed
      · exact Or.inr dead
    obtain ⟨q, hq, hqj, hs⟩ := keeps j hj terminal
    obtain ⟨x, hx, pending, _, _⟩ := claim_commit h change (by rw [hw]; rfl) hj hjc
    have same : q = x := eq_of_key (sound_change h change).stored.jobIds hq hx
      (hqj.trans (pendingJob_advances pending).id.symm)
    subst same
    rw [hw] at pending
    obtain ⟨_, ⟨spent, error, rfl⟩ | ⟨_, error, rfl⟩⟩ := pending
    · rcases reopens with completed | ⟨_, left⟩
      · rw [completed] at hs
        cases hs
      · omega
    · rcases terminal with status | status
      · rw [status] at hs
        cases hs
      · rw [status] at hs
        cases hs
  · intro late j hj terminal
    rcases terminal_cases h settled change hj terminal with
      ⟨q, hq, adv, hs⟩ | ⟨w, c, tx, he, hw, hjc, reopens⟩
    · exact ⟨q, hq, adv.id, hs⟩
    · exact absurd (failsOn_iff.mpr ⟨w, c, tx, he, hw, j, hj, hjc, reopens⟩) late

theorem settled_step (cfg : Settings) (i : Sound s ∧ Settled s)
    (hs : (machine cfg n).step s e = some t) : Sound t ∧ Settled t := by
  have change := step_change cfg i.1 hs
  exact ⟨sound_change i.1 change, settled_change i.1 i.2 change⟩

/-- Terminal job states are absorbing in exactly those runs in which no
`fail_job` lands on a completed job, or on a dead one with attempts remembered. -/
theorem terminal_absorbing_iff (cfg : Settings) (n : Nat) (es : List (Event n)) :
    (machine cfg n).EveryStep (fun s _ t => KeepsTerminal s t) (World.start n) es ↔
      (machine cfg n).EveryStep (fun s e _ => ¬ FailsOn Reopens s e) (World.start n) es :=
  Machine.everyStep_congr (I := fun s => Sound s ∧ Settled s)
    (fun _ _ _ i hs => keepsTerminal_iff i.1 i.2 (step_change cfg i.1 hs))
    (fun _ _ _ i hs _ => settled_step cfg i hs)
    ⟨sound_start n, settled_start n⟩

/-- Worker `w` raises, its claim goes stale and is finished by worker `v`, and only
then its `fail_job` runs. -/
def lateFailRun (w v : Fin n) : List (Event n) :=
  Demo.setup ++ Demo.claims w 20 ++ [.raise w "timeout"] ++ Demo.claims v 1000 ++
    Demo.ingests v 6 1001 ++ Demo.fails w 1002 ++ Demo.claims v 1003 ++ Demo.ingests v 7 1004

theorem lateFail_reopens : ¬ (machine Demo.settings 2).EveryStep (fun s _ t => KeepsTerminal s t)
    (World.start 2) (lateFailRun 0 1) := by decide +kernel

/-! ## Chunks -/

def chunksOf (db : Database) (documentId : UUID) : List Chunk :=
  db.chunks.filter fun c => c.documentId = documentId

/-- Live documents have chunk rows only when ready, and then one for each index
below the chunk count. -/
def IngestedOnce (db : Database) : Prop :=
  ∀ d ∈ db.documents, d.deletedAt = none →
    (chunksOf db d.id ≠ [] → d.status = .ready) ∧
      (d.status = .ready →
        ((chunksOf db d.id).map Chunk.chunkIndex).Perm (List.range d.chunkCount))

instance (db : Database) : Decidable (IngestedOnce db) := by
  unfold IngestedOnce
  infer_instance

/-- The document and its chunk rows, as the state of its job says. -/
structure DocumentOk (db : Database) (j : IngestionJob) (d : Document) : Prop where
  done : j.status = .completed → (d.deletedAt = none → d.status = .ready) ∧
    (chunksOf db d.id).map Chunk.chunkIndex = List.range d.chunkCount
  todo : j.status ≠ .completed → d.status ≠ .ready ∧ chunksOf db d.id = []

def DocumentsOk (db : Database) : Prop :=
  ∀ j ∈ db.ingestionJobs, ∀ d ∈ db.documents, d.id = j.documentId → DocumentOk db j d

theorem ingestedOnce_of_documentsOk {db : Database} (stored : Stored db) (ok : DocumentsOk db) :
    IngestedOnce db := by
  intro d hd live
  obtain ⟨j, hj, hid⟩ := stored.jobOfDoc d hd
  have dj := ok j hj d hd hid.symm
  by_cases completed : j.status = .completed
  · obtain ⟨ready, indices⟩ := dj.done completed
    exact ⟨fun _ => ready live, fun _ => by rw [indices]⟩
  · obtain ⟨notReady, none⟩ := dj.todo completed
    exact ⟨fun some => absurd none some, fun ready => absurd ready notReady⟩

theorem chunksOf_eq_nil {db : Database} {documentId : UUID}
    (none : ∀ c ∈ db.chunks, c.documentId ≠ documentId) : chunksOf db documentId = [] := by
  rw [chunksOf, List.filter_eq_nil_iff]
  intro c hc
  simpa using none c hc

theorem documentsOk_uploaded {db : Database} (stored : Stored db) (ok : DocumentsOk db)
    (sha256 : Sha256) (u : Upload) (o : Outside)
    (fits : Insertable db (newDocument sha256 u o) (newJob u o)) :
    DocumentsOk { db with
      documents := db.documents ++ [(newDocument sha256 u o).row]
      ingestionJobs := db.ingestionJobs ++ [(newJob u o).row] } := by
  have fresh : ∀ d ∈ db.documents, d.id ≠ o.docId := fits.docFresh
  intro j hj d hd hid
  rcases List.mem_append.mp hj with hj | hj
  · obtain ⟨d', hd', hid', _⟩ := stored.docOfJob j hj
    rcases List.mem_append.mp hd with hd | hd
    · exact ⟨(ok j hj d hd hid).done, (ok j hj d hd hid).todo⟩
    · rw [List.mem_singleton] at hd
      subst hd
      exact absurd (hid'.trans hid.symm) (fresh d' hd')
  · rw [List.mem_singleton] at hj
    subst hj
    rcases List.mem_append.mp hd with hd | hd
    · exact absurd hid (fresh d hd)
    · rw [List.mem_singleton] at hd
      subst hd
      refine ⟨fun completed => ?_, fun _ => ⟨?_, ?_⟩⟩
      · cases completed
      · intro ready
        cases ready
      · apply chunksOf_eq_nil
        intro c hc he
        obtain ⟨d', hd', hid', _⟩ := stored.docOfChunk c hc
        exact fresh d' hd' (hid'.trans he)

theorem documentsOk_deleted {db : Database} (ok : DocumentsOk db) (documentId : UUID)
    (now : Time) :
    DocumentsOk { db with documents := db.documents.map (deletedAs documentId now) } := by
  intro j hj x hx hid
  obtain ⟨d, hd, rfl⟩ := List.mem_map.mp hx
  rw [deletedAs_id] at hid
  have dj := ok j hj d hd hid
  rw [deletedAs]
  split
  · refine ⟨fun completed => ⟨fun live => ?_, (dj.done completed).2⟩, fun left => ⟨?_, (dj.todo left).2⟩⟩
    · cases live
    · intro ready
      cases ready
  · exact ⟨dj.done, dj.todo⟩

section Commit
variable {db : Database} {j x c : IngestionJob} {d y : Document} {tx : Session}

theorem DocumentOk.congr {db' : Database} (ok : DocumentOk db j d)
    (completed : x.status = .completed ↔ j.status = .completed)
    (ready : y.status = .ready ↔ d.status = .ready) (live : y.deletedAt = d.deletedAt)
    (count : y.chunkCount = d.chunkCount) (chunks : chunksOf db' y.id = chunksOf db d.id) :
    DocumentOk db' x y := by
  refine ⟨fun done => ?_, fun todo => ?_⟩
  · rw [ready, live, count, chunks]
    exact ok.done (completed.mp done)
  · rw [ne_eq, ready, chunks]
    exact ok.todo fun done => todo (completed.mpr done)

theorem chunksOf_commit (db : Database) (tx : Session) (documentId : UUID) :
    chunksOf (tx.commit db) documentId =
      chunksOf db documentId ++ tx.chunks.filter fun c => c.documentId = documentId :=
  List.filter_append _ _

theorem chunksOf_commit_of_not_mem (documentId : UUID)
    (none : ∀ c ∈ tx.chunks, c.documentId ≠ documentId) :
    chunksOf (tx.commit db) documentId = chunksOf db documentId := by
  rw [chunksOf_commit, List.append_right_eq_self, List.filter_eq_nil_iff]
  intro c hc
  simpa using none c hc

/-- The commit of a claim moves no job into or out of 'completed'. -/
theorem documentOk_claim {job : Option IngestionJob} (ok : DocumentOk db j d)
    (noChunks : tx.chunks = []) (row : x = j ∨ PendingJob (.selected tx job) j x) :
    DocumentOk (tx.commit db) x d := by
  have chunks : chunksOf (tx.commit db) d.id = chunksOf db d.id :=
    chunksOf_commit_of_not_mem d.id (by simp [noChunks])
  refine ok.congr ?_ Iff.rfl rfl rfl chunks
  rcases row with rfl | pending
  · exact Iff.rfl
  · obtain ⟨before, after⟩ := pendingJob_selected pending
    constructor
    · intro done
      simp [done] at after
    · intro done
      simp [done] at before

/-- `complete_job` on an open job: the document had no chunks, and now has its own. -/
theorem documentOk_complete (ok : DocumentOk db j d) (chunks : ChunksOk (.storing c tx))
    (opened : j.status ≠ .completed) (row : PendingJob (.storing c tx) j x)
    (document : PendingDocument (.storing c tx) d y) : DocumentOk (tx.commit db) x y := by
  obtain ⟨_, _, now, later, rfl⟩ := row
  obtain ⟨hid, now', rfl⟩ := document
  have mine : tx.chunks.filter (fun c => c.documentId = d.id) = tx.chunks := by
    rw [List.filter_eq_self]
    intro k hk
    simpa [hid] using (chunks.2 k hk).1
  refine ⟨fun _ => ⟨fun _ => rfl, ?_⟩, fun todo => absurd rfl todo⟩
  rw [chunksOf_commit, show (readyAs tx.chunks.length now' d).id = d.id from rfl,
    (ok.todo opened).2, mine]
  exact chunks.1

/-- `fail_job` on an open job leaves it open, and its document without chunks. -/
theorem documentOk_fail (ok : DocumentOk db j d) (noChunks : tx.chunks = [])
    (opened : j.status ≠ .completed) (row : PendingJob (.failing c tx) j x)
    (document : y = d ∨ PendingDocument (.failing c tx) d y) :
    DocumentOk (tx.commit db) x y := by
  have chunks : chunksOf (tx.commit db) d.id = chunksOf db d.id :=
    chunksOf_commit_of_not_mem d.id (by simp [noChunks])
  obtain ⟨notReady, none⟩ := ok.todo opened
  refine ⟨fun done => ?_, fun _ => ?_⟩
  · obtain ⟨_, ⟨_, error, rfl⟩ | ⟨_, error, rfl⟩⟩ := row
    · cases done
    · cases done
  · rcases document with rfl | ⟨_, _, error, now, rfl⟩
    · exact ⟨notReady, chunks.trans none⟩
    · refine ⟨fun ready => ?_, chunks.trans none⟩
      cases ready

end Commit

/-- A job other than the claimed one is a job of another document. -/
theorem other_document (h : Sound s) {w : Fin n} {c j : IngestionJob}
    (hc : (s.phase w).claim = some c) (hj : j ∈ s.db.ingestionJobs) (other : j.id ≠ c.id) :
    j.documentId ≠ c.documentId := by
  intro he
  obtain ⟨i, hi, adv⟩ := h.claims w c hc
  have same : i = j := eq_of_key h.stored.jobDocs hi hj (adv.documentId.trans he.symm)
  exact other (same ▸ adv.id)

theorem documentsOk_commit (h : Sound s) (settled : Settled s) (ok : DocumentsOk s.db)
    {w : Fin n} {p : Phase} (m : Committed (s.phase w) p)
    (late : ¬ FailsOn (fun _ j => j.status = .completed) s (.commit w)) :
    DocumentsOk ((s.phase w).session.commit s.db) := by
  intro x hx y hy hid
  obtain ⟨j, hj, rfl⟩ := mem_view_iff.mp hx
  obtain ⟨d, hd, rfl⟩ := mem_view_iff.mp hy
  have row := commit_job h.stored (h.phases w) hj
  have document := commit_document h.stored (h.phases w) hd
  have hdj : d.id = j.documentId := by
    have adv := commit_job_advances h.stored (h.phases w) hj
    have same := commit_document_same h.stored (h.phases w) hd
    rw [← same.id, hid, adv.documentId]
  have dj := ok j hj d hd hdj
  have phase := h.phases w
  have other : ∀ c, (s.phase w).claim = some c → j.id ≠ c.id → d.id ≠ c.documentId :=
    fun c hc ne => hdj ▸ other_document h hc hj ne
  have mine : ∀ c, (s.phase w).claim = some c → j.id = c.id → d.id = c.documentId :=
    fun c hc he => hdj.trans (claim_advances h hc hj he).documentId
  have opened : ∀ c, (s.phase w).claim = some c → j.id = c.id → j.version = c.version →
      j.status ≠ .completed := fun c hc he hv done => settled w c hc j hj he hv (Or.inl done)
  have spared : ∀ c tx, s.phase w = .failing c tx → j.id = c.id → j.status ≠ .completed :=
    fun c tx hw he done => late (failsOn_iff.mpr ⟨w, c, tx, rfl, hw, j, hj, he, done⟩)
  generalize s.phase w = ph at m row document phase other mine opened spared ⊢
  cases m with
  | claim tx job =>
    rcases document with ⟨same, _⟩ | ⟨_, pending⟩
    · rw [same]
      exact documentOk_claim dj phase.chunks (row.imp And.left And.right)
    · exact pending.elim
  | complete c tx =>
    by_cases he : j.id = c.id
    · rcases row with ⟨_, free⟩ | ⟨_, row⟩
      · exact absurd phase.held.1 (he ▸ free)
      · rcases document with ⟨_, free⟩ | ⟨_, document⟩
        · exact absurd phase.held.2 (mine c rfl he ▸ free)
        · exact documentOk_complete dj phase.chunks (opened c rfl row.1 row.2.1) row document
    · rcases row with ⟨same, _⟩ | ⟨_, row⟩
      · rcases document with ⟨sameDoc, _⟩ | ⟨_, document⟩
        · rw [same, sameDoc]
          refine dj.congr Iff.rfl Iff.rfl rfl rfl (chunksOf_commit_of_not_mem d.id ?_)
          intro k hk hkd
          exact other c rfl he (hkd.symm.trans (phase.chunks.2 k hk).1)
        · exact absurd document.1 (other c rfl he)
      · exact absurd row.1 he
  | fail c tx =>
    by_cases he : j.id = c.id
    · rcases row with ⟨_, free⟩ | ⟨_, row⟩
      · exact absurd phase.held.1 (he ▸ free)
      · exact documentOk_fail dj phase.chunks (spared c tx rfl he) row
          (document.imp And.left And.right)
    · rcases row with ⟨same, _⟩ | ⟨_, row⟩
      · rcases document with ⟨sameDoc, _⟩ | ⟨_, document⟩
        · rw [same, sameDoc]
          refine dj.congr Iff.rfl Iff.rfl rfl rfl (chunksOf_commit_of_not_mem d.id ?_)
          intro k hk
          exact absurd ((phase.chunks : tx.chunks = []) ▸ hk) List.not_mem_nil
        · exact absurd document.1 (other c rfl he)
      · exact absurd row.1 he

theorem documentsOk_change (h : Sound s) (settled : Settled s) (ok : DocumentsOk s.db)
    (change : Change s e t) (late : ¬ FailsOn (fun _ j => j.status = .completed) s e) :
    DocumentsOk t.db := by
  cases change with
  | accounts users organizations orgMemberships =>
    exact fun j hj d hd hid => ⟨(ok j hj d hd hid).done, (ok j hj d hd hid).todo⟩
  | beside _ objects _ => exact ok
  | uploaded sha256 u o db objects new =>
    obtain ⟨fits, rfl⟩ := (insertUpload_ok_iff rfl rfl rfl).mp new
    exact documentsOk_uploaded h.stored ok sha256 u o fits
  | deleted documentId tenantId now deleteError objects free =>
    exact documentsOk_deleted ok documentId now
  | own _ w p _ l => exact ok
  | commit w p m => exact documentsOk_commit h settled ok m late

/-! ## Whole runs -/

/-- The document whose ingestion the step commits. -/
def ingested (s : World n) : Event n → Option UUID
  | .commit w => match s.phase w with
    | .storing c _ => some c.documentId
    | _ => none
  | _ => none

theorem ingested_eq_some {documentId : UUID} (shown : ingested s e = some documentId) :
    ∃ w c tx, e = .commit w ∧ s.phase w = .storing c tx ∧ c.documentId = documentId := by
  cases e with
  | commit w =>
    cases hw : s.phase w with
    | storing c tx =>
      simp only [ingested, hw, Option.some.injEq] at shown
      exact ⟨w, c, tx, rfl, hw, shown⟩
    | _ => simp [ingested, hw] at shown
  | _ => cases shown

def IngestsOnce (cfg : Settings) (n : Nat) (es : List (Event n)) : Prop :=
  (machine cfg n).Throughout (fun s => IngestedOnce s.db) (World.start n) es ∧
    ((machine cfg n).observed ingested (World.start n) es).Nodup

/-- What a run keeps as long as no `fail_job` lands on a completed job. -/
structure Healthy (s : World n) : Prop where
  sound : Sound s
  settled : Settled s
  documents : DocumentsOk s.db

theorem healthy_start (n : Nat) : Healthy (World.start n) where
  sound := sound_start n
  settled := settled_start n
  documents := by simp [DocumentsOk, World.start, Database.empty]

theorem healthy_step (cfg : Settings) (i : Healthy s) (hs : (machine cfg n).step s e = some t)
    (late : ¬ FailsOn (fun _ j => j.status = .completed) s e) : Healthy t := by
  have change := step_change cfg i.sound hs
  exact ⟨sound_change i.sound change, settled_change i.sound i.settled change,
    documentsOk_change i.sound i.settled i.documents change late⟩

def Done (s : World n) (documentId : UUID) : Prop :=
  ∃ j ∈ s.db.ingestionJobs, j.documentId = documentId ∧ j.status = .completed

theorem done_stays (i : Healthy s) (change : Change s e t)
    (late : ¬ FailsOn (fun _ j => j.status = .completed) s e) {documentId : UUID}
    (done : Done s documentId) : Done t documentId := by
  obtain ⟨j, hj, hid, completed⟩ := done
  rcases terminal_cases i.sound i.settled change hj (Or.inl completed) with
    ⟨q, hq, adv, hs⟩ | ⟨w, c, tx, he, hw, hjc, _⟩
  · exact ⟨q, hq, adv.documentId.trans hid, hs.trans completed⟩
  · exact absurd (failsOn_iff.mpr ⟨w, c, tx, he, hw, j, hj, hjc, completed⟩) late

/-- A process transaction commits on an open job, and completes it. -/
theorem ingested_marks (i : Healthy s) (change : Change s e t) {documentId : UUID}
    (shown : ingested s e = some documentId) : ¬ Done s documentId ∧ Done t documentId := by
  obtain ⟨w, c, tx, rfl, hw, rfl⟩ := ingested_eq_some shown
  have hc : (s.phase w).claim = some c := by rw [hw]; rfl
  constructor
  · rintro ⟨j, hj, hid, completed⟩
    have hjc : j.id = c.id := by
      by_contra other
      exact other_document i.sound hc hj other hid
    obtain ⟨q, _, pending, _, _⟩ := claim_commit i.sound change hc hj hjc
    rw [hw] at pending
    exact i.settled w c hc j hj hjc pending.2.1 (Or.inl completed)
  · obtain ⟨j, hj, adv⟩ := i.sound.claims w c hc
    obtain ⟨q, hq, pending, _, _⟩ := claim_commit i.sound change hc hj adv.id
    refine ⟨q, hq, (pendingJob_advances pending).documentId.trans adv.documentId, ?_⟩
    rw [hw] at pending
    obtain ⟨_, _, now, later, rfl⟩ := pending
    rfl

/-- In every run in which no `fail_job` lands on a completed job, every document
is ingested at most once, and holds exactly its numbered chunks once it is ready. -/
theorem ingestsOnce_of_no_late_fail (cfg : Settings) (n : Nat) (es : List (Event n))
    (noLateFail : (machine cfg n).EveryStep
      (fun s e _ => ¬ FailsOn (fun _ j => j.status = .completed) s e) (World.start n) es) :
    IngestsOnce cfg n es := by
  have keeps := fun s e t (i : Healthy (n := n) s) hs late => healthy_step (e := e) (t := t) cfg i hs late
  refine ⟨⟨ingestedOnce_of_documentsOk (healthy_start n).sound.stored (healthy_start n).documents,
    Machine.everyStep_mono (I := Healthy) (fun s e t i hs late => ?_) (healthy_start n) noLateFail⟩, ?_⟩
  · have i' := keeps s e t i hs late
    exact ⟨i', ingestedOnce_of_documentsOk i'.sound.stored i'.documents⟩
  · exact Machine.observed_nodup (I := Healthy) Done keeps
      (fun s e t d i hs late => done_stays i (step_change cfg i.sound hs) late)
      (fun s e t d i hs _ => ingested_marks i (step_change cfg i.sound hs))
      (healthy_start n) noLateFail

theorem ingestsOnce_after_retry :
    IngestsOnce Demo.settings 2 (Demo.setup ++ Demo.claims 0 20 ++ [.raise 0 "timeout"] ++
      Demo.fails 0 30 ++ Demo.claims 1 40 ++ Demo.ingests 1 6 50) :=
  ingestsOnce_of_no_late_fail _ _ _ (by decide +kernel)

theorem lateFail_ingests_twice :
    (machine Demo.settings 2).observed ingested (World.start 2) (lateFailRun 0 1) =
        [Demo.documentId, Demo.documentId] ∧
      ¬ (machine Demo.settings 2).Throughout (fun s => IngestedOnce s.db) (World.start 2)
        (lateFailRun 0 1) ∧
      ¬ IngestsOnce Demo.settings 2 (lateFailRun 0 1) := by
  have broken : ¬ (machine Demo.settings 2).Throughout (fun s => IngestedOnce s.db)
      (World.start 2) (lateFailRun 0 1) := by decide +kernel
  exact ⟨by decide +kernel, broken, fun h => broken h.1⟩

end Worlds

end ExactlyOnce
