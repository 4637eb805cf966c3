import ResearchPlatform.WorkerRuns

/-!
# Deleted documents that come back

`soft_delete_document` marks the row and leaves its job alone. A worker that has
claimed the job loads the document without a look at `deleted_at`, and
`complete_job` writes by id. So a deletion that commits before `complete_job` is
overwritten by it; one that waits for the lock of `complete_job` is final, and
nothing else touches a deleted document.
-/

namespace Deletions

open Uuid Schema RowVersions DocumentService JobService WorkerMachine WorkerInvariants WorkerRuns
  Machines

section Worlds
variable {n : Nat} {s t : World n} {e : Event n}

def Deleted (d : Document) : Prop := d.deletedAt.isSome = true

instance (d : Document) : Decidable (Deleted d) := inferInstanceAs (Decidable (_ = true))

/-- Every deleted document stays deleted, is not made ready, keeps its chunk count
and gets no chunk row. -/
def KeepsDeleted (s t : World n) : Prop :=
  ∀ d ∈ s.db.documents, Deleted d →
    (∃ q ∈ t.db.documents, q.id = d.id ∧ Deleted q ∧ (q.status = .ready → d.status = .ready) ∧
      q.chunkCount = d.chunkCount) ∧
    ∀ c ∈ t.db.chunks, c.documentId = d.id → c ∈ s.db.chunks

instance (s t : World n) : Decidable (KeepsDeleted s t) := by
  unfold KeepsDeleted
  infer_instance

/-- The claim whose process transaction the step commits. -/
def processCommitted (s : World n) : Event n → Option IngestionJob
  | .commit w => match s.phase w with
    | .storing c _ => some c
    | _ => none
  | _ => none

/-- The step commits a `complete_job` on a document that is already deleted. -/
def CompletesDeleted (s : World n) (e : Event n) : Prop :=
  ∃ c ∈ processCommitted s e, ∃ d ∈ s.db.documents, d.id = c.documentId ∧ Deleted d

instance (s : World n) (e : Event n) : Decidable (CompletesDeleted s e) :=
  inferInstanceAs (Decidable (∃ c ∈ processCommitted s e, ∃ d ∈ s.db.documents,
    d.id = c.documentId ∧ Deleted d))

theorem processCommitted_eq_some {c : IngestionJob} (h : processCommitted s e = some c) :
    ∃ w tx, e = .commit w ∧ s.phase w = .storing c tx := by
  cases e with
  | commit w =>
    simp only [processCommitted] at h
    split at h
    · rename_i b tx hw
      exact ⟨w, tx, rfl, Option.some.inj h ▸ hw⟩
    · cases h
  | _ => cases h

/-- A deletion leaves 'failed' behind. -/
def NotReady (s : World n) : Prop := ∀ d ∈ s.db.documents, Deleted d → d.status ≠ .ready

theorem deletedAs_status {documentId : UUID} {now : Time} {d : Document}
    (ready : (deletedAs documentId now d).status = .ready) : deletedAs documentId now d = d := by
  rw [deletedAs] at ready ⊢
  split at ready
  · cases ready
  · rename_i other
    exact if_neg other

theorem deletedAs_chunkCount (documentId : UUID) (now : Time) (d : Document) :
    (deletedAs documentId now d).chunkCount = d.chunkCount := by
  rw [deletedAs]
  split <;> rfl

theorem deletedAs_deleted {documentId : UUID} {now : Time} {d : Document} (deleted : Deleted d) :
    Deleted (deletedAs documentId now d) := by
  rw [deletedAs]
  split
  · rfl
  · exact deleted

/-- Only a `complete_job` makes a document ready. -/
theorem completes_of_ready {w : Fin n} {d q : Document} (hd : d ∈ s.db.documents)
    (deleted : Deleted d) (pending : PendingDocument (s.phase w) d q)
    (kept : ¬ CompletesDeleted s (.commit w)) :
    q.status ≠ .ready ∧ q.chunkCount = d.chunkCount ∧ q.deletedAt = d.deletedAt := by
  cases hw : s.phase w with
  | storing c tx =>
    rw [hw] at pending
    exact absurd ⟨c, by simp [processCommitted, hw], d, hd, pending.1, deleted⟩ kept
  | failing c tx =>
    rw [hw] at pending
    obtain ⟨_, _, error, now, rfl⟩ := pending
    refine ⟨fun ready => ?_, rfl, rfl⟩
    cases ready
  | _ =>
    rw [hw] at pending
    exact pending.elim

theorem notReady_change (h : Sound s) (notReady : NotReady s) (change : Change s e t)
    (kept : ¬ CompletesDeleted s e) : NotReady t := by
  intro x hx deleted
  rcases change_document h change hx with
    old | ⟨_, _, _, rfl⟩ | ⟨d, hd, ⟨documentId, now, rfl⟩ | ⟨w, rfl, pending⟩⟩
  · exact notReady x old deleted
  · cases deleted
  · intro ready
    have same := deletedAs_status ready
    rw [same] at deleted ready
    exact notReady d hd deleted ready
  · have was : Deleted d := by
      rw [Deleted, ← (pendingDocument_same pending).deletedAt]
      exact deleted
    exact (completes_of_ready hd was pending kept).1

theorem keepsDeleted_of_change (h : Sound s) (change : Change s e t)
    (kept : ¬ CompletesDeleted s e) : KeepsDeleted s t := by
  intro d hd deleted
  refine ⟨?_, fun x hx hid => ?_⟩
  · rcases change_document_keeps h change hd with
      same | ⟨documentId, _, now, _, _, moved⟩ | ⟨w, rfl, q, hq, pending⟩
    · exact ⟨d, same, rfl, deleted, id, rfl⟩
    · refine ⟨_, moved, deletedAs_id documentId now d, deletedAs_deleted deleted, fun ready => ?_,
        deletedAs_chunkCount documentId now d⟩
      rwa [deletedAs_status ready] at ready
    · obtain ⟨unready, count, still⟩ := completes_of_ready hd deleted pending kept
      refine ⟨q, hq, (pendingDocument_same pending).id, ?_, fun ready => absurd ready unready, count⟩
      rw [Deleted, still]
      exact deleted
  · rcases change_chunk h change hx with old | ⟨w, c, tx, rfl, hw, new⟩
    · exact old
    · have ok := (h.phases w).chunks
      rw [hw] at ok
      have mine : d.id = c.documentId := hid.symm.trans (ok.2 x new).1
      exact absurd ⟨c, by simp [processCommitted, hw], d, hd, mine, deleted⟩ kept

theorem not_keepsDeleted_of_completes (h : Sound s) (notReady : NotReady s)
    (change : Change s e t) (completes : CompletesDeleted s e) : ¬ KeepsDeleted s t := by
  intro keeps
  obtain ⟨c, hc, d, hd, hid, deleted⟩ := completes
  obtain ⟨w, tx, rfl, hw⟩ := processCommitted_eq_some hc
  obtain ⟨⟨q, hq, hqd, _, ready, _⟩, _⟩ := keeps d hd deleted
  have held := (h.phases w).held
  rw [hw] at held
  obtain ⟨x, hx, _, pending⟩ := locked_document_commit h change hd
    (by rw [hw, hid]; exact held.2)
  have same : q = x := eq_of_key (sound_change h change).stored.docIds hq hx
    (hqd.trans (pendingDocument_same pending).id.symm)
  rw [hw] at pending
  obtain ⟨_, now, rfl⟩ := pending
  exact notReady d hd deleted (ready (congrArg Document.status same))

/-- Deletions are final in exactly those runs in which no `complete_job` commits
on a document that is already deleted. -/
theorem deletions_final_iff (cfg : Settings) (n : Nat) (es : List (Event n)) :
    (machine cfg n).EveryStep (fun s _ t => KeepsDeleted s t) (World.start n) es ↔
      (machine cfg n).EveryStep (fun s e _ => ¬ CompletesDeleted s e) (World.start n) es := by
  have first : NotReady (World.start n) := by simp [NotReady, World.start, Database.empty]
  refine Machine.everyStep_congr (I := fun s => Sound s ∧ NotReady s) (fun s e t i hs => ?_)
    (fun s e t i hs keeps => ?_) ⟨sound_start n, first⟩
  · have change := step_change cfg i.1 hs
    constructor
    · exact fun keeps completes => not_keepsDeleted_of_completes i.1 i.2 change completes keeps
    · exact keepsDeleted_of_change i.1 change
  · have change := step_change cfg i.1 hs
    exact ⟨sound_change i.1 change, notReady_change i.1 i.2 change
      fun completes => not_keepsDeleted_of_completes i.1 i.2 change completes keeps⟩

/-- The document is deleted while a worker is between its download and `complete_job`. -/
def deletedMidway (w : Fin n) : List (Event n) :=
  Demo.setup ++ Demo.claims w 20 ++ [.markRunning w 21, .process w,
    .softDelete Demo.documentId 2 22 none, .complete w (fun i => BitVec.ofNat 128 (6 + i)) 23,
    .commit w]

theorem deleted_document_comes_back :
    ¬ (machine Demo.settings 1).EveryStep (fun s _ t => KeepsDeleted s t) (World.start 1)
      (deletedMidway 0) := by
  decide +kernel

end Worlds

end Deletions
