import ResearchPlatform.ExactlyOnce

/-!
# Where the chunks of a document come from

A worker reads the document row, downloads the object, computes, and inserts what it has
computed in the same transaction; others upload, delete, crash and take over in the
meantime. Whatever they do, the chunk rows of a document are whole outputs of the pipeline
on bytes whose digest the document row records.
-/

namespace ChunkProvenance

open Uuid Schema RowVersions DocumentService JobService WorkerMachine WorkerInvariants WorkerRuns
  Machines ExactlyOnce

/-- The columns of a chunk row that the pipeline decides. -/
def dataOf (x : Chunk) : ChunkData := ⟨x.content, x.embedding, x.chunkIndex, x.pageNumber⟩

theorem dataOf_chunkRows (documentId userId tenantId : UUID) (chunkId : Nat → UUID) (now : Time)
    (chunks : List ChunkData) :
    (chunks.mapIdx fun idx x => chunkRow documentId userId tenantId (chunkId idx) now x).map dataOf = chunks := by
  refine List.ext_getElem (by simp) fun i _ _ => ?_
  simp [dataOf, chunkRow]

/-- The pipeline's output on bytes that have the digest in the document row. -/
def Made (cfg : Settings) (d : Document) (chunks : List ChunkData) : Prop :=
  ∃ content, contentHash cfg.sha256 content = d.contentHash ∧ cfg.pipeline.process content d.mimeType = .ok chunks

/-- Whole outputs, one after the other. -/
def Whole (cfg : Settings) (d : Document) (rows : List Chunk) : Prop :=
  ∃ batches : List (List Chunk), rows = batches.flatten ∧ ∀ batch ∈ batches, Made cfg d (batch.map dataOf)

/-- What no statement changes of a document row. -/
structure SameFile (d q : Document) : Prop where
  id : q.id = d.id
  contentHash : q.contentHash = d.contentHash
  mimeType : q.mimeType = d.mimeType
  storageKey : q.storageKey = d.storageKey

theorem SameFile.refl (d : Document) : SameFile d d := ⟨rfl, rfl, rfl, rfl⟩

/-- No upload draws the id of a document that is there, and where the column cuts the storage key
no object is stored under what is left of it. -/
def freshUpload {n : Nat} (s : World n) : Event n → Bool
  | .upload u o =>
    let key := storageKey u.tenantId o.docId u.filename
    (s.db.documents.all fun d => d.id ≠ o.docId) && (key.length ≤ 500 || (s.objects (varchar 500 key)).isNone)
  | _ => true

/-- The document of a claim has the chunks as an output of its own. -/
def MadeFor (cfg : Settings) (db : Database) (documentId : UUID) (chunks : List ChunkData) : Prop :=
  ∃ d ∈ db.documents, d.id = documentId ∧ Made cfg d chunks

structure Provenance {n : Nat} (cfg : Settings) (s : World n) : Prop where
  filed : ∀ d ∈ s.db.documents, ∀ key object, d.storageKey = some key → s.objects key = some object →
    contentHash cfg.sha256 object.data = d.contentHash
  processed : ∀ w c tx chunks, s.phase w = .processed c tx chunks → MadeFor cfg s.db c.documentId chunks
  storing : ∀ w c tx, s.phase w = .storing c tx → MadeFor cfg s.db c.documentId (tx.chunks.map dataOf)
  whole : ∀ d ∈ s.db.documents, Whole cfg d (chunksOf s.db d.id)

section Worlds
variable {n : Nat} {cfg : Settings} {s t : World n} {e : Event n} {w : Fin n} {p : Phase} {d q : Document}

theorem Made.same (same : SameFile d q) {chunks : List ChunkData} (made : Made cfg d chunks) : Made cfg q chunks := by
  obtain ⟨content, hash, output⟩ := made
  exact ⟨content, hash.trans same.contentHash.symm, same.mimeType ▸ output⟩

theorem Whole.same (same : SameFile d q) {rows : List Chunk} (whole : Whole cfg d rows) : Whole cfg q rows := by
  obtain ⟨batches, split, made⟩ := whole
  exact ⟨batches, split, fun batch mem => (made batch mem).same same⟩

theorem Whole.snoc {rows batch : List Chunk} (whole : Whole cfg d rows) (made : Made cfg d (batch.map dataOf)) :
    Whole cfg d (rows ++ batch) := by
  obtain ⟨batches, rfl, each⟩ := whole
  refine ⟨batches ++ [batch], by simp, fun x mem => ?_⟩
  rcases List.mem_append.mp mem with old | new
  · exact each x old
  · exact List.mem_singleton.mp new ▸ made

theorem MadeFor.same {db db' : Database} {documentId : UUID} {chunks : List ChunkData}
    (keeps : ∀ d ∈ db.documents, ∃ q ∈ db'.documents, SameFile d q) (made : MadeFor cfg db documentId chunks) :
    MadeFor cfg db' documentId chunks := by
  obtain ⟨d, hd, link, made⟩ := made
  obtain ⟨q, hq, same⟩ := keeps d hd
  exact ⟨q, hq, same.id.trans link, made.same same⟩

/-! ## Reading -/

/-- What a worker has processed is the object of its document. -/
theorem fetchAndProcess_made (provenance : Provenance cfg s) {tx : Session} (none_ : tx.documents = [])
    {documentId : UUID} {chunks : List ChunkData}
    (run : fetchAndProcess cfg s.db s.objects tx documentId = .ok chunks) : MadeFor cfg s.db documentId chunks := by
  simp only [fetchAndProcess, none_, view_nil] at run
  split at run
  · cases run
  · rename_i d found
    split at run
    · cases run
    · rename_i key filed
      split at run
      · cases run
      · rename_i object stored
        exact ⟨d, List.mem_of_find?_eq_some found, by simpa using List.find?_some found, object.data,
          provenance.filed d (List.mem_of_find?_eq_some found) key object filed stored, run⟩

/-! ## Documents and objects -/

theorem pendingDocument_file (pending : PendingDocument p d q) : SameFile d q := by
  cases p with
  | storing c tx =>
    obtain ⟨_, now, rfl⟩ := pending
    exact ⟨rfl, rfl, rfl, rfl⟩
  | failing c tx =>
    obtain ⟨_, _, error, now, rfl⟩ := pending
    exact ⟨rfl, rfl, rfl, rfl⟩
  | _ => exact pending.elim

theorem current_file (sound : Sound s) (hd : d ∈ s.db.documents) :
    SameFile d (current Document.id (s.phase w).session.documents d) := by
  rcases commit_document sound.stored (sound.phases w) hd with ⟨same, _⟩ | ⟨_, pending⟩
  · exact same.symm ▸ SameFile.refl d
  · exact pendingDocument_file pending

theorem deletedAs_file (documentId : UUID) (now : Time) (d : Document) : SameFile d (deletedAs documentId now d) := by
  rw [deletedAs]
  split <;> exact ⟨rfl, rfl, rfl, rfl⟩

/-- The object of an upload that has inserted its rows. -/
theorem uploadDocument_filed {sha256 : Sha256} {u : Upload} {o : Outside} {db db' : Database} {objects : ObjectStore}
    (inserted : insertUpload db (newDocument sha256 u o) (newJob u o) = .ok db')
    (answer : (uploadDocument sha256 u o db objects).2.1 ≠ db) :
    (uploadDocument sha256 u o db objects).2.2 (storageKey u.tenantId o.docId u.filename) =
      some ⟨u.content, contentTypeOf u.mimeType⟩ := by
  simp only [uploadDocument] at answer ⊢
  cases found : findExistingUpload db (contentHash sha256 u.content) u.idempotencyKey u.tenantId with
  | error e => simp [found] at answer
  | ok hit =>
    cases hit with
    | some hit => simp [found] at answer
    | none =>
      cases failed : o.uploadError with
      | some message => simp [found, failed] at answer
      | none =>
        simp only [inserted, ObjectStore.afterPut_none]
        exact if_pos rfl

/-! ## Steps -/

/-- What happens beside the documents and the chunks, if no object appears or changes. -/
theorem Provenance.beside (h : Provenance cfg s) {db : Database} {objects : ObjectStore}
    (keeps : ∀ d ∈ s.db.documents, ∃ q ∈ db.documents, SameFile d q)
    (from_ : ∀ q ∈ db.documents, ∃ d ∈ s.db.documents, SameFile d q) (chunks : db.chunks = s.db.chunks)
    (fewer : ∀ key object, objects key = some object → s.objects key = some object) :
    Provenance cfg { s with db := db, objects := objects } where
  filed q hq key object filed stored := by
    obtain ⟨d, hd, same⟩ := from_ q hq
    rw [same.contentHash]
    exact h.filed d hd key object (same.storageKey.symm.trans filed) (fewer key object stored)
  processed w c tx chunks hw := (h.processed w c tx chunks hw).same keeps
  storing w c tx hw := (h.storing w c tx hw).same keeps
  whole q hq := by
    obtain ⟨d, hd, same⟩ := from_ q hq
    have rows : chunksOf db q.id = chunksOf s.db d.id := by rw [chunksOf, chunks, same.id, chunksOf]
    exact rows ▸ (h.whole d hd).same same

/-- A statement that moves one worker. -/
theorem Provenance.setPhase (h : Provenance cfg s)
    (processed : ∀ c tx chunks, p = .processed c tx chunks → MadeFor cfg s.db c.documentId chunks)
    (storing : ∀ c tx, p = .storing c tx → MadeFor cfg s.db c.documentId (tx.chunks.map dataOf)) :
    Provenance cfg (s.setPhase w p) where
  filed := h.filed
  processed v c tx chunks hv := by
    by_cases own : v = w
    · subst own
      rw [setPhase_self] at hv
      exact processed c tx chunks hv
    · rw [setPhase_of_ne own] at hv
      exact h.processed v c tx chunks hv
  storing v c tx hv := by
    by_cases own : v = w
    · subst own
      rw [setPhase_self] at hv
      exact storing c tx hv
    · rw [setPhase_of_ne own] at hv
      exact h.storing v c tx hv
  whole := h.whole

theorem provenance_upload (h : Provenance cfg s) (sound : Sound s) (u : Upload) (o : Outside)
    (fresh : freshUpload s (.upload u o) = true) : Provenance cfg { s with
      db := (uploadDocument cfg.sha256 u o s.db s.objects).2.1
      objects := (uploadDocument cfg.sha256 u o s.db s.objects).2.2 } := by
  simp only [freshUpload, Bool.and_eq_true, Bool.or_eq_true, List.all_eq_true, decide_eq_true_eq] at fresh
  obtain ⟨fresh, uncut⟩ := fresh
  have objects : ∀ d ∈ s.db.documents, ∀ key, d.storageKey = some key →
      (uploadDocument cfg.sha256 u o s.db s.objects).2.2 key = s.objects key := by
    intro d hd key filed
    refine uploadDocument_elsewhere cfg.sha256 u o s.db s.objects ?_
    rintro rfl
    obtain ⟨filename, key⟩ := sound.stored.storageKey d hd
    exact fresh d hd (storageKey_ids (Option.some.inj (key.symm.trans filed))).2
  by_cases unchanged : (uploadDocument cfg.sha256 u o s.db s.objects).2.1 = s.db
  · rw [unchanged]
    refine ⟨fun d hd key object filed stored => ?_, h.processed, h.storing, h.whole⟩
    exact h.filed d hd key object filed ((objects d hd key filed).symm.trans stored)
  · rcases uploadDocument_db cfg.sha256 u o s.db s.objects with same | ⟨_, inserted⟩
    · exact absurd same unchanged
    · have filedNew := uploadDocument_filed inserted unchanged
      obtain ⟨_, grown⟩ := (insertUpload_ok_iff rfl rfl rfl).mp inserted
      have documents : (uploadDocument cfg.sha256 u o s.db s.objects).2.1.documents =
          s.db.documents ++ [(newDocument cfg.sha256 u o).row] := by rw [grown]
      have chunks : (uploadDocument cfg.sha256 u o s.db s.objects).2.1.chunks = s.db.chunks := by rw [grown]
      have keeps : ∀ d ∈ s.db.documents, ∃ q ∈ (uploadDocument cfg.sha256 u o s.db s.objects).2.1.documents,
          SameFile d q := fun d hd => ⟨d, documents ▸ List.mem_append_left _ hd, SameFile.refl d⟩
      refine ⟨fun d hd key object filed stored => ?_, fun w c tx chunks hw => (h.processed w c tx chunks hw).same keeps,
        fun w c tx hw => (h.storing w c tx hw).same keeps, fun d hd => ?_⟩
      · rw [documents] at hd
        rcases List.mem_append.mp hd with old | new
        · exact h.filed d old key object filed ((objects d old key filed).symm.trans stored)
        · obtain rfl := List.mem_singleton.mp new
          have row : varchar 500 (storageKey u.tenantId o.docId u.filename) = key := Option.some.inj filed
          by_cases whole : (storageKey u.tenantId o.docId u.filename).length ≤ 500
          · rw [varchar_of_length_le whole] at row
            subst row
            obtain rfl := Option.some.inj (filedNew.symm.trans stored)
            rfl
          · -- under the cut key nothing is stored
            have other : key ≠ storageKey u.tenantId o.docId u.filename := by
              rintro rfl
              exact whole (row ▸ length_varchar_le 500 _)
            have nothing : s.objects key = none := row ▸ Option.isNone_iff_eq_none.mp (uncut.resolve_left whole)
            have kept := uploadDocument_elsewhere cfg.sha256 u o s.db s.objects other
            cases nothing.symm.trans (kept.symm.trans stored)
      · have rows : ∀ id, chunksOf (uploadDocument cfg.sha256 u o s.db s.objects).2.1 id = chunksOf s.db id := by
          intro id
          rw [chunksOf, chunks, chunksOf]
        rw [documents] at hd
        rcases List.mem_append.mp hd with old | new
        · exact rows d.id ▸ h.whole d old
        · -- no chunk row refers to a document that was not there
          obtain rfl := List.mem_singleton.mp new
          refine ⟨[], ?_, fun batch mem => absurd mem List.not_mem_nil⟩
          show chunksOf _ o.docId = _
          rw [rows, chunksOf, List.filter_eq_nil_iff.mpr fun x hx => ?_]
          · rfl
          · obtain ⟨d, hd, link, _⟩ := sound.stored.docOfChunk x hx
            simpa [link] using fresh d hd

theorem provenance_softDelete (h : Provenance cfg s) (documentId tenantId : UUID) (now : Time)
    (deleteError : Option StorageFault) : Provenance cfg { s with
      db := (softDeleteDocument documentId tenantId now deleteError s.db s.objects).2.1
      objects := (softDeleteDocument documentId tenantId now deleteError s.db s.objects).2.2 } := by
  have fewer : ∀ key object, (softDeleteDocument documentId tenantId now deleteError s.db s.objects).2.2 key =
      some object → s.objects key = some object := by
    intro key object stored
    simp only [softDeleteDocument] at stored
    split at stored
    · exact stored
    · split at stored
      · exact stored
      · split at stored
        · exact stored
        · rename_i name _ _
          rcases s.objects.afterDelete_cases name deleteError with kept | removed
          · exact kept ▸ stored
          · rw [removed] at stored
            by_cases gone : key = name
            · have none_ : s.objects.delete name key = none := if_pos gone
              cases none_.symm.trans stored
            · have kept : s.objects.delete name key = s.objects key := if_neg gone
              exact kept.symm.trans stored
  rcases softDeleteDocument_db documentId tenantId now deleteError s.db s.objects with same | ⟨_, same⟩
  · rw [same]
    exact h.beside (fun d hd => ⟨d, hd, SameFile.refl d⟩) (fun d hd => ⟨d, hd, SameFile.refl d⟩) rfl fewer
  · rw [same]
    refine h.beside (fun d hd => ?_) (fun q hq => ?_) rfl fewer
    · exact ⟨deletedAs documentId now d, List.mem_map_of_mem hd, deletedAs_file documentId now d⟩
    · obtain ⟨d, hd, rfl⟩ := List.mem_map.mp hq
      exact ⟨d, hd, deletedAs_file documentId now d⟩

theorem provenance_moves (h : Provenance cfg s) (sound : Sound s) (m : Moves cfg s w e p)
    (notCommit : ∀ v, e ≠ .commit v) : Provenance cfg (s.setPhase w p) := by
  cases m with
  | processed c tx chunks hw run =>
    refine h.setPhase (fun c' tx' chunks' same => ?_) fun _ _ impossible => by cases impossible
    cases same
    have ok : PhaseOk s.db (.running c tx) := hw ▸ sound.phases w
    exact fetchAndProcess_made h (documents_eq_nil ok fun _ _ hp => hp) run
  | complete chunkId now c tx tx' chunks hw run =>
    refine h.setPhase (fun _ _ _ impossible => by cases impossible) fun c' tx'' same => ?_
    cases same
    have ok : PhaseOk s.db (.processed c tx chunks) := hw ▸ sound.phases w
    simp only [completeJob, Option.bind_eq_bind, Option.bind_eq_some_iff, Option.some.injEq] at run
    obtain ⟨_, _, _, _, rfl⟩ := run
    simp only [ok.chunks.1, List.nil_append, dataOf_chunkRows]
    exact h.processed w c tx chunks hw
  | commit _ _ => exact absurd rfl (notCommit w)
  | resetStale _ _ _ _ | claim _ _ _ | started _ _ _ _ _ | refused _ _ _ _ _ | broke _ _ _ _ _ | fail _ _ _ _ _ _
  | raise _ _ _ | drop _ _ | crash =>
    exact h.setPhase (fun _ _ _ impossible => by cases impossible) fun _ _ impossible => by cases impossible

/-- The rows that a commit adds to a document are none, or one output of the pipeline. -/
theorem added_cases (h : Provenance cfg s) (sound : Sound s) (m : Committed (s.phase w) p) (hd : d ∈ s.db.documents) :
    ((s.phase w).session.chunks.filter fun x => x.documentId = d.id) = [] ∨
      ((s.phase w).session.chunks.filter fun x => x.documentId = d.id) = (s.phase w).session.chunks ∧
        Made cfg d ((s.phase w).session.chunks.map dataOf) := by
  have chunks := (sound.phases w).chunks
  generalize hw : s.phase w = phase at m chunks
  cases m with
  | claim tx job =>
    have none_ : tx.chunks = [] := chunks
    exact Or.inl (by simp [Phase.session, none_])
  | fail c tx =>
    have none_ : tx.chunks = [] := chunks
    exact Or.inl (by simp [Phase.session, none_])
  | complete c tx =>
    obtain ⟨b, hb, link, made⟩ := h.storing w c tx hw
    by_cases own : d.id = c.documentId
    · obtain rfl := eq_of_key sound.stored.docIds hd hb (own.trans link.symm)
      refine Or.inr ⟨List.filter_eq_self.mpr fun x hx => ?_, made⟩
      simpa [own] using (chunks.2 x hx).1
    · refine Or.inl (List.filter_eq_nil_iff.mpr fun x hx => ?_)
      simpa [(chunks.2 x hx).1] using fun same => own (Eq.symm same)

theorem provenance_commit (h : Provenance cfg s) (sound : Sound s) (m : Committed (s.phase w) p) :
    Provenance cfg ({ s with db := (s.phase w).session.commit s.db }.setPhase w p) := by
  have documents : ((s.phase w).session.commit s.db).documents =
      s.db.documents.map (current Document.id (s.phase w).session.documents) := rfl
  have keeps : ∀ d ∈ s.db.documents, ∃ q ∈ ((s.phase w).session.commit s.db).documents, SameFile d q :=
    fun d hd => ⟨_, documents ▸ List.mem_map_of_mem hd, current_file sound hd⟩
  have idle : ∀ c tx chunks, p ≠ .processed c tx chunks ∧ p ≠ .storing c tx := by
    intro c tx chunks
    rcases m.after with rfl | ⟨_, rfl⟩ <;> simp
  refine Provenance.setPhase (s := { s with db := (s.phase w).session.commit s.db }) ?_
    (fun c tx chunks same => absurd same (idle c tx chunks).1) fun c tx same => absurd same (idle c tx []).2
  refine ⟨fun q hq key object filed stored => ?_, fun v c tx chunks hv => (h.processed v c tx chunks hv).same keeps,
    fun v c tx hv => (h.storing v c tx hv).same keeps, fun q hq => ?_⟩
  · obtain ⟨d, hd, rfl⟩ := List.mem_map.mp hq
    have same := current_file (w := w) sound hd
    rw [same.contentHash]
    exact h.filed d hd key object (same.storageKey.symm.trans filed) stored
  · obtain ⟨d, hd, rfl⟩ := List.mem_map.mp hq
    have same := current_file (w := w) sound hd
    show Whole cfg _ (chunksOf ((s.phase w).session.commit s.db) _)
    rw [chunksOf_commit, same.id]
    refine Whole.same same ?_
    rcases added_cases h sound m hd with none_ | ⟨all, made⟩
    · rw [none_, List.append_nil]
      exact h.whole d hd
    · rw [all]
      exact (h.whole d hd).snoc made

theorem provenance_step (h : Provenance cfg s) (sound : Sound s) (fresh : freshUpload s e = true)
    (hs : (machine cfg n).step s e = some t) : Provenance cfg t := by
  cases step_stepped cfg hs with
  | accounts users organizations orgMemberships ok =>
    exact h.beside (fun d hd => ⟨d, hd, SameFile.refl d⟩) (fun d hd => ⟨d, hd, SameFile.refl d⟩) rfl fun _ _ hk => hk
  | upload u o => exact provenance_upload h sound u o fresh
  | softDelete documentId tenantId now deleteError _ => exact provenance_softDelete h documentId tenantId now deleteError
  | moved e w p notCommit m => exact provenance_moves h sound m notCommit
  | commit w p m => exact provenance_commit h sound m

theorem provenance_start (cfg : Settings) (n : Nat) : Provenance cfg (World.start n) :=
  ⟨by simp [World.start, Database.empty], by simp [World.start], by simp [World.start],
    by simp [World.start, Database.empty]⟩

theorem provenance_run {es : List (Event n)} (run : (machine cfg n).run (World.start n) es = some s)
    (fresh : (machine cfg n).EveryStep (fun s e _ => freshUpload s e = true) (World.start n) es) :
    Sound s ∧ Provenance cfg s :=
  Machine.run_keeps (M := machine cfg n) (G := fun s e _ => freshUpload s e = true)
    (I := fun u => Sound u ∧ Provenance cfg u)
    (fun _ _ _ inv hs fresh => ⟨sound_step cfg inv.1 hs, provenance_step inv.2 inv.1 fresh hs⟩)
    ⟨sound_start n, provenance_start cfg n⟩ fresh run

/-- However uploads, deletions and workers overlap, crash or take over from each other, the chunk rows of a
document are whole outputs of the pipeline on bytes with the document's digest, and no other rows exist. -/
theorem chunks_of_content (cfg : Settings) (n : Nat) (es : List (Event n)) (s : World n)
    (run : (machine cfg n).run (World.start n) es = some s)
    (fresh : (machine cfg n).EveryStep (fun s e _ => freshUpload s e = true) (World.start n) es) :
    (∀ d ∈ s.db.documents, Whole cfg d (chunksOf s.db d.id)) ∧
      ∀ x ∈ s.db.chunks, ∃ d ∈ s.db.documents, x ∈ chunksOf s.db d.id := by
  obtain ⟨sound, provenance⟩ := provenance_run run fresh
  refine ⟨provenance.whole, fun x hx => ?_⟩
  obtain ⟨d, hd, link, _⟩ := sound.stored.docOfChunk x hx
  exact ⟨d, hd, List.mem_filter.mpr ⟨hx, by simpa using link.symm⟩⟩

end Worlds

def demoRun {n : Nat} (w : Fin n) : List (Event n) := Demo.setup ++ Demo.claims w 20 ++ Demo.ingests w 6 30

def demoEnd {n : Nat} (w : Fin n) : World n :=
  ((machine Demo.settings n).run (World.start n) (demoRun w)).getD (World.start n)

theorem chunks_of_content_demo :
    (∀ d ∈ (demoEnd (0 : Fin 2)).db.documents, Whole Demo.settings d (chunksOf (demoEnd (0 : Fin 2)).db d.id)) ∧
      ∀ x ∈ (demoEnd (0 : Fin 2)).db.chunks, ∃ d ∈ (demoEnd (0 : Fin 2)).db.documents,
        x ∈ chunksOf (demoEnd (0 : Fin 2)).db d.id := by
  obtain ⟨enabled, fresh⟩ : ((machine Demo.settings 2).run (World.start 2) (demoRun 0)).isSome = true ∧
      (machine Demo.settings 2).EveryStep (fun s e _ => freshUpload s e = true) (World.start 2) (demoRun 0) := by
    decide +kernel
  exact chunks_of_content Demo.settings 2 (demoRun 0) (demoEnd 0) (Machine.run_getD (World.start 2) enabled) fresh

end ChunkProvenance
