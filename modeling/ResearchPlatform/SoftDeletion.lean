import ResearchPlatform.FrontEnds
import Mathlib.Data.List.Find

/-!
# What a soft delete hides

Two states of the tables that differ only in soft-deleted documents and their
chunks. The listings, the routes and the sparse search answer the same in both.
Relevance grading looks chunks up by id and tenant alone, so it tells the states
apart wherever they differ in what it reads of a chunk of a deleted document. The
dense search reads the chunks through an index that holds those of deleted documents
too, and finds what the index passes on.
-/

namespace SoftDeletion

open Uuid Schema DocumentService RetrievalService EvaluationService FrontEnds

/-- The primary keys. -/
structure Keyed (db : Database) : Prop where
  docIds : (db.documents.map Document.id).Nodup
  chunkIds : (db.chunks.map Chunk.id).Nodup

/-- The chunk belongs to a soft-deleted document. -/
def ofDeleted (db : Database) (c : Chunk) : Bool :=
  db.documents.any fun d => d.id = c.documentId && d.deletedAt.isSome

/-- The tables without soft-deleted documents and their chunks. -/
def hideDeleted (db : Database) : Database :=
  { db with
    documents := db.documents.filter fun d => d.deletedAt.isNone
    chunks := db.chunks.filter fun c => !ofDeleted db c }

/-- Every read of the tenant answers the same on both. -/
structure ReadsAlike (hnsw : Hnsw) (tenantId : UUID) (a b : Database) : Prop where
  listDocuments : ∀ codec cursor limit,
    listDocuments codec tenantId cursor limit a = listDocuments codec tenantId cursor limit b
  getDocument : ∀ documentId, getDocument documentId tenantId a = getDocument documentId tenantId b
  /-- the route of `list_chunks` -/
  listChunks : ∀ cfg draw documentId cursor limit,
    httpAnswer cfg tenantId draw a (.listChunks documentId cursor limit) =
      httpAnswer cfg tenantId draw b (.listChunks documentId cursor limit)
  denseSearch : ∀ index query topK,
    denseSearchBy hnsw index query tenantId topK a = denseSearchBy hnsw index query tenantId topK b
  sparseSearch : ∀ index query topK,
    sparseSearch index query tenantId topK a = sparseSearch index query tenantId topK b
  evaluateRelevance : ∀ text gateway query chunkIds,
    evaluateRelevance text gateway query chunkIds tenantId a =
      evaluateRelevance text gateway query chunkIds tenantId b

/-- What the grading prompt shows of a chunk. -/
def shown (c : Chunk) : String := String.ofList (c.content.toList.take 2000)

/-- A soft-deleted document of the tables has this chunk of the tenant. -/
def HasDeletedChunk (tenantId : UUID) (db : Database) (chunkId : UUID) (text : String) : Prop :=
  ∃ c ∈ db.chunks, c.id = chunkId ∧ c.tenantId = tenantId ∧ ofDeleted db c = true ∧ shown c = text

section Reads
variable {tenantId : UUID} {db a b : Database}

/-! ## Reads that join or look at `deleted_at` -/

theorem documents_hide {p : Document → Bool} (live : ∀ d, p d = true → d.deletedAt.isNone = true) :
    (hideDeleted db).documents.filter p = db.documents.filter p := by
  rw [hideDeleted, List.filter_filter]
  refine List.filter_congr fun d _ => ?_
  cases hp : p d with
  | false => rfl
  | true => rw [live d hp, Bool.and_self]

theorem chunks_hide {p : Chunk → Bool}
    (live : ∀ c, p c = true → ofDeleted db c = false) :
    (hideDeleted db).chunks.filter p = db.chunks.filter p := by
  rw [hideDeleted, List.filter_filter]
  refine List.filter_congr fun c _ => ?_
  cases hp : p c with
  | false => rfl
  | true => rw [live c hp, Bool.not_false, Bool.and_self]

theorem listDocuments_hide (codec : CursorCodec) (cursor : Option String) (limit : Int) :
    listDocuments codec tenantId cursor limit (hideDeleted db) =
      listDocuments codec tenantId cursor limit db := by
  have rows : ∀ bound : Option Time, (hideDeleted db).documents.filter (fun d =>
      d.tenantId = tenantId && d.deletedAt.isNone && bound.all fun b => d.createdAt < b) =
        db.documents.filter fun d =>
          d.tenantId = tenantId && d.deletedAt.isNone && bound.all fun b => d.createdAt < b := by
    refine fun bound => documents_hide fun d hd => ?_
    simp only [Bool.and_eq_true] at hd
    exact hd.1.2
  simp only [listDocuments, rows]

theorem getDocument_hide (documentId : UUID) :
    getDocument documentId tenantId (hideDeleted db) = getDocument documentId tenantId db := by
  rw [getDocument, documents_hide]
  · rfl
  · intro d hd
    simp only [Bool.and_eq_true] at hd
    exact hd.2

theorem not_ofDeleted_of_live (h : Keyed db) {d : Document} (hd : d ∈ db.documents)
    (live : d.deletedAt = none) {c : Chunk} (link : c.documentId = d.id) :
    ofDeleted db c = false := by
  rw [ofDeleted, List.any_eq_false]
  intro x hx
  simp only [Bool.and_eq_true, decide_eq_true_eq, not_and]
  intro same
  have one : x = d := RowVersions.eq_of_key h.docIds hx hd (same.trans link)
  simp [one, live]

theorem flatMap_filter_of_nil {α β : Type*} {p : α → Bool} {f : α → List β} {rows : List α}
    (dropped : ∀ x ∈ rows, p x = false → f x = []) : (rows.filter p).flatMap f = rows.flatMap f := by
  induction rows with
  | nil => rfl
  | cons x rows ih =>
    have rest := ih fun y hy => dropped y (List.mem_cons_of_mem _ hy)
    cases hp : p x with
    | true => rw [List.filter_cons_of_pos hp, List.flatMap_cons, List.flatMap_cons, rest]
    | false =>
      rw [List.filter_cons_of_neg (by simp [hp]), List.flatMap_cons, rest,
        dropped x List.mem_cons_self hp, List.nil_append]

/-- The join drops what is hidden: a chunk of a deleted document finds no live parent. -/
theorem liveChunks_hide (h : Keyed db) :
    liveChunks tenantId (hideDeleted db) = liveChunks tenantId db := by
  have parents : ∀ c : Chunk, (hideDeleted db).documents.filter
      (fun d => d.id = c.documentId && d.deletedAt.isNone) =
        db.documents.filter fun d => d.id = c.documentId && d.deletedAt.isNone := by
    refine fun c => documents_hide fun d hd => ?_
    simp only [Bool.and_eq_true] at hd
    exact hd.2
  have chunks : (hideDeleted db).chunks.filter (fun c => c.tenantId = tenantId) =
      (db.chunks.filter fun c => c.tenantId = tenantId).filter fun c => !ofDeleted db c := by
    rw [hideDeleted, List.filter_filter, List.filter_filter]
    exact List.filter_congr fun c _ => Bool.and_comm _ _
  simp only [liveChunks, parents, chunks]
  refine flatMap_filter_of_nil fun c _ hidden => ?_
  rw [List.map_eq_nil_iff, List.filter_eq_nil_iff]
  intro d hd
  simp only [Bool.and_eq_true, decide_eq_true_eq, Option.isNone_iff_eq_none, not_and]
  intro link live
  rw [not_ofDeleted_of_live h hd live link.symm] at hidden
  cases hidden

theorem sparseSearch_hide (h : Keyed db) (index : SearchIndex) (query : String) (topK : Int) :
    sparseSearch index query tenantId topK (hideDeleted db) =
      sparseSearch index query tenantId topK db := by
  simp only [sparseSearch, sparseSql, liveChunks_hide h]

/-- The route asks for the document first, so its chunks are those of a live one. -/
theorem listChunks_hide (h : Keyed db) (cfg : Settings) (draw : Draw) (documentId : UUID)
    (cursor : Option String) (limit : Int) :
    httpAnswer cfg tenantId draw (hideDeleted db) (.listChunks documentId cursor limit) =
      httpAnswer cfg tenantId draw db (.listChunks documentId cursor limit) := by
  simp only [httpAnswer, getDocument_hide]
  cases hg : getDocument documentId tenantId db with
  | error e => rfl
  | ok d =>
    obtain ⟨hd, id, _, live⟩ := getDocument_spec hg
    have rows : ∀ bound : Option Int, (hideDeleted db).chunks.filter (fun c =>
        c.documentId = documentId && c.tenantId = tenantId &&
          bound.all fun b => b < (c.chunkIndex : Int)) =
        db.chunks.filter fun c => c.documentId = documentId && c.tenantId = tenantId &&
          bound.all fun b => b < (c.chunkIndex : Int) := by
      refine fun bound => chunks_hide fun c hc => ?_
      simp only [Bool.and_eq_true, decide_eq_true_eq] at hc
      exact not_ofDeleted_of_live h hd live (hc.1.1.trans id.symm)
    simp only [TenantPlane.answer, listChunks, rows]

/-! ## The index -/

/-- The live chunks of the tenant that the index passes on. -/
def livePassed (hnsw : Hnsw) (tenantId : UUID) (db : Database) (queryVec : Embedding) :
    List (Chunk × Document) := liveChunks tenantId (hnsw.passedOn queryVec db)

theorem of_mem_livePassed {hnsw : Hnsw} {queryVec : Embedding} {x : Chunk × Document}
    (mem : x ∈ livePassed hnsw tenantId db queryVec) :
    x.1 ∈ db.chunks ∧ x.2 ∈ db.documents ∧ x.2.id = x.1.documentId ∧ x.2.deletedAt = none := by
  obtain ⟨c, hc, hx⟩ := List.mem_flatMap.mp mem
  obtain ⟨d, hd, rfl⟩ := List.mem_map.mp hx
  obtain ⟨stored, link⟩ := List.mem_filter.mp hd
  simp only [Bool.and_eq_true, decide_eq_true_eq, Option.isNone_iff_eq_none] at link
  exact ⟨(hnsw.stored db.chunks queryVec).subset (List.mem_filter.mp hc).1, stored, link.1, link.2⟩

/-- A live row is in both states, where its id names it. -/
theorem live_row_unique (ka : Keyed a) (kb : Keyed b) (same : hideDeleted a = hideDeleted b)
    {hnsw : Hnsw} {queryVec : Embedding} {x y : Chunk × Document}
    (hx : x ∈ livePassed hnsw tenantId a queryVec) (hy : y ∈ livePassed hnsw tenantId b queryVec)
    (id : x.1.id = y.1.id) : x = y := by
  obtain ⟨chunk, doc, link, live⟩ := of_mem_livePassed hx
  obtain ⟨chunk', doc', link', -⟩ := of_mem_livePassed hy
  have shownChunk : x.1 ∈ (hideDeleted a).chunks :=
    List.mem_filter.mpr ⟨chunk, by rw [not_ofDeleted_of_live ka doc live link.symm]; rfl⟩
  have shownDoc : x.2 ∈ (hideDeleted a).documents := List.mem_filter.mpr ⟨doc, by rw [live]; rfl⟩
  rw [same] at shownChunk shownDoc
  have chunks : x.1 = y.1 := RowVersions.eq_of_key kb.chunkIds (List.mem_filter.mp shownChunk).1 chunk' id
  refine Prod.ext chunks (RowVersions.eq_of_key kb.docIds (List.mem_filter.mp shownDoc).1 doc' ?_)
  rw [link, link', chunks]

theorem eq_of_map_eq {α β : Type*} {f : α → β} {xs ys : List α}
    (injective : ∀ x ∈ xs, ∀ y ∈ ys, f x = f y → x = y) (same : xs.map f = ys.map f) : xs = ys := by
  induction xs generalizing ys with
  | nil => exact (List.map_eq_nil_iff.mp same.symm).symm
  | cons x xs ih =>
    cases ys with
    | nil => cases same
    | cons y ys =>
      obtain ⟨first, rest⟩ := List.cons.inj same
      rw [injective x List.mem_cons_self y List.mem_cons_self first,
        ih (fun x hx y hy => injective x (List.mem_cons_of_mem _ hx) y (List.mem_cons_of_mem _ hy)) rest]

/-- An embedder that knows one vector, and equal distances. -/
def blindIndex (queryVec : Embedding) : SearchIndex :=
  ⟨fun _ => .ok [queryVec], fun _ _ => 0, fun _ _ => false, fun _ _ => 0⟩

/-- With equal distances the search shows the live rows that the index passes on. -/
theorem denseSearchBy_blind (hnsw : Hnsw) (queryVec : Embedding) {topK : Nat}
    (enough : (livePassed hnsw tenantId db queryVec).length ≤ topK) :
    denseSearchBy hnsw (blindIndex queryVec) "" tenantId topK db =
      .ok ((livePassed hnsw tenantId db queryVec).map fun x =>
        rankedChunk (round6 (1 - 0)) (candidateRow 0 x.1 x.2)) := by
  have sorted : ((livePassed hnsw tenantId db queryVec).map fun x =>
      candidateRow 0 x.1 x.2).insertionSort (fun a b => a.score ≤ b.score) =
        (livePassed hnsw tenantId db queryVec).map fun x => candidateRow 0 x.1 x.2 := by
    refine List.Pairwise.insertionSort_eq (List.pairwise_map.mpr ?_)
    exact List.pairwise_of_forall fun _ _ => le_rfl
  have rows : denseSql (blindIndex queryVec) queryVec tenantId topK (hnsw.passedOn queryVec db) =
      .ok ((livePassed hnsw tenantId db queryVec).map fun x => candidateRow 0 x.1 x.2) := by
    rw [denseSql, sqlLimit, if_neg (by omega)]
    refine congrArg Except.ok ((congrArg (List.take _) sorted).trans (List.take_of_length_le ?_))
    simpa using enough
  show (denseSql (blindIndex queryVec) queryVec tenantId topK (hnsw.passedOn queryVec db)).map _ = _
  rw [rows, Except.map, List.map_map]
  rfl

theorem livePassed_of_search (ka : Keyed a) (kb : Keyed b) (same : hideDeleted a = hideDeleted b)
    {hnsw : Hnsw} (search : ∀ index query topK, denseSearchBy hnsw index query tenantId topK a =
      denseSearchBy hnsw index query tenantId topK b) (queryVec : Embedding) :
    livePassed hnsw tenantId a queryVec = livePassed hnsw tenantId b queryVec := by
  have shows := search (blindIndex queryVec) "" (((livePassed hnsw tenantId a queryVec).length +
    (livePassed hnsw tenantId b queryVec).length : Nat) : Int)
  rw [denseSearchBy_blind hnsw queryVec (Nat.le_add_right _ _),
    denseSearchBy_blind hnsw queryVec (Nat.le_add_left _ _), Except.ok.injEq] at shows
  exact eq_of_map_eq (fun x hx y hy rows => live_row_unique ka kb same hx hy
    (congrArg RankedChunk.chunkId rows)) shows

/-! ## Grading by chunk id -/

/-- The tenant's chunk with the id, as the grading prompt shows it. -/
def textOf (tenantId : UUID) (db : Database) (chunkId : UUID) : Option String :=
  ((db.chunks.filter fun c => c.tenantId = tenantId && c.id = chunkId).getLast?).map shown

theorem textOf_eq_some_iff (h : Keyed db) {chunkId : UUID} {t : String} :
    textOf tenantId db chunkId = some t ↔
      ∃ c ∈ db.chunks, c.id = chunkId ∧ c.tenantId = tenantId ∧ shown c = t := by
  constructor
  · intro ht
    obtain ⟨c, hc, same⟩ := Option.map_eq_some_iff.mp ht
    have row := List.mem_of_getLast? hc
    simp only [List.mem_filter, Bool.and_eq_true, decide_eq_true_eq] at row
    exact ⟨c, row.1, row.2.2, row.2.1, same⟩
  · rintro ⟨c, hc, rfl, rfl, rfl⟩
    rw [textOf, RowVersions.filter_eq_singleton (List.Nodup.of_map _ h.chunkIds) hc]
    · rfl
    · intro x hx
      simp only [Bool.and_eq_true, decide_eq_true_eq]
      constructor
      · exact fun same => RowVersions.eq_of_key h.chunkIds hx hc same.2
      · rintro rfl
        exact ⟨rfl, rfl⟩

def gradeText (text : TextMethods) (gateway : String → Except String String) (query : String)
    (chunkId : UUID) (content : String) : ChunkRelevance :=
  match gateway (gradingPrompt query content) with
  | .ok response => ⟨chunkId, (parseGrade text response).1, (parseGrade text response).2⟩
  | .error e => ⟨chunkId, .ambiguous, "Evaluation failed: " ++ e⟩

theorem chunkById_eq {chunkIds : List UUID} {chunkId : UUID} (requested : chunkId ∈ chunkIds) :
    chunkById (db.chunks.filter fun c => c.id ∈ chunkIds && c.tenantId = tenantId) chunkId =
      (db.chunks.filter fun c => c.tenantId = tenantId && c.id = chunkId).getLast? := by
  rw [chunkById, List.filter_filter]
  congr 1
  refine List.filter_congr fun c _ => ?_
  by_cases same : c.id = chunkId
  · simp [same, requested]
  · simp [same]

/-- Grading depends on the tables through the texts of the requested chunks only. -/
theorem evaluateRelevance_eq (text : TextMethods) (gateway : String → Except String String)
    (query : String) (chunkIds : List UUID) :
    evaluateRelevance text gateway query chunkIds tenantId db =
      match chunkIds.find? fun chunkId => (textOf tenantId db chunkId).isNone with
      | some chunkId => .error (.app (.notFoundError "Chunk" (str chunkId)))
      | none => .ok (chunkIds.filterMap fun chunkId =>
          (textOf tenantId db chunkId).map (gradeText text gateway query chunkId)) := by
  have grades : ∀ chunkId ∈ chunkIds,
      (chunkById (db.chunks.filter fun c => c.id ∈ chunkIds && c.tenantId = tenantId) chunkId).map
          (gradeChunk text gateway query) =
        (textOf tenantId db chunkId).map (gradeText text gateway query chunkId) := by
    intro chunkId requested
    rw [chunkById_eq requested, textOf, Option.map_map]
    refine Option.map_congr fun c hc => ?_
    have row := List.mem_of_getLast? hc
    simp only [List.mem_filter, Bool.and_eq_true, decide_eq_true_eq] at row
    rw [← row.2.2]
    rfl
  have missing : ∀ chunkId ∈ chunkIds,
      (chunkById (db.chunks.filter fun c => c.id ∈ chunkIds && c.tenantId = tenantId)
          chunkId).isNone = (textOf tenantId db chunkId).isNone := by
    intro chunkId requested
    rw [chunkById_eq requested, textOf, Option.isNone_map]
  simp only [evaluateRelevance]
  rw [List.find?_congr missing]
  cases chunkIds.find? fun chunkId => (textOf tenantId db chunkId).isNone with
  | some chunkId => rfl
  | none => exact congrArg Except.ok (List.filterMap_congr grades)

/-- A gateway that fails with its prompt gives the text away. -/
theorem textOf_of_evaluate {text : TextMethods} {query : String} {chunkId : UUID}
    (same : evaluateRelevance text .error query [chunkId] tenantId a =
      evaluateRelevance text .error query [chunkId] tenantId b) :
    textOf tenantId a chunkId = textOf tenantId b chunkId := by
  simp only [evaluateRelevance_eq] at same
  cases ha : textOf tenantId a chunkId with
  | none =>
    cases hb : textOf tenantId b chunkId with
    | none => rfl
    | some t => simp [ha, hb] at same
  | some t =>
    cases hb : textOf tenantId b chunkId with
    | none => simp [ha, hb] at same
    | some u =>
      simp [ha, hb, gradeText] at same
      rw [gradingPrompt_injective same]

/-! ## Two states -/

theorem textOf_of_hidden (ka : Keyed a) (kb : Keyed b) (same : hideDeleted a = hideDeleted b)
    {chunkId : UUID} {t : String}
    (deleted : HasDeletedChunk tenantId a chunkId t → HasDeletedChunk tenantId b chunkId t)
    (ht : textOf tenantId a chunkId = some t) : textOf tenantId b chunkId = some t := by
  obtain ⟨c, hc, id, tenant, text⟩ := (textOf_eq_some_iff ka).mp ht
  rw [textOf_eq_some_iff kb]
  cases hidden : ofDeleted a c with
  | true =>
    obtain ⟨x, hx, row, owner, _, shows⟩ := deleted ⟨c, hc, id, tenant, hidden, text⟩
    exact ⟨x, hx, row, owner, shows⟩
  | false =>
    have stays : c ∈ (hideDeleted a).chunks := List.mem_filter.mpr ⟨hc, by rw [hidden]; rfl⟩
    rw [same] at stays
    exact ⟨c, (List.mem_filter.mp stays).1, id, tenant, text⟩

theorem deleted_of_textOf (ka : Keyed a) (kb : Keyed b) (same : hideDeleted a = hideDeleted b)
    (texts : ∀ chunkId, textOf tenantId a chunkId = textOf tenantId b chunkId) {chunkId : UUID}
    {t : String} (deleted : HasDeletedChunk tenantId a chunkId t) :
    HasDeletedChunk tenantId b chunkId t := by
  obtain ⟨c, hc, id, tenant, hidden, text⟩ := deleted
  have shows := (textOf_eq_some_iff ka).mpr ⟨c, hc, id, tenant, text⟩
  rw [texts, textOf_eq_some_iff kb] at shows
  obtain ⟨x, hx, row, owner, text'⟩ := shows
  refine ⟨x, hx, row, owner, ?_, text'⟩
  by_contra live
  -- a chunk that `b` shows is in `a` as well, where the id is taken by a hidden one
  have stays : x ∈ (hideDeleted b).chunks := List.mem_filter.mpr ⟨hx, by simpa using live⟩
  rw [← same] at stays
  obtain ⟨old, visible⟩ := List.mem_filter.mp stays
  have one : x = c := RowVersions.eq_of_key ka.chunkIds old hc (row.trans id.symm)
  rw [one, hidden] at visible
  cases visible

/-- Reads tell two states with the same live rows apart exactly if the tenant's chunks of
deleted documents differ by an id or by what a grading prompt shows, or the index passes other
live chunks on. -/
theorem reads_alike_iff (hnsw : Hnsw) (tenantId : UUID) (a b : Database) (ka : Keyed a) (kb : Keyed b)
    (same : hideDeleted a = hideDeleted b) :
    ReadsAlike hnsw tenantId a b ↔
      (∀ chunkId text, HasDeletedChunk tenantId a chunkId text ↔ HasDeletedChunk tenantId b chunkId text) ∧
        ∀ queryVec, livePassed hnsw tenantId a queryVec = livePassed hnsw tenantId b queryVec := by
  constructor
  · intro alike
    have texts : ∀ chunkId, textOf tenantId a chunkId = textOf tenantId b chunkId := fun x =>
      textOf_of_evaluate (alike.evaluateRelevance ⟨id, id, id⟩ .error "" [x])
    refine ⟨fun chunkId text => ⟨?_, ?_⟩, livePassed_of_search ka kb same alike.denseSearch⟩
    · exact deleted_of_textOf ka kb same texts
    · exact deleted_of_textOf kb ka same.symm fun x => (texts x).symm
  · rintro ⟨deleted, passed⟩
    have texts : ∀ chunkId, textOf tenantId a chunkId = textOf tenantId b chunkId := by
      intro chunkId
      refine Option.ext fun t => ?_
      constructor
      · exact textOf_of_hidden ka kb same (deleted chunkId t).mp
      · exact textOf_of_hidden kb ka same.symm (deleted chunkId t).mpr
    refine ⟨fun codec cursor limit => ?_, fun documentId => ?_,
      fun cfg draw documentId cursor limit => ?_, fun index query topK => ?_,
      fun index query topK => ?_, fun text gateway query chunkIds => ?_⟩
    · rw [← listDocuments_hide, same, listDocuments_hide]
    · rw [← getDocument_hide, same, getDocument_hide]
    · rw [← listChunks_hide ka, same, listChunks_hide kb]
    · have live : ∀ queryVec, liveChunks tenantId (hnsw.passedOn queryVec a) =
          liveChunks tenantId (hnsw.passedOn queryVec b) := passed
      simp only [denseSearchBy, denseSql, live]
    · rw [← sparseSearch_hide ka, same, sparseSearch_hide kb]
    · simp only [evaluateRelevance_eq, texts]

end Reads

namespace Demo

def document (id : UUID) (deletedAt : Option Time) : Document :=
  ⟨id, 1, 2, "a.txt", "h", 5, none, none, .ready, 1, none, 10, 20, deletedAt⟩

def chunk (id documentId : UUID) (embedding : Embedding) : Chunk :=
  ⟨id, documentId, 1, 2, "hello", none, 0, embedding, 20⟩

/-- A live document and the chunk of a deleted one. -/
def before (embedding : Embedding) : Database :=
  { Database.empty with
    documents := [document 4 none, document 5 (some 30)]
    chunks := [chunk 6 4 [1], chunk 7 5 embedding] }

/-- The same without the deleted document. -/
def purged : Database :=
  { Database.empty with documents := [document 4 none], chunks := [chunk 6 4 [1]] }

theorem keyed (embedding : Embedding) : Keyed (before embedding) :=
  ⟨by simp [before, document], by simp [before, chunk]⟩

end Demo

/-- The states differ in the embedding of the deleted chunk only. -/
theorem reads_alike_demo : ReadsAlike exactHnsw 2 (Demo.before [0]) (Demo.before [1]) := by
  refine (reads_alike_iff exactHnsw 2 (Demo.before [0]) (Demo.before [1]) (Demo.keyed [0]) (Demo.keyed [1])
    (by decide +kernel)).mpr ⟨fun chunkId text => ?_, fun queryVec => ?_⟩
  · simp [HasDeletedChunk, Demo.before, Demo.chunk, Demo.document, ofDeleted, shown]
  · have live : liveChunks 2 (Demo.before [0]) = liveChunks 2 (Demo.before [1]) := by decide +kernel
    exact live

/-- Grading tells whether a deleted document has been purged. -/
theorem grading_shows_deleted :
    Keyed (Demo.before [0]) ∧ Keyed Demo.purged ∧
      hideDeleted (Demo.before [0]) = hideDeleted Demo.purged ∧
      ¬ ReadsAlike exactHnsw 2 (Demo.before [0]) Demo.purged := by
  refine ⟨Demo.keyed [0], ⟨by decide +kernel, by decide +kernel⟩, by decide +kernel, ?_⟩
  intro alike
  have same := alike.evaluateRelevance ⟨id, id, id⟩ .error "" [7]
  revert same
  decide +kernel

end SoftDeletion
