import ResearchPlatform.Cursors
import ResearchPlatform.JobService
import ResearchPlatform.Library.KeysetPages

/-!
# Walks through the listings

A client starts without a cursor and sends each page's `next_cursor` back until there
is none. The listings of documents and of jobs share one shape: rows below the
cursor's time, the newest first, one more than the page has. The listing of chunks has
it too, over the indices in reverse.
-/

namespace Pagination

open Uuid Schema DocumentService JobService Cursors KeysetPages Json

variable {α : Type}

/-- The pages from a cursor on, up to the one without a `next_cursor`, and their items
one behind the other. -/
inductive Walk (list : Option String → Except Failure (List α × Option String)) :
    Option String → List α → Prop
  | last {cursor : Option String} {items : List α} (page : list cursor = .ok (items, none)) :
      Walk list cursor items
  | next {cursor : Option String} {items rest : List α} {nextCursor : String}
      (page : list cursor = .ok (items, some nextCursor)) (more : Walk list (some nextCursor) rest) :
      Walk list cursor (items ++ rest)

/-- The cursors of the time-ordered listings read back as the times that they were made of. -/
structure RoundTrips (codec : CursorCodec) : Prop where
  decodes : ∀ t, codec.createdAt (codec.encodeCreatedAt t) = .ok t
  nonempty : ∀ t, codec.encodeCreatedAt t ≠ ""

/-- The body of `list_documents` and `list_jobs`, over the rows of the tenant. -/
def listing (codec : CursorCodec) (createdAt : α → Time) (limit : Int) (rows : List α)
    (cursor : Option String) : Except Failure (List α × Option String) := do
  let bound ← cursorBound codec.createdAt cursor
  let found ← sqlLimit (limit + 1) (orderByDesc createdAt (rows.filter fun x =>
    bound.all fun b => createdAt x < b))
  page limit (fun last => codec.encodeCreatedAt (createdAt last)) found

/-- The documents that `list_documents` reads for a tenant. -/
def liveDocuments (tenantId : UUID) (db : Database) : List Document :=
  db.documents.filter fun d => d.tenantId = tenantId && d.deletedAt.isNone

def tenantJobs (tenantId : UUID) (db : Database) : List IngestionJob :=
  db.ingestionJobs.filter fun j => j.tenantId = tenantId

section Listings
variable {codec : CursorCodec} {tenantId : UUID} {limit : Int} {db : Database}

theorem listDocuments_eq_listing (cursor : Option String) :
    listDocuments codec tenantId cursor limit db =
      listing codec Document.createdAt limit (liveDocuments tenantId db) cursor := by
  simp only [listDocuments, listing, liveDocuments, List.filter_filter]
  congr
  funext bound
  congr
  funext d
  rw [Bool.and_comm]

theorem listJobs_eq_listing (cursor : Option String) :
    listJobs codec tenantId cursor limit db =
      listing codec IngestionJob.createdAt limit (tenantJobs tenantId db) cursor := by
  simp only [listJobs, listing, tenantJobs, List.filter_filter]
  congr
  funext bound
  congr
  funext j
  rw [Bool.and_comm]

end Listings

/-! ## Listings by a key -/

section Keysets
variable {K : Type} [LinearOrder K] {decode : String → Except Failure K} {key : α → K}
  {order : List α → List α} {encode : α → String} {limit : Int} {rows : List α}

/-- The rows from a bound on, in order. -/
def beyond (key : α → K) (order : List α → List α) (rows : List α) (bound : Option K) : List α :=
  order (rows.filter fun x => bound.all fun b => key x < b)

/-- The shape of every listing: the cursor carries a key, and its page continues below it. -/
def keysetListing (decode : String → Except Failure K) (key : α → K) (order : List α → List α)
    (encode : α → String) (limit : Int) (rows : List α) (cursor : Option String) :
    Except Failure (List α × Option String) := do
  let bound ← cursorBound decode cursor
  let found ← sqlLimit (limit + 1) (beyond key order rows bound)
  page limit encode found

/-- The cursor of a row reads back as its key. -/
structure ReadsBack (decode : String → Except Failure K) (key : α → K) (encode : α → String)
    (rows : List α) : Prop where
  decodes : ∀ x ∈ rows, decode (encode x) = .ok (key x)
  nonempty : ∀ x ∈ rows, encode x ≠ ""

theorem keysetListing_of_bound {cursor : Option String} {bound : Option K}
    (h : cursorBound decode cursor = .ok bound) :
    keysetListing decode key order encode limit rows cursor =
      (sqlLimit (limit + 1) (beyond key order rows bound) >>= page limit encode) := by
  simp only [keysetListing, h]
  rfl

variable (encode) in
/-- One call: either the rows fit on the page, or there is a next one. -/
theorem keysetListing_cases (positive : 1 ≤ limit) {cursor : Option String} {bound : Option K}
    (h : cursorBound decode cursor = .ok bound) :
    let found := beyond key order rows bound
    (found.length ≤ limit.toNat ∧
      keysetListing decode key order encode limit rows cursor = .ok (found, none)) ∨
    ∃ b ∈ (found.take limit.toNat).getLast?, limit.toNat < found.length ∧
      keysetListing decode key order encode limit rows cursor =
        .ok (found.take limit.toNat, some (encode b)) := by
  intro found
  have count : (limit + 1).toNat = limit.toNat + 1 := by omega
  have read : keysetListing decode key order encode limit rows cursor =
      page limit encode (found.take (limit.toNat + 1)) := by
    rw [keysetListing_of_bound h, sqlLimit, if_neg (by omega), count]
    rfl
  rcases Nat.lt_or_ge limit.toNat found.length with more | fits
  · obtain ⟨b, last⟩ := exists_bound (show 0 < limit.toNat by omega) more
    refine Or.inr ⟨b, last, more, ?_⟩
    have longer : limit < ((found.take (limit.toNat + 1)).length : Int) := by
      rw [List.length_take]
      omega
    have first : pySlice limit (found.take (limit.toNat + 1)) = found.take limit.toNat := by
      rw [pySlice, if_neg (by omega), List.take_take, min_eq_left (Nat.le_succ _)]
    rw [read, page, if_pos longer, first]
    simp only [Option.mem_def.mp last]
  · refine Or.inl ⟨fits, ?_⟩
    rw [read, List.take_of_length_le (by omega), page, if_neg (by omega)]

theorem keysetListing_bounded (positive : 1 ≤ limit) {cursor : Option String} {bound : Option K}
    (h : cursorBound decode cursor = .ok bound) :
    ∃ items nextCursor, keysetListing decode key order encode limit rows cursor =
        .ok (items, nextCursor) ∧
      items.length ≤ limit.toNat ∧ (nextCursor ≠ none → items ≠ []) := by
  rcases keysetListing_cases encode positive h with ⟨fits, only⟩ | ⟨b, last, more, cut⟩
  · exact ⟨_, _, only, fits, fun follows => absurd rfl follows⟩
  · refine ⟨_, _, cut, List.length_take_le _ _, fun _ => ?_⟩
    exact List.ne_nil_of_mem (List.mem_of_getLast? last)

/-! Limits that no page has. -/

theorem keysetListing_negative (negative : limit < -1) {cursor : Option String} {bound : Option K}
    (h : cursorBound decode cursor = .ok bound) :
    keysetListing decode key order encode limit rows cursor =
      .error (.dataError "LIMIT must not be negative") := by
  rw [keysetListing_of_bound h, sqlLimit, if_pos (by omega)]
  rfl

/-- An empty result is longer than the page, and has no last row. -/
theorem keysetListing_minus_one {cursor : Option String} {bound : Option K}
    (h : cursorBound decode cursor = .ok bound) :
    keysetListing decode key order encode (-1) rows cursor = .error .indexError := by
  rw [keysetListing_of_bound h]
  rfl

theorem keysetListing_zero {cursor : Option String} {bound : Option K}
    (h : cursorBound decode cursor = .ok bound) :
    keysetListing decode key order encode 0 rows cursor =
      if beyond key order rows bound = [] then .ok ([], none) else .error .indexError := by
  rw [keysetListing_of_bound h]
  cases beyond key order rows bound with
  | nil => rfl
  | cons x rest => rfl

/-- What a listing comes to by its limit. -/
theorem keysetListing_by_limit (encode : α → String) (limit : Int) {cursor : Option String}
    {bound : Option K} (h : cursorBound decode cursor = .ok bound) :
    (1 ≤ limit ∧ ∃ items nextCursor, keysetListing decode key order encode limit rows cursor =
        .ok (items, nextCursor) ∧ items.length ≤ limit.toNat ∧ (nextCursor ≠ none → items ≠ [])) ∨
      (limit = 0 ∧ beyond key order rows bound = [] ∧
        keysetListing decode key order encode limit rows cursor = .ok ([], none)) ∨
      ((limit = -1 ∨ limit = 0 ∧ beyond key order rows bound ≠ []) ∧
        keysetListing decode key order encode limit rows cursor = .error .indexError) ∨
      (limit < -1 ∧ keysetListing decode key order encode limit rows cursor =
        .error (.dataError "LIMIT must not be negative")) := by
  by_cases positive : 1 ≤ limit
  · exact Or.inl ⟨positive, keysetListing_bounded positive h⟩
  rcases lt_trichotomy limit (-1) with negative | rfl | above
  · exact Or.inr (Or.inr (Or.inr ⟨negative, keysetListing_negative negative h⟩))
  · exact Or.inr (Or.inr (Or.inl ⟨Or.inl rfl, keysetListing_minus_one h⟩))
  · obtain rfl : limit = 0 := by omega
    by_cases none_ : beyond key order rows bound = []
    · exact Or.inr (Or.inl ⟨rfl, none_, (keysetListing_zero h).trans (if_pos none_)⟩)
    · exact Or.inr (Or.inr (Or.inl ⟨Or.inr ⟨rfl, none_⟩, (keysetListing_zero h).trans (if_neg none_)⟩))

omit [LinearOrder K] in
theorem ReadsBack.cursorBound (readsBack : ReadsBack decode key encode rows) {b : α} (mem : b ∈ rows) :
    cursorBound decode (some (encode b)) = .ok (some (key b)) := by
  rw [DocumentService.cursorBound, if_neg (readsBack.nonempty b mem), readsBack.decodes b mem]
  rfl

/-- The rows below a row of the page are below the bound of the page. -/
theorem filter_below {bound : Option K} {b : α}
    (mem : b ∈ rows.filter fun x => bound.all fun t => key x < t) :
    (rows.filter fun x => bound.all fun t => key x < t).filter (fun x => key x < key b) =
      rows.filter fun x => (some (key b)).all fun t => key x < t := by
  have low := (List.mem_filter.mp mem).2
  rw [List.filter_filter]
  refine List.filter_congr fun x _ => ?_
  cases bound with
  | none => simp
  | some t =>
    simp only [Option.all_some, decide_eq_true_eq] at low ⊢
    by_cases below : key x < key b
    · simp [below, below.trans low]
    · simp [below]

theorem walk_of_pages (sorts : Sorts key order) (readsBack : ReadsBack decode key encode rows)
    (positive : 1 ≤ limit) {items left : List α} (pages : Pages key order limit.toNat left items)
    {cursor : Option String} {bound : Option K} (h : cursorBound decode cursor = .ok bound)
    (below : left = rows.filter fun x => bound.all fun t => key x < t) :
    Walk (keysetListing decode key order encode limit rows) cursor items := by
  induction pages generalizing cursor bound with
  | last fits =>
    subst below
    rcases keysetListing_cases encode positive h with ⟨-, only⟩ | ⟨b, -, more, -⟩
    · exact .last only
    · exact absurd more (Nat.not_lt.mpr fits)
  | @next left items b more last rest ih =>
    subst below
    have mem := sorts.mem_of_bound last
    rcases keysetListing_cases encode positive h with ⟨fits, -⟩ | ⟨c, last', -, cut⟩
    · exact absurd more (Nat.not_lt.mpr fits)
    · obtain rfl : b = c := Option.mem_unique last last'
      exact .next cut (ih (readsBack.cursorBound (List.mem_filter.mp mem).1) (filter_below mem))

theorem pages_of_walk (sorts : Sorts key order) (readsBack : ReadsBack decode key encode rows)
    (positive : 1 ≤ limit) {items : List α} {cursor : Option String}
    (walk : Walk (keysetListing decode key order encode limit rows) cursor items) {bound : Option K}
    (h : cursorBound decode cursor = .ok bound) :
    Pages key order limit.toNat (rows.filter fun x => bound.all fun t => key x < t) items := by
  induction walk generalizing bound with
  | last page =>
    rcases keysetListing_cases encode positive h with ⟨fits, only⟩ | ⟨b, last, more, cut⟩
    · cases only.symm.trans page
      exact .last fits
    · cases cut.symm.trans page
  | next page rest ih =>
    rcases keysetListing_cases encode positive h with ⟨fits, only⟩ | ⟨b, last, more, cut⟩
    · cases only.symm.trans page
    · cases cut.symm.trans page
      have mem := sorts.mem_of_bound last
      have later := ih (readsBack.cursorBound (List.mem_filter.mp mem).1)
      rw [← filter_below mem] at later
      exact .next more last later

/-- What the walk through a listing yields, and whether that is every row. -/
theorem walk_iff (sorts : Sorts key order) (readsBack : ReadsBack decode key encode rows)
    (positive : 1 ≤ limit) :
    (∃ items, Walk (keysetListing decode key order encode limit rows) none items ∧
        items.Perm rows ∧ items.Pairwise fun x y => key y ≤ key x) ↔
      TieFree limit.toNat ((order rows).map key) := by
  have start : cursorBound decode none = .ok none := rfl
  have all : (rows.filter fun x => (none : Option K).all fun t => key x < t) = rows := by simp
  constructor
  · rintro ⟨items, walk, once, -⟩
    have pages := pages_of_walk sorts readsBack positive walk start
    rw [all] at pages
    exact (pages.perm_iff sorts (by omega)).mp once
  · intro free
    obtain ⟨items, pages⟩ := sorts.exists_pages (show 0 < limit.toNat by omega) rows
    exact ⟨items, walk_of_pages sorts readsBack positive pages start all.symm,
      (pages.perm_iff sorts (by omega)).mpr free, pages.falling sorts⟩

end Keysets

/-! ## Walks through documents and jobs -/

section Walks
variable {codec : CursorCodec} {createdAt : α → Time} {limit : Int} {rows : List α}

theorem sorts_orderByDesc (column : α → Time) : Sorts column (orderByDesc column) where
  perm rows := List.perm_insertionSort _ rows
  falling rows := by
    have : Std.Total fun a b => column b ≤ column a := ⟨fun a b => le_total _ _⟩
    have : IsTrans α fun a b => column b ≤ column a := ⟨fun a b c h h' => h'.trans h⟩
    exact List.pairwise_insertionSort _ rows

theorem listing_eq_keysetListing : listing codec createdAt limit rows =
    keysetListing codec.createdAt createdAt (orderByDesc createdAt)
      (fun last => codec.encodeCreatedAt (createdAt last)) limit rows := rfl

theorem RoundTrips.readsBack (roundTrips : RoundTrips codec) :
    ReadsBack codec.createdAt createdAt (fun last => codec.encodeCreatedAt (createdAt last)) rows where
  decodes x _ := roundTrips.decodes (createdAt x)
  nonempty x _ := roundTrips.nonempty (createdAt x)

/-- The walk ends, with every row once and the newest first. -/
def VisitsAll (list : Option String → Except Failure (List α × Option String)) (createdAt : α → Time)
    (rows : List α) : Prop :=
  ∃ items, Walk list none items ∧ items.Perm rows ∧
    items.Pairwise fun x y => createdAt y ≤ createdAt x

/-- The times of rows in the order in which they are listed. -/
def listedTimes (createdAt : α → Time) (rows : List α) : List Time :=
  (orderByDesc createdAt rows).map createdAt

theorem visitsAll_iff (roundTrips : RoundTrips codec) (positive : 1 ≤ limit) :
    VisitsAll (listing codec createdAt limit rows) createdAt rows ↔
      TieFree limit.toNat (listedTimes createdAt rows) := by
  rw [listing_eq_keysetListing]
  exact walk_iff (sorts_orderByDesc createdAt) roundTrips.readsBack positive

end Walks

theorem roundTrips_cursorCodec {compared : Text → Except Failure Time} (denotes : Denotes compared) :
    RoundTrips (cursorCodec compared) where
  decodes := createdAt_encodeCreatedAt denotes
  nonempty _ := encodeCursor_ne_empty _

/-- A walk through the documents, or the jobs, of a tenant ends with each of them visited
once exactly when no page ends between two rows of one time. -/
theorem walks_visit_all {compared : Text → Except Failure Time} (denotes : Denotes compared)
    (tenantId : UUID) {limit : Int} (positive : 1 ≤ limit) (db : Database) :
    (VisitsAll (fun cursor => listDocuments (cursorCodec compared) tenantId cursor limit db)
        Document.createdAt (liveDocuments tenantId db) ↔
      TieFree limit.toNat (listedTimes Document.createdAt (liveDocuments tenantId db))) ∧
    (VisitsAll (fun cursor => listJobs (cursorCodec compared) tenantId cursor limit db)
        IngestionJob.createdAt (tenantJobs tenantId db) ↔
      TieFree limit.toNat (listedTimes IngestionJob.createdAt (tenantJobs tenantId db))) := by
  simp only [listDocuments_eq_listing, listJobs_eq_listing]
  exact ⟨visitsAll_iff (roundTrips_cursorCodec denotes) positive,
    visitsAll_iff (roundTrips_cursorCodec denotes) positive⟩

namespace Demo

/-- A text as the instant that it denotes. -/
def timestamptz (s : Text) : Except Failure Time :=
  match Calendar.ofIsoformat (s.map Char.ofNat) with
  | some t => .ok t
  | none => .error (.dataError "created_at")

theorem denotes_timestamptz : Denotes timestamptz := by
  intro t
  have chars : (codePoints (isoformat t)).map Char.ofNat = Calendar.isoformat t := by
    rw [isoformat, codePoints, String.toList_ofList, List.map_map]
    exact (List.map_congr_left fun c _ => Char.ofNat_toNat c).trans (List.map_id _)
  rw [timestamptz, chars, Calendar.ofIsoformat_isoformat]

def document (id : UUID) (createdAt : Time) : Document :=
  ⟨id, 1, 2, "notes.txt", "c0ffee", 4, none, none, .ready, 0, none, createdAt, createdAt, none⟩

/-- Two documents, the newer one first. -/
def apart : Database :=
  { Database.empty with documents := [document 11 600000, document 12 500000] }

/-- Two documents of one time. -/
def together : Database :=
  { Database.empty with documents := [document 11 500000, document 12 500000] }

end Demo

theorem walks_visit_two_documents :
    (VisitsAll (fun cursor => listDocuments (cursorCodec Demo.timestamptz) 2 cursor 1 Demo.apart)
        Document.createdAt (liveDocuments 2 Demo.apart) ↔
      TieFree 1 (listedTimes Document.createdAt (liveDocuments 2 Demo.apart))) ∧
    (VisitsAll (fun cursor => listJobs (cursorCodec Demo.timestamptz) 2 cursor 1 Demo.apart)
        IngestionJob.createdAt (tenantJobs 2 Demo.apart) ↔
      TieFree 1 (listedTimes IngestionJob.createdAt (tenantJobs 2 Demo.apart))) :=
  walks_visit_all Demo.denotes_timestamptz 2 (show (1 : Int) ≤ 1 by decide) Demo.apart

/-- The second of two documents of one time is on no page. -/
theorem walk_misses_document :
    ¬ VisitsAll (fun cursor => listDocuments (cursorCodec Demo.timestamptz) 2 cursor 1 Demo.together)
      Document.createdAt (liveDocuments 2 Demo.together) := by
  simp only [listDocuments_eq_listing]
  rw [visitsAll_iff (roundTrips_cursorCodec Demo.denotes_timestamptz) (show (1 : Int) ≤ 1 by decide)]
  exact fun free => free 1 Nat.one_pos (by decide) (by decide)

/-! ## Walks through the chunks of a document -/

section Chunks
variable {codec : CursorCodec} {documentId tenantId : UUID} {limit : Int} {db : Database}

/-- The chunks of a document of the tenant. -/
def documentChunks (documentId tenantId : UUID) (db : Database) : List Chunk :=
  db.chunks.filter fun c => c.documentId = documentId && c.tenantId = tenantId

/-- The listing goes up, so the key is turned around. -/
def chunkKey (c : Chunk) : Intᵒᵈ := OrderDual.toDual (c.chunkIndex : Int)

theorem sorts_orderByAsc : Sorts chunkKey (orderByAsc Chunk.chunkIndex) where
  perm rows := List.perm_insertionSort _ rows
  falling rows := by
    have : Std.Total fun a b : Chunk => a.chunkIndex ≤ b.chunkIndex := ⟨fun a b => le_total _ _⟩
    have : IsTrans Chunk fun a b => a.chunkIndex ≤ b.chunkIndex := ⟨fun a b c h h' => h.trans h'⟩
    refine (List.pairwise_insertionSort (fun a b : Chunk => a.chunkIndex ≤ b.chunkIndex) rows).imp ?_
    exact fun rising => OrderDual.toDual_le_toDual.mpr (Int.ofNat_le.mpr rising)

theorem listChunks_eq_keysetListing (cursor : Option String) :
    listChunks codec documentId tenantId cursor limit db =
      keysetListing (K := Intᵒᵈ) codec.chunkIndex chunkKey (orderByAsc Chunk.chunkIndex)
        (fun last => codec.encodeChunkIndex last.chunkIndex) limit
        (documentChunks documentId tenantId db) cursor := by
  simp only [listChunks, keysetListing, beyond, documentChunks, List.filter_filter]
  congr
  funext bound
  congr
  funext c
  rw [Bool.and_comm]
  rfl

/-- The cursor of a chunk reads back as its index. -/
def IndexReadsBack (codec : CursorCodec) (chunks : List Chunk) : Prop :=
  ∀ c ∈ chunks, codec.chunkIndex (codec.encodeChunkIndex c.chunkIndex) = .ok (c.chunkIndex : Int) ∧
    codec.encodeChunkIndex c.chunkIndex ≠ ""

/-- A walk through the chunks of a document ends with each of them visited once, in
rising order. -/
theorem chunk_walk_visits_all (positive : 1 ≤ limit)
    (distinct : ((documentChunks documentId tenantId db).map Chunk.chunkIndex).Nodup)
    (readsBack : IndexReadsBack codec (documentChunks documentId tenantId db)) :
    ∃ items, Walk (fun cursor => listChunks codec documentId tenantId cursor limit db) none items ∧
      items.Perm (documentChunks documentId tenantId db) ∧
      items.Pairwise fun x y => x.chunkIndex < y.chunkIndex := by
  have keys : ∀ {xs : List Chunk}, (xs.map Chunk.chunkIndex).Nodup → (xs.map chunkKey).Nodup := by
    intro xs indices
    refine List.Nodup.of_map (fun k : Intᵒᵈ => (OrderDual.ofDual k).toNat) ?_
    rwa [List.map_map]
  have free : TieFree limit.toNat ((orderByAsc Chunk.chunkIndex
      (documentChunks documentId tenantId db)).map chunkKey) :=
    tieFree_of_nodup (by omega) (keys (((sorts_orderByAsc.perm _).map _).nodup_iff.mpr distinct))
  obtain ⟨items, walk, once, falling⟩ := (walk_iff sorts_orderByAsc
    ⟨fun x mem => (readsBack x mem).1, fun x mem => (readsBack x mem).2⟩ positive).mpr free
  have apart : items.Pairwise fun x y => chunkKey x ≠ chunkKey y :=
    List.pairwise_map.mp (keys ((once.map _).nodup_iff.mpr distinct))
  simp only [listChunks_eq_keysetListing]
  refine ⟨items, walk, once, falling.imp₂ ?_ apart⟩
  intro x y rising differ
  have strict : chunkKey y < chunkKey x := lt_of_le_of_ne rising (Ne.symm differ)
  exact Int.ofNat_lt.mp (OrderDual.toDual_lt_toDual.mp strict)

end Chunks

theorem indexReadsBack_cursorCodec (compared : Text → Except Failure Time) {chunks : List Chunk}
    (fits : ∀ c ∈ chunks, c.chunkIndex < 2 ^ 31) : IndexReadsBack (cursorCodec compared) chunks :=
  fun c mem => ⟨chunkIndex_encodeChunkIndex compared (fits c mem), encodeCursor_ne_empty _⟩

namespace Demo

def chunk (id : UUID) (chunkIndex : Nat) : Chunk :=
  ⟨id, 11, 1, 2, "notes", none, chunkIndex, [], 500000⟩

/-- The chunks of one document, not in order. -/
def chunked : Database :=
  { Database.empty with chunks := [chunk 21 1, chunk 22 0, chunk 23 2] }

end Demo

theorem chunk_walk_visits_three :
    ∃ items, Walk (fun cursor => listChunks (cursorCodec Demo.timestamptz) 11 2 cursor 1 Demo.chunked)
        none items ∧
      items.Perm (documentChunks 11 2 Demo.chunked) ∧
      items.Pairwise fun x y => x.chunkIndex < y.chunkIndex :=
  chunk_walk_visits_all (show (1 : Int) ≤ 1 by decide) (by decide)
    (indexReadsBack_cursorCodec Demo.timestamptz (by decide))

end Pagination
