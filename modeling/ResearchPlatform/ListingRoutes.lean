import ResearchPlatform.FrontEnds
import ResearchPlatform.Pagination

/-!
# Limits and cursors that a client sends

The three listings over HTTP take any integer as their limit and any text as their
cursor. Their routes clamp the limit from above only, and `decode_cursor` checks a
cursor up to the object that it encodes.
-/

namespace ListingRoutes

open Uuid Schema DocumentService JobService FrontEnds TenantPlane Cursors Json Pagination

/-! ## Limits -/

inductive Listing where
  | documents
  | chunks (documentId : UUID)
  | jobs
  deriving DecidableEq, Repr

def Listing.query (cursor : Option String) (limit : Int) : Listing → HttpQuery
  | .documents => .listDocuments cursor limit
  | .chunks documentId => .listChunks documentId cursor limit
  | .jobs => .listJobs cursor limit

section Limits
variable (codec : CursorCodec) (tenantId : UUID) (db : Database) (cursor : Option String)

/-- The number of rows that a listing has from a cursor on. -/
def Listing.rowsBeyond : Listing → Except Failure Nat
  | .documents => do
    let bound ← cursorBound codec.createdAt cursor
    return (beyond Document.createdAt (orderByDesc Document.createdAt)
      (liveDocuments tenantId db) bound).length
  | .chunks documentId => do
    let _ ← getDocument documentId tenantId db
    let bound ← cursorBound codec.chunkIndex cursor
    return (beyond (K := Intᵒᵈ) chunkKey (orderByAsc Chunk.chunkIndex)
      (documentChunks documentId tenantId db) bound).length
  | .jobs => do
    let bound ← cursorBound codec.createdAt cursor
    return (beyond IngestionJob.createdAt (orderByDesc IngestionJob.createdAt)
      (tenantJobs tenantId db) bound).length

end Limits

/-- The items and the `next_cursor` of a list response. -/
def listed : Reply → Option (Nat × Option String)
  | .result (.documents items nextCursor) => some (items.length, nextCursor)
  | .result (.chunks items nextCursor) => some (items.length, nextCursor)
  | .result (.jobs items nextCursor) => some (items.length, nextCursor)
  | _ => none

/-- A page of at most a hundred items, followed by another one only if it has some. -/
def Answered (reply : Except Failure Reply) : Prop :=
  ∃ r count nextCursor, reply = .ok r ∧ listed r = some (count, nextCursor) ∧ count ≤ 100 ∧
    (nextCursor ≠ none → count ≠ 0)

section Clamped
variable {α K : Type} [LinearOrder K] {decode : String → Except Failure K} {key : α → K}
  {order : List α → List α} {encode : α → String} {limit : Int} {rows : List α}
  {cursor : Option String} {bound : Option K} {wrap : List α × Option String → Reply}

/-- What a route makes of a listing by its limit. -/
theorem clamped_cases (h : cursorBound decode cursor = .ok bound)
    {reply : Except Failure Reply}
    (run : reply = (keysetListing decode key order encode (min limit 100) rows cursor).map wrap)
    (shows : ∀ page, listed (wrap page) = some (page.1.length, page.2)) :
    (Answered reply ↔ 1 ≤ limit ∨ limit = 0 ∧ (beyond key order rows bound).length = 0) ∧
    (reply = .error .indexError ↔
      limit = -1 ∨ limit = 0 ∧ (beyond key order rows bound).length ≠ 0) := by
  subst run
  have failed : ∀ e : Failure, ¬ Answered (.error e) := by
    rintro e ⟨r, _, _, ⟨⟩, _⟩
  simp only [ne_eq, List.length_eq_zero_iff]
  rcases keysetListing_by_limit encode (min limit 100) h with
    ⟨positive, items, nextCursor, page, few, follows⟩ | ⟨zero, none_, page⟩ | ⟨last, page⟩ |
      ⟨negative, page⟩
  · rw [page]
    refine ⟨iff_of_true ?_ (Or.inl (by omega)), iff_of_false nofun (by omega)⟩
    exact ⟨_, _, _, rfl, shows _, few.trans (by omega),
      fun more => (List.length_pos_iff.mpr (follows more)).ne'⟩
  · rw [page]
    refine ⟨iff_of_true ?_ (Or.inr ⟨by omega, none_⟩), iff_of_false nofun (by simp [none_]; omega)⟩
    exact ⟨_, _, _, rfl, shows _, Nat.zero_le _, fun more => absurd rfl more⟩
  · rw [page]
    have here : limit = -1 ∨ limit = 0 ∧ beyond key order rows bound ≠ [] :=
      last.imp (fun _ => by omega) fun some_ => ⟨by omega, some_.2⟩
    refine ⟨iff_of_false (failed _) ?_, iff_of_true rfl here⟩
    rintro (positive | ⟨zero, none_⟩)
    · omega
    · exact last.elim (by omega) fun some_ => some_.2 none_
  · rw [page]
    exact ⟨iff_of_false (failed _) (by omega), iff_of_false nofun (by omega)⟩

end Clamped

section Routes
variable (cfg : Settings) (tenantId : UUID) (draw : Draw) (db : Database)

theorem map_result {α : Type} (call : Except Failure α) (wrap : α → Result) :
    (call.map wrap).map Reply.result = call.map fun r => .result (wrap r) := by
  cases call <;> rfl

theorem httpAnswer_listDocuments (cursor : Option String) (limit : Int) :
    httpAnswer cfg tenantId draw db (.listDocuments cursor limit) =
      (keysetListing cfg.platform.codec.createdAt Document.createdAt (orderByDesc Document.createdAt)
        (fun last => cfg.platform.codec.encodeCreatedAt last.createdAt) (min limit 100)
        (liveDocuments tenantId db) cursor).map fun r => .result (.documents r.1 r.2) := by
  rw [httpAnswer, answer, map_result, listDocuments_eq_listing, listing_eq_keysetListing]

theorem httpAnswer_listJobs (cursor : Option String) (limit : Int) :
    httpAnswer cfg tenantId draw db (.listJobs cursor limit) =
      (keysetListing cfg.platform.codec.createdAt IngestionJob.createdAt
        (orderByDesc IngestionJob.createdAt)
        (fun last => cfg.platform.codec.encodeCreatedAt last.createdAt) (min limit 100)
        (tenantJobs tenantId db) cursor).map fun r => .result (.jobs r.1 r.2) := by
  rw [httpAnswer, answer, map_result, listJobs_eq_listing, listing_eq_keysetListing]

theorem httpAnswer_listChunks {documentId : UUID} {doc : Document}
    (found : getDocument documentId tenantId db = .ok doc) (cursor : Option String) (limit : Int) :
    httpAnswer cfg tenantId draw db (.listChunks documentId cursor limit) =
      (keysetListing (K := Intᵒᵈ) cfg.platform.codec.chunkIndex chunkKey (orderByAsc Chunk.chunkIndex)
        (fun last => cfg.platform.codec.encodeChunkIndex last.chunkIndex) (min limit 100)
        (documentChunks documentId tenantId db) cursor).map fun r => .result (.chunks r.1 r.2) := by
  rw [← listChunks_eq_keysetListing, httpAnswer, found]
  exact map_result _ fun r : List Chunk × Option String => .chunks r.1 r.2

/-- A list route answers for a positive limit, and for zero where there is nothing to list.
Otherwise it fails, for zero and minus one at the last row of an empty page. -/
theorem list_routes_answer_iff (listing : Listing) (cursor : Option String) (limit : Int) (count : Nat)
    (valid : listing.rowsBeyond cfg.platform.codec tenantId db cursor = .ok count) :
    (Answered (httpAnswer cfg tenantId draw db (listing.query cursor limit)) ↔
      1 ≤ limit ∨ limit = 0 ∧ count = 0) ∧
    (httpAnswer cfg tenantId draw db (listing.query cursor limit) = .error .indexError ↔
      limit = -1 ∨ limit = 0 ∧ count ≠ 0) := by
  cases listing with
  | documents =>
    obtain ⟨bound, h, ⟨⟩⟩ := of_bind_ok valid
    exact clamped_cases h (httpAnswer_listDocuments cfg tenantId draw db cursor limit) fun _ => rfl
  | chunks documentId =>
    obtain ⟨doc, found, valid⟩ := of_bind_ok valid
    obtain ⟨bound, h, ⟨⟩⟩ := of_bind_ok valid
    exact clamped_cases (K := Intᵒᵈ) h
      (httpAnswer_listChunks cfg tenantId draw db found cursor limit) fun _ => rfl
  | jobs =>
    obtain ⟨bound, h, ⟨⟩⟩ := of_bind_ok valid
    exact clamped_cases h (httpAnswer_listJobs cfg tenantId draw db cursor limit) fun _ => rfl

end Routes

namespace Demo

/-- The codec of the code, where texts compare as the instants they denote. -/
def settings : Settings :=
  { FrontEnds.Demo.settings with
    platform := { TenantPlane.Demo.platform with codec := cursorCodec Pagination.Demo.timestamptz } }

end Demo

theorem list_routes_answer_one :
    (Answered (httpAnswer Demo.settings 2 FrontEnds.Demo.draw Pagination.Demo.apart
        (Listing.documents.query none 1)) ↔ (1 : Int) ≤ 1 ∨ (1 : Int) = 0 ∧ 2 = 0) ∧
    (httpAnswer Demo.settings 2 FrontEnds.Demo.draw Pagination.Demo.apart
        (Listing.documents.query none 1) = .error .indexError ↔
      (1 : Int) = -1 ∨ (1 : Int) = 0 ∧ 2 ≠ 0) :=
  list_routes_answer_iff Demo.settings 2 FrontEnds.Demo.draw Pagination.Demo.apart .documents none 1 2
    (by decide)

/-- `GET /documents?limit=0`, for a tenant that has documents. -/
theorem list_routes_fail_at_zero :
    ¬ Answered (httpAnswer Demo.settings 2 FrontEnds.Demo.draw Pagination.Demo.apart
      (Listing.documents.query none 0)) := by
  have raised : httpAnswer Demo.settings 2 FrontEnds.Demo.draw Pagination.Demo.apart
      (Listing.documents.query none 0) = .error .indexError := rfl
  rintro ⟨r, _, _, answered, _⟩
  rw [raised] at answered
  cases answered

/-! ## Cursors -/

/-- A result, or the error that `decode_cursor` documents. -/
def ResultOrValueError {α : Type} (call : Except Failure α) : Prop :=
  (∃ result, call = .ok result) ∨ ∃ message, call = .error (.valueError message)

/-- `decode_cursor` refuses the text. -/
def Refused (cursor : String) : Prop := ∀ data, decodeCursor cursor ≠ .ok data

/-- The object has a `chunk_index` that is taken for an integer of the column, or refused as
a value. -/
def ChunkIndexUsable (data : List (Text × Value)) : Prop :=
  ∃ value, data.lookup (codePoints "chunk_index") = some value ∧
    ((∃ i, intOf value = .ok i ∧ -2 ^ 31 ≤ i ∧ i < 2 ^ 31) ∨
      ∃ message, intOf value = .error (.valueError message))

theorem decodeCursor_error {cursor : String} {e : Failure} (h : decodeCursor cursor = .error e) :
    ∃ message, e = .valueError message := by
  rw [decodeCursor] at h
  split at h
  · cases h
    exact ⟨_, rfl⟩
  · cases h
  · cases h
    exact ⟨_, rfl⟩

/-- What comes behind `decode_cursor` decides. -/
theorem decoded_iff {α : Type} {cursor : String} {rest : List (Text × Value) → Except Failure α} :
    ResultOrValueError (decodeCursor cursor >>= rest) ↔
      ∀ data, decodeCursor cursor = .ok data → ResultOrValueError (rest data) := by
  cases h : decodeCursor cursor with
  | error e =>
    obtain ⟨message, rfl⟩ := decodeCursor_error h
    exact iff_of_true (Or.inr ⟨message, rfl⟩) nofun
  | ok data =>
    constructor
    · rintro result _ ⟨⟩
      exact result
    · exact fun every => every data rfl

/-- Whatever the object has for a `created_at`, the query fails. -/
theorem createdAtBound_asVarchar (data : List (Text × Value)) :
    ¬ ResultOrValueError (createdAtBound asVarchar data) := by
  rw [createdAtBound]
  cases data.lookup (codePoints "created_at") with
  | none => simp [ResultOrValueError]
  | some value => cases value <;> simp [ResultOrValueError, asVarchar, undefinedOperator]

theorem createdAt_asVarchar_iff {cursor : String} :
    ResultOrValueError ((cursorCodec asVarchar).createdAt cursor) ↔ Refused cursor := by
  refine decoded_iff.trans ⟨fun every data h => ?_, fun refused data h => absurd h (refused data)⟩
  exact createdAtBound_asVarchar data (every data h)

/-- The query of a cursor that decodes has no bound. -/
theorem createdAt_asVarchar_ne_ok (cursor : String) (b : Time) :
    (cursorCodec asVarchar).createdAt cursor ≠ .ok b := by
  intro h
  obtain ⟨data, -, bound⟩ := of_bind_ok h
  exact createdAtBound_asVarchar data (Or.inl ⟨b, bound⟩)

theorem chunkIndexBound_iff {data : List (Text × Value)} :
    ResultOrValueError (chunkIndexBound data) ↔ ChunkIndexUsable data := by
  rw [chunkIndexBound, ChunkIndexUsable]
  cases data.lookup (codePoints "chunk_index") with
  | none => simp [ResultOrValueError]
  | some value =>
    simp only [Option.some.injEq, exists_eq_left']
    cases intOf value with
    | error e => simp [ResultOrValueError, bind, Except.bind]
    | ok i =>
      show ResultOrValueError (if -2 ^ 31 ≤ i ∧ i < 2 ^ 31 then Except.ok i
        else Except.error (Failure.dataError "chunk_index")) ↔ _
      by_cases inColumn : -2 ^ 31 ≤ i ∧ i < 2 ^ 31
      · rw [if_pos inColumn]
        exact iff_of_true (Or.inl ⟨i, rfl⟩) (Or.inl ⟨i, rfl, inColumn⟩)
      · rw [if_neg inColumn]
        refine iff_of_false (by simp [ResultOrValueError]) ?_
        rintro (⟨_, ⟨⟩, inside⟩ | ⟨_, ⟨⟩⟩)
        exact inColumn inside

section Cursors
variable {α K : Type} [LinearOrder K] {decode : String → Except Failure K} {key : α → K}
  {order : List α → List α} {encode : α → String} {limit : Int} {rows : List α} {cursor : String}

/-- A page is what a listing makes of a cursor that it can use, if its limit lets it. -/
theorem keysetListing_cursor_iff (some_ : cursor ≠ "") :
    ResultOrValueError (keysetListing decode key order encode limit rows (some cursor)) ↔
      ResultOrValueError (decode cursor) ∧ ∀ b, decode cursor = .ok b →
        1 ≤ limit ∨ limit = 0 ∧ beyond key order rows (some b) = [] := by
  have bound : cursorBound decode (some cursor) = (decode cursor).map some := if_neg some_
  cases h : decode cursor with
  | error e =>
    rw [h] at bound
    have failed : keysetListing decode key order encode limit rows (some cursor) = .error e := by
      rw [keysetListing, bound]
      rfl
    rw [failed]
    simp [ResultOrValueError]
  | ok b =>
    rw [h] at bound
    have usable : ResultOrValueError (Except.ok b : Except Failure K) := Or.inl ⟨b, rfl⟩
    simp only [usable, true_and, Except.ok.injEq, forall_eq']
    rcases keysetListing_by_limit encode limit bound with
      ⟨positive, items, nextCursor, page, -⟩ | ⟨zero, none_, page⟩ | ⟨last, page⟩ | ⟨negative, page⟩
    · rw [page]
      exact iff_of_true (Or.inl ⟨_, rfl⟩) (Or.inl positive)
    · rw [page]
      exact iff_of_true (Or.inl ⟨_, rfl⟩) (Or.inr ⟨zero, none_⟩)
    · rw [page]
      refine iff_of_false (by simp [ResultOrValueError]) ?_
      rintro (positive | ⟨zero, none_⟩)
      · omega
      · exact last.elim (by omega) fun some_ => some_.2 none_
    · rw [page]
      exact iff_of_false (by simp [ResultOrValueError]) (by omega)

end Cursors

section Services
variable (documentId tenantId : UUID) (db : Database)

/-- A cursor is answered with a page or refused with a ValueError, by the documents and the jobs
exactly where `decode_cursor` refuses it, and by the chunks also where it encodes an object with a
usable index, and the limit is positive or there is no page to cut. -/
theorem cursors_refused_uniformly_iff {cursor : String} (some_ : cursor ≠ "") (limit : Int) :
    (ResultOrValueError (listDocuments (cursorCodec asVarchar) tenantId (some cursor) limit db) ↔
      Refused cursor) ∧
    (ResultOrValueError (listJobs (cursorCodec asVarchar) tenantId (some cursor) limit db) ↔
      Refused cursor) ∧
    (ResultOrValueError (listChunks (cursorCodec asVarchar) documentId tenantId (some cursor) limit db) ↔
      (∀ data, decodeCursor cursor = .ok data → ChunkIndexUsable data) ∧
        ∀ b, (cursorCodec asVarchar).chunkIndex cursor = .ok b → 1 ≤ limit ∨ limit = 0 ∧
          beyond (K := Intᵒᵈ) chunkKey (orderByAsc Chunk.chunkIndex)
            (documentChunks documentId tenantId db) (some b) = []) := by
  have byTime : ∀ P : Time → Prop, ∀ b, (cursorCodec asVarchar).createdAt cursor = .ok b → P b :=
    fun _ b h => absurd h (createdAt_asVarchar_ne_ok cursor b)
  rw [listDocuments_eq_listing, listJobs_eq_listing, listChunks_eq_keysetListing,
    listing_eq_keysetListing, listing_eq_keysetListing]
  simp only [← chunkIndexBound_iff, ← decoded_iff, ← createdAt_asVarchar_iff]
  refine ⟨(keysetListing_cursor_iff some_).trans ?_, (keysetListing_cursor_iff some_).trans ?_,
    keysetListing_cursor_iff some_⟩
  · exact and_iff_left (byTime _)
  · exact and_iff_left (byTime _)

end Services

/-- A cursor of the chunks, and a page of one. -/
theorem cursors_refused_uniformly_demo :
    (ResultOrValueError (listDocuments (cursorCodec asVarchar) 2 (some "eyJjaHVua19pbmRleCI6IDd9") 1
        Pagination.Demo.apart) ↔ Refused "eyJjaHVua19pbmRleCI6IDd9") ∧
    (ResultOrValueError (listJobs (cursorCodec asVarchar) 2 (some "eyJjaHVua19pbmRleCI6IDd9") 1
        Pagination.Demo.apart) ↔ Refused "eyJjaHVua19pbmRleCI6IDd9") ∧
    (ResultOrValueError (listChunks (cursorCodec asVarchar) 11 2 (some "eyJjaHVua19pbmRleCI6IDd9") 1
        Pagination.Demo.apart) ↔
      (∀ data, decodeCursor "eyJjaHVua19pbmRleCI6IDd9" = .ok data → ChunkIndexUsable data) ∧
        ∀ b, (cursorCodec asVarchar).chunkIndex "eyJjaHVua19pbmRleCI6IDd9" = .ok b →
          (1 : Int) ≤ 1 ∨ (1 : Int) = 0 ∧ beyond (K := Intᵒᵈ) chunkKey (orderByAsc Chunk.chunkIndex)
            (documentChunks 11 2 Pagination.Demo.apart) (some b) = []) :=
  cursors_refused_uniformly_iff 11 2 Pagination.Demo.apart (by decide) 1

/-- A cursor of the chunks, sent to the documents, is a KeyError. -/
theorem foreign_cursor_escapes :
    ¬ ResultOrValueError (listDocuments (cursorCodec asVarchar) 2
      (some "eyJjaHVua19pbmRleCI6IDd9") 1 Pagination.Demo.apart) := by
  have raised : listDocuments (cursorCodec asVarchar) 2
      (some "eyJjaHVua19pbmRleCI6IDd9") 1 Pagination.Demo.apart = .error (.keyError "created_at") := by
    decide +kernel
  rw [raised]
  rintro (⟨_, ⟨⟩⟩ | ⟨_, ⟨⟩⟩)

end ListingRoutes
