import ResearchPlatform.RowLevelSecurity

/-!
# Retrieval service

The two SQL statements of `retrieval/service.py` on the rows that their session
sees, the plain searches over them, and `hybrid_search`, which runs the same
statements on two sessions of its own. Index search is exact but in the dense search
by the HNSW index, equal scores keep the table's order, and scores are rationals.
-/

namespace RetrievalService

open Uuid Schema RowLevelSecurity

/-- The embedding model, pgvector's `<=>`, and the full-text operators on the
generated column `to_tsvector('english', content)`. -/
structure SearchIndex where
  encode : List String → Except String (List Embedding)
  distance : Embedding → Embedding → Rat
  tsMatches : String → String → Bool
  tsRankCd : String → String → Rat

/-- A row of either statement; `score` is its `distance` or its `rank`. -/
structure CandidateRow where
  chunkId : UUID
  documentId : UUID
  content : String
  chunkIndex : Nat
  pageNumber : Option Nat
  documentFilename : String
  score : Rat
  deriving DecidableEq, Repr

structure RankedChunk where
  chunkId : UUID
  documentId : UUID
  content : String
  chunkIndex : Nat
  pageNumber : Option Nat
  score : Rat
  documentFilename : String
  deriving DecidableEq, Repr

structure RankedWebResult where
  url : String
  title : String
  content : String
  score : Rat
  deriving DecidableEq, Repr

inductive SearchResult where
  | chunk (result : RankedChunk)
  | web (result : RankedWebResult)
  deriving DecidableEq, Repr

/-- One entry of a web search response; a missing key is `none`. -/
structure WebHit where
  url : Option String
  title : Option String
  content : Option String
  score : Option Rat
  deriving DecidableEq, Repr

/-- The chat completion on (role, content) pairs and the web search, each `none`
without an API key; a completion may come without content. -/
structure Providers where
  groq : Option (List (String × String) → Except String (Option String))
  tavily : Option (String → Int → Except String (List WebHit))

/-! ## Statements -/

/-- `embedder.encode([query])[0]`. -/
def embedQuery (index : SearchIndex) (query : String) : Except Failure Embedding :=
  match index.encode [query] with
  | .error e => .error (.valueError e)
  | .ok [] => .error .indexError
  | .ok (queryEmbedding :: _) => .ok queryEmbedding

/-- `chunks c JOIN documents d` with the two conditions on tenant and deletion. -/
def liveChunks (tenantId : UUID) (db : Database) : List (Chunk × Document) :=
  (db.chunks.filter fun c => c.tenantId = tenantId).flatMap fun c =>
    (db.documents.filter fun d => d.id = c.documentId && d.deletedAt.isNone).map fun d => (c, d)

def candidateRow (score : Rat) (c : Chunk) (d : Document) : CandidateRow where
  chunkId := c.id
  documentId := c.documentId
  content := c.content
  chunkIndex := c.chunkIndex
  pageNumber := c.pageNumber
  documentFilename := d.filename
  score := score

def denseSql (index : SearchIndex) (queryVec : Embedding) (tenantId : UUID) (limit : Int)
    (db : Database) : Except Failure (List CandidateRow) :=
  sqlLimit limit (((liveChunks tenantId db).map fun x =>
    candidateRow (index.distance x.1.embedding queryVec) x.1 x.2).insertionSort
      fun a b => a.score ≤ b.score)

def sparseSql (index : SearchIndex) (query : String) (tenantId : UUID) (limit : Int)
    (db : Database) : Except Failure (List CandidateRow) :=
  if !sendable query then .error (.dataError "query")
  else sqlLimit limit ((((liveChunks tenantId db).filter fun x =>
    index.tsMatches x.1.content query).map fun x =>
      candidateRow (index.tsRankCd x.1.content query) x.1 x.2).insertionSort
        fun a b => b.score ≤ a.score)

/-! ## Plain searches -/

/-- `round(x, 6)`. -/
def round6 (x : Rat) : Rat := Numerals.roundHalfEven (x * 1000000) / 1000000

def rankedChunk (score : Rat) (row : CandidateRow) : RankedChunk where
  chunkId := row.chunkId
  documentId := row.documentId
  content := row.content
  chunkIndex := row.chunkIndex
  pageNumber := row.pageNumber
  score := score
  documentFilename := row.documentFilename

/-- The rows that `dense_search` obtains. -/
def denseRows (index : SearchIndex) (query : String) (tenantId : UUID) (topK : Int)
    (db : Database) : Except Failure (List CandidateRow) := do
  let queryEmbedding ← embedQuery index query
  denseSql index queryEmbedding tenantId topK db

def denseSearch (index : SearchIndex) (query : String) (tenantId : UUID) (topK : Int)
    (db : Database) : Except Failure (List RankedChunk) :=
  (denseRows index query tenantId topK db).map fun rows =>
    rows.map fun row => rankedChunk (round6 (1 - row.score)) row

def sparseSearch (index : SearchIndex) (query : String) (tenantId : UUID) (topK : Int)
    (db : Database) : Except Failure (List RankedChunk) :=
  (sparseSql index query tenantId topK db).map fun rows =>
    rows.map fun row => rankedChunk (round6 row.score) row

/-- An approximate index over the embeddings of all chunk rows, whoever owns them and whether
their documents are deleted or not: the rows that it passes on for a query vector, each of
them once. The conditions of the statement come behind it. -/
structure Hnsw where
  passes : List Chunk → Embedding → List Chunk
  stored : ∀ chunks queryVec, List.Subperm (passes chunks queryVec) chunks

/-- The tables as a statement meets them that reads the chunks through the index. -/
def Hnsw.passedOn (hnsw : Hnsw) (queryVec : Embedding) (db : Database) : Database :=
  { db with chunks := hnsw.passes db.chunks queryVec }

/-- `dense_search` by way of the index. -/
def denseSearchBy (hnsw : Hnsw) (index : SearchIndex) (query : String) (tenantId : UUID)
    (topK : Int) (db : Database) : Except Failure (List RankedChunk) := do
  let queryEmbedding ← embedQuery index query
  (denseSql index queryEmbedding tenantId topK (hnsw.passedOn queryEmbedding db)).map fun rows =>
    rows.map fun row => rankedChunk (round6 (1 - row.score)) row

/-- An index that passes every row on. -/
def exactHnsw : Hnsw := ⟨fun chunks _ => chunks, fun chunks _ => List.Subperm.refl chunks⟩

theorem denseSearchBy_exact (index : SearchIndex) (query : String) (tenantId : UUID) (topK : Int)
    (db : Database) :
    denseSearchBy exactHnsw index query tenantId topK db = denseSearch index query tenantId topK db := by
  rw [denseSearchBy, denseSearch, denseRows]
  cases embedQuery index query with
  | error e => rfl
  | ok queryEmbedding => rfl

/-! ## Hybrid search -/

/-- `_run_dense` and `_run_sparse`, each on a session of its own, after the query
has been embedded once. -/
def hybridCandidates (index : SearchIndex) (query : String) (tenantId : UUID)
    (topK candidateMultiplier : Int) (dense sparse : SessionVars) (db : Database) :
    Except Failure (Except Failure (List CandidateRow) × Except Failure (List CandidateRow)) := do
  let candidates := topK * candidateMultiplier
  let queryEmbedding ← embedQuery index query
  .ok (denseSql index queryEmbedding tenantId candidates (underPolicies dense db),
    sparseSql index query tenantId candidates (underPolicies sparse db))

def rrfK : Nat := 60

/-- `scores[chunk_id] = scores.get(chunk_id, 0.0) + 1.0 / (RRF_K + rank)`. -/
def addScore (scores : List (UUID × Rat)) (chunkId : UUID) (rank : Nat) : List (UUID × Rat) :=
  let gain : Rat := 1 / (rrfK + rank)
  if scores.any fun x => x.1 = chunkId then
    scores.map fun x => if x.1 = chunkId then (x.1, x.2 + gain) else x
  else scores ++ [(chunkId, gain)]

/-- One pass over a ranked list, ranks starting from one. -/
def addScores (scores : List (UUID × Rat)) (rows : List CandidateRow) : List (UUID × Rat) :=
  (rows.zipIdx 1).foldl (fun acc x => addScore acc x.1.chunkId x.2) scores

/-- The row kept for a chunk: the last dense one, else the first sparse one. -/
def fusedRow (denseRows sparseRows : List CandidateRow) (chunkId : UUID) : Option CandidateRow :=
  match (denseRows.filter fun r => r.chunkId = chunkId).getLast? with
  | some row => some row
  | none => sparseRows.find? fun r => r.chunkId = chunkId

def reciprocalRankFusion (denseRows sparseRows : List CandidateRow) (topK : Int) :
    List RankedChunk :=
  let scores := addScores (addScores [] denseRows) sparseRows
  let sorted := scores.insertionSort fun a b => b.2 ≤ a.2
  (pySlice topK sorted).filterMap fun x =>
    (fusedRow denseRows sparseRows x.1).map fun row => rankedChunk (round6 x.2) row

/-- `part in s`. -/
def isIn (part s : String) : Bool := s.toList.tails.any fun rest => part.toList.isPrefixOf rest

/-- `_evaluate_chunks`. Whatever goes wrong counts as useful. -/
def evaluateChunks (text : TextMethods) (providers : Providers) (query : String)
    (chunks : List SearchResult) : Bool :=
  match providers.groq with
  | none => true
  | some create =>
    let contextText := String.join ((chunks.zipIdx 1).map fun x => match x.1 with
      | .chunk c => "\n[" ++ toString x.2 ++ "]: " ++ c.content ++ "\n"
      | .web _ => "")
    let prompt := "You are a relevance evaluator for a research platform.\nQuery: " ++ query ++
      "\nContext:\n" ++ contextText ++
      "\n\nDoes the context contain any relevant information to help answer the query?\nReply strictly with exactly \"YES\" or \"NO\"."
    match create [("user", prompt)] with
    | .ok (some content) => !isIn "NO" (text.upper (text.strip content))
    | .ok none | .error _ => true

/-- `_fallback_web_search`. -/
def fallbackWebSearch (providers : Providers) (query : String) (topK : Int) :
    List RankedWebResult :=
  match providers.tavily with
  | none => []
  | some search => match search query topK with
    | .error _ => []
    | .ok results => results.zipIdx.map fun x =>
      ⟨x.1.url.getD "", x.1.title.getD "", x.1.content.getD "",
        x.1.score.getD (1 - (x.2 : Rat) / 10)⟩

/-- `_synthesize_answer`. -/
def synthesizeAnswer (providers : Providers) (query : String) (chunks : List SearchResult) :
    Option String :=
  match providers.groq with
  | none => none
  | some create =>
    let isWeb := chunks.any fun c => match c with
      | .chunk _ => false
      | .web _ => true
    let sourceType := if isWeb then "web search results" else "internal workspace documents"
    let contextText := String.join ((chunks.zipIdx 1).map fun x => match x.1 with
      | .chunk c => "\n[Source " ++ toString x.2 ++ " - " ++ c.documentFilename ++ "]:\n" ++
          c.content ++ "\n"
      | .web c => "\n[Source " ++ toString x.2 ++ " - Web: " ++ c.title ++ "]:\n" ++ c.content ++ "\n")
    let systemPrompt := "You are a helpful AI research assistant.\nAnswer the user's query using ONLY the provided context, which comes from "
      ++ sourceType ++ ".\nIf the context does not contain enough information to fully answer the query, clearly state that you don't have enough information based on the sources, and answer as much as you can.\nDO NOT hallucinate or invent facts outside the context.\nKeep your answer concise and useful."
    let userPrompt := "Context:\n" ++ contextText ++ "\n\nUser Query: " ++ query
    match create [("system", systemPrompt), ("user", userPrompt)] with
    | .ok content => content
    | .error _ => none

/-- `hybrid_search`. Where both statements raise, the error of the dense one is
taken. -/
def hybridSearch (index : SearchIndex) (text : TextMethods) (providers : Providers)
    (query : String) (tenantId : UUID) (topK candidateMultiplier : Int)
    (dense sparse : SessionVars) (db : Database) :
    Except Failure (List SearchResult × Option String) := do
  let candidates ← hybridCandidates index query tenantId topK candidateMultiplier dense sparse db
  let denseRows ← candidates.1
  let sparseRows ← candidates.2
  let internal := (reciprocalRankFusion denseRows sparseRows topK).map SearchResult.chunk
  let useful := !internal.isEmpty && evaluateChunks text providers query internal
  let fused := if useful then internal
    else match fallbackWebSearch providers query topK with
      | [] => internal
      | web => web.map SearchResult.web
  .ok (fused, if fused.isEmpty then none else synthesizeAnswer providers query fused)

end RetrievalService
