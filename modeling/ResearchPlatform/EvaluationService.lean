import ResearchPlatform.Schema

/-!
# Evaluation service: relevance grading

`evaluate_relevance` with the gateway's `complete` as a function of the prompt;
the error of a failed call is what the exception prints.
-/

namespace EvaluationService

open Uuid Schema

inductive RelevanceGrade where
  | relevant | ambiguous | notRelevant
  deriving DecidableEq, Repr

namespace RelevanceGrade

def value : RelevanceGrade → String
  | relevant => "relevant"
  | ambiguous => "ambiguous"
  | notRelevant => "not_relevant"

/-- `for grade in RelevanceGrade`. -/
def members : List RelevanceGrade := [relevant, ambiguous, notRelevant]

end RelevanceGrade

structure ChunkRelevance where
  chunkId : UUID
  grade : RelevanceGrade
  reasoning : String
  deriving DecidableEq, Repr

def gradingPrompt (query content : String) : String :=
  "You are a relevance grading system. Your job is to evaluate whether a document chunk is relevant to a user's query.\n\nQuery: "
    ++ query ++ "\n\nChunk content:\n---\n" ++ content ++ "\n---\n\n" ++
    "Grade the relevance of the chunk to the query. Respond with EXACTLY one of these three words followed by a pipe and a brief reasoning:\n\n" ++
    "relevant|<reasoning>\nambiguous|<reasoning>\nnot_relevant|<reasoning>\n\nRules:\n" ++
    "- \"relevant\" means the chunk directly answers or is clearly useful for the query.\n" ++
    "- \"ambiguous\" means the chunk is partially related but may not fully answer the query.\n" ++
    "- \"not_relevant\" means the chunk has no meaningful connection to the query.\n" ++
    "- Your response must start with the grade, followed by a pipe character, followed by reasoning.\n" ++
    "- Do not include any other text.\n"

theorem gradingPrompt_injective {query c d : String}
    (h : gradingPrompt query c = gradingPrompt query d) : c = d := by
  unfold gradingPrompt at h
  -- eight pieces follow the content
  iterate 8 replace h := (String.append_left_inj _).mp h
  exact (String.append_right_inj _).mp h

/-- `response.split("|", 1)[1].strip()`, or nothing without a pipe. -/
def reasoningOf (text : TextMethods) (response : String) : String :=
  match response.toList.dropWhile fun c => c ≠ '|' with
  | [] => ""
  | _ :: rest => text.strip (String.ofList rest)

/-- `_parse_grade`. -/
def parseGrade (text : TextMethods) (rawResponse : String) : RelevanceGrade × String :=
  let response := text.strip rawResponse
  match RelevanceGrade.members.find? fun grade =>
      grade.value.toList.isPrefixOf (text.lower response).toList with
  | some grade => (grade, reasoningOf text response)
  | none => (.ambiguous,
      "Could not parse LLM response: " ++ String.ofList (response.toList.take 100))

/-- One pass of the grading loop; the content is cut to 2000 characters. -/
def gradeChunk (text : TextMethods) (gateway : String → Except String String) (query : String)
    (chunk : Chunk) : ChunkRelevance :=
  match gateway (gradingPrompt query (String.ofList (chunk.content.toList.take 2000))) with
  | .ok response => ⟨chunk.id, (parseGrade text response).1, (parseGrade text response).2⟩
  | .error e => ⟨chunk.id, .ambiguous, "Evaluation failed: " ++ e⟩

/-- `{c.id: c for c in result}`. -/
def chunkById (rows : List Chunk) (chunkId : UUID) : Option Chunk :=
  (rows.filter fun c => c.id = chunkId).getLast?

def evaluateRelevance (text : TextMethods) (gateway : String → Except String String)
    (query : String) (chunkIds : List UUID) (tenantId : UUID) (db : Database) :
    Except Failure (List ChunkRelevance) :=
  let rows := db.chunks.filter fun c => c.id ∈ chunkIds && c.tenantId = tenantId
  match chunkIds.find? fun chunkId => (chunkById rows chunkId).isNone with
  | some chunkId => .error (.app (.notFoundError "Chunk" (str chunkId)))
  | none => .ok (chunkIds.filterMap fun chunkId =>
      (chunkById rows chunkId).map (gradeChunk text gateway query))

end EvaluationService
