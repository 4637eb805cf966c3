import ResearchPlatform.RetrievalService
import ResearchPlatform.StringMethods

/-!
# What a positive verdict does

The evaluator is asked for YES or NO, and its reply counts as a no wherever the two
letters stand in it. A reply that says yes and goes on may contain them in another word.
-/

namespace EvaluatorVerdict

open Uuid Schema RowLevelSecurity RetrievalService TextChunker CaseMappings StringMethods

/-! ## The question -/

/-- The chunks as the evaluator sees them. -/
def evaluationContext (chunks : List SearchResult) : String :=
  String.join ((chunks.zipIdx 1).map fun x => match x.1 with
    | .chunk c => "\n[" ++ toString x.2 ++ "]: " ++ c.content ++ "\n"
    | .web _ => "")

def evaluationPrompt (query : String) (chunks : List SearchResult) : String :=
  "You are a relevance evaluator for a research platform.\nQuery: " ++ query ++
    "\nContext:\n" ++ evaluationContext chunks ++
    "\n\nDoes the context contain any relevant information to help answer the query?\nReply strictly with exactly \"YES\" or \"NO\"."

theorem evaluateChunks_reply (text : TextMethods) {providers : Providers} {query : String}
    {chunks : List SearchResult} {create : List (String × String) → Except String (Option String)}
    {reply : String} (groq : providers.groq = some create)
    (replies : create [("user", evaluationPrompt query chunks)] = .ok (some reply)) :
    evaluateChunks text providers query chunks = !isIn "NO" (text.upper (text.strip reply)) := by
  rw [evaluateChunks, groq]
  dsimp only
  split
  · rename_i content answered
    have same := answered.symm.trans replies
    cases same
    rfl
  · rename_i answered
    have impossible := answered.symm.trans replies
    cases impossible
  · rename_i answered
    have impossible := answered.symm.trans replies
    cases impossible

/-! ## The two letters -/

theorem isIn_iff (part s : String) : isIn part s = true ↔ part.toList <:+: s.toList := by
  rw [isIn, List.any_eq_true]
  constructor
  · rintro ⟨rest, behind, starts⟩
    exact (List.isPrefixOf_iff_prefix.mp starts).isInfix.trans ((List.mem_tails _ _).mp behind).isInfix
  · rintro ⟨before, after, whole⟩
    refine ⟨part.toList ++ after, (List.mem_tails _ _).mpr ⟨before, ?_⟩, ?_⟩
    · rw [← List.append_assoc, whole]
    · exact List.isPrefixOf_iff_prefix.mpr (List.prefix_append _ _)

/-- Somewhere an `n` is followed by an `o`, in either case, also the `n` behind an apostrophe. -/
def HasNo (reply : List Char) : Prop :=
  ∃ a b, [a, b] <:+: reply ∧ (a = 'n' ∨ a = 'N' ∨ a = '\u0149') ∧ (b = 'o' ∨ b = 'O')

theorem isIn_no_iff (m : CaseMapping) (reply : String) :
    isIn "NO" ((textMethods m).upper ((textMethods m).strip reply)) = true ↔ HasNo reply.toList := by
  have upper : ((textMethods m).upper ((textMethods m).strip reply)).toList =
      (strip reply.toList).flatMap m.upperOf := by
    simp [textMethods, CaseMapping.upper]
  rw [isIn_iff, upper]
  have letters : "NO".toList = ['N', 'O'] := rfl
  rw [letters, CaseMapping.no_infix_upper_iff, HasNo]
  refine exists_congr fun a => exists_congr fun b => and_congr_left fun pair => ?_
  apply pair_infix_strip_iff
  · rcases pair.1 with rfl | rfl | rfl <;> decide
  · rcases pair.2 with rfl | rfl <;> decide

/-! ## The verdict -/

/-- The first word, of whatever counts as its characters. -/
def firstWord (isWord : Char → Bool) (reply : List Char) : List Char :=
  (reply.dropWhile fun c => !isWord c).takeWhile isWord

/-- The reply's first word is a yes. -/
def SaysYes (isWord : Char → Bool) (reply : String) : Prop :=
  (firstWord isWord reply.toList).map Char.toUpper = "YES".toList

instance (isWord : Char → Bool) (reply : String) : Decidable (SaysYes isWord reply) :=
  inferInstanceAs (Decidable (_ = _))

/-- The web search cannot be made, fails or finds nothing. -/
def NoHits (providers : Providers) (query : String) (topK : Int) : Prop :=
  ∀ search ∈ providers.tavily, ∀ hits, search query topK = .ok hits → hits = []

theorem fallbackWebSearch_eq_nil_iff {providers : Providers} {query : String} {topK : Int} :
    fallbackWebSearch providers query topK = [] ↔ NoHits providers query topK := by
  rw [fallbackWebSearch, NoHits]
  cases providers.tavily with
  | none => simp
  | some search =>
    cases found : search query topK with
    | error e => simp [found]
    | ok hits => simp [found]

section Verdict
variable {index : SearchIndex} {text : TextMethods} {providers : Providers} {query : String}
  {tenantId : UUID} {topK candidateMultiplier : Int} {dense sparse : SessionVars} {db : Database}
  {denseRows sparseRows : List CandidateRow} {internal : List SearchResult}

/-- The results once both statements have returned rows that fuse to some chunks. -/
theorem hybridSearch_results
    (candidates : hybridCandidates index query tenantId topK candidateMultiplier dense sparse db =
      .ok (.ok denseRows, .ok sparseRows))
    (fused : (reciprocalRankFusion denseRows sparseRows topK).map SearchResult.chunk = internal)
    (some_ : internal ≠ []) :
    (hybridSearch index text providers query tenantId topK candidateMultiplier dense sparse db).map
      Prod.fst = .ok (if evaluateChunks text providers query internal = true then internal
        else match fallbackWebSearch providers query topK with
          | [] => internal
          | web => web.map SearchResult.web) := by
  have found : internal.isEmpty = false := by simpa using some_
  rw [hybridSearch, candidates]
  simp only [bind, Except.bind, fused, found, Bool.not_false, Bool.true_and]
  rfl

/-- No web result is one of the internal chunks. -/
theorem web_ne_internal
    (fused : (reciprocalRankFusion denseRows sparseRows topK).map SearchResult.chunk = internal)
    (some_ : internal ≠ []) (web : List RankedWebResult) : web.map SearchResult.web ≠ internal := by
  intro same
  rw [← fused] at same some_
  cases chunks : reciprocalRankFusion denseRows sparseRows topK with
  | nil =>
    rw [chunks] at some_
    exact some_ rfl
  | cons r rest =>
    rw [chunks] at same
    cases web with
    | nil => cases same
    | cons hit hits => cases (List.cons.inj same).1

end Verdict

/-- A positive verdict keeps the internal chunks exactly if no word of the reply has the two
letters, or the web has nothing to replace them with. -/
theorem positive_verdict_keeps_iff (isWord : Char → Bool) (m : CaseMapping) (index : SearchIndex)
    (providers : Providers) (query : String) (tenantId : UUID) (topK candidateMultiplier : Int)
    (dense sparse : SessionVars) (db : Database) {denseRows sparseRows : List CandidateRow}
    {internal : List SearchResult} {create : List (String × String) → Except String (Option String)}
    {reply : String}
    (candidates : hybridCandidates index query tenantId topK candidateMultiplier dense sparse db =
      .ok (.ok denseRows, .ok sparseRows))
    (fused : (reciprocalRankFusion denseRows sparseRows topK).map SearchResult.chunk = internal)
    (some_ : internal ≠ []) (groq : providers.groq = some create)
    (replies : create [("user", evaluationPrompt query internal)] = .ok (some reply)) :
    (SaysYes isWord reply → (hybridSearch index (textMethods m) providers query tenantId topK
        candidateMultiplier dense sparse db).map Prod.fst = .ok internal) ↔
      (SaysYes isWord reply → ¬ HasNo reply.toList ∨ NoHits providers query topK) := by
  have verdict := evaluateChunks_reply (textMethods m) groq replies
  have letters := isIn_no_iff m reply
  rw [hybridSearch_results candidates fused some_, verdict, ← letters, ← fallbackWebSearch_eq_nil_iff]
  apply imp_congr_right
  intro _
  cases isIn "NO" ((textMethods m).upper ((textMethods m).strip reply)) with
  | false => simp
  | true =>
    cases web : fallbackWebSearch providers query topK with
    | nil => simp
    | cons hit hits =>
      have other := web_ne_internal fused some_ (hit :: hits)
      simpa using other

namespace Demo

def index : SearchIndex where
  encode texts := .ok (texts.map fun _ => [1])
  distance _ _ := 0
  tsMatches content query := content = query
  tsRankCd _ _ := 1

/-- One document of tenant 2, with its only chunk. -/
def db : Database where
  users := [⟨1, "a@example.com", true⟩]
  organizations := [⟨2, "A", "a", 0⟩]
  orgMemberships := [⟨3, 2, 1, .admin, 0⟩]
  documents := [⟨4, 1, 2, "a.txt", "h", 5, none, none, .ready, 1, none, 10, 20, none⟩]
  chunks := [⟨6, 4, 1, 2, "hello", none, 0, [1], 20⟩]
  ingestionJobs := []

def session : SessionVars := ⟨some (str 2), none⟩

def chunkRow : CandidateRow := ⟨6, 4, "hello", 0, none, "a.txt", 0⟩

/-- The chunk with twice the score of a first rank. -/
def found : List SearchResult := [.chunk (rankedChunk (32787 / 1000000) chunkRow)]

def create (reply : String) : List (String × String) → Except String (Option String) :=
  fun _ => .ok (some reply)

/-- The model gives the reply, and the web search finds one page. -/
def providers (reply : String) : Providers where
  groq := some (create reply)
  tavily := some fun _ _ => .ok [⟨some "https://example.com", some "Hello", some "hello", some 1⟩]

theorem candidates : hybridCandidates index "hello" 2 5 2 session session db =
    .ok (.ok [chunkRow], .ok [{ chunkRow with score := 1 }]) := by decide +kernel

theorem fused : (reciprocalRankFusion [chunkRow] [{ chunkRow with score := 1 }] 5).map
    SearchResult.chunk = found := by decide +kernel

end Demo

theorem positive_verdict_keeps_plain_yes :
    (SaysYes Char.isAlpha "Yes." → (hybridSearch Demo.index (textMethods asciiMapping)
        (Demo.providers "Yes.") "hello" 2 5 2 Demo.session Demo.session Demo.db).map Prod.fst =
          .ok Demo.found) ↔
      (SaysYes Char.isAlpha "Yes." → ¬ HasNo "Yes.".toList ∨ NoHits (Demo.providers "Yes.") "hello" 5) :=
  positive_verdict_keeps_iff Char.isAlpha asciiMapping Demo.index (Demo.providers "Yes.") "hello" 2 5 2
    Demo.session Demo.session Demo.db Demo.candidates Demo.fused (List.cons_ne_nil _ _) rfl rfl

/-- What is known contains a no. -/
theorem known_is_replaced :
    SaysYes Char.isAlpha "Yes, it is known." ∧
      (hybridSearch Demo.index (textMethods asciiMapping) (Demo.providers "Yes, it is known.") "hello"
        2 5 2 Demo.session Demo.session Demo.db).map Prod.fst =
          .ok [.web ⟨"https://example.com", "Hello", "hello", 1⟩] ∧
      ¬ (hybridSearch Demo.index (textMethods asciiMapping) (Demo.providers "Yes, it is known.") "hello"
        2 5 2 Demo.session Demo.session Demo.db).map Prod.fst = .ok Demo.found := by
  have replaced : (hybridSearch Demo.index (textMethods asciiMapping)
      (Demo.providers "Yes, it is known.") "hello" 2 5 2 Demo.session Demo.session Demo.db).map Prod.fst =
        .ok [.web ⟨"https://example.com", "Hello", "hello", 1⟩] := by
    rw [hybridSearch_results Demo.candidates Demo.fused (List.cons_ne_nil _ _)]
    decide +kernel
  refine ⟨by decide +kernel, replaced, ?_⟩
  rw [replaced]
  decide

end EvaluatorVerdict
