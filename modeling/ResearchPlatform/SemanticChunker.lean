import ResearchPlatform.ChunkOverlap
import Mathlib.Data.Rat.Floor

/-!
# The semantic text chunker

`SemanticTextChunker` of `ingestion/pipeline.py`: sentences, windows of them, their
embeddings and the distances between these, and groups of sentences cut where the
distance is large. The numbers are of any type with the operations that the chunker
uses; the embedder is a function.
-/

namespace TextChunker

open Schema Segments

/-- What the chunker does with floating-point numbers. Nothing is assumed of it. -/
class Floats (K : Type) extends Add K, Sub K, Mul K, Div K where
  ofInt : Int → K
  le : K → K → Bool
  /-- `int`. -/
  trunc : K → Int

instance : Floats ℚ where
  ofInt n := n
  le a b := decide (a ≤ b)
  trunc a := if 0 ≤ a then ⌊a⌋ else ⌈a⌉

/-- `xs[i]`, which counts from the end below zero. -/
def item {α : Type} (xs : List α) (i : Int) : Except Failure α :=
  match if i < 0 then (if -i ≤ xs.length then xs[(xs.length + i).toNat]? else none) else xs[i.toNat]? with
  | some x => .ok x
  | none => .error .indexError

/-! ## Sentences -/

/-- Where the scan for `(?<=[.!?])\s+` stands: behind a character that ends a sentence,
in the white space behind it, or elsewhere. -/
inductive Scan where
  | inside
  | ended
  | between

def scanned (ch : Char) : Scan := if ch = '.' ∨ ch = '!' ∨ ch = '?' then .ended else .inside

/-- `sentence_endings.split`. -/
def splitEndings : Scan → Text → List Text
  | _, [] => [[]]
  | .inside, ch :: rest => (splitEndings (scanned ch) rest).modifyHead (ch :: ·)
  | .ended, ch :: rest =>
    if isSpace ch then [] :: splitEndings .between rest
    else (splitEndings (scanned ch) rest).modifyHead (ch :: ·)
  | .between, ch :: rest =>
    if isSpace ch then splitEndings .between rest
    else (splitEndings (scanned ch) rest).modifyHead (ch :: ·)

/-- The parts that are not blank, stripped. -/
def stripped (parts : List Text) : List Text :=
  (parts.filter fun part => strip part ≠ []).map strip

/-- The sentences of a stripped text. -/
def sentences (text : Text) : List Text := stripped (splitEndings .inside text)

/-! ## The chunker -/

structure SemanticTextChunker (K : Type) where
  embedder : List Text → List (List K)
  thresholdPercentile : K
  maxChunkSize : Nat
  bufferSize : Nat

namespace SemanticTextChunker

variable {K : Type} [Floats K]

/-- The windows around each sentence. -/
def windows (bufferSize : Nat) (sentences : List Text) : List Text :=
  (List.range sentences.length).map fun i =>
    join [' '] (slice sentences (i - bufferSize) (min sentences.length (i + bufferSize + 1)))

def similarity (vec1 vec2 : List K) : K :=
  (List.zipWith (· * ·) vec1 vec2).foldl (· + ·) (Floats.ofInt 0)

/-- The distances between adjacent windows. -/
def distances (embeddings : List (List K)) : List K :=
  (List.zipWith similarity embeddings embeddings.tail).map fun sim => Floats.ofInt 1 - sim

/-- `_percentile`. -/
def percentile (data : List K) (percentile : K) : Except Failure K :=
  if data.isEmpty then .ok (Floats.ofInt 0)
  else do
    let sortedData := data.mergeSort Floats.le
    let last : Int := sortedData.length - 1
    let k := Floats.ofInt last * (percentile / Floats.ofInt 100)
    let f := Floats.trunc k
    let c := min (f + 1) last
    let low ← item sortedData f
    let high ← item sortedData c
    return low + (k - Floats.ofInt f) * (high - low)

/-- `split_indices`. -/
def splitIndices (threshold : K) (distances : List K) : List Nat :=
  (distances.zipIdx.filter fun dist => Floats.le threshold dist.1).map Prod.snd

/-- The loop that groups the sentences, from the sentence at `idx` on. -/
def groupFrom (splitIndices : List Nat) : Nat → List Text → List Text → List Text
  | _, current, [] => if current = [] then [] else [join [' '] current]
  | idx, current, sentence :: rest =>
    if idx ∈ splitIndices then
      join [' '] (current ++ [sentence]) :: groupFrom splitIndices (idx + 1) [] rest
    else groupFrom splitIndices (idx + 1) (current ++ [sentence]) rest

/-- The chunks that are too long, split by the fallback chunker. -/
def enforced (maxChunkSize : Nat) (chunks : List Text) : Except Failure (List Text) := do
  let fallbackChunker ← RecursiveTextChunker.new maxChunkSize 0
  return chunks.flatMap fun chunk =>
    if maxChunkSize < chunk.length then fallbackChunker.chunk chunk else [chunk]

def chunk (c : SemanticTextChunker K) (text : Text) : Except Failure (List Text) :=
  let text := strip text
  if text = [] then .ok []
  else
    let sentences := sentences text
    if sentences.length ≤ 1 then .ok sentences
    else
      let distances := distances (c.embedder (windows c.bufferSize sentences))
      if distances.isEmpty then .ok [join [' '] sentences]
      else do
        let threshold ← percentile distances c.thresholdPercentile
        let chunks := groupFrom (splitIndices threshold distances) 0 [] sentences
        let finalChunks ← enforced c.maxChunkSize chunks
        return stripped finalChunks

/-! ## Sizes -/

theorem windows_length (bufferSize : Nat) (sentences : List Text) :
    (windows bufferSize sentences).length = sentences.length := by
  simp [windows]

theorem distances_length (embeddings : List (List K)) :
    (distances embeddings).length = embeddings.length - 1 := by
  rw [distances, List.length_map, List.length_zipWith, List.length_tail]
  exact min_eq_right (Nat.sub_le _ 1)

theorem length_of_mem_stripped {parts : List Text} {bound : Nat}
    (h : ∀ part ∈ parts, part.length ≤ bound) : ∀ part ∈ stripped parts, part.length ≤ bound := by
  intro part mem
  obtain ⟨whole, kept, rfl⟩ := List.mem_map.mp mem
  exact (strip_isInfix whole).length_le.trans (h whole (List.mem_filter.mp kept).1)

/-- The fallback chunker adds no overlap, so its chunks keep the size. -/
theorem length_of_mem_enforced {maxChunkSize : Nat} {chunks finalChunks : List Text}
    (h : enforced maxChunkSize chunks = .ok finalChunks) :
    ∀ chunk ∈ finalChunks, chunk.length ≤ maxChunkSize := by
  rw [enforced, RecursiveTextChunker.new] at h
  split at h
  · cases h
    intro chunk mem
    obtain ⟨whole, -, mem⟩ := List.mem_flatMap.mp mem
    split at mem
    · by_cases blank : strip whole = []
      · simp [RecursiveTextChunker.chunk, blank] at mem
      · exact RecursiveTextChunker.split_small rfl (by decide) chunk
          ((RecursiveTextChunker.mem_chunk blank).mp mem).1
    · rename_i fits
      exact List.mem_singleton.mp mem ▸ Nat.not_lt.mp fits
  · cases h

theorem chunk_of_sentence {c : SemanticTextChunker K} {text s : Text}
    (h : sentences (strip text) = [s]) : c.chunk text = .ok [s] := by
  have some_ : strip text ≠ [] := by
    intro blank
    rw [blank] at h
    cases h
  simp [chunk, some_, h]

/-- The chunks keep the size limit, unless the text is one sentence, which is returned
as it is. -/
theorem chunk_length_le_max (c : SemanticTextChunker K)
    (perWindow : ∀ windows, (c.embedder windows).length = windows.length) (text : Text) :
    (∀ chunks, c.chunk text = .ok chunks → ∀ chunk ∈ chunks, chunk.length ≤ c.maxChunkSize) ↔
      ¬ ∃ s, sentences (strip text) = [s] ∧ c.maxChunkSize < s.length := by
  constructor
  · rintro bounded ⟨s, alone, long⟩
    exact Nat.not_le.mpr long (bounded [s] (chunk_of_sentence alone) s (List.mem_singleton_self s))
  · intro fits chunks h
    rw [chunk] at h
    by_cases blank : strip text = []
    · rw [if_pos blank] at h
      cases h
      exact fun chunk mem => nomatch mem
    rw [if_neg blank] at h
    by_cases few : (sentences (strip text)).length ≤ 1
    · rw [if_pos few] at h
      cases h
      intro s mem
      obtain ⟨s', alone⟩ : ∃ s', sentences (strip text) = [s'] := by
        rw [← List.length_eq_one_iff]
        exact le_antisymm few (List.length_pos_of_mem mem)
      rw [alone] at mem
      rw [List.mem_singleton.mp mem]
      exact Nat.not_lt.mp fun long => fits ⟨s', alone, long⟩
    · rw [if_neg few] at h
      have some_ : (distances (c.embedder (windows c.bufferSize (sentences (strip text))))).isEmpty =
          false := by
        rw [List.isEmpty_eq_false_iff, ← List.length_pos_iff, distances_length, perWindow,
          windows_length]
        omega
      simp only [some_, Bool.false_eq_true, if_false] at h
      obtain ⟨threshold, _, h⟩ := of_bind_ok h
      obtain ⟨finalChunks, hfinal, h⟩ := of_bind_ok h
      cases h
      exact length_of_mem_stripped (length_of_mem_enforced hfinal)

theorem two_sentences : ¬ ∃ s, sentences (strip "Abc. Defgh.".toList) = [s] ∧ 8 < s.length := by
  have two : sentences (strip "Abc. Defgh.".toList) = ["Abc.".toList, "Defgh.".toList] := by decide
  rintro ⟨s, alone, -⟩
  rw [two] at alone
  cases alone

/-- Two sentences longer than a chunk together. -/
theorem chunk_length_two_sentences :
    (¬ ∃ s, sentences (strip "Abc. Defgh.".toList) = [s] ∧ 8 < s.length) ∧ ∀ chunks,
      (⟨List.map fun _ => [1], 60, 8, 1⟩ : SemanticTextChunker ℚ).chunk "Abc. Defgh.".toList =
        .ok chunks → ∀ chunk ∈ chunks, chunk.length ≤ 8 :=
  ⟨two_sentences, (chunk_length_le_max (⟨List.map fun _ => [1], 60, 8, 1⟩ : SemanticTextChunker ℚ)
    (fun _ => List.length_map _) "Abc. Defgh.".toList).mpr two_sentences⟩

/-- A single sentence of nine characters for chunks of eight. -/
theorem chunk_length_one_sentence : ¬ ∀ chunks,
    (⟨List.map fun _ => [1], 60, 8, 1⟩ : SemanticTextChunker ℚ).chunk "Abcdefgh.".toList =
      .ok chunks → ∀ chunk ∈ chunks, chunk.length ≤ 8 := by
  intro bounded
  have alone : sentences (strip "Abcdefgh.".toList) = ["Abcdefgh.".toList] := by decide
  exact absurd (bounded _ (chunk_of_sentence alone) _ (List.mem_singleton_self _)) (by decide)

end SemanticTextChunker

end TextChunker
