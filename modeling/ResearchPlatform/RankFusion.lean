import ResearchPlatform.RetrievalService
import ResearchPlatform.Library.Tallies
import Mathlib.Data.Finset.Card
import Mathlib.Data.Rat.Floor
import Mathlib.Tactic.Linarith

/-!
# What rank fusion returns

The two loops of `_reciprocal_rank_fusion` add up to a score for each chunk, in the
order in which the chunks are first seen; the sort keeps that order among equal scores.
The scores that are returned are rounded, those that are compared are not.
-/

namespace RankFusion

open Uuid Schema RetrievalService Tallies Numerals

/-! ## The definition -/

def chunkIds (rows : List CandidateRow) : List UUID := rows.map CandidateRow.chunkId

/-- `1 / (k + rank)` for a chunk that the list contains. -/
def reciprocalRank (rows : List CandidateRow) (chunkId : UUID) : Rat :=
  match rows.findIdx? fun row => row.chunkId = chunkId with
  | some i => 1 / (rrfK + (i + 1 : Nat))
  | none => 0

section Fusion
variable (denseRows sparseRows : List CandidateRow)

/-- The RRF score before it is rounded. -/
def fusedScore (chunkId : UUID) : Rat := reciprocalRank denseRows chunkId + reciprocalRank sparseRows chunkId

/-- The chunks in the order of their first appearance. -/
def seen : List UUID :=
  chunkIds denseRows ++ (chunkIds sparseRows).filter fun chunkId =>
    !denseRows.any fun row => row.chunkId = chunkId

structure Fused (topK : Int) (results : List RankedChunk) : Prop where
  size : results.length = min topK.toNat (chunkIds (denseRows ++ sparseRows)).toFinset.card
  distinct : (results.map RankedChunk.chunkId).Nodup
  score : ∀ r ∈ results, r.score = round6 (fusedScore denseRows sparseRows r.chunkId)
  decreasing : results.Pairwise fun a b => b.score ≤ a.score
  order : results.Pairwise fun a b =>
    fusedScore denseRows sparseRows b.chunkId < fusedScore denseRows sparseRows a.chunkId ∨
      fusedScore denseRows sparseRows a.chunkId = fusedScore denseRows sparseRows b.chunkId ∧
        [a.chunkId, b.chunkId].Sublist (seen denseRows sparseRows)
  omitted : ∀ row ∈ denseRows ++ sparseRows, row.chunkId ∉ results.map RankedChunk.chunkId →
    ∀ r ∈ results,
      fusedScore denseRows sparseRows row.chunkId ≤ fusedScore denseRows sparseRows r.chunkId
  metadata : ∀ r ∈ results, ∃ row, r = rankedChunk r.score row ∧
    (row ∈ denseRows ∨ row ∈ sparseRows ∧ r.chunkId ∉ chunkIds denseRows)

end Fusion

/-! ## The loops -/

theorem any_chunkId (rows : List CandidateRow) (chunkId : UUID) :
    (rows.any fun row => row.chunkId = chunkId) = decide (chunkId ∈ chunkIds rows) := by
  rw [Bool.eq_iff_iff]
  simp [chunkIds]

/-- The chunks of the sparse list that are new come behind the dense ones. -/
theorem seen_eq (denseRows sparseRows : List CandidateRow) : seen denseRows sparseRows =
    chunkIds denseRows ++ (chunkIds sparseRows).filter fun chunkId => chunkId ∉ chunkIds denseRows := by
  simp only [seen, any_chunkId, decide_not]

/-- What a pass over a list adds. -/
def gains (rows : List CandidateRow) : List (UUID × Rat) :=
  (rows.zipIdx 1).map fun x => (x.1.chunkId, 1 / (rrfK + x.2))

theorem addScores_eq (scores : List (UUID × Rat)) (rows : List CandidateRow) :
    addScores scores rows = addAll scores (gains rows) := by
  rw [addScores, addAll, gains, List.foldl_map]
  rfl

theorem gains_keys (rows : List CandidateRow) : (gains rows).map Prod.fst = chunkIds rows := by
  rw [gains, List.map_map, chunkIds]
  conv_rhs => rw [← List.zipIdx_map_fst 1 rows, List.map_map]
  rfl

theorem total_gains {rows : List CandidateRow} (nodup : (chunkIds rows).Nodup) (chunkId : UUID) :
    total (gains rows) chunkId = reciprocalRank rows chunkId := by
  rw [reciprocalRank]
  cases found : rows.findIdx? fun row => row.chunkId = chunkId with
  | some i =>
    obtain ⟨inside, same, -⟩ := List.findIdx?_eq_some_iff_getElem.mp found
    refine total_of_mem (by rwa [gains_keys]) (List.mem_map.mpr ⟨(rows[i], i + 1), ?_, ?_⟩)
    · rw [List.mem_zipIdx_iff_le_and_getElem?_sub]
      simp [inside]
    · rw [of_decide_eq_true same]
  | none =>
    refine total_of_not_mem ?_
    rw [gains_keys]
    intro inside
    obtain ⟨row, mem, rfl⟩ := List.mem_map.mp inside
    simpa using List.findIdx?_eq_none_iff.mp found row mem

section Fusion
variable {denseRows sparseRows : List CandidateRow}

theorem seen_nodup (dense : (chunkIds denseRows).Nodup) (sparse : (chunkIds sparseRows).Nodup) :
    (seen denseRows sparseRows).Nodup := by
  rw [seen_eq]
  refine dense.append (sparse.filter _) fun chunkId inDense inSparse => ?_
  exact of_decide_eq_true (List.mem_filter.mp inSparse).2 inDense

theorem mem_seen {chunkId : UUID} :
    chunkId ∈ seen denseRows sparseRows ↔ chunkId ∈ chunkIds denseRows ∨ chunkId ∈ chunkIds sparseRows := by
  simp only [seen_eq, List.mem_append, List.mem_filter, decide_eq_true_eq]
  tauto

/-- Both passes together: each chunk once, where it is first seen, with its score. -/
theorem scores_eq (dense : (chunkIds denseRows).Nodup) (sparse : (chunkIds sparseRows).Nodup) :
    addScores (addScores [] denseRows) sparseRows =
      (seen denseRows sparseRows).map fun chunkId => (chunkId, fusedScore denseRows sparseRows chunkId) := by
  rw [addScores_eq, addScores_eq]
  have start : (([] : List (UUID × Rat)).map Prod.fst).Nodup := List.nodup_nil
  have first := nodup_addAll start (gains denseRows)
  have keys : (addAll (addAll [] (gains denseRows)) (gains sparseRows)).map Prod.fst =
      seen denseRows sparseRows := by
    rw [keys_addAll (by rwa [gains_keys]), keys_addAll (by rwa [gains_keys]), gains_keys, gains_keys, seen_eq]
    simp
  have value (x : UUID × Rat) (mem : x ∈ addAll (addAll [] (gains denseRows)) (gains sparseRows)) :
      (x.1, fusedScore denseRows sparseRows x.1) = x := by
    have whole := total_of_mem (nodup_addAll first (gains sparseRows)) mem
    rw [total_addAll first, total_addAll start, total_nil, zero_add, total_gains dense,
      total_gains sparse] at whole
    exact Prod.ext rfl whole
  rw [← keys, List.map_map]
  exact ((List.map_congr_left value).trans (List.map_id _)).symm

/-- The chunks, best first. -/
theorem sorted_eq (dense : (chunkIds denseRows).Nodup) (sparse : (chunkIds sparseRows).Nodup) :
    (addScores (addScores [] denseRows) sparseRows).insertionSort (fun a b => b.2 ≤ a.2) =
      (ranking (fusedScore denseRows sparseRows) (seen denseRows sparseRows)).map fun chunkId =>
        (chunkId, fusedScore denseRows sparseRows chunkId) := by
  rw [scores_eq dense sparse]
  exact ranking_map Prod.snd _ _

/-- The row of a chunk that has been seen is a dense one if there is one. -/
theorem fusedRow_seen {chunkId : UUID} (h : chunkId ∈ seen denseRows sparseRows) :
    ∃ row, fusedRow denseRows sparseRows chunkId = some row ∧ row.chunkId = chunkId ∧
      (row ∈ denseRows ∨ row ∈ sparseRows ∧ chunkId ∉ chunkIds denseRows) := by
  rw [fusedRow]
  cases found : (denseRows.filter fun r => r.chunkId = chunkId).getLast? with
  | some row =>
    have mem := List.mem_filter.mp (List.mem_of_getLast? found)
    exact ⟨row, rfl, of_decide_eq_true mem.2, .inl mem.1⟩
  | none =>
    have out : chunkId ∉ chunkIds denseRows := by
      rintro inside
      obtain ⟨row, mem, rfl⟩ := List.mem_map.mp inside
      have kept : row ∈ denseRows.filter fun r => r.chunkId = row.chunkId := by simp [mem]
      rw [List.getLast?_eq_none_iff.mp found] at kept
      cases kept
    obtain ⟨row, mem, same⟩ := List.mem_map.mp ((mem_seen.mp h).resolve_left out)
    cases first : sparseRows.find? fun r => r.chunkId = chunkId with
    | none => exact absurd (decide_eq_true same) (by simpa using List.find?_eq_none.mp first row mem)
    | some other =>
      exact ⟨other, rfl, by simpa using List.find?_some first,
        .inr ⟨List.mem_of_find?_eq_some first, out⟩⟩

/-! ## The results -/

/-- The best chunks. -/
def best (denseRows sparseRows : List CandidateRow) (topK : Int) : List UUID :=
  (ranking (fusedScore denseRows sparseRows) (seen denseRows sparseRows)).take topK.toNat

theorem best_sublist (topK : Int) : (best denseRows sparseRows topK).Sublist
    (ranking (fusedScore denseRows sparseRows) (seen denseRows sparseRows)) :=
  List.take_sublist _ _

theorem seen_of_mem_best {topK : Int} {chunkId : UUID} (h : chunkId ∈ best denseRows sparseRows topK) :
    chunkId ∈ seen denseRows sparseRows :=
  (ranking_perm _ _).mem_iff.mp ((best_sublist topK).subset h)

theorem best_nodup (dense : (chunkIds denseRows).Nodup) (sparse : (chunkIds sparseRows).Nodup)
    (topK : Int) : (best denseRows sparseRows topK).Nodup :=
  ((ranking_perm _ _).nodup_iff.mpr (seen_nodup dense sparse)).sublist (best_sublist topK)

section Results
variable (dense : (chunkIds denseRows).Nodup) (sparse : (chunkIds sparseRows).Nodup) {topK : Int}
  (some_ : 1 ≤ topK)
include dense sparse some_

theorem results_eq : reciprocalRankFusion denseRows sparseRows topK =
    (best denseRows sparseRows topK).filterMap fun chunkId =>
      (fusedRow denseRows sparseRows chunkId).map fun row =>
        rankedChunk (round6 (fusedScore denseRows sparseRows chunkId)) row := by
  simp only [reciprocalRankFusion]
  rw [sorted_eq dense sparse, pySlice, if_neg (by omega), ← List.map_take, List.filterMap_map]
  rfl

theorem mem_results {r : RankedChunk} (h : r ∈ reciprocalRankFusion denseRows sparseRows topK) :
    r.chunkId ∈ best denseRows sparseRows topK ∧
      r.score = round6 (fusedScore denseRows sparseRows r.chunkId) ∧
      ∃ row, r = rankedChunk r.score row ∧
        (row ∈ denseRows ∨ row ∈ sparseRows ∧ r.chunkId ∉ chunkIds denseRows) := by
  rw [results_eq dense sparse some_] at h
  obtain ⟨chunkId, top, made⟩ := List.mem_filterMap.mp h
  obtain ⟨row, found, rfl, source⟩ := fusedRow_seen (seen_of_mem_best top)
  rw [found] at made
  cases made
  exact ⟨top, rfl, row, rfl, source⟩

/-- One result for each of the best chunks. -/
theorem results_ids : (reciprocalRankFusion denseRows sparseRows topK).map RankedChunk.chunkId =
    best denseRows sparseRows topK := by
  rw [results_eq dense sparse some_, List.map_filterMap]
  have each (chunkId : UUID) (top : chunkId ∈ best denseRows sparseRows topK) :
      ((fusedRow denseRows sparseRows chunkId).map fun row =>
        rankedChunk (round6 (fusedScore denseRows sparseRows chunkId)) row).map RankedChunk.chunkId =
          some chunkId := by
    obtain ⟨row, found, rfl, -⟩ := fusedRow_seen (seen_of_mem_best top)
    rw [found]
    rfl
  exact (List.filterMap_congr each).trans List.filterMap_some

end Results

end Fusion

/-! ## Rounding -/

theorem round6_mono {x y : Rat} (h : x ≤ y) : round6 x ≤ round6 y := by
  rw [round6, round6]
  have scaled : roundHalfEven (x * 1000000) ≤ roundHalfEven (y * 1000000) :=
    roundHalfEven_mono (by linarith)
  have cast : ((roundHalfEven (x * 1000000) : Int) : Rat) ≤ (roundHalfEven (y * 1000000) : Int) :=
    Int.cast_le.mpr scaled
  linarith

theorem rank_fusion_fused (denseRows sparseRows : List CandidateRow)
    (dense : (chunkIds denseRows).Nodup) (sparse : (chunkIds sparseRows).Nodup) (topK : Int)
    (some_ : 1 ≤ topK) :
    Fused denseRows sparseRows topK (reciprocalRankFusion denseRows sparseRows topK) := by
  have ids := results_ids dense sparse some_
  have nodup := best_nodup dense sparse topK
  have order := ranking_stable (fusedScore denseRows sparseRows) (seen denseRows sparseRows)
  have kept := order.sublist (best_sublist topK)
  rw [← ids, List.pairwise_map] at kept
  have union : (seen denseRows sparseRows).toFinset = (chunkIds (denseRows ++ sparseRows)).toFinset := by
    ext chunkId
    rw [List.mem_toFinset, List.mem_toFinset, mem_seen]
    simp [chunkIds]
  refine ⟨?_, ids ▸ nodup, fun r h => (mem_results dense sparse some_ h).2.1, ?_, kept, ?_,
    fun r h => (mem_results dense sparse some_ h).2.2⟩
  · rw [← List.length_map RankedChunk.chunkId, ids, best, List.length_take,
      (ranking_perm _ _).length_eq, ← union, List.toFinset_card_of_nodup (seen_nodup dense sparse)]
  · refine kept.imp_of_mem fun {a b} ha hb before => ?_
    rw [(mem_results dense sparse some_ ha).2.1, (mem_results dense sparse some_ hb).2.1]
    exact round6_mono (before.elim le_of_lt fun tie => tie.1.ge)
  · intro row mem out r h
    rw [ids] at out
    refine score_le_of_omitted _ _ (mem_results dense sparse some_ h).1 (mem_seen.mpr ?_) out
    exact (List.mem_append.mp mem).imp List.mem_map_of_mem List.mem_map_of_mem

namespace Demo

def row (chunkId : UUID) : CandidateRow := ⟨chunkId, 1, "text", 0, none, "a.txt", 0⟩

end Demo

/-- One chunk in both lists, and one in each of them that ties with the other. -/
theorem rank_fusion_fused_ties :
    Fused [Demo.row 1, Demo.row 2] [Demo.row 1, Demo.row 3] 2
      (reciprocalRankFusion [Demo.row 1, Demo.row 2] [Demo.row 1, Demo.row 3] 2) :=
  rank_fusion_fused _ _ (by decide) (by decide) 2 (by decide)

/-- One dense row scores `1 / 61`, and its result has the six decimals `0.016393`. -/
theorem fused_score_is_rounded :
    reciprocalRankFusion [Demo.row 1] [] 5 = [rankedChunk (16393 / 1000000) (Demo.row 1)] ∧
      ¬ ∀ r ∈ reciprocalRankFusion [Demo.row 1] [] 5, r.score = fusedScore [Demo.row 1] [] r.chunkId := by
  have rounded : reciprocalRankFusion [Demo.row 1] [] 5 =
      [rankedChunk (16393 / 1000000) (Demo.row 1)] := by
    decide +kernel
  have exact_ : fusedScore [Demo.row 1] [] 1 = 1 / 61 := by decide +kernel
  refine ⟨rounded, fun same => ?_⟩
  rw [rounded] at same
  have equal := (same _ List.mem_cons_self).trans exact_
  revert equal
  norm_num [rankedChunk]

end RankFusion
