import ResearchPlatform.RankFusion
import Mathlib.Tactic.NormNum

/-!
# Chunks of both lists against chunks of one

A chunk of both lists has two small scores, a chunk of one list has at most the score of
a first rank. Whether the two are more depends on how long the lists may be.
-/

namespace RankFusion

open Uuid Schema RowLevelSecurity RetrievalService Tallies

/-! ## Ids of the statements' rows -/

section Statements
variable {db : Database} (docIds : (db.documents.map Document.id).Nodup)
  (ids : (db.chunks.map Chunk.id).Nodup) (tenantId : UUID)
include docIds ids

theorem liveChunks_nodup : ((liveChunks tenantId db).map fun x => x.1.id).Nodup := by
  have own : ((db.chunks.filter fun c => c.tenantId = tenantId).map Chunk.id).Nodup :=
    ids.sublist (List.filter_sublist.map Chunk.id)
  rw [liveChunks, List.map_flatMap, List.nodup_flatMap]
  constructor
  · intro c _
    -- a chunk has one document at most
    have single : ((db.documents.filter fun d => d.id = c.documentId && d.deletedAt.isNone).map
        Document.id).Nodup := docIds.sublist (List.filter_sublist.map Document.id)
    rw [List.map_map]
    refine (List.Nodup.of_map _ single).map_on fun d hd e he _ => ?_
    have left := (List.mem_filter.mp hd).2
    have right := (List.mem_filter.mp he).2
    simp only [Bool.and_eq_true, decide_eq_true_eq] at left right
    exact List.inj_on_of_nodup_map docIds (List.mem_filter.mp hd).1 (List.mem_filter.mp he).1
      (left.1.trans right.1.symm)
  · rw [List.nodup_iff_pairwise_ne, List.pairwise_map] at own
    refine own.imp fun {c e} other => ?_
    intro id hc he
    simp only [List.mem_map] at hc he
    obtain ⟨_, ⟨_, _, rfl⟩, rfl⟩ := hc
    obtain ⟨_, ⟨_, _, rfl⟩, same⟩ := he
    exact other same.symm

omit docIds ids in
/-- A statement makes a row of each pair, orders the rows and cuts them off. -/
theorem limited_rows {pairs : List (Chunk × Document)} (once : (pairs.map fun x => x.1.id).Nodup)
    {score : Chunk × Document → Rat} {before : CandidateRow → CandidateRow → Prop} [DecidableRel before]
    {limit : Int} {rows : List CandidateRow}
    (h : sqlLimit limit ((pairs.map fun x => candidateRow (score x) x.1 x.2).insertionSort before) =
      .ok rows) : rows.length ≤ limit.toNat ∧ (chunkIds rows).Nodup := by
  rw [sqlLimit] at h
  split at h
  · cases h
  · cases h
    constructor
    · exact List.length_take_le _ _
    · apply List.Nodup.sublist ((List.take_sublist _ _).map _)
      rw [((List.perm_insertionSort _ _).map CandidateRow.chunkId).nodup_iff, List.map_map]
      exact once

theorem denseSql_rows {index : SearchIndex} {queryVec : Embedding} {limit : Int}
    {rows : List CandidateRow} (h : denseSql index queryVec tenantId limit db = .ok rows) :
    rows.length ≤ limit.toNat ∧ (chunkIds rows).Nodup :=
  limited_rows (liveChunks_nodup docIds ids tenantId) h

theorem sparseSql_rows {index : SearchIndex} {query : String} {limit : Int}
    {rows : List CandidateRow} (h : sparseSql index query tenantId limit db = .ok rows) :
    rows.length ≤ limit.toNat ∧ (chunkIds rows).Nodup := by
  rw [sparseSql] at h
  split at h
  · cases h
  · have all := liveChunks_nodup docIds ids tenantId
    exact limited_rows (all.sublist (List.filter_sublist.map _)) h

end Statements

/-- Neither list of candidates is longer than asked for or names a chunk twice. -/
theorem hybridCandidates_rows {index : SearchIndex} {query : String} {tenantId : UUID}
    {topK candidateMultiplier : Int} {dense sparse : SessionVars} {db : Database}
    (docIds : (db.documents.map Document.id).Nodup) (ids : (db.chunks.map Chunk.id).Nodup)
    {denseRows sparseRows : List CandidateRow}
    (h : hybridCandidates index query tenantId topK candidateMultiplier dense sparse db =
      .ok (.ok denseRows, .ok sparseRows)) :
    (denseRows.length ≤ (topK * candidateMultiplier).toNat ∧ (chunkIds denseRows).Nodup) ∧
      sparseRows.length ≤ (topK * candidateMultiplier).toNat ∧ (chunkIds sparseRows).Nodup := by
  have visibleDocs (vars : SessionVars) : ((underPolicies vars db).documents.map Document.id).Nodup :=
    docIds.sublist (List.filter_sublist.map Document.id)
  have visibleChunks (vars : SessionVars) : ((underPolicies vars db).chunks.map Chunk.id).Nodup :=
    ids.sublist (List.filter_sublist.map Chunk.id)
  rw [hybridCandidates] at h
  cases embedded : embedQuery index query with
  | error e =>
    rw [embedded] at h
    cases h
  | ok queryEmbedding =>
    rw [embedded] at h
    have both := Prod.mk.inj (Except.ok.inj h)
    constructor
    · exact denseSql_rows (visibleDocs dense) (visibleChunks dense) tenantId both.1
    · exact sparseSql_rows (visibleDocs sparse) (visibleChunks sparse) tenantId both.2

/-! ## Bounds on a score -/

section Bounds
variable {rows : List CandidateRow} {chunkId : UUID}

theorem reciprocalRank_of_not_mem (out : chunkId ∉ chunkIds rows) : reciprocalRank rows chunkId = 0 := by
  have absent : rows.findIdx? (fun row => row.chunkId = chunkId) = none := by
    rw [List.findIdx?_eq_none_iff]
    intro row mem
    exact decide_eq_false fun same => out (List.mem_map.mpr ⟨row, mem, same⟩)
  rw [reciprocalRank, absent]

/-- A rank lies between the first and the last. -/
theorem reciprocalRank_of_mem (inside : chunkId ∈ chunkIds rows) :
    ∃ rank : Nat, 1 ≤ rank ∧ rank ≤ rows.length ∧ reciprocalRank rows chunkId = 1 / (60 + rank) := by
  obtain ⟨row, mem, same⟩ := List.mem_map.mp inside
  rw [reciprocalRank]
  cases found : rows.findIdx? fun row => row.chunkId = chunkId with
  | none => exact absurd same (of_decide_eq_false (List.findIdx?_eq_none_iff.mp found row mem))
  | some i =>
    obtain ⟨bound, -, -⟩ := List.findIdx?_eq_some_iff_getElem.mp found
    exact ⟨i + 1, by omega, by omega, rfl⟩

theorem reciprocalRank_le (rows : List CandidateRow) (chunkId : UUID) :
    reciprocalRank rows chunkId ≤ 1 / 61 := by
  by_cases inside : chunkId ∈ chunkIds rows
  · obtain ⟨rank, first, -, score⟩ := reciprocalRank_of_mem inside
    rw [score]
    have low : (1 : Rat) ≤ rank := by exact_mod_cast first
    apply one_div_le_one_div_of_le
    · norm_num
    · linarith
  · rw [reciprocalRank_of_not_mem inside]
    norm_num

theorem le_reciprocalRank (inside : chunkId ∈ chunkIds rows) :
    1 / (60 + (rows.length : Rat)) ≤ reciprocalRank rows chunkId := by
  obtain ⟨rank, -, last, score⟩ := reciprocalRank_of_mem inside
  rw [score]
  have high : (rank : Rat) ≤ rows.length := by exact_mod_cast last
  apply one_div_le_one_div_of_le
  · positivity
  · linarith

end Bounds

/-! ## Lists that are short enough -/

/-- Every chunk of both lists stands before every returned chunk of one list alone. -/
def BothFirst (denseRows sparseRows : List CandidateRow) (topK : Int) : Prop :=
  ∀ both one, both ∈ chunkIds denseRows → both ∈ chunkIds sparseRows →
    (one ∈ chunkIds denseRows ↔ one ∉ chunkIds sparseRows) →
    one ∈ (reciprocalRankFusion denseRows sparseRows topK).map RankedChunk.chunkId →
    [both, one].Sublist ((reciprocalRankFusion denseRows sparseRows topK).map RankedChunk.chunkId)

/-- Two last ranks score more than one first rank. -/
theorem lasts_above_first_iff {m n : Nat} : (1 / 61 : Rat) < 1 / (60 + m) + 1 / (60 + n) ↔
    (60 + m) * (60 + n) < 61 * (120 + m + n) := by
  have left : (0 : Rat) < 60 + m := by positivity
  have right : (0 : Rat) < 60 + n := by positivity
  have cast : (60 + m) * (60 + n) < 61 * (120 + m + n) ↔
      (60 + m : Rat) * (60 + n) < 61 * (120 + m + n) := by
    norm_cast
  rw [cast, div_add_div _ _ left.ne' right.ne', div_lt_div_iff₀ (by norm_num) (mul_pos left right)]
  constructor
  · intro h
    linarith
  · intro h
    linarith

section Order
variable {denseRows sparseRows : List CandidateRow} {topK : Int}

theorem fusedScore_le_of_one {one : UUID} (h : one ∈ chunkIds denseRows ↔ one ∉ chunkIds sparseRows) :
    fusedScore denseRows sparseRows one ≤ 1 / 61 := by
  rw [fusedScore]
  by_cases inDense : one ∈ chunkIds denseRows
  · rw [reciprocalRank_of_not_mem (h.mp inDense), add_zero]
    exact reciprocalRank_le denseRows one
  · rw [reciprocalRank_of_not_mem inDense, zero_add]
    exact reciprocalRank_le sparseRows one

theorem bothFirst_of_lengths (dense : (chunkIds denseRows).Nodup) (sparse : (chunkIds sparseRows).Nodup)
    (some_ : 1 ≤ topK) (short : (60 + denseRows.length) * (60 + sparseRows.length) <
      61 * (120 + denseRows.length + sparseRows.length)) :
    BothFirst denseRows sparseRows topK := by
  intro both one inDense inSparse single returned
  rw [results_ids dense sparse some_] at returned ⊢
  have higher : fusedScore denseRows sparseRows one < fusedScore denseRows sparseRows both :=
    calc fusedScore denseRows sparseRows one
      _ ≤ 1 / 61 := fusedScore_le_of_one single
      _ < 1 / (60 + denseRows.length) + 1 / (60 + sparseRows.length) := lasts_above_first_iff.mpr short
      _ ≤ fusedScore denseRows sparseRows both :=
        add_le_add (le_reciprocalRank inDense) (le_reciprocalRank inSparse)
  exact before_of_score_lt _ _ returned (mem_seen.mpr (Or.inl inDense)) higher

/-- Up to thirty results the candidates of a hybrid search are few enough, whatever they are. -/
theorem hybridCandidates_bothFirst {index : SearchIndex} {query : String} {tenantId : UUID} {topK : Int}
    {dense sparse : SessionVars} {db : Database} (docIds : (db.documents.map Document.id).Nodup)
    (ids : (db.chunks.map Chunk.id).Nodup) (some_ : 1 ≤ topK) (few : topK ≤ 30)
    {denseRows sparseRows : List CandidateRow}
    (h : hybridCandidates index query tenantId topK 2 dense sparse db =
      .ok (.ok denseRows, .ok sparseRows)) :
    BothFirst denseRows sparseRows topK := by
  obtain ⟨⟨denseLength, denseOnce⟩, sparseLength, sparseOnce⟩ := hybridCandidates_rows docIds ids h
  have denseShort : denseRows.length ≤ 60 := by omega
  have sparseShort : sparseRows.length ≤ 60 := by omega
  refine bothFirst_of_lengths denseOnce sparseOnce some_ ?_
  nlinarith

/-! ## Lists that are too long -/

/-- Nothing stands before the first of distinct entries. -/
theorem not_sublist_of_nodup {a b : UUID} {rest : List UUID} (nodup : (a :: rest).Nodup) :
    ¬ [b, a].Sublist (a :: rest) := by
  intro pair
  rw [List.nodup_cons] at nodup
  rcases List.sublist_cons_iff.mp pair with inRest | ⟨others, same, inRest⟩
  · exact nodup.1 (inRest.subset (by simp))
  · obtain ⟨-, rfl⟩ := List.cons.inj same
    exact nodup.1 (inRest.subset List.mem_cons_self)

theorem reciprocalRank_first (first : CandidateRow) (rows : List CandidateRow) :
    reciprocalRank (first :: rows) first.chunkId = 1 / 61 := by
  rw [reciprocalRank, List.findIdx?_cons, if_pos (decide_eq_true rfl)]
  norm_num [rrfK]

theorem last_new {rows : List CandidateRow} {last : CandidateRow} (nodup : (chunkIds (rows ++ [last])).Nodup) :
    last.chunkId ∉ chunkIds rows := by
  rw [chunkIds, List.map_append] at nodup
  intro inside
  exact (List.nodup_append.mp nodup).2.2 _ inside _ List.mem_cons_self rfl

/-- The last of distinct chunks. -/
theorem reciprocalRank_last {rows : List CandidateRow} {last : CandidateRow}
    (new : last.chunkId ∉ chunkIds rows) :
    reciprocalRank (rows ++ [last]) last.chunkId = 1 / (60 + (rows ++ [last]).length) := by
  have absent : rows.findIdx? (fun row => row.chunkId = last.chunkId) = none := by
    rw [List.findIdx?_eq_none_iff]
    intro row mem
    exact decide_eq_false fun same => new (List.mem_map.mpr ⟨row, mem, same⟩)
  rw [reciprocalRank, List.findIdx?_append, absent]
  simp [rrfK]

/-- A chunk that only the dense list has, at its top, keeps its place before a chunk that
both lists have at their ends, if they are long and have no other chunk in common. -/
theorem not_bothFirst {first last : CandidateRow} {denseFront sparseFront : List CandidateRow}
    (dense : (chunkIds (first :: denseFront ++ [last])).Nodup)
    (sparse : (chunkIds (sparseFront ++ [last])).Nodup)
    (apart : ∀ chunkId ∈ chunkIds (first :: denseFront), chunkId ∉ chunkIds (sparseFront ++ [last]))
    (some_ : 1 ≤ topK)
    (long : ¬ (60 + (first :: denseFront ++ [last]).length) * (60 + (sparseFront ++ [last]).length) <
      61 * (120 + (first :: denseFront ++ [last]).length + (sparseFront ++ [last]).length)) :
    ¬ BothFirst (first :: denseFront ++ [last]) (sparseFront ++ [last]) topK := by
  have alone := apart first.chunkId List.mem_cons_self
  have score : fusedScore (first :: denseFront ++ [last]) (sparseFront ++ [last]) first.chunkId =
      1 / 61 := by
    rw [fusedScore, reciprocalRank_of_not_mem alone, add_zero]
    exact reciprocalRank_first first (denseFront ++ [last])
  have highest (chunkId : UUID) :
      fusedScore (first :: denseFront ++ [last]) (sparseFront ++ [last]) chunkId ≤ 1 / 61 := by
    by_cases inBoth : chunkId ∈ chunkIds (first :: denseFront ++ [last]) ∧
        chunkId ∈ chunkIds (sparseFront ++ [last])
    · have isLast : chunkId = last.chunkId := by
        have inDense := inBoth.1
        rw [chunkIds, List.map_append] at inDense
        rcases List.mem_append.mp inDense with front | rest
        · exact absurd inBoth.2 (apart chunkId front)
        · exact List.mem_singleton.mp rest
      rw [isLast, fusedScore, reciprocalRank_last (last_new dense), reciprocalRank_last (last_new sparse)]
      exact not_lt.mp (lasts_above_first_iff.not.mpr long)
    · by_cases single : chunkId ∈ chunkIds (first :: denseFront ++ [last]) ↔
          chunkId ∉ chunkIds (sparseFront ++ [last])
      · exact fusedScore_le_of_one single
      · have outside : chunkId ∉ chunkIds (first :: denseFront ++ [last]) ∧
            chunkId ∉ chunkIds (sparseFront ++ [last]) := by tauto
        rw [fusedScore, reciprocalRank_of_not_mem outside.1, reciprocalRank_of_not_mem outside.2]
        norm_num
  obtain ⟨others, top⟩ : ∃ others, best (first :: denseFront ++ [last]) (sparseFront ++ [last]) topK =
      first.chunkId :: others := by
    obtain ⟨k, positive⟩ : ∃ k, topK.toNat = k + 1 := ⟨topK.toNat - 1, by omega⟩
    rw [best, positive, seen_eq, chunkIds, List.cons_append, List.map_cons, List.cons_append, ranking_cons]
    · exact ⟨_, rfl⟩
    · intro chunkId _
      exact (highest chunkId).trans_eq score.symm
  intro bothFirst
  have pair := bothFirst last.chunkId first.chunkId (by simp [chunkIds]) (by simp [chunkIds])
    (by simpa [chunkIds] using alone)
  rw [results_ids dense sparse some_, top] at pair
  have nodup := best_nodup dense sparse topK
  rw [top] at nodup
  exact not_sublist_of_nodup nodup (pair List.mem_cons_self)

end Order

namespace Demo

/-- Rows with consecutive ids. -/
def rows (start count : Nat) : List CandidateRow :=
  (List.range' start count).map fun i => row (BitVec.ofNat 128 i)

theorem chunkIds_rows (start count : Nat) :
    chunkIds (rows start count) = (List.range' start count).map (BitVec.ofNat 128) := by
  rw [rows, chunkIds, List.map_map]
  rfl

theorem mem_rows {start count i : Nat} (small : i < 2 ^ 128) (fits : start + count ≤ 2 ^ 128) :
    BitVec.ofNat 128 i ∈ chunkIds (rows start count) ↔ start ≤ i ∧ i < start + count := by
  rw [chunkIds_rows, List.mem_map]
  constructor
  · rintro ⟨j, mem, same⟩
    have bounds := List.mem_range'_1.mp mem
    have values := congrArg BitVec.toNat same
    rw [BitVec.toNat_ofNat, BitVec.toNat_ofNat, Nat.mod_eq_of_lt small, Nat.mod_eq_of_lt (by omega)] at values
    omega
  · intro bounds
    exact ⟨i, List.mem_range'_1.mpr bounds, rfl⟩

theorem rows_nodup {start count : Nat} (fits : start + count ≤ 2 ^ 128) :
    (chunkIds (rows start count)).Nodup := by
  rw [chunkIds_rows]
  refine (List.nodup_range' (n := count)).map_on fun i hi j hj same => ?_
  have left := List.mem_range'_1.mp hi
  have right := List.mem_range'_1.mp hj
  have values := congrArg BitVec.toNat same
  rwa [BitVec.toNat_ofNat, BitVec.toNat_ofNat, Nat.mod_eq_of_lt (by omega),
    Nat.mod_eq_of_lt (by omega)] at values

/-- Two lists that have their last chunk in common and no other. -/
theorem ends_meet {m n : Nat} (two : 2 ≤ m) (one : 1 ≤ n) (fits : m + n ≤ 2 ^ 128) :
    (chunkIds (row 1 :: rows 2 (m - 2) ++ [row 0])).Nodup ∧ (chunkIds (rows m (n - 1) ++ [row 0])).Nodup ∧
      ∀ chunkId ∈ chunkIds (row 1 :: rows 2 (m - 2)), chunkId ∉ chunkIds (rows m (n - 1) ++ [row 0]) := by
  have front : row 1 :: rows 2 (m - 2) = rows 1 (m - 1) := by
    have count : m - 1 = m - 2 + 1 := by omega
    rw [rows, rows, count, List.range'_succ]
    rfl
  have zero : (row 0).chunkId = BitVec.ofNat 128 0 := rfl
  have behind {start count : Nat} (positive : 1 ≤ start) (fits : start + count ≤ 2 ^ 128) :
      (chunkIds (rows start count ++ [row 0])).Nodup := by
    rw [chunkIds, List.map_append]
    refine (rows_nodup fits).append (List.nodup_singleton _) fun chunkId inRows isZero => ?_
    rw [List.map_singleton, List.mem_singleton, zero] at isZero
    rw [isZero] at inRows
    have bounds := (mem_rows (by omega) fits).mp inRows
    omega
  rw [front]
  refine ⟨behind (by omega) (by omega), behind (by omega) (by omega), ?_⟩
  intro chunkId inDense inSparse
  rw [chunkIds_rows] at inDense
  obtain ⟨i, mem, rfl⟩ := List.mem_map.mp inDense
  have bounds := List.mem_range'_1.mp mem
  rw [chunkIds, List.map_append] at inSparse
  rcases List.mem_append.mp inSparse with inRows | isZero
  · have later := (mem_rows (by omega) (by omega)).mp inRows
    omega
  · have values := congrArg BitVec.toNat (List.mem_singleton.mp isZero)
    rw [zero, BitVec.toNat_ofNat, BitVec.toNat_ofNat, Nat.mod_eq_of_lt (by omega)] at values
    omega

end Demo

/-- Whether chunks of both lists come first depends on how long the lists are. -/
theorem bothFirst_iff {topK : Int} (some_ : 1 ≤ topK) (m n : Nat) (fits : m + n ≤ 2 ^ 128) :
    (∀ denseRows sparseRows, denseRows.length = m → sparseRows.length = n →
      (chunkIds denseRows).Nodup → (chunkIds sparseRows).Nodup → BothFirst denseRows sparseRows topK) ↔
    (60 + m) * (60 + n) < 61 * (120 + m + n) := by
  constructor
  · intro all
    by_contra long
    have two : 2 ≤ m ∧ 1 ≤ n := by
      constructor
      · by_contra few
        have cases_ : m = 0 ∨ m = 1 := by omega
        rcases cases_ with rfl | rfl <;> omega
      · by_contra none_
        have zero : n = 0 := by omega
        subst zero
        omega
    obtain ⟨dense, sparse, apart⟩ := Demo.ends_meet two.1 two.2 fits
    have denseLength : (Demo.row 1 :: Demo.rows 2 (m - 2) ++ [Demo.row 0]).length = m := by
      simp [Demo.rows]
      omega
    have sparseLength : (Demo.rows m (n - 1) ++ [Demo.row 0]).length = n := by
      simp [Demo.rows]
      omega
    refine not_bothFirst dense sparse apart some_ ?_ (all _ _ denseLength sparseLength dense sparse)
    rw [denseLength, sparseLength]
    exact long
  · rintro short denseRows sparseRows rfl rfl dense sparse
    exact bothFirst_of_lengths dense sparse some_ short

/-- For the requests that are admitted, and lists as long as they ask for: for which lengths
chunks of both lists come first, and for which requests they do so whatever the lengths. -/
theorem both_lists_first {topK : Nat} (low : 1 ≤ topK) (high : topK ≤ 50) :
    (∀ m n, m ≤ topK * 2 → n ≤ topK * 2 →
      ((∀ denseRows sparseRows, denseRows.length = m → sparseRows.length = n →
        (chunkIds denseRows).Nodup → (chunkIds sparseRows).Nodup →
          BothFirst denseRows sparseRows topK) ↔
        (60 + m) * (60 + n) < 61 * (120 + m + n))) ∧
    ((∀ denseRows sparseRows, denseRows.length ≤ topK * 2 → sparseRows.length ≤ topK * 2 →
      (chunkIds denseRows).Nodup → (chunkIds sparseRows).Nodup →
        BothFirst denseRows sparseRows topK) ↔ topK ≤ 30) := by
  have lengths (m n : Nat) (hm : m ≤ topK * 2) (hn : n ≤ topK * 2) :=
    bothFirst_iff (show (1 : Int) ≤ topK by omega) m n (by omega)
  refine ⟨lengths, ?_⟩
  constructor
  · intro all
    by_contra more
    have tie := (lengths 62 62 (by omega) (by omega)).mp fun denseRows sparseRows dense sparse =>
      all denseRows sparseRows (by omega) (by omega)
    omega
  · intro few denseRows sparseRows dense sparse
    refine (lengths _ _ dense sparse).mpr ?_ denseRows sparseRows rfl rfl
    nlinarith

theorem both_lists_first_default :
    (∀ m n, m ≤ 5 * 2 → n ≤ 5 * 2 →
      ((∀ denseRows sparseRows, denseRows.length = m → sparseRows.length = n →
        (chunkIds denseRows).Nodup → (chunkIds sparseRows).Nodup →
          BothFirst denseRows sparseRows (5 : Nat)) ↔
        (60 + m) * (60 + n) < 61 * (120 + m + n))) ∧
    ((∀ denseRows sparseRows, denseRows.length ≤ 5 * 2 → sparseRows.length ≤ 5 * 2 →
      (chunkIds denseRows).Nodup → (chunkIds sparseRows).Nodup →
        BothFirst denseRows sparseRows (5 : Nat)) ↔ 5 ≤ 30) :=
  both_lists_first (by decide) (by decide)

/-- 62 candidates in each list for 31 results: a chunk that both lists have at their ends ties
with the first dense chunk and comes behind it. -/
theorem two_last_ranks_tie :
    ((reciprocalRankFusion (Demo.rows 1 61 ++ [Demo.row 0]) (Demo.rows 62 61 ++ [Demo.row 0]) 31).map
      RankedChunk.chunkId).take 2 = [1, 0] ∧
    (Demo.rows 1 61 ++ [Demo.row 0]).length = 31 * 2 ∧ (Demo.rows 62 61 ++ [Demo.row 0]).length = 31 * 2 ∧
    ¬ BothFirst (Demo.rows 1 61 ++ [Demo.row 0]) (Demo.rows 62 61 ++ [Demo.row 0]) 31 := by
  have start : ((reciprocalRankFusion (Demo.rows 1 61 ++ [Demo.row 0]) (Demo.rows 62 61 ++ [Demo.row 0])
      31).map RankedChunk.chunkId).take 2 = [1, 0] := by
    decide +kernel
  have dense : (chunkIds (Demo.rows 1 61 ++ [Demo.row 0])).Nodup := by decide +kernel
  have sparse : (chunkIds (Demo.rows 62 61 ++ [Demo.row 0])).Nodup := by decide +kernel
  have nodup := best_nodup dense sparse 31
  rw [← results_ids dense sparse (by decide)] at nodup
  refine ⟨start, by decide, by decide, fun bothFirst => ?_⟩
  have pair := bothFirst 0 1 (by decide +kernel) (by decide +kernel) (by decide +kernel)
  obtain ⟨rest, whole⟩ : ∃ rest, [1, 0] ++ rest = (reciprocalRankFusion (Demo.rows 1 61 ++ [Demo.row 0])
      (Demo.rows 62 61 ++ [Demo.row 0]) 31).map RankedChunk.chunkId :=
    ⟨_, start ▸ List.take_append_drop 2 _⟩
  rw [← whole] at pair nodup
  exact not_sublist_of_nodup nodup (pair List.mem_cons_self)

end RankFusion
