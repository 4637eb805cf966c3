import ResearchPlatform.SemanticGroups
import ResearchPlatform.Library.Percentiles

/-!
# Which boundaries a percentile selects

In exact arithmetic the threshold is the sorted distances read between two indices, so
a higher percentile selects fewer boundaries. The comparison with the threshold is not
strict: how many boundaries are selected depends on ties.
-/

namespace TextChunker

open Schema Segments Cuttings Percentiles

namespace SemanticTextChunker

variable {data : List ℚ} {p q : ℚ}

/-- `sorted_data`. -/
def sortedData (data : List ℚ) : List ℚ := data.mergeSort Floats.le

theorem sortedData_perm (data : List ℚ) : (sortedData data).Perm data :=
  List.mergeSort_perm data Floats.le

theorem sortedData_pairwise (data : List ℚ) : (sortedData data).Pairwise (· ≤ ·) := by
  have trans (a b c : ℚ) : Floats.le a b → Floats.le b c → Floats.le a c := by
    simpa [Floats.le] using le_trans
  have total (a b : ℚ) : Floats.le a b || Floats.le b a := by
    simpa [Floats.le] using le_total a b
  exact (List.pairwise_mergeSort trans total data).imp of_decide_eq_true

@[simp] theorem sortedData_length (data : List ℚ) : (sortedData data).length = data.length :=
  List.length_mergeSort data

/-- Where between the sorted values the percentile is read. -/
def position (size : Nat) (p : ℚ) : ℚ := (size - 1 : Nat) * (p / 100)

theorem position_nonneg (size : Nat) (low : 0 ≤ p) : 0 ≤ position size p :=
  mul_nonneg (Nat.cast_nonneg _) (div_nonneg low (by norm_num))

theorem position_mono (size : Nat) (h : p ≤ q) : position size p ≤ position size q := by
  rw [position, position]
  gcongr

theorem position_le (size : Nat) (high : p ≤ 100) : position size p ≤ (size - 1 : Nat) :=
  mul_le_of_le_one_right (Nat.cast_nonneg _) ((div_le_one (by norm_num)).mpr high)

/-- `k`. -/
theorem position_eq (size : Nat) (some_ : 0 < size) :
    (Floats.ofInt ((size : Int) - 1) * (p / Floats.ofInt 100) : ℚ) = position size p := by
  have last : ((size - 1 : Nat) : Int) = (size : Int) - 1 := by omega
  rw [position, ← last]
  simp only [Floats.ofInt, Int.cast_natCast]
  norm_num

theorem item_held {xs : List ℚ} (some_ : xs ≠ []) (i : Nat) :
    item xs (min (i : Int) (xs.length - 1)) = .ok (held xs 0 i) := by
  have positive := List.length_pos_iff.mpr some_
  have whole : (min (i : Int) (xs.length - 1)).toNat = min i (xs.length - 1) := by omega
  rw [item_ok (by omega) (by omega), held, List.getD_eq_getElem _ _ (by omega)]
  simp only [whole]

/-- The indices around the position; the upper one stays in range at the end. -/
theorem positions_rat (size : Nat) (low : 0 ≤ p) (high : p ≤ 100) (some_ : 0 < size) :
    (positions size p).1 = ⌊position size p⌋₊ ∧
      positions size p = (min (⌊position size p⌋₊ : Int) (size - 1),
        min ((⌊position size p⌋₊ + 1 : Nat) : Int) (size - 1)) := by
  have whole := position_eq (p := p) size some_
  have floor : (positions size p).1 = ⌊position size p⌋₊ := by
    simp only [positions, whole, Floats.trunc, if_pos (position_nonneg size low)]
    exact (Int.natCast_floor_eq_floor (position_nonneg size low)).symm
  have bounded : ⌊position size p⌋₊ ≤ size - 1 := Nat.floor_le_of_le (position_le size high)
  refine ⟨floor, Prod.ext (floor.trans (by omega)) ?_⟩
  show min ((positions size p).1 + 1) ((size : Int) - 1) = _
  rw [floor]
  omega

theorem positions_rat_range {size : Nat} (some_ : 0 < size) (low : 0 ≤ p) (high : p ≤ 100) :
    0 ≤ (positions size p).1 ∧ (positions size p).1 < size ∧
      0 ≤ (positions size p).2 ∧ (positions size p).2 < size :=
  positions_range (rat_roundsInOrder size) some_ (by simpa [Floats.le, Floats.ofInt] using low)
    (by simpa [Floats.le, Floats.ofInt] using high)

theorem percentile_rat (some_ : data ≠ []) (low : 0 ≤ p) (high : p ≤ 100) :
    percentile data p = .ok (interpolate (held (sortedData data) 0) (position data.length p)) := by
  have positive := List.length_pos_iff.mpr some_
  obtain ⟨floor, both⟩ := positions_rat data.length low high positive
  have some' : sortedData data ≠ [] := by
    rw [← List.length_pos_iff, sortedData_length]
    exact positive
  obtain ⟨f₀, f₁, c₀, c₁⟩ := positions_rat_range positive low high
  obtain ⟨a, b, first, second, h⟩ := percentile_of_range some_ ⟨f₀, f₁⟩ ⟨c₀, c₁⟩
  have held_f := item_held some' ⌊position data.length p⌋₊
  have held_c := item_held some' (⌊position data.length p⌋₊ + 1)
  rw [sortedData_length] at held_f held_c
  rw [both] at first second
  cases first.symm.trans held_f
  cases second.symm.trans held_c
  have whole : (Floats.ofInt ((data.length : Int) - 1) * (p / Floats.ofInt 100) : ℚ) =
      position data.length p := position_eq data.length positive
  rw [h, whole, floor]
  rfl

/-- The boundaries that a percentile selects among the distances. -/
def selected (p : ℚ) (distances : List ℚ) : List Nat :=
  splitIndices (interpolate (held (sortedData distances) 0) (position distances.length p)) distances

theorem boundaries_rat {c : SemanticTextChunker ℚ} {text : Text} (low : 0 ≤ c.thresholdPercentile)
    (high : c.thresholdPercentile ≤ 100) (many : ¬ (sentences (strip text)).length ≤ 1) :
    c.boundaries text = .ok (selected c.thresholdPercentile
      (distances (c.embedder (windows c.bufferSize (sentences (strip text)))))) := by
  by_cases none : distances (c.embedder (windows c.bufferSize (sentences (strip text)))) = []
  · have zero : percentile (distances (c.embedder (windows c.bufferSize (sentences (strip text)))))
        c.thresholdPercentile = .ok (Floats.ofInt 0) := by
      rw [none]
      rfl
    rw [boundaries_eq many zero, none]
    rfl
  · exact boundaries_eq many (percentile_rat none low high)

theorem mem_splitIndices {threshold : ℚ} {distances : List ℚ} {i : Nat} :
    i ∈ splitIndices threshold distances ↔ ∃ d, distances[i]? = some d ∧ threshold ≤ d := by
  simp only [splitIndices, List.mem_map, List.mem_filter, Prod.exists, exists_eq_right,
    List.mem_zipIdx_iff_getElem?, Floats.le, decide_eq_true_eq]

theorem splitIndices_subset {s t : ℚ} (h : s ≤ t) (distances : List ℚ) :
    splitIndices t distances ⊆ splitIndices s distances := by
  intro i mem
  obtain ⟨d, at_, above⟩ := mem_splitIndices.mp mem
  exact mem_splitIndices.mpr ⟨d, at_, h.trans above⟩

/-- A higher percentile selects fewer boundaries. -/
theorem selected_subset (low : 0 ≤ p) (h : p ≤ q) (distances : List ℚ) :
    selected q distances ⊆ selected p distances :=
  splitIndices_subset (interpolate_mono (held_mono (sortedData_pairwise distances) 0)
    (position_nonneg distances.length low) (position_mono distances.length h)) distances

/-- Fewer boundaries give groups that are joined from the groups of more. -/
theorem groups_coarsen {c d : SemanticTextChunker ℚ} {text : Text} {few many : List Nat}
    (hc : c.boundaries text = .ok few) (hd : d.boundaries text = .ok many) (sub : few ⊆ many) :
    ∃ coarse fine, c.groups text = .ok coarse ∧ d.groups text = .ok fine ∧
      Coarsens (join [' ']) coarse fine := by
  have cuts : Coarsens List.flatten
      (cutFrom (fun i => decide (i ∈ few)) 0 [] (sentences (strip text)))
      (cutFrom (fun i => decide (i ∈ many)) 0 [] (sentences (strip text))) :=
    cutFrom_coarsens (fun i mem => decide_eq_true (sub (of_decide_eq_true mem))) 0 _
  refine ⟨_, _, groups_eq hc, groups_eq hd, cuts.map fun part inside => ?_⟩
  exact join_map_join fun group mem => ne_nil_of_mem_cutFrom _ (inside mem)

/-- Raising the percentile only merges groups, and every index that is read is in range. -/
theorem raised_percentile_coarsens (embedder : List Text → List (List ℚ)) (maxChunkSize bufferSize : Nat)
    (text : Text) (low : 0 ≤ p) (h : p ≤ q) (high : q ≤ 100) :
    (∃ few many coarse fine,
      (⟨embedder, q, maxChunkSize, bufferSize⟩ : SemanticTextChunker ℚ).boundaries text = .ok few ∧
      (⟨embedder, p, maxChunkSize, bufferSize⟩ : SemanticTextChunker ℚ).boundaries text = .ok many ∧
      few ⊆ many ∧
      (⟨embedder, q, maxChunkSize, bufferSize⟩ : SemanticTextChunker ℚ).groups text = .ok coarse ∧
      (⟨embedder, p, maxChunkSize, bufferSize⟩ : SemanticTextChunker ℚ).groups text = .ok fine ∧
      Coarsens (join [' ']) coarse fine) ∧
    ∀ size, 0 < size → ∀ r ∈ [p, q], 0 ≤ (positions size r).1 ∧ (positions size r).1 < size ∧
      0 ≤ (positions size r).2 ∧ (positions size r).2 < size := by
  constructor
  · by_cases few : (sentences (strip text)).length ≤ 1
    · have none_ (r : ℚ) : (⟨embedder, r, maxChunkSize, bufferSize⟩ :
          SemanticTextChunker ℚ).boundaries text = .ok [] := if_pos few
      obtain ⟨coarse, fine, hc, hd, merged⟩ := groups_coarsen (none_ q) (none_ p) (List.Subset.refl [])
      exact ⟨[], [], coarse, fine, none_ q, none_ p, List.Subset.refl [], hc, hd, merged⟩
    · have at_ {r : ℚ} (low : 0 ≤ r) (high : r ≤ 100) :
          (⟨embedder, r, maxChunkSize, bufferSize⟩ : SemanticTextChunker ℚ).boundaries text =
            .ok (selected r (distances (embedder (windows bufferSize (sentences (strip text)))))) :=
        boundaries_rat low high few
      have sub := selected_subset low h
        (distances (embedder (windows bufferSize (sentences (strip text)))))
      obtain ⟨coarse, fine, hc, hd, merged⟩ :=
        groups_coarsen (at_ (low.trans h) high) (at_ low (h.trans high)) sub
      exact ⟨_, _, coarse, fine, at_ (low.trans h) high, at_ low (h.trans high), sub, hc, hd, merged⟩
  · intro size some_ r mem
    rcases List.mem_pair.mp mem with rfl | rfl
    · exact positions_rat_range some_ low (h.trans high)
    · exact positions_rat_range some_ (low.trans h) high

/-- A chunker whose embedder tells no sentences apart. -/
abbrev alike (percentile : ℚ) : SemanticTextChunker ℚ := ⟨List.map fun _ => [1], percentile, 100, 1⟩

theorem raised_percentile_coarsens_alike :
    (∃ few many coarse fine, (alike 60).boundaries "A. B. C.".toList = .ok few ∧
      (alike 20).boundaries "A. B. C.".toList = .ok many ∧ few ⊆ many ∧
      (alike 60).groups "A. B. C.".toList = .ok coarse ∧
      (alike 20).groups "A. B. C.".toList = .ok fine ∧ Coarsens (join [' ']) coarse fine) ∧
    ∀ size, 0 < size → ∀ r ∈ [(20 : ℚ), 60], 0 ≤ (positions size r).1 ∧ (positions size r).1 < size ∧
      0 ≤ (positions size r).2 ∧ (positions size r).2 < size :=
  raised_percentile_coarsens (List.map fun _ => [1]) 100 1 "A. B. C.".toList (by norm_num)
    (by norm_num) (by norm_num)

/-! ## How many boundaries are selected -/

theorem splitIndices_length (threshold : ℚ) (distances : List ℚ) :
    (splitIndices threshold distances).length = distances.countP (threshold ≤ ·) := by
  rw [splitIndices, List.length_map, ← List.countP_eq_length_filter]
  conv_rhs => rw [← List.zipIdx_map_fst 0 distances, List.countP_map]
  rfl

/-- `⌈(m - 1) * p / 100⌉` for `m` distances. -/
def rank (size : Nat) (p : ℚ) : Nat := ⌈position size p⌉₊

theorem rank_le (size : Nat) (high : p ≤ 100) : rank size p ≤ size - 1 :=
  Nat.ceil_le.mpr (position_le size high)

/-- A percentile selects the top boundaries only, exactly where the distance at its rank is
above the one before it. -/
theorem selected_length_le_iff (data : List ℚ) (high : p ≤ 100) :
    (selected p data).length ≤ data.length - rank data.length p ↔
      rank data.length p = 0 ∨ held (sortedData data) 0 (rank data.length p - 1) <
        held (sortedData data) 0 (rank data.length p) := by
  let t := interpolate (held (sortedData data) 0) (position data.length p)
  have bound : rank data.length p ≤ (sortedData data).length := by
    rw [sortedData_length]
    exact (rank_le data.length high).trans (Nat.sub_le _ 1)
  have counted : (selected p data).length = (sortedData data).countP (t ≤ ·) :=
    (splitIndices_length t data).trans ((sortedData_perm data).countP_eq _).symm
  have all := countP_le_add t (sortedData data)
  rw [sortedData_length] at all bound
  calc (selected p data).length ≤ data.length - rank data.length p
      ↔ rank data.length p ≤ (sortedData data).countP (· < t) := by omega
    _ ↔ rank data.length p = 0 ∨ held (sortedData data) 0 (rank data.length p - 1) < t :=
        le_countP_iff (sortedData_pairwise data) (by rw [sortedData_length]; exact bound) 0
    _ ↔ _ := by
        refine or_congr_right' fun positive => ?_
        exact lt_interpolate_iff (Nat.ceil_pos.mp (Nat.pos_of_ne_zero positive))

/-- Equal distances are all selected. -/
theorem selected_of_equal {d : ℚ} (equal : ∀ x ∈ data, x = d) (p : ℚ) :
    selected p data = List.range data.length := by
  rcases eq_or_ne data [] with rfl | some_
  · rfl
  have sorted_ : sortedData data ≠ [] := by
    rw [← List.length_pos_iff, sortedData_length]
    exact List.length_pos_iff.mpr some_
  have below (x : ℚ) (mem : x ∈ data) :
      interpolate (held (sortedData data) 0) (position data.length p) ≤ x := by
    have top := held_mem sorted_ 0 (⌊position data.length p⌋₊ + 1)
    rw [equal x mem, ← equal _ ((sortedData_perm data).mem_iff.mp top)]
    exact interpolate_le_succ (held_mono (sortedData_pairwise data) 0)
  have kept : (data.zipIdx.filter fun dist => Floats.le
      (interpolate (held (sortedData data) 0) (position data.length p)) dist.1) = data.zipIdx :=
    List.filter_eq_self.mpr fun dist mem => decide_eq_true (below _ (List.fst_mem_of_mem_zipIdx mem))
  rw [selected, splitIndices, kept, List.zipIdx_map_snd, List.range_eq_range']

/-- What a percentile selects stays within its share exactly where the distance at its rank is
above the one before it; where all are equal, everything is selected. -/
theorem percentile_share_iff (data : List ℚ) (some_ : data ≠ []) (p : ℚ) (low : 0 ≤ p) (high : p ≤ 100) :
    ∃ threshold, percentile data p = .ok threshold ∧
      ((splitIndices threshold data).length ≤ data.length - rank data.length p ↔
        rank data.length p = 0 ∨ (sortedData data).getD (rank data.length p - 1) 0 <
          (sortedData data).getD (rank data.length p) 0) ∧
      ∀ d, (∀ x ∈ data, x = d) → splitIndices threshold data = List.range data.length := by
  have last : rank data.length p ≤ (sortedData data).length - 1 := by
    rw [sortedData_length]
    exact rank_le data.length high
  refine ⟨_, percentile_rat some_ low high, ?_, fun d equal => selected_of_equal equal p⟩
  rw [← held_of_le 0 last, ← held_of_le 0 ((Nat.sub_le _ 1).trans last)]
  exact selected_length_le_iff data high

theorem percentile_share_three :
    ∃ threshold, percentile [1, 0, 0] (60 : ℚ) = .ok threshold ∧
      ((splitIndices threshold [1, 0, 0]).length ≤ [(1 : ℚ), 0, 0].length - rank [(1 : ℚ), 0, 0].length 60 ↔
        rank [(1 : ℚ), 0, 0].length 60 = 0 ∨
          (sortedData [1, 0, 0]).getD (rank [(1 : ℚ), 0, 0].length 60 - 1) 0 <
            (sortedData [1, 0, 0]).getD (rank [(1 : ℚ), 0, 0].length 60) 0) ∧
      ∀ d, (∀ x ∈ [(1 : ℚ), 0, 0], x = d) →
        splitIndices threshold [1, 0, 0] = List.range [(1 : ℚ), 0, 0].length :=
  percentile_share_iff [1, 0, 0] (List.cons_ne_nil _ _) 60 (by norm_num) (by norm_num)

/-- Three sentences that the embedder does not tell apart. -/
theorem equal_sentences_split_everywhere :
    (alike 60).boundaries "A. B. C.".toList = .ok [0, 1] ∧
      (alike 60).chunk "A. B. C.".toList = .ok ["A.".toList, "B.".toList, "C.".toList] ∧
      ¬ [0, 1].length ≤ 2 - rank 2 60 := by
  have three : sentences (strip "A. B. C.".toList) = ["A.".toList, "B.".toList, "C.".toList] := by
    decide
  have equal : distances ((windows 1 (sentences (strip "A. B. C.".toList))).map fun _ => [(1 : ℚ)]) =
      [0, 0] := by
    rw [three]
    norm_num [windows, distances, similarity, Floats.ofInt, List.range_succ]
  have split : (alike 60).boundaries "A. B. C.".toList = .ok [0, 1] := by
    refine (boundaries_rat (by norm_num) (by norm_num) (by rw [three]; decide)).trans ?_
    rw [equal, selected_of_equal (d := 0) (by simp)]
    rfl
  have cut : (cutFrom (fun i => decide (i ∈ [0, 1])) 0 [] (sentences (strip "A. B. C.".toList))).map
      (join [' ']) = ["A.".toList, "B.".toList, "C.".toList] := by
    rw [three]
    decide
  refine ⟨split, ?_, ?_⟩
  · rw [chunk_of_fits (groups_eq split) (fun _ => by rw [cut]; decide) (fun group => mem_groups)
      (by rw [cut]; decide), cut]
  · have one : rank 2 60 = 1 := by
      rw [rank, position, Nat.ceil_eq_iff one_ne_zero]
      norm_num
    rw [one]
    decide

end SemanticTextChunker

end TextChunker
