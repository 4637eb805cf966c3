import ResearchPlatform.SemanticChunker
import ResearchPlatform.Library.Cuttings
import Mathlib.Tactic.Linarith

/-!
# How the semantic chunker groups sentences

The sentences of a text lose white space only, and the groups are cuts of the list of
them behind the boundaries that the distances select. Whether a percentile can be read
rests on the order of the numbers alone.
-/

namespace TextChunker

open Schema Segments Cuttings

/-! ## Joined texts -/

theorem join_ne_nil {texts : List Text} (some_ : texts ≠ []) (h : ∀ text ∈ texts, text ≠ []) :
    join [' '] texts ≠ [] := by
  obtain ⟨text, rest, rfl⟩ := List.exists_cons_of_ne_nil some_
  intro empty
  have inside : text <:+: join [' '] (text :: rest) := infix_of_mem_join List.mem_cons_self
  exact h text List.mem_cons_self (List.eq_nil_of_infix_nil (empty ▸ inside))

theorem trimmed_join {texts : List Text} (h : ∀ text ∈ texts, Trimmed text ∧ text ≠ []) :
    Trimmed (join [' '] texts) := by
  induction texts with
  | nil => exact ⟨fun _ mem => (nomatch mem), fun _ mem => (nomatch mem)⟩
  | cons text rest ih =>
    obtain ⟨⟨trimmed, some_⟩, h⟩ := List.forall_mem_cons.mp h
    cases rest with
    | nil => exact trimmed
    | cons next rest =>
      have tail := ih h
      have inside : join [' '] (next :: rest) ≠ [] :=
        join_ne_nil (List.cons_ne_nil next rest) fun t mem => (h t mem).2
      rw [join_cons [' '] text (List.cons_ne_nil next rest)]
      constructor
      · rw [List.append_assoc, List.head?_append_of_ne_nil _ some_]
        exact trimmed.head
      · rw [List.getLast?_append_of_ne_nil _ inside]
        exact tail.last

/-! ## Sentences -/

theorem flatten_modifyHead {parts : List Text} (some_ : parts ≠ []) (ch : Char) :
    (parts.modifyHead (ch :: ·)).flatten = ch :: parts.flatten := by
  cases parts with
  | nil => exact absurd rfl some_
  | cons part rest => rfl

theorem splitEndings_ne_nil (scan : Scan) (text : Text) : splitEndings scan text ≠ [] := by
  induction text generalizing scan with
  | nil => cases scan <;> exact List.cons_ne_nil [] []
  | cons ch rest ih => cases scan <;> simp only [splitEndings] <;> (try split) <;> simp [ih]

/-- Only white space is between the parts. -/
theorem splitEndings_filter {p : Char → Bool} (apart : ∀ ch, isSpace ch = true → p ch = false)
    (scan : Scan) (text : Text) : (splitEndings scan text).flatten.filter p = text.filter p := by
  induction text generalizing scan with
  | nil => cases scan <;> rfl
  | cons ch rest ih =>
    have kept (next : Scan) : ((splitEndings next rest).modifyHead (ch :: ·)).flatten.filter p =
        (ch :: rest).filter p := by
      rw [flatten_modifyHead (splitEndings_ne_nil next rest), List.filter_cons, ih, List.filter_cons]
    cases scan with
    | inside => exact kept (scanned ch)
    | ended =>
      rw [splitEndings]
      split
      · rename_i space
        rw [List.flatten_cons, List.nil_append, ih, List.filter_cons_of_neg (by simp [apart ch space])]
      · exact kept (scanned ch)
    | between =>
      rw [splitEndings]
      split
      · rename_i space
        rw [ih, List.filter_cons_of_neg (by simp [apart ch space])]
      · exact kept (scanned ch)

theorem mem_stripped {parts : List Text} {part : Text} (h : part ∈ stripped parts) :
    Trimmed part ∧ part ≠ [] := by
  obtain ⟨whole, kept, rfl⟩ := List.mem_map.mp h
  exact ⟨trimmed_strip whole, by simpa using (List.mem_filter.mp kept).2⟩

theorem stripped_eq_self {parts : List Text} (h : ∀ part ∈ parts, Trimmed part ∧ part ≠ []) :
    stripped parts = parts := by
  have kept : parts.filter (fun part => strip part ≠ []) = parts :=
    List.filter_eq_self.mpr fun part mem => by
      rw [(h part mem).1.strip]
      exact decide_eq_true (h part mem).2
  rw [stripped, kept]
  exact (List.map_congr_left fun part mem => (h part mem).1.strip).trans (List.map_id parts)

theorem stripped_filter {p : Char → Bool} (apart : ∀ ch, isSpace ch = true → p ch = false)
    (parts : List Text) : (stripped parts).flatten.filter p = parts.flatten.filter p := by
  rw [stripped, ← filter_nonblank apart parts]
  induction parts.filter fun part => strip part ≠ [] with
  | nil => rfl
  | cons part rest ih =>
    rw [List.map_cons, List.flatten_cons, List.flatten_cons, List.filter_append, List.filter_append,
      filter_strip apart, ih]

/-- The sentences of a text have all of it that is not white space. -/
theorem sentences_filter {p : Char → Bool} (apart : ∀ ch, isSpace ch = true → p ch = false)
    (text : Text) : (sentences (strip text)).flatten.filter p = text.filter p := by
  rw [sentences, stripped_filter apart, splitEndings_filter apart, filter_strip apart]

/-! ## Groups -/

theorem join_append {texts others : List Text} (h : texts ≠ []) (k : others ≠ []) :
    join [' '] (texts ++ others) = join [' '] texts ++ [' '] ++ join [' '] others := by
  induction texts with
  | nil => exact absurd rfl h
  | cons text rest ih =>
    cases rest with
    | nil => exact join_cons [' '] text k
    | cons next rest =>
      rw [List.cons_append, join_cons [' '] text (by simp), ih (by simp), join_cons [' '] text (by simp)]
      simp

/-- Joining the groups and then their texts is joining all the texts. -/
theorem join_map_join {groups : List (List Text)} (some_ : ∀ group ∈ groups, group ≠ []) :
    join [' '] (groups.map (join [' '])) = join [' '] groups.flatten := by
  induction groups with
  | nil => rfl
  | cons group rest ih =>
    obtain ⟨first, others⟩ := List.forall_mem_cons.mp some_
    cases rest with
    | nil => simp
    | cons next rest =>
      have inside : (next :: rest).flatten ≠ [] := by
        simp [others next List.mem_cons_self]
      rw [List.map_cons, join_cons [' '] _ (by simp), ih others]
      exact (join_append first inside).symm

namespace SemanticTextChunker

variable {K : Type} [Floats K]

/-- `split_indices` of `chunk`; there are none where it returns before it selects them. -/
def boundaries (c : SemanticTextChunker K) (text : Text) : Except Failure (List Nat) :=
  let sentences := sentences (strip text)
  if sentences.length ≤ 1 then .ok []
  else do
    let distances := distances (c.embedder (windows c.bufferSize sentences))
    let threshold ← percentile distances c.thresholdPercentile
    return splitIndices threshold distances

/-- `chunks` of `chunk`, before the long ones are split. -/
def groups (c : SemanticTextChunker K) (text : Text) : Except Failure (List Text) := do
  let splitIndices ← c.boundaries text
  return groupFrom splitIndices 0 [] (sentences (strip text))

/-- The two indices that `_percentile` reads. -/
def positions (size : Nat) (percentile : K) : Int × Int :=
  let last : Int := size - 1
  let f := Floats.trunc (Floats.ofInt last * (percentile / Floats.ofInt 100))
  (f, min (f + 1) last)

theorem groupFrom_eq (splitIndices : List Nat) (idx : Nat) (current sentences : List Text) :
    groupFrom splitIndices idx current sentences =
      (cutFrom (fun i => decide (i ∈ splitIndices)) idx current sentences).map (join [' ']) := by
  induction sentences generalizing idx current with
  | nil =>
    cases current with
    | nil => rfl
    | cons first others => rfl
  | cons sentence rest ih =>
    rw [groupFrom, cutFrom, ih, ih]
    by_cases chosen : idx ∈ splitIndices
    · rw [if_pos chosen, if_pos (decide_eq_true chosen), List.map_cons]
    · rw [if_neg chosen, if_neg (by simpa using chosen)]

theorem groupFrom_none {sentences : List Text} (some_ : sentences ≠ []) (idx : Nat) (current : List Text) :
    groupFrom [] idx current sentences = [join [' '] (current ++ sentences)] := by
  induction sentences generalizing idx current with
  | nil => exact absurd rfl some_
  | cons sentence rest ih =>
    rw [groupFrom, if_neg List.not_mem_nil]
    cases rest with
    | nil => simp [groupFrom]
    | cons next rest => rw [ih (List.cons_ne_nil next rest), List.append_assoc, List.singleton_append]

theorem groups_few (c : SemanticTextChunker K) {text : Text}
    (few : (sentences (strip text)).length ≤ 1) : c.groups text = .ok (sentences (strip text)) := by
  rw [groups, boundaries, if_pos few]
  match sentences (strip text), few with
  | [], _ => rfl
  | [s], _ => rfl

theorem groups_many (c : SemanticTextChunker K) {text : Text}
    (many : ¬ (sentences (strip text)).length ≤ 1) :
    c.groups text = do
      let distances := distances (c.embedder (windows c.bufferSize (sentences (strip text))))
      let threshold ← percentile distances c.thresholdPercentile
      return groupFrom (splitIndices threshold distances) 0 [] (sentences (strip text)) := by
  simp only [groups, boundaries, if_neg many, bind_assoc, pure_bind]

/-- A text of two sentences or more is split where its groups are, and then where a
group is too long. -/
theorem chunk_eq (c : SemanticTextChunker K) (text : Text) :
    c.chunk text =
      if (sentences (strip text)).length ≤ 1 ∨
          (distances (c.embedder (windows c.bufferSize (sentences (strip text))))).isEmpty then
        c.groups text
      else do
        let groups ← c.groups text
        let finalChunks ← enforced c.maxChunkSize groups
        return stripped finalChunks := by
  by_cases few : (sentences (strip text)).length ≤ 1
  · rw [if_pos (.inl few), groups_few c few, chunk]
    by_cases blank : strip text = []
    · rw [if_pos blank, blank]
      rfl
    · rw [if_neg blank]
      exact if_pos few
  · have some_ : strip text ≠ [] := by
      intro blank
      rw [blank] at few
      exact few (Nat.zero_le 1)
    have start : c.chunk text =
        let distances := distances (c.embedder (windows c.bufferSize (sentences (strip text))))
        if distances.isEmpty then .ok [join [' '] (sentences (strip text))]
        else do
          let threshold ← percentile distances c.thresholdPercentile
          let chunks := groupFrom (splitIndices threshold distances) 0 [] (sentences (strip text))
          let finalChunks ← enforced c.maxChunkSize chunks
          return stripped finalChunks := by
      rw [chunk, if_neg some_]
      exact if_neg few
    rw [start, groups_many c few]
    by_cases alone : (distances (c.embedder (windows c.bufferSize (sentences (strip text))))).isEmpty
    · rw [if_pos alone, if_pos (.inr alone), List.isEmpty_iff.mp alone]
      have nonempty : sentences (strip text) ≠ [] := fun none => few (by rw [none]; exact Nat.zero_le 1)
      exact congrArg (fun groups => Except.ok groups) (groupFrom_none nonempty 0 []).symm
    · rw [if_neg alone, if_neg (not_or.mpr ⟨few, alone⟩)]
      simp only [bind_assoc, pure_bind]

/-! ## Reading a percentile -/

/-- What reading a percentile of fewer than `size` numbers asks of their order. Rounding to
the nearest number keeps it while whole numbers are exact. -/
structure RoundsInOrder (K : Type) [Floats K] (size : Nat) : Prop where
  share : ∀ p : K, Floats.le (Floats.ofInt 0) p → Floats.le p (Floats.ofInt 100) →
    Floats.le (Floats.ofInt 0) (p / Floats.ofInt 100) ∧
      Floats.le (p / Floats.ofInt 100) (Floats.ofInt 1)
  scaled : ∀ n : Nat, n < size → ∀ x : K, Floats.le (Floats.ofInt 0) x → Floats.le x (Floats.ofInt 1) →
    Floats.le (Floats.ofInt 0) (Floats.ofInt n * x) ∧ Floats.le (Floats.ofInt n * x) (Floats.ofInt n)
  truncated : ∀ n : Nat, n < size → ∀ k : K, Floats.le (Floats.ofInt 0) k →
    Floats.le k (Floats.ofInt n) → 0 ≤ Floats.trunc k ∧ Floats.trunc k ≤ n

theorem rat_roundsInOrder (size : Nat) : RoundsInOrder ℚ size where
  share p := by
    simp only [Floats.le, Floats.ofInt, decide_eq_true_eq, Int.cast_zero, Int.cast_one]
    intro low high
    exact ⟨div_nonneg low (by norm_num), (div_le_one (by norm_num)).mpr high⟩
  scaled n _ x := by
    simp only [Floats.le, Floats.ofInt, decide_eq_true_eq, Int.cast_zero, Int.cast_one, Int.cast_natCast]
    intro low high
    exact ⟨mul_nonneg n.cast_nonneg low, mul_le_of_le_one_right n.cast_nonneg high⟩
  truncated n _ k := by
    simp only [Floats.le, Floats.ofInt, Floats.trunc, decide_eq_true_eq, Int.cast_zero, Int.cast_natCast]
    intro low high
    rw [if_pos low]
    exact ⟨Int.floor_nonneg.mpr low, Int.floor_le_iff.mpr (by push_cast; linarith)⟩

theorem RoundsInOrder.mono {size fewer : Nat} (h : RoundsInOrder K size) (le : fewer ≤ size) :
    RoundsInOrder K fewer where
  share := h.share
  scaled n hn := h.scaled n (hn.trans_le le)
  truncated n hn := h.truncated n (hn.trans_le le)

theorem item_ok {α : Type} {xs : List α} {i : Int} (low : 0 ≤ i) (high : i.toNat < xs.length) :
    item xs i = .ok xs[i.toNat] := by
  rw [item, if_neg (not_lt.mpr low), List.getElem?_eq_getElem high]

/-- Both indices are in range. -/
theorem positions_range {size : Nat} (rounds : RoundsInOrder K size) (some_ : 0 < size) {p : K}
    (low : Floats.le (Floats.ofInt 0) p) (high : Floats.le p (Floats.ofInt 100)) :
    0 ≤ (positions size p).1 ∧ (positions size p).1 < size ∧
      0 ≤ (positions size p).2 ∧ (positions size p).2 < size := by
  obtain ⟨last, rfl⟩ := Nat.exists_eq_add_one.mpr some_
  have whole : ((last + 1 : Nat) : Int) - 1 = last := by omega
  have share := rounds.share p low high
  have scaled := rounds.scaled last (Nat.lt_succ_self last) _ share.1 share.2
  have cut := rounds.truncated last (Nat.lt_succ_self last) _ scaled.1 scaled.2
  simp only [positions, whole]
  omega

theorem percentile_of_range {data : List K} {p : K} (some_ : data ≠ [])
    (f : 0 ≤ (positions data.length p).1 ∧ (positions data.length p).1 < data.length)
    (c : 0 ≤ (positions data.length p).2 ∧ (positions data.length p).2 < data.length) :
    ∃ low high, item (data.mergeSort Floats.le) (positions data.length p).1 = .ok low ∧
      item (data.mergeSort Floats.le) (positions data.length p).2 = .ok high ∧
      percentile data p = .ok (low +
        (Floats.ofInt (data.length - 1) * (p / Floats.ofInt 100) -
          Floats.ofInt (positions data.length p).1) * (high - low)) := by
  have length : (data.mergeSort Floats.le).length = data.length := List.length_mergeSort data
  have first : item (data.mergeSort Floats.le) (positions data.length p).1 = .ok _ :=
    item_ok f.1 (by omega)
  have second : item (data.mergeSort Floats.le) (positions data.length p).2 = .ok _ :=
    item_ok c.1 (by omega)
  refine ⟨_, _, first, second, ?_⟩
  rw [percentile, if_neg (by simpa using some_)]
  simp only [length]
  show (item _ (positions data.length p).1 >>= fun low =>
    item _ (positions data.length p).2 >>= fun high => pure (low + _ * (high - low))) = _
  rw [first, second]
  rfl

theorem percentile_ok {data : List K} {p : K} (rounds : RoundsInOrder K data.length)
    (low : Floats.le (Floats.ofInt 0) p) (high : Floats.le p (Floats.ofInt 100)) :
    ∃ threshold, percentile data p = .ok threshold := by
  by_cases none : data = []
  · rw [none]
    exact ⟨_, rfl⟩
  · have range := positions_range rounds (List.length_pos_iff.mpr none) low high
    obtain ⟨a, b, -, -, h⟩ := percentile_of_range none ⟨range.1, range.2.1⟩ range.2.2
    exact ⟨_, h⟩

/-! ## The groups are a partition -/

theorem groups_eq {c : SemanticTextChunker K} {text : Text} {splitIndices : List Nat}
    (h : c.boundaries text = .ok splitIndices) :
    c.groups text = .ok ((cutFrom (fun i => decide (i ∈ splitIndices)) 0 []
      (sentences (strip text))).map (join [' '])) := by
  rw [groups, h, ← groupFrom_eq]
  rfl

theorem boundaries_eq {c : SemanticTextChunker K} {text : Text} {threshold : K}
    (many : ¬ (sentences (strip text)).length ≤ 1)
    (h : percentile (distances (c.embedder (windows c.bufferSize (sentences (strip text)))))
      c.thresholdPercentile = .ok threshold) :
    c.boundaries text = .ok (splitIndices threshold
      (distances (c.embedder (windows c.bufferSize (sentences (strip text)))))) := by
  rw [boundaries, if_neg many]
  simp only [h]
  rfl

theorem boundaries_ok {c : SemanticTextChunker K} {text : Text}
    (rounds : RoundsInOrder K (sentences (strip text)).length)
    (perWindow : ∀ windows, (c.embedder windows).length = windows.length)
    (low : Floats.le (Floats.ofInt 0) c.thresholdPercentile)
    (high : Floats.le c.thresholdPercentile (Floats.ofInt 100)) :
    ∃ splitIndices, c.boundaries text = .ok splitIndices := by
  by_cases few : (sentences (strip text)).length ≤ 1
  · exact ⟨[], if_pos few⟩
  · have fewer : (distances (c.embedder (windows c.bufferSize (sentences (strip text))))).length ≤
        (sentences (strip text)).length := by
      rw [distances_length, perWindow, windows_length]
      exact Nat.sub_le _ 1
    obtain ⟨threshold, h⟩ := percentile_ok (rounds.mono fewer) low high
    exact ⟨_, boundaries_eq few h⟩

/-- The groups hold the sentences in their order. -/
theorem join_groups (splitIndices : List Nat) (sentences : List Text) :
    join [' '] ((cutFrom (fun i => decide (i ∈ splitIndices)) 0 [] sentences).map (join [' '])) =
      join [' '] sentences := by
  rw [join_map_join fun group => ne_nil_of_mem_cutFrom _, cutFrom_flatten, List.nil_append]

/-- Groups are texts of their own. -/
theorem mem_groups {splitIndices : List Nat} {text group : Text}
    (h : group ∈ (cutFrom (fun i => decide (i ∈ splitIndices)) 0 []
      (sentences (strip text))).map (join [' '])) : Trimmed group ∧ group ≠ [] := by
  obtain ⟨part, mem, rfl⟩ := List.mem_map.mp h
  have inside (s : Text) (hs : s ∈ part) : Trimmed s ∧ s ≠ [] := by
    have whole := cutFrom_flatten (fun i => decide (i ∈ splitIndices)) 0 [] (sentences (strip text))
    exact mem_stripped (whole ▸ List.mem_flatten.mpr ⟨part, mem, hs⟩)
  exact ⟨trimmed_join inside, join_ne_nil (ne_nil_of_mem_cutFrom _ mem) fun s hs => (inside s hs).2⟩

/-- Chunks that fit are kept as they are. -/
theorem enforced_of_fits {maxChunkSize : Nat} {chunks : List Text} (some_ : 0 < maxChunkSize)
    (fits : ∀ chunk ∈ chunks, chunk.length ≤ maxChunkSize) :
    enforced maxChunkSize chunks = .ok chunks := by
  have kept : (chunks.flatMap fun chunk =>
      if maxChunkSize < chunk.length then
        RecursiveTextChunker.chunk ⟨maxChunkSize, 0, some_⟩ chunk else [chunk]) = chunks := by
    induction chunks with
    | nil => rfl
    | cons chunk rest ih =>
      obtain ⟨first, rest_⟩ := List.forall_mem_cons.mp fits
      rw [List.flatMap_cons, if_neg (not_lt.mpr first), ih rest_]
      rfl
  rw [enforced, RecursiveTextChunker.new, dif_pos some_]
  exact congrArg Except.ok kept

/-- Where every group fits, the chunks are the groups. -/
theorem chunk_of_fits {c : SemanticTextChunker K} {text : Text} {groups : List Text}
    (h : c.groups text = .ok groups) (some_ : sentences (strip text) ≠ [] → groups ≠ [])
    (trimmed : ∀ group ∈ groups, Trimmed group ∧ group ≠ [])
    (fits : ∀ group ∈ groups, group.length ≤ c.maxChunkSize) : c.chunk text = .ok groups := by
  rw [chunk_eq, h]
  split
  · rfl
  · rename_i many
    have sentence : sentences (strip text) ≠ [] := fun none => many (.inl (by rw [none]; exact Nat.zero_le 1))
    obtain ⟨group, mem⟩ := List.exists_mem_of_ne_nil _ (some_ sentence)
    have positive := (List.length_pos_iff.mpr (trimmed group mem).2).trans_le (fits group mem)
    show (enforced c.maxChunkSize groups >>= fun finalChunks => pure (stripped finalChunks)) = _
    rw [enforced_of_fits positive fits]
    exact congrArg Except.ok (stripped_eq_self trimmed)

/-- What is left of a text without its white space. -/
def unspaced (text : Text) : Text := text.filter fun ch => !isSpace ch

/-- Whatever the embedder says, chunks that need no further split are the sentences in
their order, and lose white space only. -/
theorem semantic_groups_partition (c : SemanticTextChunker K) (text : Text)
    (rounds : RoundsInOrder K (sentences (strip text)).length)
    (perWindow : ∀ windows, (c.embedder windows).length = windows.length)
    (low : Floats.le (Floats.ofInt 0) c.thresholdPercentile)
    (high : Floats.le c.thresholdPercentile (Floats.ofInt 100))
    (fits : ∀ groups, c.groups text = .ok groups → ∀ group ∈ groups, group.length ≤ c.maxChunkSize) :
    ∃ chunks, c.chunk text = .ok chunks ∧
      join [' '] chunks = join [' '] (sentences (strip text)) ∧ (∀ chunk ∈ chunks, chunk ≠ []) ∧
      unspaced chunks.flatten = unspaced text := by
  obtain ⟨splitIndices, selected⟩ := boundaries_ok rounds perWindow low high
  have grouped := groups_eq selected
  have apart (ch : Char) (h : isSpace ch = true) : (!isSpace ch) = false := by rw [h]; rfl
  have whole := join_groups splitIndices (sentences (strip text))
  have some_ (h : sentences (strip text) ≠ []) :
      (cutFrom (fun i => decide (i ∈ splitIndices)) 0 [] (sentences (strip text))).map (join [' ']) ≠ [] :=
    fun none => cutFrom_ne_nil _ 0 [] h (List.map_eq_nil_iff.mp none)
  refine ⟨_, chunk_of_fits grouped some_ (fun group => mem_groups) (fits _ grouped), whole,
    fun group mem => (mem_groups mem).2, ?_⟩
  have separator : [' '].filter (fun ch => !isSpace ch) = [] := by decide
  rw [unspaced, ← filter_join separator, whole, filter_join separator, sentences_filter apart]
  rfl

/-- No group is longer than the sentences together. -/
theorem length_of_mem_groups {c : SemanticTextChunker K} {text : Text} {groups : List Text}
    (h : c.groups text = .ok groups) :
    ∀ group ∈ groups, group.length ≤ (join [' '] (sentences (strip text))).length := by
  obtain ⟨splitIndices, selected, -⟩ := of_bind_ok h
  have whole := h.symm.trans (groups_eq selected)
  cases whole
  intro group mem
  rw [← join_groups splitIndices]
  exact (infix_of_mem_join mem).length_le

/-- Two sentences, and chunks that have room for both. -/
theorem semantic_groups_two_sentences :
    ∃ chunks, (⟨List.map fun _ => [1], 60, 20, 1⟩ : SemanticTextChunker ℚ).chunk
        "Abc. Defgh.".toList = .ok chunks ∧
      join [' '] chunks = join [' '] (sentences (strip "Abc. Defgh.".toList)) ∧
      (∀ chunk ∈ chunks, chunk ≠ []) ∧ unspaced chunks.flatten = unspaced "Abc. Defgh.".toList :=
  semantic_groups_partition _ _ (rat_roundsInOrder _) (fun _ => List.length_map _) (by decide)
    (by decide) fun _ h group mem =>
      (length_of_mem_groups h group mem).trans (by decide)

end SemanticTextChunker

end TextChunker
