import ResearchPlatform.TextChunker

/-!
# The windows of the hard split

The loop of `_hard_split` without a bound on its rounds, where its windows lie, and
how they are put together again. The loop goes on as long as a window can start inside
the text, also when the window before has reached the end.
-/

namespace TextChunker

namespace RecursiveTextChunker

variable (c : RecursiveTextChunker) (text : Text)

/-- How far `start` moves in a round. -/
def stride : Nat := c.chunkSize - c.chunkOverlap

/-- The `while` loop from `start` on ends, and has then appended these chunks. -/
inductive Rounds : Nat → List Text → Prop
  | stop {start : Nat} (done : ¬ start < text.length) : Rounds start []
  | round {start : Nat} {chunks : List Text} (more : start < text.length)
      (rest : Rounds (start + c.chunkSize - c.chunkOverlap) chunks) :
      Rounds start ((text.drop start).take c.chunkSize :: chunks)

/-- A sliding window over the text that progresses. -/
structure Progresses (chunks : List Text) : Prop where
  terminates : Rounds c text 0 chunks
  slice : ∀ i (inside : i < chunks.length),
    chunks[i] = (text.drop (i * c.stride)).take c.chunkSize
  size : ∀ chunk ∈ chunks, chunk.length ≤ c.chunkSize
  reassembles : (chunks.take 1 ++ (chunks.drop 1).map (List.drop c.chunkOverlap)).flatten = text
  reaches : ∀ i (inside : i + 1 < chunks.length),
    i * c.stride + chunks[i].length < (i + 1) * c.stride + chunks[i + 1].length

variable {c text} {start : Nat} {chunks : List Text}

theorem stride_pos : 0 < c.stride := Nat.sub_pos_of_lt c.overlap_lt

theorem stride_add : c.stride + c.chunkOverlap = c.chunkSize :=
  Nat.sub_add_cancel c.overlap_lt.le

theorem next_start : start + c.chunkSize - c.chunkOverlap = start + c.stride :=
  Nat.add_sub_assoc c.overlap_lt.le start

/-- A chunk later is a stride further. -/
theorem later_start (i : Nat) : start + (i + 1) * c.stride = start + c.stride + i * c.stride := by
  rw [Nat.add_mul, Nat.one_mul]
  omega

/-- There are enough rounds: the loop ends by its own test. -/
theorem rounds_hardSplitFrom (fuel : Nat) (enough : text.length ≤ start + fuel) :
    Rounds c text start (c.hardSplitFrom text fuel start) := by
  have moves := c.overlap_lt
  induction fuel generalizing start with
  | zero => exact .stop (by omega)
  | succ fuel ih =>
    rw [hardSplitFrom]
    split
    · exact .round ‹_› (ih (by omega))
    · exact .stop ‹_›

theorem rounds_hardSplit : Rounds c text 0 (c.hardSplit text) :=
  rounds_hardSplitFrom text.length (by omega)

namespace Rounds

/-- There is a chunk for every start inside the text. -/
theorem lt_length_iff (rounds : Rounds c text start chunks) (i : Nat) :
    i < chunks.length ↔ start + i * c.stride < text.length := by
  induction rounds generalizing i with
  | stop done =>
    simp only [List.length_nil]
    omega
  | @round start chunks more rest ih =>
    rw [next_start] at ih
    cases i with
    | zero => simpa using more
    | succ i =>
      have later := ih i
      rw [List.length_cons, later_start]
      omega

theorem slice (rounds : Rounds c text start chunks) (i : Nat) (inside : i < chunks.length) :
    chunks[i] = (text.drop (start + i * c.stride)).take c.chunkSize := by
  induction rounds generalizing i with
  | stop done => cases inside
  | @round start chunks more rest ih =>
    rw [next_start] at ih
    cases i with
    | zero => simp
    | succ i =>
      have later := ih i (by simpa using inside)
      rw [List.getElem_cons_succ, later, later_start]

/-- What the chunks have beyond their overlaps, from any round on. -/
theorem beyond_overlaps (rounds : Rounds c text start chunks) :
    (chunks.map (List.drop c.chunkOverlap)).flatten = text.drop (start + c.chunkOverlap) := by
  induction rounds with
  | stop done =>
    rw [List.drop_eq_nil_of_le (by omega)]
    rfl
  | @round start chunks more rest ih =>
    rw [next_start] at ih
    have own : ((text.drop start).take c.chunkSize).drop c.chunkOverlap =
        (text.drop (start + c.chunkOverlap)).take c.stride := by
      rw [List.drop_take, List.drop_drop, stride]
    have others : text.drop (start + c.stride + c.chunkOverlap) =
        (text.drop (start + c.chunkOverlap)).drop c.stride := by
      rw [List.drop_drop, Nat.add_right_comm]
    rw [List.map_cons, List.flatten_cons, ih, own, others, List.take_append_drop]

theorem reassembles (rounds : Rounds c text start chunks) :
    (chunks.take 1 ++ (chunks.drop 1).map (List.drop c.chunkOverlap)).flatten = text.drop start := by
  cases rounds with
  | stop done =>
    have gone : text.drop start = [] := List.drop_eq_nil_of_le (by omega)
    rw [gone]
    rfl
  | round more rest =>
    have others := rest.beyond_overlaps
    rw [next_start, Nat.add_assoc, stride_add] at others
    rw [List.take_succ_cons, List.take_zero, List.drop_succ_cons, List.drop_zero, List.singleton_append,
      List.flatten_cons, others, ← List.drop_drop, List.take_append_drop]

/-- A chunk ends a whole size behind its start, or where the text does. -/
theorem chunk_end (rounds : Rounds c text 0 chunks) (i : Nat) (inside : i < chunks.length) :
    i * c.stride + chunks[i].length = min (i * c.stride + c.chunkSize) text.length := by
  have starts := (rounds.lt_length_iff i).mp inside
  rw [rounds.slice i inside, List.length_take, List.length_drop]
  omega

/-- The next chunk reaches further unless this one has reached the end. -/
theorem reaches_iff (rounds : Rounds c text 0 chunks) (i : Nat) (inside : i + 1 < chunks.length) :
    i * c.stride + chunks[i].length < (i + 1) * c.stride + chunks[i + 1].length ↔
      (i + 1) * c.stride + c.chunkOverlap < text.length := by
  have positive := stride_pos (c := c)
  have size := stride_add (c := c)
  have next : (i + 1) * c.stride = i * c.stride + c.stride := by rw [Nat.add_mul, Nat.one_mul]
  rw [rounds.chunk_end i (by omega), rounds.chunk_end (i + 1) inside]
  omega

end Rounds

/-- The last start inside the text leaves more than an overlap. -/
theorem starts_leave_iff (overlap : Nat) {step length : Nat} (positive : 0 < step) :
    (∀ i, (i + 1) * step < length → (i + 1) * step + overlap < length) ↔
      length ≤ step ∨ overlap ≤ (length - 1) % step := by
  have whole := Nat.div_add_mod (length - 1) step
  rw [Nat.mul_comm] at whole
  constructor
  · intro leaves
    by_cases short : length ≤ step
    · exact Or.inl short
    · have many : 0 < (length - 1) / step := Nat.div_pos (by omega) positive
      have last := leaves ((length - 1) / step - 1)
      rw [Nat.sub_add_cancel many] at last
      exact Or.inr (by omega)
  · rintro (short | rest) i inside
    · have first : step ≤ (i + 1) * step := Nat.le_mul_of_pos_left step (Nat.succ_pos i)
      omega
    · have before : i + 1 ≤ (length - 1) / step := (Nat.le_div_iff_mul_le positive).mpr (by omega)
      have earlier := Nat.mul_le_mul_right step before
      omega

/-- The windows progress unless the last one starts inside the one before and stops with it:
the rest of the text behind the last start is no longer than the overlap. -/
theorem hard_split_progresses_iff (c : RecursiveTextChunker) (text : Text) :
    Progresses c text (c.hardSplit text) ↔
      text.length ≤ c.stride ∨ c.chunkOverlap ≤ (text.length - 1) % c.stride := by
  have rounds : Rounds c text 0 (c.hardSplit text) := rounds_hardSplit
  rw [← starts_leave_iff c.chunkOverlap stride_pos]
  constructor
  · intro h i inside
    have chunk := (rounds.lt_length_iff (i + 1)).mpr (by omega)
    exact (rounds.reaches_iff i chunk).mp (h.reaches i chunk)
  · intro leaves
    refine ⟨rounds, ?_, fun chunk mem => (mem_hardSplitFrom mem).1, rounds.reassembles, ?_⟩
    · intro i inside
      rw [rounds.slice i inside, Nat.zero_add]
    · intro i inside
      have starts := (rounds.lt_length_iff (i + 1)).mp inside
      exact (rounds.reaches_iff i inside).mpr (leaves i (by omega))

/-- Seven characters in chunks of four with one in common: the third chunk is the last
character of the second. -/
theorem hard_split_repeats_tail :
    (⟨4, 1, by decide⟩ : RecursiveTextChunker).hardSplit "abcdefg".toList =
        ["abcd".toList, "defg".toList, "g".toList] ∧
      ¬ Progresses ⟨4, 1, by decide⟩ "abcdefg".toList
        ((⟨4, 1, by decide⟩ : RecursiveTextChunker).hardSplit "abcdefg".toList) := by
  have chunks : (⟨4, 1, by decide⟩ : RecursiveTextChunker).hardSplit "abcdefg".toList =
      ["abcd".toList, "defg".toList, "g".toList] := by decide
  refine ⟨chunks, fun progress => ?_⟩
  rw [chunks] at progress
  exact absurd (progress.reaches 1 (by decide)) (by decide)

end RecursiveTextChunker

end TextChunker
