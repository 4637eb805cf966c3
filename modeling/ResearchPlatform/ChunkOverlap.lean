import ResearchPlatform.ChunkSlices
import ResearchPlatform.ChunkWords

/-!
# Overlaps in the chunks

`_apply_overlap` runs at every level of the recursion. A chunk of an inner level that
has been extended there is extended again on the way out, and with the beginning of a
piece that may stand behind a dropped separator.
-/

namespace TextChunker

open Segments

namespace RecursiveTextChunker

variable {c : RecursiveTextChunker} {sep : Text}

/-! ## Sizes -/

/-- The text is split into chunks of at most `bound` characters: a run of parts that
makes up a chunk leaves room for the overlap of this level, and the chunks of an
oversized part leave room for it, too. -/
def Roomy (c : RecursiveTextChunker) : Nat → List Text → Text → Prop
  | bound, [], text => c.chunkSize < text.length → c.chunkSize ≤ bound
  | bound, sep :: remaining, text => c.chunkSize < text.length →
      if sep = [] then c.chunkSize ≤ bound
      else
        (∀ rest ∈ (c.fitting (Segments.split sep text)).tails, ∀ run ∈ rest.inits,
          (join sep run).length ≤ c.chunkSize → (join sep run).length + c.chunkOverlap ≤ bound) ∧
        ∀ part ∈ Segments.split sep text, Roomy c (bound - c.chunkOverlap) remaining part

instance decidableRoomy (c : RecursiveTextChunker) :
    ∀ bound seps text, Decidable (c.Roomy bound seps text)
  | _, [], _ => inferInstanceAs (Decidable (_ → _))
  | bound, sep :: remaining, _ =>
    have := decidableRoomy c (bound - c.chunkOverlap) remaining
    inferInstanceAs (Decidable (_ → if sep = [] then _ else _ ∧ _))

/-- A chunk of one level, before the overlap: a run of parts that fit, joined, or a chunk
of an oversized part. -/
def Piece (c : RecursiveTextChunker) (sep : Text) (split : Text → List Text) (parts : List Text)
    (chunk : Text) : Prop :=
  (∃ run, run <:+: c.fitting parts ∧ chunk = join sep run ∧ chunk.length ≤ c.chunkSize) ∨
    ∃ part ∈ parts, c.chunkSize < part.length ∧ chunk ∈ split part

/-- What the loop has made of the parts it has seen are pieces of them. -/
structure Made (c : RecursiveTextChunker) (sep : Text) (split : Text → List Text) (done : List Text)
    (m : Merge) : Prop where
  run : c.Gathered sep done m.current
  fits : m.current.length ≤ c.chunkSize
  pieces : ∀ chunk ∈ m.chunks, c.Piece sep split done chunk

section Pieces
variable {split : Text → List Text} {done : List Text} {m : Merge}

theorem Piece.append {chunk : Text} (h : c.Piece sep split done chunk) (more : List Text) :
    c.Piece sep split (done ++ more) chunk := by
  rcases h with ⟨run, inside, same, fits⟩ | ⟨part, mem, oversized, inner⟩
  · refine Or.inl ⟨run, ?_, same, fits⟩
    rw [fitting_append]
    exact List.infix_append_of_infix_left inside
  · exact Or.inr ⟨part, List.mem_append_left _ mem, oversized, inner⟩

theorem Made.flushed (h : c.Made sep split done m) :
    ∀ chunk ∈ flushed m, c.Piece sep split done chunk := by
  intro chunk mem
  rcases mem_flushed.mp mem with mem | ⟨some_, rfl⟩
  · exact h.pieces chunk mem
  · obtain ⟨run, suffix, -, same⟩ := h.run some_
    exact Or.inl ⟨run, suffix.isInfix, same, h.fits⟩

theorem Made.mergePart (h : c.Made sep split done m) (part : Text) :
    c.Made sep split (done ++ [part]) (c.mergePart sep (some split) m part) := by
  refine mergePart_cases m part ?_ ?_ ?_
  · intro fits
    refine ⟨?_, fits, fun chunk mem => (h.pieces chunk mem).append [part]⟩
    by_cases empty : m.current = []
    · rw [candidate, if_pos empty] at fits ⊢
      exact Gathered.alone fits
    · rw [candidate, if_neg empty] at fits ⊢
      refine h.run.snoc ?_ empty
      simp only [List.length_append] at fits
      omega
  · intro split' hsplit oversized
    cases hsplit
    refine ⟨fun some_ => ?_, h.fits, fun chunk mem => ?_⟩
    · simpa [fitting_oversized oversized] using h.run some_
    · rcases List.mem_append.mp mem with mem | mem
      · exact (h.flushed chunk mem).append [part]
      · exact Or.inr ⟨part, by simp, oversized, mem⟩
  · intro fits _
    have small := fits.resolve_left (Option.some_ne_none split)
    exact ⟨Gathered.alone small, small, fun chunk mem => (h.flushed chunk mem).append [part]⟩

theorem Made.mergeParts (h : c.Made sep split done m) (parts : List Text) :
    c.Made sep split (done ++ parts) (parts.foldl (c.mergePart sep (some split)) m) := by
  induction parts generalizing done m with
  | nil => simpa using h
  | cons part rest ih => simpa using ih (h.mergePart part)

end Pieces

theorem piece_of_mem_pieces {remaining : List Text} (finer : remaining ≠ []) {text chunk : Text}
    (mem : chunk ∈ c.pieces sep remaining text) :
    c.Piece sep (c.split remaining) (Segments.split sep text) chunk := by
  have start : c.Made sep (c.split remaining) [] ⟨[], []⟩ :=
    ⟨fun some_ => absurd rfl some_, Nat.zero_le _, fun _ none_ => nomatch none_⟩
  have made : c.Made sep (c.split remaining) ([] ++ Segments.split sep text)
      (c.mergeParts sep (some (c.split remaining)) (Segments.split sep text)) :=
    start.mergeParts _
  rw [pieces_eq finer] at mem
  exact made.flushed chunk mem

theorem length_of_mem_split {bound : Nat} {seps : List Text} (last : [] ∈ seps) {text : Text}
    (long : c.chunkSize < text.length) (roomy : c.Roomy bound seps text) :
    ∀ chunk ∈ c.split seps text, chunk.length ≤ bound := by
  induction seps generalizing bound text with
  | nil => cases last
  | cons sep remaining ih =>
    have room := roomy long
    split at room
    · rename_i empty
      rw [empty, split_hard long]
      exact fun chunk mem => (mem_hardSplitFrom mem).1.trans room
    · rename_i hsep
      obtain ⟨runs, inner⟩ := room
      have last' : [] ∈ remaining := nil_mem_remaining hsep last
      have overlap : c.chunkOverlap ≤ bound := by
        have none_ := runs [] ((List.mem_tails _ _).mpr List.nil_suffix) [] (by simp) (Nat.zero_le _)
        simpa using none_
      rw [split_level long hsep]
      intro chunk mem
      obtain ⟨i, hi, rfl⟩ := List.getElem_of_mem mem
      have hi' : i < (c.pieces sep remaining text).length := by rwa [applyOverlap_length] at hi
      have longer := ((applyOverlap_forall₂ (c := c) (c.pieces sep remaining text)).get hi' hi).2
      simp only [List.get_eq_getElem] at longer
      rcases piece_of_mem_pieces (List.ne_nil_of_mem last') (List.getElem_mem hi') with
        ⟨run, inside, same, fits⟩ | ⟨part, mem, oversized, within⟩
      · obtain ⟨rest, starts, suffix⟩ := List.infix_iff_prefix_suffix.mp inside
        rw [same] at longer fits
        have room := runs rest ((List.mem_tails _ _).mpr suffix) run ((List.mem_inits _ _).mpr starts) fits
        omega
      · have small := ih last' oversized (inner part mem) _ within
        omega

theorem roomy_of_no_overlap (noOverlap : c.chunkOverlap = 0) (seps : List Text) (text : Text) :
    c.Roomy c.chunkSize seps text := by
  induction seps generalizing text with
  | nil => exact fun _ => le_rfl
  | cons sep remaining ih =>
    intro _
    split
    · exact le_rfl
    · refine ⟨fun _ _ _ _ fits => ?_, fun part _ => ?_⟩
      · rwa [noOverlap]
      · rw [noOverlap]
        exact ih part

/-- Without overlap the chunks have the size asked for. -/
theorem split_small (noOverlap : c.chunkOverlap = 0) {seps : List Text} (last : [] ∈ seps) {text : Text} :
    ∀ chunk ∈ c.split seps text, chunk.length ≤ c.chunkSize := by
  by_cases short : text.length ≤ c.chunkSize
  · rw [split_short seps short]
    exact fun chunk mem => List.mem_singleton.mp mem ▸ short
  · exact length_of_mem_split last (Nat.not_le.mp short) (roomy_of_no_overlap noOverlap seps text)

/-! ## Words longer than a chunk -/

/-- In the list `a` stands before a chunk that starts with `b`. -/
def Adjacent (a b : Text) (chunks : List Text) : Prop :=
  ∃ before longer after, chunks = before ++ a :: longer :: after ∧ b <+: longer

section Adjacency
variable {a b : Text} {chunks : List Text}

theorem Adjacent.mem (h : Adjacent a b chunks) : a ∈ chunks := by
  obtain ⟨before, longer, after, rfl, -⟩ := h
  simp

theorem Adjacent.within {others : List Text} (h : Adjacent a b chunks) (inside : chunks <:+: others) :
    Adjacent a b others := by
  obtain ⟨before, longer, after, rfl, starts⟩ := h
  obtain ⟨left, right, rfl⟩ := inside
  exact ⟨left ++ before, longer, after ++ right, by simp, starts⟩

theorem Adjacent.extended {overlap : Nat} (h : Adjacent a b chunks) (enough : overlap ≤ b.length) :
    Adjacent (a ++ b.take overlap) b (extended overlap chunks) := by
  obtain ⟨before, longer, after, rfl, t, rfl⟩ := h
  have added : (b ++ t).take overlap = b.take overlap := List.take_append_of_le_length enough
  induction before with
  | nil =>
    obtain ⟨longest, rest, hrest, starts⟩ : ∃ longest rest,
        RecursiveTextChunker.extended overlap ((b ++ t) :: after) = longest :: rest ∧ b <+: longest := by
      cases after with
      | nil => exact ⟨b ++ t, [], rfl, List.prefix_append b t⟩
      | cons next after =>
        refine ⟨b ++ t ++ next.take overlap, _, rfl, ?_⟩
        rw [List.append_assoc]
        exact List.prefix_append b _
    refine ⟨[], longest, rest, ?_, starts⟩
    rw [List.nil_append, RecursiveTextChunker.extended, hrest, added]
    rfl
  | cons chunk before ih =>
    obtain ⟨before', longer', after', whole, starts⟩ := ih
    cases before with
    | nil => exact ⟨(chunk ++ a.take overlap) :: before', longer', after', by
        simp only [List.cons_append, List.nil_append] at whole ⊢
        rw [RecursiveTextChunker.extended, whole], starts⟩
    | cons next before => exact ⟨(chunk ++ next.take overlap) :: before', longer', after', by
        simp only [List.cons_append] at whole ⊢
        rw [RecursiveTextChunker.extended, whole], starts⟩

theorem Adjacent.applyOverlap (h : Adjacent a b chunks) (some_ : c.chunkOverlap ≠ 0)
    (enough : c.chunkOverlap ≤ b.length) :
    Adjacent (a ++ b.take c.chunkOverlap) b (c.applyOverlap chunks) := by
  have more : ¬ chunks.length ≤ 1 := by
    obtain ⟨before, longer, after, rfl, -⟩ := h
    simp only [List.length_append, List.length_cons]
    omega
  rw [RecursiveTextChunker.applyOverlap, if_neg (by simp [more, some_])]
  exact h.extended enough

/-- Every level adds the overlap once more. -/
theorem Adjacent.level {remaining : List Text} {text part : Text} (h : Adjacent a b (c.split remaining part))
    (hsep : sep ≠ []) (last : remaining ≠ []) (some_ : c.chunkOverlap ≠ 0)
    (enough : c.chunkOverlap ≤ b.length) (oversized : c.chunkSize < part.length)
    (mem : part ∈ Segments.split sep text) :
    Adjacent (a ++ b.take c.chunkOverlap) b (c.split (sep :: remaining) text) := by
  have long : c.chunkSize < text.length :=
    lt_of_lt_of_le oversized (infix_of_mem_split hsep mem).length_le
  rw [split_level long hsep, pieces_eq last]
  exact (h.within (inner_kept mem oversized ⟨[], []⟩)).applyOverlap some_ enough

end Adjacency

end RecursiveTextChunker

end TextChunker
