import ResearchPlatform.TextChunker

/-!
# What the chunks keep of the text

The letters of a text, which are all of its characters but white space and full
stops, come out in the chunks in order. Without overlap the chunks are slices of
the text, as long as the parts that are too long for a chunk stand apart from the
parts that fit.
-/

namespace TextChunker

open Segments

/-- A character that is neither white space nor part of a separator. -/
def letter (ch : Char) : Bool := !isSpace ch && ch != '.'

def letters (text : Text) : Text := text.filter letter

@[simp] theorem letters_nil : letters [] = [] := rfl

@[simp] theorem letters_append (t u : Text) : letters (t ++ u) = letters t ++ letters u :=
  List.filter_append t u

theorem letter_apart (ch : Char) (h : isSpace ch = true) : letter ch = false := by
  simp [letter, h]

theorem letters_sep {sep : Text} (h : sep ∈ RecursiveTextChunker.separators) : letters sep = [] := by
  revert sep
  decide

theorem letters_strip (text : Text) : letters (strip text) = letters text :=
  filter_strip letter_apart text

/-- Dropping blank chunks drops no letter. -/
theorem letters_filter_blank (chunks : List Text) :
    letters (chunks.filter fun chunk => strip chunk ≠ []).flatten = letters chunks.flatten :=
  filter_nonblank letter_apart chunks

namespace RecursiveTextChunker

variable {c : RecursiveTextChunker} {sep : Text} {finer : Option (Text → List Text)}

/-! ## Letters -/

theorem letters_candidate (hsep : letters sep = []) (m : Merge) (part : Text) :
    letters (candidate sep m part) = letters m.current ++ letters part := by
  rw [candidate]
  split
  · simp_all
  · simp [hsep]

/-- What a round of the loop has, it keeps, and it takes the letters of the part. -/
theorem letters_mergePart (hsep : letters sep = [])
    (keeps : ∀ split, finer = some split → ∀ part,
      (letters part).Sublist (letters (split part).flatten)) (m : Merge) (part : Text) :
    (letters (m.chunks.flatten ++ m.current ++ part)).Sublist
      (letters ((c.mergePart sep finer m part).chunks.flatten ++
        (c.mergePart sep finer m part).current)) := by
  refine mergePart_cases m part ?_ ?_ ?_
  · intro _
    simp [letters_candidate hsep]
  · intro split hsplit _
    have inner := keeps split hsplit part
    simp only [letters_append, List.flatten_append, flushed_flatten]
    -- the letters of `current` come once more, at the end
    exact ((List.Sublist.refl _).append inner).trans (List.sublist_append_left _ _)
  · intro _ _
    simp [flushed_flatten]

theorem letters_mergeParts (hsep : letters sep = [])
    (keeps : ∀ split, finer = some split → ∀ part,
      (letters part).Sublist (letters (split part).flatten)) (m : Merge) (parts : List Text) :
    (letters (m.chunks.flatten ++ m.current ++ parts.flatten)).Sublist
      (letters (flushed (parts.foldl (c.mergePart sep finer) m)).flatten) := by
  induction parts generalizing m with
  | nil => simp [flushed_flatten]
  | cons part rest ih =>
    refine List.Sublist.trans ?_ (ih (c.mergePart sep finer m part))
    have round := letters_mergePart (c := c) hsep keeps m part
    simpa using round.append (List.Sublist.refl (letters rest.flatten))

theorem letters_parts (hsep : letters sep = []) (nonempty : sep ≠ []) (text : Text) :
    letters (Segments.split sep text).flatten = letters text := by
  have whole := congrArg letters (join_split nonempty text)
  rw [← whole]
  exact (filter_join hsep _).symm

theorem letters_split {seps : List Text} (hseps : ∀ sep ∈ seps, letters sep = []) (text : Text) :
    (letters text).Sublist (letters (c.split seps text).flatten) := by
  revert hseps
  induction seps, text using split_induction (c := c) with
  | short seps text h =>
    intro _
    rw [split_short seps h]
    simp
  | none_ text h =>
    intro _
    rw [split_nil h]
    exact (sublist_hardSplitFrom text text.length 0 (by omega)).filter letter
  | hard remaining text h =>
    intro _
    rw [split_hard h]
    exact (sublist_hardSplitFrom text text.length 0 (by omega)).filter letter
  | level sep remaining text h hsep ih =>
    intro hseps
    rw [split_level h hsep]
    refine List.Sublist.trans ?_ ((flatten_sublist_applyOverlap _).filter letter)
    have keeps : ∀ split, (if remaining = [] then none else some (c.split remaining)) = some split →
        ∀ part, (letters part).Sublist (letters (split part).flatten) := by
      intro split hsplit part
      split at hsplit
      · cases hsplit
      · cases hsplit
        exact ih part fun s mem => hseps s (List.mem_cons_of_mem sep mem)
    have loop := letters_mergeParts (c := c) (hseps sep List.mem_cons_self) keeps ⟨[], []⟩
      (Segments.split sep text)
    rw [List.flatten_nil, List.nil_append, List.nil_append,
      letters_parts (hseps sep List.mem_cons_self) hsep] at loop
    exact loop

/-- No letter is lost, and the letters stay in order. -/
theorem chunk_keeps_letters (c : RecursiveTextChunker) (text : Text) :
    (text.filter letter).Sublist ((c.chunk text).flatten.filter letter) := by
  have kept : (letters text).Sublist (letters (c.chunk text).flatten) := by
    rw [← letters_strip, chunk]
    by_cases blank : strip text = []
    · simp [blank]
    · rw [if_neg blank, letters_filter_blank]
      exact letters_split (fun sep => letters_sep) (strip text)
  exact kept

/-! ## Parts that fit in a chunk -/

/-- The parts that are not split further. -/
def fitting (c : RecursiveTextChunker) (parts : List Text) : List Text :=
  parts.filter fun part => part.length ≤ c.chunkSize

@[simp] theorem fitting_append (parts others : List Text) :
    c.fitting (parts ++ others) = c.fitting parts ++ c.fitting others := List.filter_append parts others

theorem fitting_fits {part : Text} (fits : part.length ≤ c.chunkSize) : c.fitting [part] = [part] := by
  simp [fitting, fits]

theorem fitting_oversized {part : Text} (oversized : c.chunkSize < part.length) :
    c.fitting [part] = [] := by
  simp [fitting, oversized]

/-- No run of parts that fit begins before the oversized part between these, with a
nonempty part, goes up to it or beyond, and fits in a chunk as a whole, unless it is
white space. -/
def Parted (c : RecursiveTextChunker) (sep : Text) (before after : List Text) : Prop :=
  ∀ run ∈ (c.fitting before).tails, ∀ more ∈ (c.fitting after).inits, run.headD [] ≠ [] →
    (join sep (run ++ more)).length ≤ c.chunkSize → strip (join sep (run ++ more)) = []

instance (c : RecursiveTextChunker) (sep : Text) (before after : List Text) :
    Decidable (c.Parted sep before after) :=
  inferInstanceAs (Decidable (∀ run ∈ _, ∀ more ∈ _, _))

/-- On every level the oversized parts stand apart from the parts that fit. -/
def Separated (c : RecursiveTextChunker) : List Text → Text → Prop
  | [], _ => True
  | sep :: remaining, text => c.chunkSize < text.length → sep ≠ [] →
      ∀ before part after, Segments.split sep text = before ++ part :: after →
        c.chunkSize < part.length → c.Parted sep before after ∧ Separated c remaining part

instance decidableSeparated (c : RecursiveTextChunker) : ∀ seps text, Decidable (c.Separated seps text)
  | [], _ => inferInstanceAs (Decidable True)
  | sep :: remaining, text =>
    have := decidableSeparated c remaining
    have : Decidable (∀ before part after, Segments.split sep text = before ++ part :: after →
        c.chunkSize < part.length → c.Parted sep before after ∧ c.Separated remaining part) :=
      decidable_of_iff _ forall_split_iff.symm
    inferInstanceAs (Decidable (_ → _ → _))

/-- Separators and white space. -/
inductive Gap : Text → Prop
  | nil : Gap []
  | space {ch : Char} {g : Text} (h : isSpace ch = true) (rest : Gap g) : Gap (ch :: g)
  | separator {sep g : Text} (h : sep ∈ separators) (rest : Gap g) : Gap (sep ++ g)

theorem Gap.append (g h : Text) (hg : Gap g) (hh : Gap h) : Gap (g ++ h) := by
  induction hg with
  | nil => exact hh
  | space blank _ ih => exact .space blank ih
  | separator mem _ ih => exact List.append_assoc _ _ _ ▸ .separator mem ih

theorem Gap.of_blank {text : Text} (h : ∀ ch ∈ text, isSpace ch = true) : Gap text := by
  induction text with
  | nil => exact .nil
  | cons ch text ih =>
    exact .space (h ch List.mem_cons_self) (ih fun x mem => h x (List.mem_cons_of_mem ch mem))

/-- The next part stands behind what the loop has seen, after a separator if there was
a part before. -/
theorem join_next (hsep : Gap sep) (done : List Text) (part : Text) :
    ∃ gap, Gap gap ∧ join sep (done ++ [part]) = join sep done ++ gap ++ part ∧
      (done ≠ [] → gap = sep) := by
  by_cases first : done = []
  · exact ⟨[], Gap.nil, by simp [first], fun h => absurd first h⟩
  · exact ⟨sep, hsep, join_snoc sep part first, fun _ => rfl⟩

/-- The chunks that `chunk` returns. -/
def visible (chunks : List Text) : List Text := chunks.filter fun chunk => strip chunk ≠ []

@[simp] theorem visible_append (chunks others : List Text) :
    visible (chunks ++ others) = visible chunks ++ visible others := List.filter_append chunks others

theorem visible_flushed (m : Merge) : visible (flushed m) = visible m.chunks ++ visible [m.current] := by
  by_cases empty : m.current = []
  · rw [flushed, if_pos empty, empty]
    simp [visible, strip]
  · rw [flushed, if_neg empty, visible_append]

theorem visible_blank {text : Text} (blank : strip text = []) : visible [text] = [] := by
  simp [visible, blank]

theorem Cut.visible {chunks : List Text} {text : Text} (h : Cut Gap chunks text) :
    Cut Gap (visible chunks) text :=
  h.filter Gap.append fun chunk dropped => Gap.of_blank (strip_eq_nil.mp (by simpa using dropped))

theorem cut_visible (text : Text) : Cut Gap (visible [text]) text :=
  Cut.visible (Cut.single Gap.nil text)

theorem ne_nil_of_headD {run : List Text} (h : run.headD [] ≠ []) : run ≠ [] := by
  rintro rfl
  exact h rfl

theorem join_ne_nil {run : List Text} (h : run.headD [] ≠ []) (more : List Text) :
    join sep (run ++ more) ≠ [] := by
  cases run with
  | nil => exact absurd rfl h
  | cons part rest =>
    refine fun empty => h ?_
    have inside : part <:+: join sep (part :: rest ++ more) := infix_of_mem_join (by simp)
    rw [empty] at inside
    exact List.infix_nil.mp inside

theorem headD_append {run : List Text} (h : run.headD [] ≠ []) (more : List Text) :
    (run ++ more).headD [] ≠ [] := by
  cases run with
  | nil => exact absurd rfl h
  | cons part rest => exact h

/-- `current` holds a run of parts that fit, up to the last one seen. -/
def Gathered (c : RecursiveTextChunker) (sep : Text) (done : List Text) (current : Text) : Prop :=
  current ≠ [] → ∃ run, run <:+ c.fitting done ∧ run.headD [] ≠ [] ∧ current = join sep run

theorem Gathered.alone {done : List Text} {part : Text} (fits : part.length ≤ c.chunkSize) :
    c.Gathered sep (done ++ [part]) part := by
  intro some_
  refine ⟨[part], ?_, some_, rfl⟩
  rw [fitting_append, fitting_fits fits]
  exact List.suffix_append _ _

theorem Gathered.snoc {done : List Text} {current part : Text} (h : c.Gathered sep done current)
    (fits : part.length ≤ c.chunkSize) (some_ : current ≠ []) :
    c.Gathered sep (done ++ [part]) (current ++ sep ++ part) := by
  obtain ⟨run, suffix, head, rfl⟩ := h some_
  intro _
  refine ⟨run ++ [part], ?_, headD_append head _, ?_⟩
  · rw [fitting_append, fitting_fits fits]
    exact (List.suffix_append_inj_of_length_eq rfl).mpr ⟨suffix, rfl⟩
  · rw [join_snoc sep part (ne_nil_of_headD head)]

/-- What the loop has made of the parts it has seen: the visible chunks lie in what
comes before `current`; or `current` is white space, left over from before an oversized
part, and they lie in all of it. -/
inductive Laying (c : RecursiveTextChunker) (sep : Text) (done : List Text) (m : Merge) : Prop
  | fresh (before : Text) (whole : join sep done = before ++ m.current)
      (cut : Cut Gap (visible m.chunks) before) (run : c.Gathered sep done m.current)
      (fits : m.current.length ≤ c.chunkSize)
  | spare (before : List Text) (part : Text) (after run : List Text)
      (split : done = before ++ part :: after) (oversized : c.chunkSize < part.length)
      (suffix : run <:+ c.fitting before) (head : run.headD [] ≠ [])
      (current : m.current = join sep (run ++ c.fitting after)) (blank : strip m.current = [])
      (cut : Cut Gap (visible m.chunks) (join sep done))

theorem Laying.flushed {done : List Text} {m : Merge} (h : c.Laying sep done m) :
    Cut Gap (visible (flushed m)) (join sep done) := by
  rw [visible_flushed]
  cases h with
  | fresh before whole cut run fits =>
    rw [whole]
    exact cut.append Gap.append (cut_visible m.current)
  | spare before part after run split oversized suffix head current blank cut =>
    simpa [visible_blank blank] using cut

section Round
variable {split : Text → List Text} {done rest : List Text} {m : Merge} {part : Text}

/-- A part that is joined to `current`. -/
theorem Laying.joined (hsep : Gap sep) (h : c.Laying sep done m)
    (parted : ∀ before oversized after, done ++ part :: rest = before ++ oversized :: after →
      c.chunkSize < oversized.length → c.Parted sep before after)
    (fits : (candidate sep m part).length ≤ c.chunkSize) :
    c.Laying sep (done ++ [part]) ⟨m.chunks, candidate sep m part⟩ := by
  obtain ⟨gap, hgap, whole, between⟩ := join_next hsep done part
  cases h with
  | fresh before seen cut run small =>
    by_cases empty : m.current = []
    · rw [candidate, if_pos empty] at fits ⊢
      refine .fresh (before ++ gap) ?_ ?_ (Gathered.alone fits) fits
      · simp [whole, seen, empty]
      · simpa using cut.append Gap.append (Cut.gap hgap)
    · have later : done ≠ [] := by
        rintro rfl
        simp [eq_comm, empty] at seen
      rw [candidate, if_neg empty] at fits ⊢
      refine .fresh before ?_ cut (run.snoc ?_ empty) fits
      · simp [whole, seen, between later]
      · simp only [List.length_append] at fits
        omega
  | spare before oversized after run split long suffix head current blank cut =>
    have some_ : m.current ≠ [] := current ▸ join_ne_nil head _
    rw [candidate, if_neg some_] at fits ⊢
    have small : part.length ≤ c.chunkSize := by
      simp only [List.length_append] at fits
      omega
    have longer : m.current ++ sep ++ part = join sep (run ++ c.fitting (after ++ [part])) := by
      rw [current, fitting_append, fitting_fits small, ← List.append_assoc,
        join_snoc sep part (List.append_ne_nil_of_left_ne_nil (ne_nil_of_headD head) _)]
    have blank' : strip (m.current ++ sep ++ part) = [] := by
      rw [longer] at fits ⊢
      refine parted before oversized (after ++ part :: rest) (by simp [split]) long run
        ((List.mem_tails _ _).mpr suffix) _ ((List.mem_inits _ _).mpr ?_) head fits
      simp only [fitting_append]
      rw [show part :: rest = [part] ++ rest from rfl, fitting_append, ← List.append_assoc]
      exact List.prefix_append _ _
    refine .spare before oversized (after ++ [part]) run (by simp [split]) long suffix head longer
      blank' ?_
    rw [whole]
    have spaces : Gap part := Gap.of_blank fun ch mem =>
      strip_eq_nil.mp blank' ch (List.mem_append_right _ mem)
    simpa using (cut.append Gap.append (Cut.gap hgap)).append Gap.append (Cut.gap spaces)

/-- An oversized part that is split further. -/
theorem Laying.descended (hsep : Gap sep) (h : c.Laying sep done m)
    (parted : ∀ before oversized after, done ++ part :: rest = before ++ oversized :: after →
      c.chunkSize < oversized.length → c.Parted sep before after)
    (oversized : c.chunkSize < part.length) (inner : Cut Gap (visible (split part)) part) :
    c.Laying sep (done ++ [part]) ⟨RecursiveTextChunker.flushed m ++ split part, m.current⟩ := by
  obtain ⟨gap, hgap, whole, -⟩ := join_next hsep done part
  have cut : Cut Gap (visible (RecursiveTextChunker.flushed m ++ split part))
      (join sep (done ++ [part])) := by
    rw [whole, visible_append]
    have upTo := h.flushed.append Gap.append (Cut.gap hgap)
    rw [List.append_nil] at upTo
    exact upTo.append Gap.append inner
  cases h with
  | fresh before seen _ run small =>
    by_cases empty : m.current = []
    · refine .fresh (join sep (done ++ [part])) (by simp [empty]) cut ?_ small
      exact fun some_ => absurd empty some_
    · obtain ⟨run, suffix, head, current⟩ := run empty
      have blank : strip (join sep (run ++ [])) = [] := by
        refine parted done part rest rfl oversized run ((List.mem_tails _ _).mpr suffix) [] (by simp) head ?_
        rwa [List.append_nil, ← current]
      rw [List.append_nil, ← current] at blank
      exact .spare done part [] run rfl oversized suffix head (by simpa [fitting] using current) blank cut
  | spare before first after run split long suffix head current blank _ =>
    refine .spare before first (after ++ [part]) run (by simp [split]) long suffix head ?_ blank cut
    simpa [fitting_oversized oversized] using current

/-- A part with which `current` starts again. -/
theorem Laying.restarted (hsep : Gap sep) (h : c.Laying sep done m)
    (fits : part.length ≤ c.chunkSize) :
    c.Laying sep (done ++ [part]) ⟨RecursiveTextChunker.flushed m, part⟩ := by
  obtain ⟨gap, hgap, whole, -⟩ := join_next hsep done part
  refine .fresh (join sep done ++ gap) whole ?_ (Gathered.alone fits) fits
  simpa using h.flushed.append Gap.append (Cut.gap hgap)

theorem Laying.mergePart (hsep : Gap sep) (h : c.Laying sep done m)
    (parted : ∀ before oversized after, done ++ part :: rest = before ++ oversized :: after →
      c.chunkSize < oversized.length → c.Parted sep before after)
    (inner : c.chunkSize < part.length → Cut Gap (visible (split part)) part) :
    c.Laying sep (done ++ [part]) (c.mergePart sep (some split) m part) := by
  refine mergePart_cases m part ?_ ?_ ?_
  · exact fun fits => h.joined hsep parted fits
  · intro split' hsplit oversized
    cases hsplit
    exact h.descended hsep parted oversized (inner oversized)
  · exact fun fits _ => h.restarted hsep (fits.resolve_left (Option.some_ne_none split))

theorem Laying.mergeParts (hsep : Gap sep) (h : c.Laying sep done m)
    (parted : ∀ before oversized after, done ++ rest = before ++ oversized :: after →
      c.chunkSize < oversized.length → c.Parted sep before after)
    (inner : ∀ part ∈ rest, c.chunkSize < part.length → Cut Gap (visible (split part)) part) :
    c.Laying sep (done ++ rest) (rest.foldl (c.mergePart sep (some split)) m) := by
  induction rest generalizing done m with
  | nil => simpa using h
  | cons part rest ih =>
    have round := h.mergePart hsep parted (inner part List.mem_cons_self)
    simpa using ih round (by simpa using parted) fun next mem => inner next (List.mem_cons_of_mem part mem)

end Round

end RecursiveTextChunker

end TextChunker
