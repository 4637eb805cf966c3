import ResearchPlatform.TextChunker

/-!
# Words in the chunks

A word stands whole in a part at every level of the recursion, unless its full stop
is taken for the end of a sentence. What stands whole in a part stands whole in a
chunk.
-/

namespace TextChunker

open Segments

/-! ## Words -/

/-- `w` is a word between `before` and `after`: a maximal run of characters that are
neither space nor newline, without any other white space. -/
structure Word (before w after : Text) : Prop where
  nonempty : w ≠ []
  visible : ∀ ch ∈ w, isSpace ch = false
  opens : ∀ ch, [ch] <:+ before → ch = ' ' ∨ ch = '\n'
  closes : ∀ ch, [ch] <+: after → ch = ' ' ∨ ch = '\n'

section Words
variable {before w after left right : Text}

theorem Word.within (h : Word before w after) (hl : left <:+ before) (hr : right <+: after) :
    Word left w right :=
  ⟨h.nonempty, h.visible, fun ch last => h.opens ch (last.trans hl),
    fun ch first => h.closes ch (first.trans hr)⟩

/-- Separators of white space do not reach into a word. -/
theorem Word.clear (h : Word before w after) {sep : Text} (hsep : sep ≠ [])
    (blank : sep.all isSpace = true) : Clear sep before w after := by
  refine Clear.of_disjoint hsep h.nonempty fun ch mem inSep => ?_
  have := h.visible ch mem
  rw [List.all_eq_true.mp blank ch inSep] at this
  cases this

/-- A sentence ends in a word only with the full stop at its end. -/
theorem Word.clear_stop (h : Word before w after)
    (whole : ¬ (['.'] <:+ w ∧ [' '] <+: after)) : Clear ['.', ' '] before w after := by
  have space : ' ' ∉ w := by
    intro mem
    have := h.visible ' ' mem
    revert this
    decide
  constructor
  · intro a b _ hb starts
    match b, hb with
    | [ch], _ =>
      obtain ⟨first, w, rfl⟩ := List.exists_cons_of_ne_nil h.nonempty
      obtain ⟨t, same⟩ := starts
      simp only [List.cons_append, List.nil_append, List.cons.injEq] at same
      exact absurd (same.2.1 ▸ List.mem_cons_self) space
    | ch :: ch' :: b, _ => simp
  · intro a b same hb starts
    obtain ⟨t, start⟩ := starts
    match b, hb with
    | [ch], _ =>
      simp only [List.cons_append, List.nil_append, List.cons.injEq] at start
      exact whole ⟨⟨a, start.1 ▸ same⟩, ⟨t, start.2⟩⟩
    | ch :: ch' :: b, _ =>
      simp only [List.cons_append, List.cons.injEq] at start
      have second : ' ' ∈ ch :: ch' :: b :=
        List.mem_cons_of_mem ch (start.2.1 ▸ List.mem_cons_self)
      exact space (same ▸ List.mem_append_right a second)

/-- Where no space and no newline is left, the word is alone. -/
theorem Word.alone (h : Word before w after) (space : ' ' ∉ before ++ w ++ after)
    (newline : '\n' ∉ before ++ w ++ after) : before ++ w ++ after = w := by
  have first : before = [] := by
    rcases List.eq_nil_or_concat before with rfl | ⟨init, ch, rfl⟩
    · rfl
    · rcases h.opens ch ⟨init, by simp⟩ with rfl | rfl
      · exact absurd (by simp) space
      · exact absurd (by simp) newline
  have last : after = [] := by
    cases after with
    | nil => rfl
    | cons ch rest =>
      rcases h.closes ch ⟨rest, rfl⟩ with rfl | rfl
      · exact absurd (by simp) space
      · exact absurd (by simp) newline
  simp [first, last]

/-- The part of a text that has a stretch of it whole, when the separators are clear of it. -/
theorem Word.part (h : Word before w after) {sep : Text} (hsep : sep ≠ [])
    (clear : Clear sep before w after) :
    ∃ left right, left ++ w ++ right ∈ Segments.split sep (before ++ w ++ after) ∧
      Word left w right ∧ left <:+ before ∧ right <+: after := by
  obtain ⟨left, right, hl, hr, mem⟩ := split_keeps hsep clear
  exact ⟨left, right, mem, h.within hl hr, hl, hr⟩

end Words

namespace RecursiveTextChunker

variable {c : RecursiveTextChunker} {sep w : Text} {finer : Option (Text → List Text)}

/-! ## From the parts to the chunks -/

/-- The loop has the word in a chunk or in `current`. -/
def Holds (w : Text) (m : Merge) : Prop :=
  (∃ chunk ∈ m.chunks, w <:+: chunk) ∨ w <:+: m.current

theorem Holds.flushed (hw : w ≠ []) {m : Merge} (h : Holds w m) :
    ∃ chunk ∈ flushed m, w <:+: chunk := by
  rw [RecursiveTextChunker.flushed]
  split
  · rcases h with h | h
    · exact h
    · rename_i empty
      rw [empty] at h
      exact absurd (List.infix_nil.mp h) hw
  · rcases h with ⟨chunk, mem, stands⟩ | h
    · exact ⟨chunk, List.mem_append_left _ mem, stands⟩
    · exact ⟨m.current, by simp, h⟩

theorem Holds.mergePart (hw : w ≠ []) {m : Merge} (h : Holds w m) (part : Text) :
    Holds w (c.mergePart sep finer m part) := by
  obtain ⟨chunk, mem, stands⟩ := h.flushed hw
  refine mergePart_cases m part ?_ ?_ ?_
  · intro _
    rcases h with h | h
    · exact Or.inl h
    · refine Or.inr ?_
      simp only [candidate]
      split
      · rename_i empty
        rw [empty] at h
        exact absurd (List.infix_nil.mp h) hw
      · exact List.infix_append_of_infix_left (List.infix_append_of_infix_left h)
  · exact fun split _ _ => Or.inl ⟨chunk, List.mem_append_left _ mem, stands⟩
  · exact fun _ _ => Or.inl ⟨chunk, mem, stands⟩

theorem Holds.of_part {part : Text} (stands : w <:+: part)
    (inner : ∀ split, finer = some split → c.chunkSize < part.length →
      ∃ chunk ∈ split part, w <:+: chunk) (m : Merge) :
    Holds w (c.mergePart sep finer m part) := by
  refine mergePart_cases m part ?_ ?_ ?_
  · intro _
    refine Or.inr ?_
    simp only [candidate]
    split
    · exact stands
    · exact List.infix_append_of_infix_right stands
  · intro split hsplit oversized
    obtain ⟨chunk, mem, stands⟩ := inner split hsplit oversized
    exact Or.inl ⟨chunk, List.mem_append_right _ mem, stands⟩
  · exact fun _ _ => Or.inr stands

theorem Holds.mergeParts (hw : w ≠ []) {part : Text} (stands : w <:+: part)
    (inner : ∀ split, finer = some split → c.chunkSize < part.length →
      ∃ chunk ∈ split part, w <:+: chunk) {parts : List Text} (mem : part ∈ parts) (m : Merge) :
    Holds w (parts.foldl (c.mergePart sep finer) m) := by
  obtain ⟨done, rest, rfl⟩ := List.append_of_mem mem
  have later : ∀ (rest : List Text) (m : Merge), Holds w m →
      Holds w (rest.foldl (c.mergePart sep finer) m) := by
    intro rest
    induction rest with
    | nil => exact fun m h => h
    | cons next rest ih => exact fun m h => ih _ (h.mergePart hw next)
  rw [List.foldl_append, List.foldl_cons]
  exact later rest _ (Holds.of_part stands inner _)

/-- What stands in a part stands in a chunk, if it still does when an oversized part is
split further. -/
theorem stands_level (hw : w ≠ []) (hsep : sep ≠ []) {remaining : List Text} {text part : Text}
    (mem : part ∈ Segments.split sep text) (stands : w <:+: part)
    (inner : c.chunkSize < part.length → ∃ chunk ∈ c.split remaining part, w <:+: chunk) :
    ∃ chunk ∈ c.split (sep :: remaining) text, w <:+: chunk := by
  by_cases h : text.length ≤ c.chunkSize
  · exact ⟨text, by simp [split_short _ h], stands.trans (infix_of_mem_split hsep mem)⟩
  · rw [split_level (Nat.not_le.mp h) hsep]
    have inner' : ∀ split, (if remaining = [] then none else some (c.split remaining)) = some split →
        c.chunkSize < part.length → ∃ chunk ∈ split part, w <:+: chunk := by
      intro split hsplit oversized
      split at hsplit
      · cases hsplit
      · cases hsplit
        exact inner oversized
    have held : Holds w (c.mergeParts sep _ (Segments.split sep text)) :=
      Holds.mergeParts hw stands inner' mem ⟨[], []⟩
    obtain ⟨chunk, here, stands⟩ := held.flushed hw
    obtain ⟨longer, there, starts⟩ := applyOverlap_prefix (c := c) here
    exact ⟨longer, there, stands.trans starts.isInfix⟩

/-! ## The four levels -/

/-- The full stop of the word is followed by a space, in a line longer than a chunk. -/
def StopCut (c : RecursiveTextChunker) (before w after : Text) : Prop :=
  ['.'] <:+ w ∧ [' '] <+: after ∧ ∃ left right, left <:+ before ∧ right <+: after ∧
    '\n' ∉ left ++ w ++ right ∧ c.chunkSize < (left ++ w ++ right).length

section Levels
variable {before after : Text}

theorem StopCut.outer {left right : Text} (hl : left <:+ before) (hr : right <+: after)
    (h : c.StopCut left w right) : c.StopCut before w after := by
  obtain ⟨stop, space, left', right', hl', hr', line⟩ := h
  exact ⟨stop, space.trans hr, left', right', hl'.trans hl, hr'.trans hr, line⟩

/-- At the level of the spaces a word is a part of its own. -/
theorem stands_words (word : Word before w after) (fits : w.length ≤ c.chunkSize)
    (line : '\n' ∉ before ++ w ++ after) :
    ∃ chunk ∈ c.split [[' '], []] (before ++ w ++ after), w <:+: chunk := by
  obtain ⟨left, right, mem, inner, -, -⟩ := word.part (List.cons_ne_nil ' ' [])
    (word.clear (List.cons_ne_nil ' ' []) (by decide))
  have alone := inner.alone (not_mem_of_mem_split mem)
    fun newline => line ((infix_of_mem_split (List.cons_ne_nil ' ' []) mem).mem newline)
  rw [alone] at mem
  exact stands_level word.nonempty (List.cons_ne_nil ' ' []) mem List.infix_rfl
    fun oversized => absurd fits (Nat.not_le.mpr oversized)

theorem stands_sentences (word : Word before w after) (fits : w.length ≤ c.chunkSize)
    (line : '\n' ∉ before ++ w ++ after) (whole : ¬ c.StopCut before w after) :
    ∃ chunk ∈ c.split [['.', ' '], [' '], []] (before ++ w ++ after), w <:+: chunk := by
  by_cases short : (before ++ w ++ after).length ≤ c.chunkSize
  · rw [split_short _ short]
    exact ⟨before ++ w ++ after, List.mem_singleton_self _, ⟨before, after, rfl⟩⟩
  · have stop : ¬ (['.'] <:+ w ∧ [' '] <+: after) := fun ⟨stop, space⟩ =>
      whole ⟨stop, space, before, after, List.suffix_rfl, List.prefix_rfl, line,
        Nat.not_le.mp short⟩
    obtain ⟨left, right, mem, inner, -, -⟩ := word.part (List.cons_ne_nil '.' [' '])
      (word.clear_stop stop)
    exact stands_level word.nonempty (List.cons_ne_nil '.' [' ']) mem ⟨left, right, rfl⟩
      fun _ => stands_words inner fits
        fun newline => line ((infix_of_mem_split (List.cons_ne_nil '.' [' ']) mem).mem newline)

theorem stands_lines (word : Word before w after) (fits : w.length ≤ c.chunkSize)
    (whole : ¬ c.StopCut before w after) :
    ∃ chunk ∈ c.split [['\n'], ['.', ' '], [' '], []] (before ++ w ++ after), w <:+: chunk := by
  obtain ⟨left, right, mem, inner, hl, hr⟩ := word.part (List.cons_ne_nil '\n' [])
    (word.clear (List.cons_ne_nil '\n' []) (by decide))
  exact stands_level word.nonempty (List.cons_ne_nil '\n' []) mem ⟨left, right, rfl⟩
    fun _ => stands_sentences inner fits (not_mem_of_mem_split mem) fun cut => whole (cut.outer hl hr)

theorem stands_paragraphs (word : Word before w after) (fits : w.length ≤ c.chunkSize)
    (whole : ¬ c.StopCut before w after) :
    ∃ chunk ∈ c.split separators (before ++ w ++ after), w <:+: chunk := by
  obtain ⟨left, right, mem, inner, hl, hr⟩ := word.part (List.cons_ne_nil '\n' ['\n'])
    (word.clear (List.cons_ne_nil '\n' ['\n']) (by decide))
  exact stands_level word.nonempty (List.cons_ne_nil '\n' ['\n']) mem ⟨left, right, rfl⟩
    fun _ => stands_lines inner fits fun cut => whole (cut.outer hl hr)

end Levels

/-! ## The characters of the chunks -/

/-- All the loop holds has property `p`. -/
def AllIn (p : Char → Prop) (m : Merge) : Prop := ∀ ch ∈ (flushed m).flatten, p ch

section Characters
variable {p : Char → Prop} {split : Text → List Text} {m : Merge}

/-- A round keeps the property if the part has it, or has it once it is split, and the
separator has it where a part is joined. -/
theorem AllIn.mergePart {part : Text} (h : AllIn p m)
    (hsep : m.current = [] ∨ c.chunkSize < (candidate sep m part).length ∨ ∀ ch ∈ sep, p ch)
    (short : part.length ≤ c.chunkSize → ∀ ch ∈ part, p ch)
    (oversized : c.chunkSize < part.length → ∀ ch ∈ (split part).flatten, p ch) :
    AllIn p (c.mergePart sep (some split) m part) := by
  have before : ∀ ch ∈ m.chunks.flatten ++ m.current, p ch := by
    rw [← flushed_flatten]
    exact h
  refine mergePart_cases m part ?_ ?_ ?_
  · intro fits ch mem
    rw [flushed_flatten] at mem
    rcases List.mem_append.mp mem with mem | mem
    · exact before ch (List.mem_append_left _ mem)
    · simp only [candidate] at mem fits hsep
      split at mem
      · rename_i empty
        rw [if_pos empty] at fits
        exact short fits ch mem
      · rename_i some_
        rw [if_neg some_] at fits hsep
        have partFits : part.length ≤ c.chunkSize := by
          simp only [List.length_append] at fits
          omega
        rcases List.mem_append.mp mem with mem | mem
        · rcases List.mem_append.mp mem with mem | mem
          · exact before ch (List.mem_append_right _ mem)
          · exact ((hsep.resolve_left some_).resolve_left (Nat.not_lt.mpr fits)) ch mem
        · exact short partFits ch mem
  · intro split' hsplit long ch mem
    cases hsplit
    simp only [flushed_flatten, List.flatten_append] at mem
    rcases List.mem_append.mp mem with mem | mem
    · rcases List.mem_append.mp mem with mem | mem
      · exact before ch mem
      · exact oversized long ch mem
    · exact before ch (List.mem_append_right _ mem)
  · intro fits _ ch mem
    rw [flushed_flatten] at mem
    rcases List.mem_append.mp mem with mem | mem
    · exact h ch mem
    · exact short (fits.resolve_left (Option.some_ne_none split)) ch mem

theorem AllIn.mergeParts {parts : List Text} (h : AllIn p m) (hsep : ∀ ch ∈ sep, p ch)
    (short : ∀ part ∈ parts, part.length ≤ c.chunkSize → ∀ ch ∈ part, p ch)
    (oversized : ∀ part ∈ parts, c.chunkSize < part.length → ∀ ch ∈ (split part).flatten, p ch) :
    AllIn p (parts.foldl (c.mergePart sep (some split)) m) := by
  induction parts generalizing m with
  | nil => exact h
  | cons part rest ih =>
    exact ih (h.mergePart (Or.inr (Or.inr hsep)) (short part List.mem_cons_self)
        (oversized part List.mem_cons_self))
      (fun next mem => short next (List.mem_cons_of_mem part mem))
      (fun next mem => oversized next (List.mem_cons_of_mem part mem))

theorem allIn_start : AllIn p ⟨[], []⟩ := fun _ mem => nomatch mem

end Characters

/-- No chunk has a character that the text has not. -/
theorem mem_of_mem_split {seps : List Text} (last : [] ∈ seps) (text : Text) :
    ∀ ch ∈ (c.split seps text).flatten, ch ∈ text := by
  have windows : ∀ text, ∀ ch ∈ (c.hardSplit text).flatten, ch ∈ text := by
    intro text ch mem
    obtain ⟨chunk, inList, mem⟩ := List.mem_flatten.mp mem
    exact (mem_hardSplitFrom inList).2.mem mem
  revert last
  induction seps, text using split_induction (c := c) with
  | short seps text h =>
    intro _
    simp [split_short seps h]
  | none_ text h => exact fun last => nomatch last
  | hard remaining text h =>
    intro _
    rw [split_hard h]
    exact windows text
  | level sep remaining text h hsep ih =>
    intro last
    have last' : [] ∈ remaining := nil_mem_remaining hsep last
    rw [split_level h hsep, pieces_eq (List.ne_nil_of_mem last')]
    intro ch mem
    have mem' := mem_applyOverlap mem
    rcases split_singleton_or hsep text with only | found
    · rw [only] at mem'
      exact AllIn.mergePart (p := (· ∈ text)) allIn_start (Or.inl rfl) (fun _ _ inPart => inPart)
        (fun _ => ih text last') ch mem'
    · exact AllIn.mergeParts (p := (· ∈ text)) allIn_start (fun _ inSep => found.mem inSep)
        (fun part mem _ _ inPart => (infix_of_mem_split hsep mem).mem inPart)
        (fun part mem _ ch inChunks =>
          (infix_of_mem_split hsep mem).mem (ih part last' ch inChunks)) ch mem'

/-! ## A full stop that is lost -/

/-- The only full stop of the text is followed by a space, in a line longer than a chunk. -/
def LoneStop (c : RecursiveTextChunker) (text : Text) : Prop :=
  ∃ before after left right, text = before ++ ['.', ' '] ++ after ∧ '.' ∉ before ∧ '.' ∉ after ∧
    left <:+ before ∧ right <+: after ∧ '\n' ∉ left ++ ['.', ' '] ++ right ∧
    c.chunkSize < (left ++ ['.', ' '] ++ right).length

theorem LoneStop.long {text : Text} (h : c.LoneStop text) : c.chunkSize < text.length := by
  obtain ⟨before, after, left, right, rfl, -, -, hl, hr, -, long⟩ := h
  have := hl.length_le
  have := hr.length_le
  simp only [List.length_append] at long ⊢
  omega

theorem LoneStop.count {text : Text} (h : c.LoneStop text) : text.count '.' = 1 := by
  obtain ⟨before, after, -, -, rfl, hb, ha, -⟩ := h
  simp [List.count_eq_zero_of_not_mem hb, List.count_eq_zero_of_not_mem ha]

/-- The full stop is not in the two sentences, and these are too long to be joined. -/
theorem lost_sentences {text : Text} (h : c.LoneStop text) :
    '.' ∉ (c.split [['.', ' '], [' '], []] text).flatten := by
  have long := h.long
  obtain ⟨before, after, -, -, rfl, hb, ha, -⟩ := h
  rw [split_level long (List.cons_ne_nil '.' [' ']), pieces_eq (List.cons_ne_nil [' '] [[]])]
  intro mem
  have mem' := mem_applyOverlap mem
  rw [split_once hb ha, mergeParts, List.foldl_cons, List.foldl_cons, List.foldl_nil] at mem'
  have oversized : ∀ part : Text, '.' ∉ part → c.chunkSize < part.length →
      ∀ ch ∈ (c.split [[' '], []] part).flatten, ch ≠ '.' :=
    fun part free _ ch inChunks same =>
      free (same ▸ mem_of_mem_split (by decide) part ch inChunks)
  have first : AllIn (· ≠ '.') (c.mergePart ['.', ' '] (some (c.split [[' '], []])) ⟨[], []⟩ before) :=
    AllIn.mergePart allIn_start (Or.inl rfl) (fun _ ch inPart same => hb (same ▸ inPart))
      (oversized before hb)
  have held : (c.mergePart ['.', ' '] (some (c.split [[' '], []])) ⟨[], []⟩ before).current = [] ∨
      (c.mergePart ['.', ' '] (some (c.split [[' '], []])) ⟨[], []⟩ before).current = before := by
    refine mergePart_cases ⟨[], []⟩ before ?_ ?_ ?_
    · exact fun _ => Or.inr rfl
    · exact fun _ _ _ => Or.inl rfl
    · exact fun _ _ => Or.inr rfl
  refine AllIn.mergePart first ?_ (fun _ ch inPart same => ha (same ▸ inPart)) (oversized after ha)
    '.' mem' rfl
  rcases held with empty | same
  · exact Or.inl empty
  · by_cases empty : before = []
    · exact Or.inl (same.trans empty)
    · refine Or.inr (Or.inl ?_)
      rw [candidate, same, if_neg empty]
      exact long

/-- The full stop stays in one long part where newlines are split. -/
theorem lost_level {sep : Text} (hsep : sep ≠ []) (newlines : ∀ ch ∈ sep, ch = '\n')
    {remaining : List Text} (last : [] ∈ remaining)
    (lost : ∀ text, c.LoneStop text → '.' ∉ (c.split remaining text).flatten) {text : Text}
    (h : c.LoneStop text) : '.' ∉ (c.split (sep :: remaining) text).flatten := by
  have stop : '.' ∉ sep := fun mem => absurd (newlines '.' mem) (by decide)
  have long : ∀ part ∈ Segments.split sep text, '.' ∈ part → c.LoneStop part := by
    intro part mem inPart
    have once := h.count
    obtain ⟨before, after, left, right, rfl, hb, ha, ⟨outer, rfl⟩, ⟨outer', rfl⟩, line, long⟩ := h
    have clear : Clear sep outer (left ++ ['.', ' '] ++ right) outer' :=
      Clear.of_disjoint hsep (by simp) fun ch mem inSep => line (newlines ch inSep ▸ mem)
    obtain ⟨l, r, hl, hr, whole⟩ := split_keeps hsep clear
    have text_ : outer ++ left ++ ['.', ' '] ++ (right ++ outer') =
        outer ++ (left ++ ['.', ' '] ++ right) ++ outer' := by simp
    rw [text_] at mem once
    have same := split_part_unique hsep stop once mem whole inPart (by simp)
    refine ⟨l ++ left, right ++ r, left, right, by simp [same], fun mem => hb ?_, fun mem => ha ?_,
      List.suffix_append l left, List.prefix_append right r, line, long⟩
    · exact (List.mem_append.mp mem).elim (fun mem => List.mem_append_left _ (hl.mem mem))
        (List.mem_append_right _)
    · exact (List.mem_append.mp mem).elim (List.mem_append_left _)
        (fun mem => List.mem_append_right _ (hr.mem mem))
  rw [split_level h.long hsep, pieces_eq (List.ne_nil_of_mem last)]
  intro mem
  refine AllIn.mergeParts (p := (· ≠ '.')) allIn_start (fun ch inSep same => stop (same ▸ inSep))
    ?_ ?_ '.' (mem_applyOverlap mem) rfl
  · exact fun part mem short ch inPart same =>
      absurd (long part mem (same ▸ inPart)).long (Nat.not_lt.mpr short)
  · intro part mem _ ch inChunks same
    by_cases inPart : '.' ∈ part
    · exact lost part (long part mem inPart) (same ▸ inChunks)
    · exact inPart (mem_of_mem_split last part '.' (same ▸ inChunks))

theorem lost_split {text : Text} (h : c.LoneStop text) : '.' ∉ (c.split separators text).flatten :=
  lost_level (List.cons_ne_nil _ _) (by simp) (by decide) (fun _ h =>
    lost_level (List.cons_ne_nil _ _) (by simp) (by decide) (fun _ h => lost_sentences h) h) h

/-! ## Words of the stripped text -/

/-- Every word that fits in a chunk stands whole in one. -/
def WordsWhole (c : RecursiveTextChunker) (text : Text) : Prop :=
  ∀ before w after, strip text = before ++ w ++ after → Word before w after →
    w.length ≤ c.chunkSize → ∃ chunk ∈ c.chunk text, w <:+: chunk

/-- Some word that fits in a chunk ends in a full stop followed by a space, in a line
longer than a chunk. -/
def StopInLongLine (c : RecursiveTextChunker) (text : Text) : Prop :=
  ∃ before w after, strip text = before ++ w ++ after ∧ Word before w after ∧
    w.length ≤ c.chunkSize ∧ c.StopCut before w after

theorem mem_chunk {text chunk : Text} (some_ : strip text ≠ []) :
    chunk ∈ c.chunk text ↔ chunk ∈ c.split separators (strip text) ∧ strip chunk ≠ [] := by
  rw [RecursiveTextChunker.chunk, if_neg some_, List.mem_filter, decide_eq_true_iff]

theorem StopCut.lone {before w after : Text} (h : c.StopCut before w after)
    (once : (before ++ w ++ after).count '.' = 1) : c.LoneStop (before ++ w ++ after) := by
  obtain ⟨⟨v, rfl⟩, ⟨rest, rfl⟩, left, right, ⟨outer, rfl⟩, hr, line, long⟩ := h
  simp only [List.count_append, List.count_cons, List.count_nil] at once
  have free : ∀ t : Text, t.count '.' = 0 → '.' ∉ t := fun t => List.count_eq_zero.mp
  have whole : outer ++ left ++ (v ++ ['.']) ++ ([' '] ++ rest) =
      outer ++ left ++ v ++ ['.', ' '] ++ rest := by simp
  have hb : '.' ∉ outer ++ left ++ v :=
    free _ (by simp only [List.count_append]; simp at once; omega)
  have ha : '.' ∉ rest := free _ (by simp at once; omega)
  have ends : left ++ v <:+ outer ++ left ++ v := ⟨outer, by simp⟩
  match right with
  | [] =>
    refine ⟨outer ++ left ++ v, rest, left ++ v, [], whole, hb, ha, ends, List.nil_prefix, ?_, ?_⟩
    · simpa using line
    · simp only [List.length_append, List.length_cons, List.length_nil] at long ⊢
      omega
  | ch :: right =>
    obtain ⟨rfl, starts⟩ := List.cons_prefix_cons.mp hr
    refine ⟨outer ++ left ++ v, rest, left ++ v, right, whole, hb, ha, ends, starts, ?_, ?_⟩
    · simpa using line
    · simp only [List.length_append, List.length_cons, List.length_nil] at long ⊢
      omega

/-- Words stay whole, unless one that ends a sentence has its full stop taken with the
separator; the only full stop of a text is lost that way. -/
theorem chunk_keeps_words (c : RecursiveTextChunker) (text : Text) :
    (¬ c.StopInLongLine text → c.WordsWhole text) ∧
    (c.StopInLongLine text ∧ (strip text).count '.' = 1 → ¬ c.WordsWhole text) := by
  constructor
  · intro kept before w after whole word fits
    have some_ : strip text ≠ [] := by
      rw [whole]
      simp [word.nonempty]
    obtain ⟨chunk, mem, stands⟩ := whole ▸ stands_paragraphs (c := c) word fits fun cut =>
      kept ⟨before, w, after, whole, word, fits, cut⟩
    refine ⟨chunk, (mem_chunk some_).mpr ⟨whole ▸ mem, fun blank => ?_⟩, stands⟩
    obtain ⟨ch, rest, rfl⟩ := List.exists_cons_of_ne_nil word.nonempty
    have := strip_eq_nil.mp blank ch (stands.mem List.mem_cons_self)
    rw [word.visible ch List.mem_cons_self] at this
    cases this
  · rintro ⟨⟨before, w, after, whole, word, fits, cut⟩, once⟩ all
    have some_ : strip text ≠ [] := by
      rw [whole]
      simp [word.nonempty]
    obtain ⟨chunk, mem, stands⟩ := all before w after whole word fits
    have inChunk : '.' ∈ chunk := stands.mem (cut.1.mem (List.mem_singleton_self '.'))
    have lost := lost_split (cut.lone (whole ▸ once))
    rw [← whole] at lost
    exact lost (List.mem_flatten.mpr ⟨chunk, ((mem_chunk some_).mp mem).1, inChunk⟩)

/-- "aaaaaaaa." is cut to "aaaaaaaa". -/
theorem chunk_drops_stop :
    ¬ (⟨10, 0, by decide⟩ : RecursiveTextChunker).WordsWhole "aaaaaaaa. bbbbbbbb".toList := by
  intro all
  have visible : "aaaaaaaa.".toList.all (fun ch => isSpace ch = false) = true := by decide
  have word : Word [] "aaaaaaaa.".toList " bbbbbbbb".toList :=
    ⟨by decide, fun ch mem => of_decide_eq_true (List.all_eq_true.mp visible ch mem), by simp, by simp⟩
  have chunks : (⟨10, 0, by decide⟩ : RecursiveTextChunker).chunk "aaaaaaaa. bbbbbbbb".toList =
      ["aaaaaaaa".toList, "bbbbbbbb".toList] := by decide
  obtain ⟨chunk, mem, stands⟩ := all [] "aaaaaaaa.".toList " bbbbbbbb".toList (by decide) word (by decide)
  have stop : '.' ∈ chunk := stands.mem (by decide)
  rw [chunks] at mem
  have free : ∀ chunk ∈ ["aaaaaaaa".toList, "bbbbbbbb".toList], '.' ∉ chunk := by decide
  exact free chunk mem stop

end RecursiveTextChunker

end TextChunker
