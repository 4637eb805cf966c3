import ResearchPlatform.Schema
import ResearchPlatform.Library.Segments
import Mathlib.Data.List.TakeWhile

/-!
# The recursive text chunker

`RecursiveTextChunker` of `ingestion/pipeline.py`. A text is the list of its
characters; its size and its overlap are natural numbers.
-/

namespace TextChunker

open Schema Segments

abbrev Text := List Char

/-- `str.isspace` of one character, which is also what `\s` matches. -/
def isSpace (c : Char) : Bool :=
  let n := c.toNat
  (9 ≤ n && n ≤ 13) || (28 ≤ n && n ≤ 32) || n = 0x85 || n = 0xA0 || n = 0x1680 ||
    (0x2000 ≤ n && n ≤ 0x200A) || n = 0x2028 || n = 0x2029 || n = 0x202F || n = 0x205F || n = 0x3000

/-- `str.strip`. -/
def strip (text : Text) : Text :=
  ((text.dropWhile isSpace).reverse.dropWhile isSpace).reverse

theorem strip_isInfix (text : Text) : strip text <:+: text := by
  have outer : text.dropWhile isSpace <:+ text := List.dropWhile_suffix isSpace
  have inner : (text.dropWhile isSpace).reverse.dropWhile isSpace <:+
      (text.dropWhile isSpace).reverse := List.dropWhile_suffix isSpace
  have inner' : strip text <+: text.dropWhile isSpace := by
    simpa [strip] using List.reverse_prefix.mpr inner
  exact inner'.isInfix.trans outer.isInfix

/-- Only white space is stripped. -/
theorem strip_surrounded (text : Text) : ∃ left right, text = left ++ strip text ++ right ∧
    (∀ ch ∈ left, isSpace ch = true) ∧ ∀ ch ∈ right, isSpace ch = true := by
  refine ⟨text.takeWhile isSpace, ((text.dropWhile isSpace).reverse.takeWhile isSpace).reverse,
    ?_, ?_, ?_⟩
  · have back := List.takeWhile_append_dropWhile (p := isSpace) (l := (text.dropWhile isSpace).reverse)
    have front := List.takeWhile_append_dropWhile (p := isSpace) (l := text)
    rw [strip, List.append_assoc, ← List.reverse_append, back, List.reverse_reverse, front]
  · exact fun ch mem => List.mem_takeWhile_imp mem
  · exact fun ch mem => List.mem_takeWhile_imp (List.mem_reverse.mp mem)

theorem strip_eq_nil {text : Text} : strip text = [] ↔ ∀ ch ∈ text, isSpace ch = true := by
  constructor
  · intro h ch mem
    obtain ⟨left, right, whole, inLeft, inRight⟩ := strip_surrounded text
    rw [whole, h, List.append_nil] at mem
    exact (List.mem_append.mp mem).elim (inLeft ch) (inRight ch)
  · intro h
    have gone : text.dropWhile isSpace = [] := List.dropWhile_eq_nil_iff.mpr h
    rw [strip, gone]
    rfl

section Filter
variable {p : Char → Bool} (apart : ∀ ch, isSpace ch = true → p ch = false)
include apart

theorem filter_blank {text : Text} (h : ∀ ch ∈ text, isSpace ch = true) : text.filter p = [] :=
  List.filter_eq_nil_iff.mpr fun ch mem => by simp [apart ch (h ch mem)]

/-- Stripping loses white space only. -/
theorem filter_strip (text : Text) : (strip text).filter p = text.filter p := by
  obtain ⟨left, right, whole, inLeft, inRight⟩ := strip_surrounded text
  rw [congrArg (List.filter p) whole, List.filter_append, List.filter_append,
    filter_blank apart inLeft, filter_blank apart inRight]
  simp

/-- Dropping blank parts loses white space only. -/
theorem filter_nonblank (parts : List Text) :
    (parts.filter fun part => strip part ≠ []).flatten.filter p = parts.flatten.filter p := by
  induction parts with
  | nil => rfl
  | cons part rest ih =>
    by_cases blank : strip part = []
    · rw [List.filter_cons_of_neg (by simpa using blank), ih, List.flatten_cons, List.filter_append,
        filter_blank apart (strip_eq_nil.mp blank), List.nil_append]
    · rw [List.filter_cons_of_pos (by simpa using blank), List.flatten_cons, List.flatten_cons,
        List.filter_append, List.filter_append, ih]

end Filter

/-! ## Texts without white space at their ends -/

/-- The text neither starts nor ends with white space. -/
structure Trimmed (text : Text) : Prop where
  head : ∀ ch ∈ text.head?, isSpace ch = false
  last : ∀ ch ∈ text.getLast?, isSpace ch = false

theorem dropWhile_of_head {text : Text} (h : ∀ ch ∈ text.head?, isSpace ch = false) :
    text.dropWhile isSpace = text := by
  cases text with
  | nil => rfl
  | cons ch rest => exact List.dropWhile_cons_of_neg (by simp [h ch rfl])

theorem head_dropWhile (text : Text) : ∀ ch ∈ (text.dropWhile isSpace).head?, isSpace ch = false := by
  induction text with
  | nil => exact fun ch mem => nomatch mem
  | cons ch rest ih =>
    cases space : isSpace ch with
    | true => simpa [space] using ih
    | false => simp [space]

theorem Trimmed.strip {text : Text} (h : Trimmed text) : strip text = text := by
  have back : text.reverse.dropWhile isSpace = text.reverse :=
    dropWhile_of_head fun ch mem => h.last ch (by simpa using mem)
  rw [TextChunker.strip, dropWhile_of_head h.head, back, List.reverse_reverse]

theorem trimmed_strip (text : Text) : Trimmed (strip text) where
  head := by
    have front : strip text <+: text.dropWhile isSpace := by
      simpa [strip] using List.reverse_prefix.mpr
        (List.dropWhile_suffix (l := (text.dropWhile isSpace).reverse) isSpace)
    intro ch mem
    obtain ⟨rest, whole⟩ := front
    refine head_dropWhile text ch ?_
    rw [← whole, List.head?_append, Option.mem_def.mp mem]
    rfl
  last := by
    intro ch mem
    rw [strip, List.getLast?_reverse] at mem
    exact head_dropWhile _ ch mem

/-! ## The chunker -/

structure RecursiveTextChunker where
  chunkSize : Nat
  chunkOverlap : Nat
  overlap_lt : chunkOverlap < chunkSize

/-- The variables of the loop over the parts. -/
structure Merge where
  chunks : List Text
  current : Text
  deriving DecidableEq

namespace RecursiveTextChunker

def new (chunkSize chunkOverlap : Nat) : Except Failure RecursiveTextChunker :=
  if h : chunkOverlap < chunkSize then .ok ⟨chunkSize, chunkOverlap, h⟩
  else .error (.valueError "chunk_overlap must be less than chunk_size.")

/-- `_SEPARATORS`. -/
def separators : List Text := [['\n', '\n'], ['\n'], ['.', ' '], [' '], []]

variable (c : RecursiveTextChunker)

/-- The loop of `_hard_split` from `start` on, for `fuel` rounds at most. -/
def hardSplitFrom (text : Text) : Nat → Nat → List Text
  | 0, _ => []
  | fuel + 1, start =>
    if start < text.length then
      (text.drop start).take c.chunkSize ::
        hardSplitFrom text fuel (start + c.chunkSize - c.chunkOverlap)
    else []

/-- `_hard_split`; every round moves `start` on, so there are not more rounds than
characters. -/
def hardSplit (text : Text) : List Text := c.hardSplitFrom text text.length 0

/-- The loop of `_apply_overlap`. -/
def extended (overlap : Nat) : List Text → List Text
  | [] => []
  | [chunk] => [chunk]
  | chunk :: next :: rest => (chunk ++ next.take overlap) :: extended overlap (next :: rest)

/-- `_apply_overlap`. -/
def applyOverlap (chunks : List Text) : List Text :=
  if chunks.length ≤ 1 || c.chunkOverlap = 0 then chunks else extended c.chunkOverlap chunks

/-- The chunks with `current` appended, unless it is empty. -/
def flushed (m : Merge) : List Text :=
  if m.current = [] then m.chunks else m.chunks ++ [m.current]

/-- `candidate`: `current` with the next part behind it. -/
def candidate (sep : Text) (m : Merge) (part : Text) : Text :=
  if m.current = [] then part else m.current ++ sep ++ part

/-- One round of the loop in `_split`; `finer` splits by the remaining separators,
if there are any. -/
def mergePart (sep : Text) (finer : Option (Text → List Text)) (m : Merge) (part : Text) : Merge :=
  if (candidate sep m part).length ≤ c.chunkSize then { m with current := candidate sep m part }
  else match finer with
    -- `current` is left as it is, although it has been appended
    | some split =>
      if c.chunkSize < part.length then { m with chunks := flushed m ++ split part }
      else ⟨flushed m, part⟩
    | none => ⟨flushed m, part⟩

def mergeParts (sep : Text) (finer : Option (Text → List Text)) (parts : List Text) : Merge :=
  parts.foldl (c.mergePart sep finer) ⟨[], []⟩

/-- `_split`. -/
def split : List Text → Text → List Text
  | [], text => if text.length ≤ c.chunkSize then [text] else c.hardSplit text
  | sep :: remaining, text =>
    if text.length ≤ c.chunkSize then [text]
    else if sep = [] then c.hardSplit text
    else
      let finer := if remaining = [] then none else some (split remaining)
      c.applyOverlap (flushed (c.mergeParts sep finer (Segments.split sep text)))

def chunk (text : Text) : List Text :=
  let text := strip text
  if text = [] then []
  else (c.split separators text).filter fun chunk => strip chunk ≠ []

/-! ## The hard split -/

variable {c}

/-- The windows of the hard split do not leave a character out. -/
theorem sublist_hardSplitFrom (text : Text) (fuel start : Nat)
    (enough : text.length ≤ start + fuel) :
    (text.drop start).Sublist (c.hardSplitFrom text fuel start).flatten := by
  have moves := c.overlap_lt
  induction fuel generalizing start with
  | zero => rw [List.drop_eq_nil_of_le (by omega)]; exact List.nil_sublist _
  | succ fuel ih =>
    rw [hardSplitFrom]
    split
    · have later := ih (start + c.chunkSize - c.chunkOverlap) (by omega)
      have rest : (text.drop (start + c.chunkSize)).Sublist
          (text.drop (start + c.chunkSize - c.chunkOverlap)) :=
        List.drop_sublist_drop_left text (by omega)
      have whole := List.take_append_drop c.chunkSize (text.drop start)
      rw [List.drop_drop] at whole
      rw [List.flatten_cons]
      nth_rewrite 1 [← whole]
      exact (List.Sublist.refl _).append (rest.trans later)
    · rw [List.drop_eq_nil_of_le (by omega)]
      exact List.nil_sublist _

theorem mem_hardSplitFrom {text chunk : Text} {fuel start : Nat}
    (h : chunk ∈ c.hardSplitFrom text fuel start) :
    chunk.length ≤ c.chunkSize ∧ chunk <:+: text := by
  induction fuel generalizing start with
  | zero => cases h
  | succ fuel ih =>
    rw [hardSplitFrom] at h
    split at h
    · rcases List.mem_cons.mp h with rfl | h
      · exact ⟨List.length_take_le _ _,
          (List.take_prefix _ _).isInfix.trans (List.drop_suffix _ _).isInfix⟩
      · exact ih h
    · cases h

/-- Every chunk is kept, with at most the overlap behind it. -/
theorem extended_forall₂ (overlap : Nat) (chunks : List Text) :
    List.Forall₂ (fun chunk longer => chunk <+: longer ∧ longer.length ≤ chunk.length + overlap)
      chunks (extended overlap chunks) := by
  induction chunks with
  | nil => exact .nil
  | cons chunk rest ih =>
    cases rest with
    | nil => exact .cons ⟨List.prefix_rfl, by omega⟩ .nil
    | cons next rest =>
      refine .cons ⟨List.prefix_append _ _, ?_⟩ ih
      rw [List.length_append]
      exact Nat.add_le_add_left (List.length_take_le _ _) _

theorem applyOverlap_forall₂ (chunks : List Text) :
    List.Forall₂ (fun chunk longer => chunk <+: longer ∧
      longer.length ≤ chunk.length + c.chunkOverlap) chunks (c.applyOverlap chunks) := by
  rw [applyOverlap]
  split
  · exact List.forall₂_same.mpr fun chunk _ => ⟨List.prefix_rfl, by omega⟩
  · exact extended_forall₂ c.chunkOverlap chunks

theorem applyOverlap_length (chunks : List Text) :
    (c.applyOverlap chunks).length = chunks.length :=
  (applyOverlap_forall₂ chunks).length_eq.symm

theorem applyOverlap_prefix {chunks : List Text} {chunk : Text} (h : chunk ∈ chunks) :
    ∃ longer ∈ c.applyOverlap chunks, chunk <+: longer := by
  obtain ⟨i, hi, rfl⟩ := List.getElem_of_mem h
  have all := applyOverlap_forall₂ (c := c) chunks
  have hi' : i < (c.applyOverlap chunks).length := by rwa [applyOverlap_length]
  exact ⟨_, List.getElem_mem hi', (all.get hi hi').1⟩

/-- The overlaps are made of what the chunks have. -/
theorem mem_applyOverlap {chunks : List Text} {ch : Char}
    (h : ch ∈ (c.applyOverlap chunks).flatten) : ch ∈ chunks.flatten := by
  have all : ∀ chunks, ch ∈ (extended c.chunkOverlap chunks).flatten → ch ∈ chunks.flatten := by
    intro chunks
    induction chunks with
    | nil => exact id
    | cons chunk rest ih =>
      cases rest with
      | nil => exact id
      | cons next rest =>
        intro mem
        rw [extended, List.flatten_cons] at mem
        rcases List.mem_append.mp mem with mem | mem
        · rcases List.mem_append.mp mem with mem | mem
          · exact List.mem_append_left _ mem
          · exact List.mem_append_right _ (List.mem_append_left _ (List.mem_of_mem_take mem))
        · exact List.mem_append_right _ (ih mem)
  rw [applyOverlap] at h
  split at h
  · exact h
  · exact all chunks h

/-- The overlaps only add characters. -/
theorem flatten_sublist_applyOverlap (chunks : List Text) :
    chunks.flatten.Sublist (c.applyOverlap chunks).flatten := by
  have all := applyOverlap_forall₂ (c := c) chunks
  generalize c.applyOverlap chunks = longer at all
  induction all with
  | nil => exact List.Sublist.refl _
  | cons longer _ ih => exact longer.1.sublist.append ih

/-! ## The loop -/

theorem flushed_flatten (m : Merge) : (flushed m).flatten = m.chunks.flatten ++ m.current := by
  rw [flushed]
  split
  · simp_all
  · simp

theorem prefix_flushed (m : Merge) : m.chunks <+: flushed m := by
  rw [flushed]
  split
  · exact List.prefix_rfl
  · exact List.prefix_append _ _

theorem mem_flushed {m : Merge} {chunk : Text} :
    chunk ∈ flushed m ↔ chunk ∈ m.chunks ∨ m.current ≠ [] ∧ chunk = m.current := by
  rw [flushed]
  split
  · simp [*]
  · simp [*]

variable {sep : Text} {finer : Option (Text → List Text)}

/-- A part is joined to `current`, split further, or becomes the new `current`. -/
@[elab_as_elim] theorem mergePart_cases {motive : Merge → Prop} (m : Merge) (part : Text)
    (joined : (candidate sep m part).length ≤ c.chunkSize →
      motive ⟨m.chunks, candidate sep m part⟩)
    (descended : ∀ split, finer = some split → c.chunkSize < part.length →
      motive ⟨flushed m ++ split part, m.current⟩)
    (restarted : finer = none ∨ part.length ≤ c.chunkSize →
      c.chunkSize < (candidate sep m part).length → motive ⟨flushed m, part⟩) :
    motive (c.mergePart sep finer m part) := by
  rw [mergePart.eq_def]
  split
  · exact joined ‹_›
  · cases finer with
    | none => exact restarted (Or.inl rfl) (by omega)
    | some split =>
      simp only
      split
      · exact descended split rfl ‹_›
      · exact restarted (Or.inr (by omega)) (by omega)

/-- What has been appended stays. -/
theorem chunks_prefix_mergePart (m : Merge) (part : Text) :
    m.chunks <+: (c.mergePart sep finer m part).chunks := by
  refine mergePart_cases m part ?_ ?_ ?_
  · exact fun _ => List.prefix_rfl
  · exact fun _ _ _ => (prefix_flushed m).trans (List.prefix_append _ _)
  · exact fun _ _ => prefix_flushed m

theorem chunks_prefix_flushed (m : Merge) (parts : List Text) :
    m.chunks <+: flushed (parts.foldl (c.mergePart sep finer) m) := by
  induction parts generalizing m with
  | nil => exact prefix_flushed m
  | cons part rest ih => exact (chunks_prefix_mergePart m part).trans (ih _)

/-- An oversized part is split further, and `current` is appended and kept. -/
theorem mergePart_oversized {part : Text} (oversized : c.chunkSize < part.length)
    (split : Text → List Text) (m : Merge) :
    c.mergePart sep (some split) m part = ⟨flushed m ++ split part, m.current⟩ := by
  have long : ¬ (candidate sep m part).length ≤ c.chunkSize := by
    rw [candidate]
    split
    · omega
    · simp only [List.length_append]
      omega
  simp [mergePart, long, oversized]

/-- The chunks of an oversized part are among the chunks, in a row. -/
theorem inner_kept {split : Text → List Text} {parts : List Text} {part : Text}
    (mem : part ∈ parts) (oversized : c.chunkSize < part.length) (m : Merge) :
    split part <:+: flushed (parts.foldl (c.mergePart sep (some split)) m) := by
  obtain ⟨done, rest, rfl⟩ := List.append_of_mem mem
  rw [List.foldl_append, List.foldl_cons, mergePart_oversized oversized]
  generalize done.foldl (c.mergePart sep (some split)) m = m
  have kept : flushed m ++ split part <+:
      flushed (rest.foldl (c.mergePart sep (some split)) ⟨flushed m ++ split part, m.current⟩) :=
    chunks_prefix_flushed ⟨flushed m ++ split part, m.current⟩ rest
  exact (List.suffix_append _ _).isInfix.trans kept.isInfix

/-! ## The levels of the recursion -/

/-- The chunks of one level, before the overlap is applied. -/
def pieces (c : RecursiveTextChunker) (sep : Text) (remaining : List Text) (text : Text) :
    List Text :=
  flushed (c.mergeParts sep (if remaining = [] then none else some (c.split remaining))
    (Segments.split sep text))

theorem pieces_eq {remaining : List Text} (h : remaining ≠ []) (text : Text) :
    c.pieces sep remaining text =
      flushed (c.mergeParts sep (some (c.split remaining)) (Segments.split sep text)) := by
  rw [pieces, if_neg h]

theorem split_short (seps : List Text) {text : Text} (h : text.length ≤ c.chunkSize) :
    c.split seps text = [text] := by
  cases seps <;> simp [split, h]

theorem split_hard {text : Text} (h : c.chunkSize < text.length) (remaining : List Text) :
    c.split ([] :: remaining) text = c.hardSplit text := by
  simp [split, Nat.not_le.mpr h]

theorem split_nil {text : Text} (h : c.chunkSize < text.length) :
    c.split [] text = c.hardSplit text := by
  simp [split, Nat.not_le.mpr h]

theorem split_level {text : Text} (h : c.chunkSize < text.length) (hsep : sep ≠ [])
    (remaining : List Text) :
    c.split (sep :: remaining) text = c.applyOverlap (c.pieces sep remaining text) := by
  rw [split, if_neg (Nat.not_le.mpr h), if_neg hsep]
  rfl

/-- The empty separator stays among the finer ones. -/
theorem nil_mem_remaining {remaining : List Text} (hsep : sep ≠ []) (last : [] ∈ sep :: remaining) :
    [] ∈ remaining :=
  (List.mem_cons.mp last).resolve_left fun same => hsep same.symm

/-- Splitting goes by the separators: a short text, the hard split, and a level whose
parts are split by the remaining separators. -/
theorem split_induction {motive : List Text → Text → Prop}
    (short : ∀ seps text, text.length ≤ c.chunkSize → motive seps text)
    (none_ : ∀ text, c.chunkSize < text.length → motive [] text)
    (hard : ∀ remaining text, c.chunkSize < text.length → motive ([] :: remaining) text)
    (level : ∀ sep remaining text, c.chunkSize < text.length → sep ≠ [] →
      (∀ part, motive remaining part) → motive (sep :: remaining) text)
    (seps : List Text) (text : Text) : motive seps text := by
  induction seps generalizing text with
  | nil =>
    by_cases h : text.length ≤ c.chunkSize
    · exact short [] text h
    · exact none_ text (Nat.not_le.mp h)
  | cons sep remaining ih =>
    by_cases h : text.length ≤ c.chunkSize
    · exact short (sep :: remaining) text h
    · by_cases hsep : sep = []
      · exact hsep ▸ hard remaining text (Nat.not_le.mp h)
      · exact level sep remaining text (Nat.not_le.mp h) hsep ih

end RecursiveTextChunker

end TextChunker
