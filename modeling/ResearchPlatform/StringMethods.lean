import ResearchPlatform.TextChunker
import ResearchPlatform.Library.CaseMappings
import Mathlib.Data.List.DropRight

/-!
# The string methods of Python

`str.lower` and `str.upper` by a case mapping, `str.strip` as the chunkers have it, and
what stripping makes of a text that is put together.
-/

namespace StringMethods

open Schema TextChunker CaseMappings

def textMethods (m : CaseMapping) : TextMethods where
  lower := m.lower
  upper := m.upper
  strip s := String.ofList (strip s.toList)

/-! ## Stripping -/

section Strip
variable {text left right before behind : Text}

theorem strip_eq (text : Text) : strip text = (text.dropWhile isSpace).rdropWhile isSpace := rfl

theorem strip_blank_append (blank : ∀ ch ∈ left, isSpace ch = true) (text : Text) :
    strip (left ++ text) = strip text := by
  rw [strip_eq, strip_eq, List.dropWhile_append_of_pos blank]

theorem rdropWhile_append_blank (blank : ∀ ch ∈ right, isSpace ch = true) (text : Text) :
    (text ++ right).rdropWhile isSpace = text.rdropWhile isSpace := by
  have turned : ∀ ch ∈ right.reverse, isSpace ch = true := fun ch mem =>
    blank ch (List.mem_reverse.mp mem)
  rw [List.rdropWhile, List.reverse_append, List.dropWhile_append_of_pos turned, List.rdropWhile]

theorem strip_append_blank (blank : ∀ ch ∈ right, isSpace ch = true) (text : Text) :
    strip (text ++ right) = strip text := by
  rw [strip_eq, strip_eq, List.dropWhile_append]
  split
  · rename_i gone
    rw [List.isEmpty_iff.mp gone, List.dropWhile_eq_nil_iff.mpr blank]
  · exact rdropWhile_append_blank blank _

/-- Only what stands behind a character that stays is stripped there. -/
theorem rdropWhile_behind {ch : Char} (stays : isSpace ch = false) (before behind : Text) :
    (before ++ ch :: behind).rdropWhile isSpace = before ++ ch :: behind.rdropWhile isSpace := by
  have whole : before ++ ch :: behind = (before ++ [ch]) ++ behind := by simp
  rw [whole, List.rdropWhile, List.reverse_append, List.dropWhile_append]
  split
  · rename_i gone
    have last : (before ++ [ch]).reverse.dropWhile isSpace = (before ++ [ch]).reverse := by
      rw [List.reverse_append]
      exact List.dropWhile_cons_of_neg (by simp [stays])
    have none : behind.rdropWhile isSpace = [] := by rw [List.rdropWhile, List.isEmpty_iff.mp gone]; rfl
    rw [last, none, List.reverse_reverse]
  · rw [List.reverse_append, List.reverse_reverse]
    simp [List.rdropWhile]

/-- The text behind a first word that has no white space. -/
theorem strip_word_append {word : Text} (some_ : word ≠ [])
    (solid : ∀ ch ∈ word, isSpace ch = false) (behind : Text) :
    strip (word ++ behind) = word ++ behind.rdropWhile isSpace := by
  have front : (word ++ behind).dropWhile isSpace = word ++ behind := by
    obtain ⟨ch, rest, rfl⟩ := List.exists_cons_of_ne_nil some_
    exact List.dropWhile_cons_of_neg (by simp [solid ch List.mem_cons_self])
  have whole := List.dropLast_append_getLast some_
  have stays : isSpace (word.getLast some_) = false := solid _ (List.getLast_mem some_)
  have back := rdropWhile_behind stays word.dropLast behind
  rw [List.append_cons, List.append_cons _ _ (List.rdropWhile _ _), whole] at back
  rw [strip_eq, front, back]

/-- What is stripped behind is blank. -/
theorem rdropWhile_append_rest (text : Text) : ∃ right, text = text.rdropWhile isSpace ++ right ∧
    ∀ ch ∈ right, isSpace ch = true :=
  ⟨text.rtakeWhile isSpace, (List.rdropWhile_append_rtakeWhile).symm, fun _ mem =>
    List.mem_rtakeWhile_imp mem⟩

theorem strip_rdropWhile (text : Text) : strip (text.rdropWhile isSpace) = strip text := by
  obtain ⟨right, whole, blank⟩ := rdropWhile_append_rest text
  conv_rhs => rw [whole]
  exact (strip_append_blank blank _).symm

/-- What is stripped at either end is blank. -/
theorem strip_parts (text : Text) : ∃ left right, text = left ++ (strip text ++ right) ∧
    (∀ ch ∈ left, isSpace ch = true) ∧ ∀ ch ∈ right, isSpace ch = true := by
  obtain ⟨right, whole, blank⟩ := rdropWhile_append_rest (text.dropWhile isSpace)
  refine ⟨text.takeWhile isSpace, right, ?_, fun _ => List.mem_takeWhile_imp, blank⟩
  rw [strip_eq, ← whole, List.takeWhile_append_dropWhile]

/-- Stripping separates no two neighbours that are not blank. -/
theorem pair_infix_strip_iff {a b : Char} (ha : isSpace a = false) (hb : isSpace b = false) :
    [a, b] <:+: strip text ↔ [a, b] <:+: text := by
  obtain ⟨left, right, whole, blankLeft, blankRight⟩ := strip_parts text
  constructor
  · intro h
    rw [whole]
    exact h.trans ⟨left, right, List.append_assoc _ _ _⟩
  · intro h
    have solid {ch : Char} (blank : isSpace ch = true) (other : isSpace ch = false) : False := by
      rw [other] at blank
      cases blank
    rw [whole, CaseMapping.pair_infix_append_iff, CaseMapping.pair_infix_append_iff] at h
    rcases h with inLeft | (inside | inRight | ⟨-, starts⟩) | ⟨ends, -⟩
    · exact (solid (blankLeft a (inLeft.subset (by simp))) ha).elim
    · exact inside
    · exact (solid (blankRight a (inRight.subset (by simp))) ha).elim
    · exact (solid (blankRight b (starts.subset (by simp))) hb).elim
    · exact (solid (blankLeft a (ends.subset (by simp))) ha).elim

end Strip

end StringMethods
