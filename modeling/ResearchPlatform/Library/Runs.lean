import ResearchPlatform.Library.Segments
import Mathlib.Data.List.Chain
import Mathlib.Data.List.DropRight

/-!
# The words of a text and what stands between them

Words are the longest stretches of some characters. `collapse` leaves one separator of
what stands between, before and behind them, and without the outer ones it is the words
joined.
-/

namespace Runs

open Segments

variable {α : Type*} (p : α → Bool) (sep : α)

/-- The word that the list starts with, if any, and those behind it. -/
def cut : List α → List α × List (List α)
  | [] => ([], [])
  | c :: cs =>
    let later := cut cs
    if p c then (c :: later.1, later.2)
    else ([], if later.1 = [] then later.2 else later.1 :: later.2)

def words (s : List α) : List (List α) :=
  if (cut p s).1 = [] then (cut p s).2 else (cut p s).1 :: (cut p s).2

/-- Each stretch of other characters becomes one separator. -/
def collapse [DecidableEq α] : List α → List α
  | [] => []
  | c :: cs =>
    if p c then c :: collapse cs
    else match collapse cs with
      | [] => [sep]
      | x :: rest => if x = sep then x :: rest else sep :: x :: rest

/-- A word of nothing but its characters. -/
structure IsWord (w : List α) : Prop where
  some : w ≠ []
  chars : ∀ c ∈ w, p c = true

variable {p sep}

theorem ne_sep (other : p sep = false) {c : α} (char : p c = true) : c ≠ sep := by
  rintro rfl
  rw [other] at char
  cases char

/-! ## Words -/

theorem cut_words (s : List α) : (∀ c ∈ (cut p s).1, p c = true) ∧ ∀ w ∈ (cut p s).2, IsWord p w := by
  induction s with
  | nil => exact ⟨nofun, nofun⟩
  | cons c cs ih =>
    rw [cut]
    by_cases hc : p c = true
    · rw [if_pos hc]
      exact ⟨List.forall_mem_cons.mpr ⟨hc, ih.1⟩, ih.2⟩
    · rw [if_neg hc]
      refine ⟨nofun, fun w hw => ?_⟩
      split at hw
      · exact ih.2 w hw
      · rename_i some_
        rcases List.mem_cons.mp hw with rfl | later
        · exact ⟨some_, ih.1⟩
        · exact ih.2 w later

theorem isWord_of_mem_words {s w : List α} (h : w ∈ words p s) : IsWord p w := by
  rw [words] at h
  split at h
  · exact (cut_words s).2 w h
  · rename_i some_
    rcases List.mem_cons.mp h with rfl | later
    · exact ⟨some_, (cut_words s).1⟩
    · exact (cut_words s).2 w later

/-! ## Joined words -/

/-- The words each behind a separator. -/
def behind (sep : α) (ws : List (List α)) : List α := ws.flatMap (sep :: ·)

theorem join_cons_eq (w : List α) (ws : List (List α)) : join [sep] (w :: ws) = w ++ behind sep ws := by
  induction ws generalizing w with
  | nil => simp [behind]
  | cons v ws ih =>
    rw [join_cons [sep] w (List.cons_ne_nil v ws), ih v, behind, behind, List.flatMap_cons]
    simp

theorem join_eq_nil_iff {ws : List (List α)} (h : ∀ w ∈ ws, IsWord p w) : join [sep] ws = [] ↔ ws = [] := by
  constructor
  · intro empty
    cases ws with
    | nil => rfl
    | cons w ws =>
      rw [join_cons_eq] at empty
      exact absurd (List.append_eq_nil_iff.mp empty).1 (h w List.mem_cons_self).some
  · rintro rfl
    rfl

/-- Together with one more separator the joined words have one for each. -/
theorem length_join (sep : α) {ws : List (List α)} (some_ : ws ≠ []) :
    (join [sep] ws).length + 1 = ws.flatten.length + ws.length := by
  obtain ⟨w, ws, rfl⟩ := List.exists_cons_of_ne_nil some_
  have each : (behind sep ws).length = ws.flatten.length + ws.length := by
    induction ws with
    | nil => rfl
    | cons v ws ih =>
      rw [behind, List.flatMap_cons, List.length_append, ← behind, ih (List.cons_ne_nil w ws)]
      simp only [List.flatten_cons, List.length_append, List.length_cons]
      omega
  rw [join_cons_eq, List.length_append, each]
  simp only [List.flatten_cons, List.length_append, List.length_cons]
  omega

/-- Joined words do not end in a separator. -/
theorem rdropWhile_join [DecidableEq α] (other : p sep = false) {ws : List (List α)} (h : ∀ w ∈ ws, IsWord p w) :
    (join [sep] ws).rdropWhile (· = sep) = join [sep] ws := by
  induction ws using List.reverseRecOn with
  | nil => rfl
  | append_singleton ws w _ =>
    have word := h w (by simp)
    have last := List.dropLast_append_getLast word.some
    have stays : w.getLast word.some ≠ sep := ne_sep other (word.chars _ (List.getLast_mem word.some))
    obtain ⟨front, ends⟩ : ∃ front, join [sep] (ws ++ [w]) = front ++ [w.getLast word.some] := by
      cases ws with
      | nil => exact ⟨w.dropLast, last.symm⟩
      | cons v ws =>
        refine ⟨join [sep] (v :: ws) ++ [sep] ++ w.dropLast, ?_⟩
        rw [join_snoc [sep] w (List.cons_ne_nil v ws), List.append_assoc _ w.dropLast, last]
    rw [ends, List.rdropWhile_concat_neg]
    simpa using stays

/-- A separator does not follow a separator. -/
def Spaced (sep : α) (s : List α) : Prop := s.IsChain fun a b => a ≠ sep ∨ b ≠ sep

theorem Spaced.no_pair {s : List α} (h : Spaced sep s) : ¬ [sep, sep] <:+: s := by
  intro double
  have pair : [sep, sep].IsChain fun a b => a ≠ sep ∨ b ≠ sep := List.IsChain.infix h double
  rcases List.isChain_pair.mp pair with first | second
  · exact first rfl
  · exact second rfl

theorem spaced_append (other : p sep = false) {w rest : List α} (chars : ∀ c ∈ w, p c = true)
    (later : Spaced sep rest) : Spaced sep (w ++ rest) := by
  induction w with
  | nil => exact later
  | cons c w ih =>
    obtain ⟨char, chars⟩ := List.forall_mem_cons.mp chars
    exact List.isChain_cons.mpr ⟨fun _ _ => Or.inl (ne_sep other char), ih chars⟩

theorem spaced_behind (other : p sep = false) {ws : List (List α)} (h : ∀ w ∈ ws, IsWord p w) :
    Spaced sep (behind sep ws) := by
  induction ws with
  | nil => exact List.IsChain.nil
  | cons v ws ih =>
    obtain ⟨next, others⟩ := List.forall_mem_cons.mp h
    have later := spaced_append other next.chars (ih others)
    obtain ⟨c, cs, first⟩ := List.exists_cons_of_ne_nil next.some
    rw [behind, List.flatMap_cons, ← behind, List.cons_append]
    refine List.isChain_cons.mpr ⟨fun b starts => Or.inr ?_, later⟩
    rw [first, List.cons_append, List.head?_cons, Option.mem_some_iff] at starts
    exact starts ▸ ne_sep other (next.chars c (by simp [first]))

theorem spaced_join (other : p sep = false) {ws : List (List α)} (h : ∀ w ∈ ws, IsWord p w) :
    Spaced sep (join [sep] ws) := by
  cases ws with
  | nil => exact List.IsChain.nil
  | cons w ws =>
    obtain ⟨word, others⟩ := List.forall_mem_cons.mp h
    rw [join_cons_eq]
    exact spaced_append other word.chars (spaced_behind other others)

/-! ## The words of joined words -/

theorem cut_append {w : List α} (chars : ∀ c ∈ w, p c = true) (rest : List α) :
    cut p (w ++ rest) = (w ++ (cut p rest).1, (cut p rest).2) := by
  induction w with
  | nil => rfl
  | cons c w ih =>
    obtain ⟨char, chars⟩ := List.forall_mem_cons.mp chars
    rw [List.cons_append, cut, if_pos char, ih chars]
    rfl

theorem cut_behind (other : p sep = false) {ws : List (List α)} (h : ∀ w ∈ ws, IsWord p w) :
    cut p (behind sep ws) = ([], ws) := by
  induction ws with
  | nil => rfl
  | cons v ws ih =>
    obtain ⟨next, others⟩ := List.forall_mem_cons.mp h
    have notChar : ¬ p sep = true := by simp [other]
    rw [behind, List.flatMap_cons, ← behind, List.cons_append, cut, if_neg notChar,
      cut_append next.chars, ih others, List.append_nil, if_neg next.some]

/-- Joined words are cut into the same words again. -/
theorem words_join (other : p sep = false) {ws : List (List α)} (h : ∀ w ∈ ws, IsWord p w) :
    words p (join [sep] ws) = ws := by
  cases ws with
  | nil => rfl
  | cons w ws =>
    obtain ⟨word, others⟩ := List.forall_mem_cons.mp h
    have whole : cut p (w ++ behind sep ws) = (w, ws) := by
      rw [cut_append word.chars, cut_behind other others, List.append_nil]
    rw [join_cons_eq, words, whole, if_neg word.some]

/-! ## Collapsing -/

/-- A separator where the list ends in other characters. -/
def trail (p : α → Bool) (sep : α) (s : List α) : List α := if s.getLast?.all p then [] else [sep]

theorem trail_cases (p : α → Bool) (sep : α) (s : List α) : trail p sep s = [] ∨ trail p sep s = [sep] := by
  rw [trail]
  split
  · exact Or.inl rfl
  · exact Or.inr rfl

theorem trail_cons {c : α} {cs : List α} (h : p c = true ∨ cs ≠ []) :
    trail p sep (c :: cs) = trail p sep cs := by
  cases cs with
  | nil => simp [trail, h.resolve_right (not_not_intro rfl)]
  | cons d ds => rw [trail, trail, List.getLast?_cons_cons]

variable [DecidableEq α]

theorem collapse_ne_nil (p : α → Bool) (sep : α) {s : List α} (some_ : s ≠ []) : collapse p sep s ≠ [] := by
  obtain ⟨c, cs, rfl⟩ := List.exists_cons_of_ne_nil some_
  rw [collapse]
  repeat' split
  all_goals exact List.cons_ne_nil _ _

theorem collapse_eq (other : p sep = false) (s : List α) :
    collapse p sep s = (cut p s).1 ++ behind sep (cut p s).2 ++ trail p sep s := by
  induction s with
  | nil => simp [collapse, cut, behind, trail]
  | cons c cs ih =>
    have first := (cut_words (p := p) cs).1
    rw [collapse, cut]
    by_cases hc : p c = true
    · rw [if_pos hc, if_pos hc, ih, trail_cons (Or.inl hc)]
      rfl
    · rw [if_neg hc, if_neg hc]
      cases opening : (cut p cs).1 with
      | cons d ds =>
        -- a word follows, and the separator comes before it
        have some_ : cs ≠ [] := by
          rintro rfl
          cases opening
        have noSep : d ≠ sep := ne_sep other (first d (by simp [opening]))
        rw [opening, List.cons_append, List.cons_append] at ih
        rw [ih, trail_cons (Or.inr some_)]
        simp [noSep, behind]
      | nil =>
        rw [opening, List.nil_append] at ih
        cases later : (cut p cs).2 with
        | cons w ws =>
          -- the separator that follows stands for this character too
          have some_ : cs ≠ [] := by
            rintro rfl
            cases later
          rw [later, behind, List.flatMap_cons, List.cons_append, List.cons_append] at ih
          rw [ih, trail_cons (Or.inr some_)]
          simp [behind]
        | nil =>
          rw [later, behind, List.flatMap_nil, List.nil_append] at ih
          cases cs with
          | nil => simp [collapse, behind, trail, hc]
          | cons d ds =>
            have some_ := collapse_ne_nil p sep (List.cons_ne_nil d ds)
            rw [trail_cons (Or.inr (List.cons_ne_nil d ds))]
            rcases trail_cases p sep (d :: ds) with none_ | one
            · rw [ih, none_] at some_
              exact absurd rfl some_
            · rw [ih, one]
              simp [behind]

theorem dropWhile_word (other : p sep = false) {w : List α} (word : IsWord p w) (rest : List α) :
    (w ++ rest).dropWhile (· = sep) = w ++ rest := by
  obtain ⟨c, cs, rfl⟩ := List.exists_cons_of_ne_nil word.some
  have stays : c ≠ sep := ne_sep other (word.chars c List.mem_cons_self)
  exact List.dropWhile_cons_of_neg (by simpa using stays)

/-- The words joined, with a separator behind them where other characters are. -/
theorem dropWhile_collapse (other : p sep = false) {s : List α} (some_ : words p s ≠ []) :
    (collapse p sep s).dropWhile (· = sep) = join [sep] (words p s) ++ trail p sep s := by
  have isWord {w : List α} (h : w ∈ words p s) : IsWord p w := isWord_of_mem_words h
  rw [collapse_eq other]
  rw [words] at some_ isWord ⊢
  split
  · rename_i opening
    rw [if_pos opening] at some_ isWord
    obtain ⟨w, ws, later⟩ := List.exists_cons_of_ne_nil some_
    rw [later] at isWord
    rw [opening, later, join_cons_eq, behind, List.flatMap_cons, ← behind, List.nil_append, List.cons_append,
      List.cons_append, List.dropWhile_cons_of_pos (by simp), List.append_assoc,
      dropWhile_word other (isWord List.mem_cons_self)]
  · rename_i opening
    rw [if_neg opening] at isWord
    rw [join_cons_eq, List.append_assoc, dropWhile_word other (isWord List.mem_cons_self)]

/-- Without the outer separators, what is collapsed is the words joined. -/
theorem trim_collapse (other : p sep = false) (s : List α) :
    ((collapse p sep s).dropWhile (· = sep)).rdropWhile (· = sep) = join [sep] (words p s) := by
  by_cases none_ : words p s = []
  · have gone : (collapse p sep s).dropWhile (· = sep) = [] := by
      rw [words] at none_
      split at none_
      · rename_i opening
        rw [collapse_eq other, opening, none_]
        rcases trail_cases p sep s with clear | one
        · simp [behind, clear]
        · simp [behind, one]
      · cases none_
    rw [gone, none_]
    rfl
  · have last := rdropWhile_join other fun w => isWord_of_mem_words (p := p) (s := s) (w := w)
    rw [dropWhile_collapse other none_]
    rcases trail_cases p sep s with clear | one
    · rw [clear, List.append_nil, last]
    · rw [one, List.rdropWhile_concat_pos _ _ _ (by simp), last]

end Runs
