import Mathlib.Data.List.Infix
import Mathlib.Data.List.Induction

/-!
# Splitting a list at a separator, and lists cut into segments

`split` looks for a separator from left to right, as string libraries do, and
`join` undoes it. A list is `Cut` into segments when these stand in it in order,
with gaps of a given kind before, between and after them.
-/

namespace Segments

variable {α : Type*}

/-! ## Joining -/

def join (sep : List α) : List (List α) → List α
  | [] => []
  | [x] => x
  | x :: y :: rest => x ++ sep ++ join sep (y :: rest)

@[simp] theorem join_nil (sep : List α) : join sep [] = [] := rfl

@[simp] theorem join_singleton (sep x : List α) : join sep [x] = x := rfl

theorem join_cons (sep x : List α) {rest : List (List α)} (h : rest ≠ []) :
    join sep (x :: rest) = x ++ sep ++ join sep rest := by
  cases rest with
  | nil => exact absurd rfl h
  | cons y ys => rfl

theorem join_snoc (sep x : List α) {xs : List (List α)} (h : xs ≠ []) :
    join sep (xs ++ [x]) = join sep xs ++ sep ++ x := by
  induction xs with
  | nil => exact absurd rfl h
  | cons y ys ih =>
    cases ys with
    | nil => rfl
    | cons z zs =>
      rw [List.cons_append, join_cons sep y (by simp), ih (by simp), join_cons sep y (by simp)]
      simp

/-- Elements that the separator does not have come from the parts, in order. -/
theorem filter_join {sep : List α} {p : α → Bool} (none_ : sep.filter p = [])
    (xs : List (List α)) : (join sep xs).filter p = xs.flatten.filter p := by
  induction xs with
  | nil => rfl
  | cons x rest ih =>
    cases rest with
    | nil => simp
    | cons y ys =>
      rw [join_cons sep x (by simp), List.filter_append, List.filter_append, none_, ih]
      simp

theorem infix_of_mem_join {sep x : List α} {xs : List (List α)} (h : x ∈ xs) :
    x <:+: join sep xs := by
  induction xs with
  | nil => cases h
  | cons y rest ih =>
    cases rest with
    | nil => exact List.mem_singleton.mp h ▸ List.infix_rfl
    | cons z zs =>
      rw [join_cons sep y (by simp)]
      rcases List.mem_cons.mp h with rfl | h
      · exact List.infix_append_of_infix_left List.infix_append_left
      · exact List.infix_append_of_infix_right (ih h)

/-- The places of a list, by what stands before, at and after them. -/
theorem forall_split_iff {parts : List α} {P : List α → α → List α → Prop} :
    (∀ before part after, parts = before ++ part :: after → P before part after) ↔
      ∀ i (h : i < parts.length), P (parts.take i) parts[i] (parts.drop (i + 1)) := by
  constructor
  · intro all i h
    exact all _ _ _ (by simp)
  · rintro all before part after rfl
    simpa using all before.length (by simp)

/-! ## Splitting -/

/-- No separator of the list reaches into a given stretch of it. -/
structure Clear (sep before stretch after : List α) : Prop where
  outside : ∀ a b, a ++ b = before → b ≠ [] → sep <+: b ++ (stretch ++ after) →
    sep.length ≤ b.length
  inside : ∀ a b, a ++ b = stretch → b ≠ [] → ¬ sep <+: b ++ after

theorem Clear.cons {sep before stretch after : List α} {x : α}
    (h : Clear sep (x :: before) stretch after) : Clear sep before stretch after where
  outside a b same := h.outside (x :: a) b (by rw [List.cons_append, same])
  inside := h.inside

theorem Clear.append {sep done before stretch after : List α}
    (h : Clear sep (done ++ before) stretch after) : Clear sep before stretch after where
  outside a b same := h.outside (done ++ a) b (by rw [List.append_assoc, same])
  inside := h.inside

/-- A stretch that shares no element with the separator is clear of it. -/
theorem Clear.of_disjoint {sep before stretch after : List α} (hsep : sep ≠ [])
    (hstretch : stretch ≠ []) (apart : ∀ c ∈ stretch, c ∉ sep) :
    Clear sep before stretch after where
  outside a b _ _ starts := by
    by_contra long
    obtain ⟨c, stretch, rfl⟩ := List.exists_cons_of_ne_nil hstretch
    have at_ : (b ++ (c :: stretch ++ after))[b.length]? = some c := by simp
    obtain ⟨t, whole⟩ := starts
    rw [← whole, List.getElem?_append_left (by omega)] at at_
    exact apart c List.mem_cons_self (List.mem_of_getElem? at_)
  inside a b same hb starts := by
    obtain ⟨c, b, rfl⟩ := List.exists_cons_of_ne_nil hb
    obtain ⟨s, sep, rfl⟩ := List.exists_cons_of_ne_nil hsep
    obtain ⟨t, whole⟩ := starts
    obtain ⟨rfl, -⟩ := List.cons.inj whole
    exact apart s (same ▸ List.mem_append_right a List.mem_cons_self) List.mem_cons_self

section Splitting
variable [DecidableEq α]

/-- The parts of a list between the separators; `skip` elements of it belong to a
separator that has been found already. -/
def splitFrom (sep : List α) : Nat → List α → List (List α)
  | _, [] => [[]]
  | skip + 1, _ :: rest => splitFrom sep skip rest
  | 0, x :: rest =>
    if sep.isPrefixOf (x :: rest) then [] :: splitFrom sep (sep.length - 1) rest
    else (splitFrom sep 0 rest).modifyHead (x :: ·)

def split (sep text : List α) : List (List α) := splitFrom sep 0 text

theorem splitFrom_ne_nil (sep : List α) (skip : Nat) (text : List α) :
    splitFrom sep skip text ≠ [] := by
  induction text generalizing skip with
  | nil => simp [splitFrom]
  | cons x rest ih =>
    cases skip with
    | succ skip => simpa [splitFrom] using ih skip
    | zero =>
      simp only [splitFrom]
      split
      · simp
      · simpa using ih 0

theorem splitFrom_skip (sep : List α) (skip : Nat) (text : List α) :
    splitFrom sep skip text = split sep (text.drop skip) := by
  induction text generalizing skip with
  | nil => cases skip <;> rfl
  | cons x rest ih =>
    cases skip with
    | zero => rfl
    | succ skip => simpa [splitFrom] using ih skip

theorem split_ne_nil (sep text : List α) : split sep text ≠ [] := splitFrom_ne_nil sep 0 text

/-- A separator is found where the rest of the list starts with it. -/
theorem split_sep {sep : List α} (h : sep ≠ []) (rest : List α) :
    split sep (sep ++ rest) = [] :: split sep rest := by
  cases sep with
  | nil => exact absurd rfl h
  | cons x xs =>
    have found : (x :: xs).isPrefixOf (x :: (xs ++ rest)) = true := by simp
    rw [List.cons_append, split, splitFrom, if_pos found, splitFrom_skip]
    simp

theorem split_cons {sep : List α} {x : α} {rest : List α} (h : ¬ sep <+: x :: rest) :
    split sep (x :: rest) = (split sep rest).modifyHead (x :: ·) := by
  rw [split, splitFrom, if_neg (by simpa using h)]
  rfl

/-- Splitting goes by the separators: at the end, at a separator, past another element. -/
theorem split_induction {sep : List α} (h : sep ≠ []) {motive : List α → Prop}
    (nil : motive []) (found : ∀ rest, motive rest → motive (sep ++ rest))
    (past : ∀ x rest, ¬ sep <+: x :: rest → motive rest → motive (x :: rest))
    (text : List α) : motive text := by
  induction hn : text.length using Nat.strong_induction_on generalizing text with
  | h n ih =>
    subst hn
    cases text with
    | nil => exact nil
    | cons x rest =>
      by_cases starts : sep <+: x :: rest
      · obtain ⟨after, whole⟩ := starts
        rw [← whole]
        have shorter : after.length < (x :: rest).length := by
          have positive := List.length_pos_iff.mpr h
          rw [← whole, List.length_append]
          omega
        exact found after (ih _ shorter after rfl)
      · exact past x rest starts (ih _ (by simp) rest rfl)

theorem join_split {sep : List α} (h : sep ≠ []) (text : List α) :
    join sep (split sep text) = text := by
  induction text using split_induction h with
  | nil => rfl
  | found rest ih =>
    rw [split_sep h, join_cons _ _ (split_ne_nil sep rest), ih]
    rfl
  | past x rest starts ih =>
    rw [split_cons starts]
    cases hs : split sep rest with
    | nil => exact absurd hs (split_ne_nil sep rest)
    | cons part parts =>
      rw [hs] at ih
      rw [List.modifyHead_cons, ← ih]
      cases parts with
      | nil => rfl
      | cons next parts => rfl

/-- The first part starts the list. -/
theorem head_split_prefix {sep : List α} (h : sep ≠ []) {text part : List α}
    {parts : List (List α)} (hs : split sep text = part :: parts) : part <+: text := by
  have whole := join_split h text
  rw [hs] at whole
  cases parts with
  | nil => exact ⟨[], by simpa using whole⟩
  | cons next parts =>
    rw [join_cons _ _ (by simp)] at whole
    exact ⟨sep ++ join sep (next :: parts), by simpa using whole⟩

/-- Either there is one part, the list itself, or the separator is found. -/
theorem split_singleton_or {sep : List α} (h : sep ≠ []) (text : List α) :
    split sep text = [text] ∨ sep <:+: text := by
  have whole := join_split h text
  match hs : split sep text with
  | [] => exact absurd hs (split_ne_nil sep text)
  | [part] =>
    rw [hs] at whole
    exact Or.inl (congrArg (fun t => [t]) whole)
  | part :: next :: parts =>
    rw [hs, join_cons _ _ (by simp)] at whole
    exact Or.inr ⟨part, join sep (next :: parts), whole⟩

/-- An element that a list has once, and the separator has not, is in one part only. -/
theorem split_part_unique {sep text part other : List α} {x : α} (h : sep ≠ []) (hsep : x ∉ sep)
    (once : text.count x = 1) (hp : part ∈ split sep text) (ho : other ∈ split sep text)
    (inPart : x ∈ part) (inOther : x ∈ other) : part = other := by
  have kept : (split sep text).flatten.count x = 1 := by
    have none_ : sep.filter (· == x) = [] :=
      List.filter_eq_nil_iff.mpr fun y mem same => hsep (beq_iff_eq.mp same ▸ mem)
    rw [List.count_eq_length_filter, ← filter_join none_, join_split h,
      ← List.count_eq_length_filter, once]
  by_contra different
  obtain ⟨before, after, whole⟩ := List.append_of_mem hp
  rw [whole] at kept ho
  have here : 0 < part.count x := List.count_pos_iff.mpr inPart
  have there : 0 < (before ++ after).flatten.count x := by
    refine List.count_pos_iff.mpr (List.mem_flatten.mpr ⟨other, ?_, inOther⟩)
    rcases List.mem_append.mp ho with ho | ho
    · exact List.mem_append_left _ ho
    · exact List.mem_append_right _ ((List.mem_cons.mp ho).resolve_left (Ne.symm different))
  simp only [List.flatten_append, List.flatten_cons, List.count_append] at kept there
  omega

theorem infix_of_mem_split {sep : List α} (h : sep ≠ []) {text part : List α}
    (hp : part ∈ split sep text) : part <:+: text :=
  join_split h text ▸ infix_of_mem_join hp

/-- A separator of one element stands in no part. -/
theorem not_mem_of_mem_split {c : α} {text part : List α} (hp : part ∈ split [c] text) :
    c ∉ part := by
  induction text using split_induction (List.cons_ne_nil c []) generalizing part with
  | nil =>
    rw [List.mem_singleton.mp hp]
    exact List.not_mem_nil
  | found rest ih =>
    rw [split_sep (List.cons_ne_nil c [])] at hp
    rcases List.mem_cons.mp hp with rfl | hp
    · exact List.not_mem_nil
    · exact ih hp
  | past x rest starts ih =>
    rw [split_cons starts] at hp
    cases hs : split [c] rest with
    | nil => exact absurd hs (split_ne_nil [c] rest)
    | cons first parts =>
      rw [hs, List.modifyHead_cons] at hp
      rw [hs] at ih
      rcases List.mem_cons.mp hp with rfl | hp
      · intro mem
        rcases List.mem_cons.mp mem with rfl | mem
        · exact starts ⟨rest, rfl⟩
        · exact ih List.mem_cons_self mem
      · exact ih (List.mem_cons_of_mem first hp)

/-- Up to the first place where the separator can start, nothing is split. -/
theorem split_append {x : α} {sep before : List α} (h : x ∉ before) (after : List α) :
    ∃ rest parts, split (x :: sep) (before ++ after) = (before ++ rest) :: parts ∧
      split (x :: sep) after = rest :: parts := by
  induction before with
  | nil =>
    cases hs : split (x :: sep) after with
    | nil => exact absurd hs (split_ne_nil _ after)
    | cons rest parts => exact ⟨rest, parts, hs, rfl⟩
  | cons y before ih =>
    obtain ⟨rest, parts, hs, later⟩ := ih fun mem => h (List.mem_cons_of_mem y mem)
    have starts : ¬ x :: sep <+: y :: (before ++ after) := by
      rintro ⟨t, whole⟩
      exact h ((List.cons.inj whole).1 ▸ List.mem_cons_self)
    refine ⟨rest, parts, ?_, later⟩
    rw [List.cons_append, split_cons starts, hs]
    rfl

theorem split_of_not_mem {x : α} {sep text : List α} (h : x ∉ text) :
    split (x :: sep) text = [text] := by
  obtain ⟨rest, parts, hs, later⟩ := split_append h []
  cases later
  simpa using hs

theorem split_once {x : α} {sep before after : List α} (hb : x ∉ before) (ha : x ∉ after) :
    split (x :: sep) (before ++ (x :: sep) ++ after) = [before, after] := by
  obtain ⟨rest, parts, hs, later⟩ : ∃ rest parts,
      split (x :: sep) (before ++ ((x :: sep) ++ after)) = (before ++ rest) :: parts ∧
        split (x :: sep) ((x :: sep) ++ after) = rest :: parts := split_append hb _
  rw [split_sep (List.cons_ne_nil x sep), split_of_not_mem ha] at later
  cases later
  simpa using hs

/-- A stretch that no separator reaches into stays whole in the part it starts. -/
theorem split_stretch {sep : List α} (hsep : sep ≠ []) {stretch after : List α}
    (h : Clear sep [] stretch after) :
    ∃ rest parts, split sep (stretch ++ after) = (stretch ++ rest) :: parts ∧ rest <+: after := by
  induction stretch with
  | nil =>
    cases hs : split sep after with
    | nil => exact absurd hs (split_ne_nil sep after)
    | cons part parts => exact ⟨part, parts, hs, head_split_prefix hsep hs⟩
  | cons x stretch ih =>
    have later : Clear sep [] stretch after :=
      ⟨fun a b same nonempty => absurd (List.append_eq_nil_iff.mp same).2 nonempty,
        fun a b same => h.inside (x :: a) b (by rw [List.cons_append, same])⟩
    obtain ⟨rest, parts, hs, starts⟩ := ih later
    have free : ¬ sep <+: x :: (stretch ++ after) := h.inside [] (x :: stretch) rfl (by simp)
    refine ⟨rest, parts, ?_, starts⟩
    rw [List.cons_append, split_cons free, hs]
    rfl

/-- A stretch that no separator reaches into stays whole in one of the parts, with
what stands around it there. -/
theorem split_keeps {sep : List α} (hsep : sep ≠ []) {before stretch after : List α}
    (h : Clear sep before stretch after) :
    ∃ left right, left <:+ before ∧ right <+: after ∧
      left ++ stretch ++ right ∈ split sep (before ++ stretch ++ after) := by
  -- the part is the first one only if all that comes before the stretch is in it
  suffices located : ∃ part parts, split sep (before ++ (stretch ++ after)) = part :: parts ∧
      ((∃ right, right <+: after ∧ part = before ++ stretch ++ right) ∨
        ∃ left right, left <:+ before ∧ right <+: after ∧ left ++ stretch ++ right ∈ parts) by
    obtain ⟨part, parts, hs, found⟩ := located
    rw [List.append_assoc, hs]
    rcases found with ⟨right, starts, rfl⟩ | ⟨left, right, ends, starts, mem⟩
    · exact ⟨before, right, List.suffix_rfl, starts, List.mem_cons_self⟩
    · exact ⟨left, right, ends, starts, List.mem_cons_of_mem part mem⟩
  induction hn : before.length using Nat.strong_induction_on generalizing before with
  | h n ih =>
    subst hn
    cases before with
    | nil =>
      obtain ⟨rest, parts, hs, starts⟩ := split_stretch hsep h
      exact ⟨stretch ++ rest, parts, hs, Or.inl ⟨rest, starts, rfl⟩⟩
    | cons x before =>
      by_cases starts : sep <+: x :: (before ++ (stretch ++ after))
      · have fits : sep <+: x :: before :=
          List.prefix_of_prefix_length_le starts ⟨stretch ++ after, rfl⟩
            (h.outside [] (x :: before) rfl (by simp) starts)
        obtain ⟨before', whole⟩ := fits
        have shorter : before'.length < (x :: before).length := by
          have positive := List.length_pos_iff.mpr hsep
          rw [← whole, List.length_append]
          omega
        have later : Clear sep before' stretch after := (whole ▸ h).append
        obtain ⟨part, parts, hs, found⟩ := ih _ shorter later rfl
        refine ⟨[], part :: parts, ?_, Or.inr ?_⟩
        · rw [← whole, List.append_assoc, split_sep hsep, hs]
        · have ends : before' <:+ x :: before := ⟨sep, whole⟩
          rcases found with ⟨right, hright, rfl⟩ | ⟨left, right, hleft, hright, mem⟩
          · exact ⟨before', right, ends, hright, List.mem_cons_self⟩
          · exact ⟨left, right, hleft.trans ends, hright, List.mem_cons_of_mem part mem⟩
      · obtain ⟨part, parts, hs, found⟩ := ih before.length (by simp) h.cons rfl
        refine ⟨x :: part, parts, ?_, ?_⟩
        · rw [List.cons_append, split_cons starts, hs]
          rfl
        · rcases found with ⟨right, hright, rfl⟩ | ⟨left, right, hleft, hright, mem⟩
          · exact Or.inl ⟨right, hright, rfl⟩
          · exact Or.inr ⟨left, right, hleft.trans (List.suffix_cons x before), hright, mem⟩

end Splitting

/-! ## Cuts -/

/-- The segments stand in the list in order, with gaps around them. -/
inductive Cut (gap : List α → Prop) : List (List α) → List α → Prop
  | gap {g : List α} (h : gap g) : Cut gap [] g
  | segment {g c rest : List α} {cs : List (List α)} (h : gap g) (tail : Cut gap cs rest) :
      Cut gap (c :: cs) (g ++ (c ++ rest))

section Cuts
variable {gap : List α → Prop} {cs ds : List (List α)} {t u : List α}

theorem Cut.single (empty : gap []) (t : List α) : Cut gap [t] t := by
  simpa using Cut.segment (c := t) empty (Cut.gap empty)

theorem Cut.gap_append (closed : ∀ g h, gap g → gap h → gap (g ++ h)) {g : List α} (hg : gap g)
    (h : Cut gap cs t) : Cut gap cs (g ++ t) := by
  cases h with
  | gap h => exact .gap (closed g t hg h)
  | segment h tail =>
    rw [← List.append_assoc]
    exact .segment (closed g _ hg h) tail

theorem Cut.append (closed : ∀ g h, gap g → gap h → gap (g ++ h)) (h : Cut gap cs t)
    (k : Cut gap ds u) : Cut gap (cs ++ ds) (t ++ u) := by
  induction h with
  | gap h => exact k.gap_append closed h
  | segment h tail ih =>
    rw [List.append_assoc, List.append_assoc]
    exact .segment h ih

/-- Segments that are themselves gaps may be left out. -/
theorem Cut.filter (closed : ∀ g h, gap g → gap h → gap (g ++ h)) {p : List α → Bool}
    (out : ∀ c, p c = false → gap c) (h : Cut gap cs t) : Cut gap (cs.filter p) t := by
  induction h with
  | gap h => exact .gap h
  | @segment g c rest cs h tail ih =>
    by_cases kept : p c = true
    · rw [List.filter_cons_of_pos kept]
      exact .segment h ih
    · rw [List.filter_cons_of_neg kept]
      exact (ih.gap_append closed (out c (by simpa using kept))).gap_append closed h

/-- Segments without gaps. -/
theorem Cut.flatten (empty : gap []) (cs : List (List α)) : Cut gap cs cs.flatten := by
  induction cs with
  | nil => exact .gap empty
  | cons c cs ih => exact .segment empty ih

end Cuts

/-! ## Positions -/

/-- `t[a:b]`. -/
def slice (t : List α) (a b : Nat) : List α := (t.drop a).take (b - a)

/-- The segments are slices of the list, at increasing positions and none reaching
into the next one; what lies between two of them is a gap. -/
structure Laid (gap : List α → Prop) (cs : List (List α)) (t : List α) (p : Nat → Nat) : Prop where
  slices : ∀ i (hi : i < cs.length), slice t (p i) (p i + cs[i].length) = cs[i]
  increasing : ∀ i, i + 1 < cs.length → p i < p (i + 1)
  apart : ∀ i (hi : i + 1 < cs.length), p i + cs[i].length ≤ p (i + 1)
  gaps : ∀ i (hi : i + 1 < cs.length), gap (slice t (p i + cs[i].length) (p (i + 1)))

section Positions
variable {gap : List α → Prop} {cs : List (List α)} {t : List α}

theorem Laid.tail {c : List α} {p : Nat → Nat} (h : Laid gap (c :: cs) t p) :
    Laid gap cs t fun i => p (i + 1) where
  slices i hi := h.slices (i + 1) (Nat.succ_lt_succ hi)
  increasing i hi := h.increasing (i + 1) (Nat.succ_lt_succ hi)
  apart i hi := h.apart (i + 1) (Nat.succ_lt_succ hi)
  gaps i hi := h.gaps (i + 1) (Nat.succ_lt_succ hi)

end Positions

end Segments
