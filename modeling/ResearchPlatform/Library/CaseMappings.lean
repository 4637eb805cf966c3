import Mathlib.Data.List.Infix

/-!
# Case mappings of Unicode text

A full mapping of each character, as the standard gives it, with what the mappings of
different versions have in common: ASCII letters change as they always did, and few other
characters turn into ASCII. What a character becomes in lower case may depend on the
characters around it, as that of a final sigma does.
-/

namespace CaseMappings

structure CaseMapping where
  /-- the lower case of a character between what stands before and behind it -/
  lowerAt : List Char → Char → List Char → List Char
  upperOf : Char → List Char
  lower_ascii : ∀ before c after, c.toNat < 128 → lowerAt before c after = [c.toLower]
  /-- the Kelvin sign becomes `k`, and the dotted capital I an `i` with its dot -/
  lower_other : ∀ before c after, 128 ≤ c.toNat → ∃ x xs, lowerAt before c after = x :: xs ∧
    (128 ≤ x.toNat ∨ x = 'k' ∨ x = 'i' ∧ xs = ['\u0307'])
  upper_some : ∀ c, upperOf c ≠ []
  upper_ascii : ∀ c, c.toNat < 128 → upperOf c = [c.toUpper]
  /-- the ASCII letters that ligatures and letters without a capital of their own give -/
  upper_other : ∀ c, 128 ≤ c.toNat → c ≠ '\u0149' →
    ∀ x ∈ upperOf c, x.toNat < 128 → x ∈ "AFHIJLSTWY".toList
  /-- the `n` behind an apostrophe -/
  upper_joined : upperOf '\u0149' = ['\u02bc', 'N']

/-- The mapping of ASCII leaves all other characters alone. -/
theorem toLower_other {c : Char} (other : 128 ≤ c.toNat) : c.toLower = c := by
  refine dif_neg fun capital => ?_
  have small : c.toNat ≤ 90 := UInt32.le_iff_toNat_le.mp capital.2
  omega

theorem ascii_of_toLower {c : Char} (h : c.toLower.toNat < 128) : c.toNat < 128 := by
  by_contra other
  rw [toLower_other (by omega)] at h
  exact other h

namespace CaseMapping
variable (m : CaseMapping)

/-- The lower case of what stands behind `before`. -/
def lowerFrom : List Char → List Char → List Char
  | _, [] => []
  | before, c :: cs => m.lowerAt before c cs ++ lowerFrom (before ++ [c]) cs

def lower (s : String) : String := String.ofList (m.lowerFrom [] s.toList)

def upper (s : String) : String := String.ofList (s.toList.flatMap m.upperOf)

variable {m}

theorem lowerAt_ne_nil (before : List Char) (c : Char) (after : List Char) :
    m.lowerAt before c after ≠ [] := by
  by_cases ascii : c.toNat < 128
  · rw [m.lower_ascii before c after ascii]
    exact List.cons_ne_nil _ _
  · obtain ⟨x, xs, other, -⟩ := m.lower_other before c after (by omega)
    rw [other]
    exact List.cons_ne_nil _ _

theorem lowerFrom_eq_nil {before s : List Char} (h : m.lowerFrom before s = []) : s = [] := by
  cases s with
  | nil => rfl
  | cons c cs =>
    rw [lowerFrom] at h
    exact absurd (List.append_eq_nil_iff.mp h).1 (lowerAt_ne_nil before c cs)

/-- ASCII is mapped letter by letter, whatever stands around it. -/
theorem lowerFrom_ascii {word : List Char} (ascii : ∀ c ∈ word, c.toNat < 128) (before rest : List Char) :
    m.lowerFrom before (word ++ rest) =
      word.map Char.toLower ++ m.lowerFrom (before ++ word) rest := by
  induction word generalizing before with
  | nil => simp
  | cons c word ih =>
    obtain ⟨first, others⟩ := List.forall_mem_cons.mp ascii
    rw [List.cons_append, lowerFrom, m.lower_ascii before c _ first, ih others, List.map_cons]
    simp

/-! ## Words that only ASCII letters give -/

/-- No other character gives a letter of the word. -/
structure Plain (word : List Char) : Prop where
  ascii : ∀ x ∈ word, x.toNat < 128
  kelvin : 'k' ∉ word
  dotted : word.getLast? ≠ some 'i'

instance (word : List Char) : Decidable (Plain word) :=
  -- not by a search through all characters, which `∀ x ∈ word` may be taken for
  decidable_of_iff (word.all (fun x => x.toNat < 128) = true ∧ 'k' ∉ word ∧ word.getLast? ≠ some 'i')
    ⟨fun h => ⟨by simpa using h.1, h.2.1, h.2.2⟩, fun h => ⟨by simpa using h.ascii, h.kelvin, h.dotted⟩⟩

/-- The letters of the word in upper or lower case. -/
def Spells (word spelling : List Char) : Prop := spelling.map Char.toLower = word

instance (word spelling : List Char) : Decidable (Spells word spelling) :=
  inferInstanceAs (Decidable (_ = _))

theorem Spells.ascii {word spelling : List Char} (h : Spells word spelling)
    (plain : Plain word) : ∀ c ∈ spelling, c.toNat < 128 := by
  intro c mem
  apply ascii_of_toLower
  exact plain.ascii _ (h ▸ List.mem_map_of_mem mem)

theorem Plain.tail {x : Char} {word : List Char} (h : Plain (x :: word)) (more : word ≠ []) :
    Plain word where
  ascii y mem := h.ascii y (List.mem_cons_of_mem x mem)
  kelvin mem := h.kelvin (List.mem_cons_of_mem x mem)
  dotted := by
    intro last
    apply h.dotted
    obtain ⟨y, rest, rfl⟩ := List.exists_cons_of_ne_nil more
    rw [List.getLast?_cons_cons]
    exact last

/-- A text whose lower case starts with the word starts with a spelling of it. -/
theorem spelled_of_start {word : List Char} (plain : Plain word) {before s : List Char}
    (h : word <+: m.lowerFrom before s) : ∃ spelling rest, s = spelling ++ rest ∧ Spells word spelling := by
  induction word generalizing before s with
  | nil => exact ⟨[], s, rfl, rfl⟩
  | cons x word ih =>
    cases s with
    | nil => exact absurd (List.prefix_nil.mp h) (List.cons_ne_nil _ _)
    | cons c cs =>
      rw [lowerFrom] at h
      by_cases ascii : c.toNat < 128
      · rw [m.lower_ascii before c cs ascii] at h
        obtain ⟨rfl, behind⟩ := List.cons_prefix_cons.mp h
        by_cases more : word = []
        · subst more
          exact ⟨[c], cs, rfl, rfl⟩
        · obtain ⟨spelling, rest, rfl, spelled⟩ := ih (plain.tail more) behind
          exact ⟨c :: spelling, rest, rfl, congrArg (c.toLower :: ·) spelled⟩
      · exfalso
        obtain ⟨y, ys, other, kind⟩ := m.lower_other before c cs (by omega)
        rw [other] at h
        obtain ⟨rfl, behind⟩ := List.cons_prefix_cons.mp h
        have small := plain.ascii x List.mem_cons_self
        rcases kind with large | rfl | ⟨rfl, rfl⟩
        · omega
        · exact plain.kelvin List.mem_cons_self
        · -- the dot would have to follow in the word
          cases word with
          | nil => exact plain.dotted rfl
          | cons z word =>
            obtain ⟨rfl, -⟩ := List.cons_prefix_cons.mp behind
            exact absurd (plain.ascii '\u0307' (by simp)) (by decide)

theorem prefix_lowerFrom_iff {word : List Char} (plain : Plain word) (before : List Char) {s : List Char} :
    word <+: m.lowerFrom before s ↔ ∃ spelling rest, s = spelling ++ rest ∧ Spells word spelling := by
  refine ⟨spelled_of_start plain, ?_⟩
  rintro ⟨spelling, rest, rfl, spelled⟩
  rw [lowerFrom_ascii (spelled.ascii plain), show spelling.map Char.toLower = word from spelled]
  exact List.prefix_append _ _

theorem lowerFrom_eq_iff {word : List Char} (plain : Plain word) (before : List Char) {s : List Char} :
    m.lowerFrom before s = word ↔ Spells word s := by
  constructor
  · intro h
    have start : word <+: m.lowerFrom before s := by rw [h]
    obtain ⟨spelling, rest, rfl, spelled⟩ := spelled_of_start plain start
    rw [lowerFrom_ascii (spelled.ascii plain), show spelling.map Char.toLower = word from spelled] at h
    have nothing : m.lowerFrom (before ++ spelling) rest = [] := by simpa using h
    rw [lowerFrom_eq_nil nothing, List.append_nil]
    exact spelled
  · intro spelled
    have whole := lowerFrom_ascii (m := m) (spelled.ascii plain) before []
    rw [List.append_nil, lowerFrom, List.append_nil] at whole
    exact whole.trans spelled

/-! ## Two capitals side by side -/

section Pairs
variable {α β : Type*} {f : α → List β} {x y : β}

/-- Two neighbours of a text in two parts are neighbours in one of them, or meet. -/
theorem pair_infix_append_iff {u v : List β} : [x, y] <:+: u ++ v ↔
    [x, y] <:+: u ∨ [x, y] <:+: v ∨ [x] <:+ u ∧ [y] <+: v := by
  rw [List.infix_append_iff_ne_nil]
  constructor
  · rintro (left | right | ⟨l, r, some_, other, parts, ends, starts⟩)
    · exact Or.inl left
    · exact Or.inr (Or.inl right)
    · obtain ⟨a, l, rfl⟩ := List.exists_cons_of_ne_nil some_
      obtain ⟨b, r, rfl⟩ := List.exists_cons_of_ne_nil other
      have sizes := congrArg List.length parts
      simp only [List.length_append, List.length_cons, List.length_nil] at sizes
      have left : l = [] := List.eq_nil_of_length_eq_zero (by omega)
      have right : r = [] := List.eq_nil_of_length_eq_zero (by omega)
      subst left right
      obtain ⟨rfl, rest⟩ := List.cons.inj parts
      obtain ⟨rfl, -⟩ := List.cons.inj rest
      exact Or.inr (Or.inr ⟨ends, starts⟩)
  · rintro (left | right | ⟨ends, starts⟩)
    · exact Or.inl left
    · exact Or.inr (Or.inl right)
    · exact Or.inr (Or.inr ⟨[x], [y], List.cons_ne_nil _ _, List.cons_ne_nil _ _, rfl, ends, starts⟩)

/-- Where `y` is written alone and `x` only at an end, they come to stand side by side
where what they are written for does. -/
theorem pair_infix_flatMap_iff (some_ : ∀ a, f a ≠ []) (alone : ∀ a, y ∈ f a → f a = [y])
    (ends : ∀ a, x ∈ f a → [x] <:+ f a) {l : List α} :
    [x, y] <:+: l.flatMap f ↔ ∃ a b, [a, b] <:+: l ∧ x ∈ f a ∧ y ∈ f b := by
  induction l with
  | nil =>
    constructor
    · intro h
      exact absurd (List.infix_nil.mp h) (List.cons_ne_nil _ _)
    · rintro ⟨a, b, h, -⟩
      exact absurd (List.infix_nil.mp h) (List.cons_ne_nil _ _)
  | cons c l ih =>
    rw [List.flatMap_cons, pair_infix_append_iff, ih]
    constructor
    · rintro (one | ⟨a, b, later, hx, hy⟩ | ⟨last, first⟩)
      · -- one character does not give both
        have single := alone c (one.subset (by simp))
        rw [single] at one
        exact absurd one.length_le (by simp)
      · exact ⟨a, b, List.infix_cons_iff.mpr (Or.inr later), hx, hy⟩
      · cases l with
        | nil => exact absurd (List.prefix_nil.mp first) (List.cons_ne_nil _ _)
        | cons d l =>
          refine ⟨c, d, ⟨[], l, rfl⟩, last.subset (by simp), ?_⟩
          obtain ⟨e, es, written⟩ := List.exists_cons_of_ne_nil (some_ d)
          rw [List.flatMap_cons, written, List.cons_append, List.cons_prefix_cons] at first
          rw [first.1, written]
          exact List.mem_cons_self
    · rintro ⟨a, b, pair, hx, hy⟩
      rcases List.infix_cons_iff.mp pair with here | later
      · obtain ⟨rfl, rest⟩ := List.cons_prefix_cons.mp here
        obtain ⟨l, rfl⟩ := rest
        refine Or.inr (Or.inr ⟨ends a hx, ?_⟩)
        rw [List.singleton_append, List.flatMap_cons, alone b hy]
        exact List.prefix_append _ _
      · exact Or.inr (Or.inl ⟨a, b, later, hx, hy⟩)

end Pairs

theorem toUpper_eq_N : ∀ n < 128, (Char.ofNat n).toUpper = 'N' ↔ Char.ofNat n = 'n' ∨ Char.ofNat n = 'N' := by
  decide

theorem toUpper_eq_O : ∀ n < 128, (Char.ofNat n).toUpper = 'O' ↔ Char.ofNat n = 'o' ∨ Char.ofNat n = 'O' := by
  decide

theorem mem_upperOf_N {c : Char} : 'N' ∈ m.upperOf c ↔ c = 'n' ∨ c = 'N' ∨ c = '\u0149' := by
  by_cases ascii : c.toNat < 128
  · have single : c ≠ '\u0149' := by
      rintro rfl
      exact absurd ascii (by decide)
    have table := toUpper_eq_N c.toNat ascii
    rw [Char.ofNat_toNat] at table
    rw [m.upper_ascii c ascii, List.mem_singleton, eq_comm, table]
    simp [single]
  · by_cases joined : c = '\u0149'
    · subst joined
      simp [m.upper_joined]
    · constructor
      · intro mem
        have letters := m.upper_other c (by omega) joined 'N' mem (by decide)
        exact absurd letters (by decide)
      · rintro (rfl | rfl | rfl)
        · exact absurd (show 'n'.toNat < 128 by decide) ascii
        · exact absurd (show 'N'.toNat < 128 by decide) ascii
        · exact absurd rfl joined

/-- No character gives an O with others. -/
theorem mem_upperOf_O {c : Char} :
    ('O' ∈ m.upperOf c ↔ c = 'o' ∨ c = 'O') ∧ ('O' ∈ m.upperOf c → m.upperOf c = ['O']) := by
  by_cases ascii : c.toNat < 128
  · have table := toUpper_eq_O c.toNat ascii
    rw [Char.ofNat_toNat] at table
    rw [m.upper_ascii c ascii, List.mem_singleton, eq_comm, table]
    exact ⟨Iff.rfl, fun capital => by rw [table.mpr capital]⟩
  · have none_ : 'O' ∉ m.upperOf c := by
      intro mem
      by_cases joined : c = '\u0149'
      · subst joined
        rw [m.upper_joined] at mem
        exact absurd mem (by decide)
      · exact absurd (m.upper_other c (by omega) joined 'O' mem (by decide)) (by decide)
    refine ⟨⟨fun mem => absurd mem none_, ?_⟩, fun mem => absurd mem none_⟩
    rintro (rfl | rfl)
    · exact absurd (show 'o'.toNat < 128 by decide) ascii
    · exact absurd (show 'O'.toNat < 128 by decide) ascii

theorem suffix_upperOf_N {c : Char} (h : 'N' ∈ m.upperOf c) : ['N'] <:+ m.upperOf c := by
  by_cases ascii : c.toNat < 128
  · rw [m.upper_ascii c ascii, List.mem_singleton] at h
    rw [m.upper_ascii c ascii, ← h]
  · rcases mem_upperOf_N.mp h with rfl | rfl | rfl
    · exact absurd (show 'n'.toNat < 128 by decide) ascii
    · exact absurd (show 'N'.toNat < 128 by decide) ascii
    · rw [m.upper_joined]
      exact ⟨['\u02bc'], rfl⟩

/-- The characters whose capitals put together are NO. -/
theorem no_infix_upper_iff {s : List Char} : ['N', 'O'] <:+: s.flatMap m.upperOf ↔
    ∃ a b, [a, b] <:+: s ∧ (a = 'n' ∨ a = 'N' ∨ a = '\u0149') ∧ (b = 'o' ∨ b = 'O') := by
  rw [pair_infix_flatMap_iff m.upper_some (fun _ => mem_upperOf_O.2) fun _ => suffix_upperOf_N]
  simp only [mem_upperOf_N, mem_upperOf_O.1]

end CaseMapping

/-! ## The mapping of ASCII -/

theorem toUpper_other {c : Char} (other : 128 ≤ c.toNat) : c.toUpper = c := by
  refine dif_neg fun small_ => ?_
  have small : c.toNat ≤ 122 := UInt32.le_iff_toNat_le.mp small_.2
  omega

/-- The characters that turn into ASCII alone are mapped, besides ASCII itself. -/
def asciiMapping : CaseMapping where
  lowerAt _ c _ :=
    if c = '\u212a' then ['k'] else if c = '\u0130' then ['i', '\u0307'] else [c.toLower]
  upperOf c := if c = '\u0149' then ['\u02bc', 'N'] else [c.toUpper]
  lower_ascii := by
    intro _ c _ ascii
    have kelvin : c ≠ '\u212a' := by
      rintro rfl
      exact absurd ascii (by decide)
    have dotted : c ≠ '\u0130' := by
      rintro rfl
      exact absurd ascii (by decide)
    rw [if_neg kelvin, if_neg dotted]
  lower_other := by
    intro _ c _ other
    split
    · exact ⟨'k', [], rfl, Or.inr (Or.inl rfl)⟩
    · split
      · exact ⟨'i', _, rfl, Or.inr (Or.inr ⟨rfl, rfl⟩)⟩
      · exact ⟨c.toLower, [], rfl, Or.inl ((toLower_other other).symm ▸ other)⟩
  upper_some := by
    intro c
    split <;> exact List.cons_ne_nil _ _
  upper_ascii := by
    intro c ascii
    refine if_neg ?_
    rintro rfl
    exact absurd ascii (by decide)
  upper_other := by
    intro c other single x mem ascii
    rw [if_neg single, List.mem_singleton, toUpper_other other] at mem
    subst mem
    omega
  upper_joined := rfl

end CaseMappings
