import Mathlib.Data.Int.Log
import Mathlib.Data.List.TakeWhile
import Mathlib.Data.Rat.Floor
import Mathlib.Tactic.Linarith

/-!
# Numerals

Texts, as lists of code points, that stand for integers in the digits of any script, and
decimal literals with the doubles that are nearest to them.
-/

namespace Numerals

variable {base : Nat}

/-! ## Characters -/

/-- The zeros of the scripts that have decimal digits, each followed by the other nine. -/
def decimalZeros : List Nat :=
  [0x30, 0x660, 0x6f0, 0x7c0, 0x966, 0x9e6, 0xa66, 0xae6, 0xb66, 0xbe6, 0xc66, 0xce6, 0xd66, 0xde6,
    0xe50, 0xed0, 0xf20, 0x1040, 0x1090, 0x17e0, 0x1810, 0x1946, 0x19d0, 0x1a80, 0x1a90, 0x1b50,
    0x1bb0, 0x1c40, 0x1c50, 0xa620, 0xa8d0, 0xa900, 0xa9d0, 0xa9f0, 0xaa50, 0xabf0, 0xff10, 0x104a0,
    0x10d30, 0x11066, 0x110f0, 0x11136, 0x111d0, 0x112f0, 0x11450, 0x114d0, 0x11650, 0x116c0,
    0x11730, 0x118e0, 0x11950, 0x11c50, 0x11d50, 0x11da0, 0x16a60, 0x16ac0, 0x16b50, 0x1d7ce,
    0x1d7d8, 0x1d7e2, 0x1d7ec, 0x1d7f6, 0x1e140, 0x1e2f0, 0x1e950, 0x1fbf0]

def decimalValue (c : Nat) : Option Nat :=
  (decimalZeros.find? fun z => z ≤ c && c < z + 10).map fun z => c - z

/-- White space beyond ASCII. -/
def isWideSpace (c : Nat) : Bool :=
  c = 0x85 || c = 0xa0 || c = 0x1680 || (0x2000 ≤ c && c < 0x200b) || c = 0x2028 || c = 0x2029 ||
    c = 0x202f || c = 0x205f || c = 0x3000

/-- The white space of C. -/
def isSpace (c : Nat) : Bool := c = 0x20 || (0x09 ≤ c && c < 0x0e)

/-- Spaces and digits of other scripts become those of ASCII. Any other character beyond it
ends the text with a question mark. -/
def toAscii : List Nat → List Nat
  | [] => []
  | c :: rest =>
    if c < 0x7f then c :: toAscii rest
    else if isWideSpace c then 0x20 :: toAscii rest
    else match decimalValue c with
      | some v => (0x30 + v) :: toAscii rest
      | none => [0x3f]

/-- What a letter or a digit counts, which for other characters is beyond any base. -/
def digitValue (c : Nat) : Nat :=
  if 0x30 ≤ c ∧ c < 0x3a then c - 0x30
  else if 0x61 ≤ c ∧ c < 0x7b then c - 0x57
  else if 0x41 ≤ c ∧ c < 0x5b then c - 0x37
  else 37

def ofDigits (base : Nat) (digits : List Nat) : Nat := digits.foldl (fun n d => base * n + d) 0

/-! ## Integers -/

/-- The longest run of decimal digits that is converted to an integer. -/
def maxDigits : Nat := 4300

/-- The sign in front, as a factor. -/
def scanSign : List Nat → Int × List Nat
  | [] => (1, [])
  | c :: rest => if c = 0x2b then (1, rest) else if c = 0x2d then (-1, rest) else (1, c :: rest)

/-- Hexadecimal digits may have `0x` in front, and an underscore behind it. -/
def skipPrefix (base : Nat) : List Nat → List Nat
  | c :: x :: rest =>
    if base = 16 ∧ c = 0x30 ∧ (x = 0x78 ∨ x = 0x58) then
      if rest.head? = some 0x5f then rest.tail else rest
    else c :: x :: rest
  | s => s

/-- A digit of the base or an underscore. -/
def isNumeral (base c : Nat) : Bool := c = 0x5f || digitValue c < base

/-- Underscores stand alone, and between digits. -/
def wellGrouped (run : List Nat) : Bool := (run.splitOn 0x5f).all fun group => !group.isEmpty

/-- `int(text, base)`. -/
def parseInt (base : Nat) (text : List Nat) : Except String Int :=
  let invalid := "invalid literal for int() with base " ++ toString base
  let (sign, s) := scanSign ((toAscii text).dropWhile isSpace)
  let s := skipPrefix base s
  let run := s.takeWhile (isNumeral base)
  let digits := (run.filter fun c => c ≠ 0x5f).map digitValue
  if !wellGrouped run then .error invalid
  else if base = 10 ∧ maxDigits < digits.length then
    .error ("Exceeds the limit (4300 digits) for integer string conversion: value has " ++
      toString digits.length ++
      " digits; use sys.set_int_max_str_digits() to increase the limit")
  else if (s.dropWhile (isNumeral base)).all isSpace then .ok (sign * ofDigits base digits)
  else .error invalid

/-- A letter or a digit of the base. -/
def Digit (base c : Nat) : Prop := digitValue c < base

instance (base c : Nat) : Decidable (Digit base c) := inferInstanceAs (Decidable (_ < _))

theorem Digit.ascii {c : Nat} (digit : Digit base c) (small : base ≤ 36) :
    (0x30 ≤ c ∧ c < 0x3a) ∨ (0x61 ≤ c ∧ c < 0x7b) ∨ (0x41 ≤ c ∧ c < 0x5b) := by
  rw [Digit, digitValue] at digit
  split_ifs at digit <;> omega

section Digits
variable {text : List Nat}

theorem toAscii_digits (small : base ≤ 36) (digits : ∀ c ∈ text, Digit base c) :
    toAscii text = text := by
  induction text with
  | nil => rfl
  | cons c rest ih =>
    obtain ⟨first, others⟩ := List.forall_mem_cons.mp digits
    have := first.ascii small
    rw [toAscii, if_pos (by omega), ih others]

theorem splitOn_of_not_mem {c : Nat} (absent : c ∉ text) : text.splitOn c = [text] := by
  rw [List.splitOn]
  refine List.splitOnP_eq_singleton fun x mem => beq_eq_false_iff_ne.mpr fun same => ?_
  exact absent (same ▸ mem)

/-- Plain digits are read as the number they make. -/
theorem parseInt_digits (small : base ≤ 36) (digits : ∀ c ∈ text, Digit base c) (some_ : text ≠ [])
    (short : base = 10 → text.length ≤ maxDigits) :
    parseInt base text = .ok (ofDigits base (text.map digitValue) : Int) := by
  obtain ⟨c, rest, rfl⟩ := List.exists_cons_of_ne_nil some_
  have first := (digits c List.mem_cons_self).ascii small
  have spaceless : (c :: rest).dropWhile isSpace = c :: rest :=
    List.dropWhile_cons_of_neg (by simp [isSpace]; omega)
  have unsigned : scanSign (c :: rest) = (1, c :: rest) := by
    rw [scanSign, if_neg (by omega), if_neg (by omega)]
  have plain : skipPrefix base (c :: rest) = c :: rest := by
    cases rest with
    | nil => rfl
    | cons x rest =>
      refine if_neg ?_
      rintro ⟨rfl, -, rfl | rfl⟩
      · exact absurd (digits 0x78 (by simp)) (by decide)
      · exact absurd (digits 0x58 (by simp)) (by decide)
  have numerals : ∀ x ∈ c :: rest, isNumeral base x = true := fun x mem => by
    rw [isNumeral, Bool.or_eq_true, decide_eq_true_eq, decide_eq_true_eq]
    exact Or.inr (digits x mem)
  have noUnderscore : ∀ x ∈ c :: rest, x ≠ 0x5f := fun x mem same => by
    have := (digits x mem).ascii small
    omega
  have whole : (c :: rest).takeWhile (isNumeral base) = c :: rest :=
    List.takeWhile_eq_self_iff.mpr numerals
  have nothing : (c :: rest).dropWhile (isNumeral base) = [] :=
    List.dropWhile_eq_nil_iff.mpr numerals
  have kept : (c :: rest).filter (fun x => x ≠ 0x5f) = c :: rest :=
    List.filter_eq_self.mpr fun x mem => decide_eq_true (noUnderscore x mem)
  have grouped : wellGrouped (c :: rest) = true := by
    rw [wellGrouped, splitOn_of_not_mem fun mem => noUnderscore _ mem rfl]
    rfl
  have limit : ¬ (base = 10 ∧ maxDigits < ((c :: rest).map digitValue).length) := by
    rintro ⟨ten, more⟩
    rw [List.length_map] at more
    exact absurd (short ten) (Nat.not_le.mpr more)
  simp only [parseInt, toAscii_digits small digits, spaceless, unsigned, plain, whole, kept, nothing,
    grouped, if_neg limit, Bool.not_true, Bool.false_eq_true, if_false, List.all_nil, if_true, one_mul]

end Digits

/-! ## Doubles -/

/-- To the nearest integer, and from the middle to the even one. -/
def roundHalfEven (x : Rat) : Int :=
  let below := x.floor
  let rest := x - below
  if rest < 1 / 2 then below
  else if 1 / 2 < rest then below + 1
  else if below % 2 = 0 then below else below + 1

theorem roundHalfEven_bounds (x : Rat) : x.floor ≤ roundHalfEven x ∧ roundHalfEven x ≤ x.floor + 1 := by
  simp only [roundHalfEven]
  split_ifs <;> omega

theorem roundHalfEven_mono {x y : Rat} (h : x ≤ y) : roundHalfEven x ≤ roundHalfEven y := by
  have floors : x.floor ≤ y.floor := Int.floor_mono h
  rcases floors.lt_or_eq with below | same
  · have up := (roundHalfEven_bounds x).2
    have down := (roundHalfEven_bounds y).1
    omega
  · -- over one whole number the parts that are rounded decide
    have rests : x - x.floor ≤ y - y.floor := by
      rw [same]
      exact sub_le_sub_right h _
    simp only [roundHalfEven, same] at rests ⊢
    split_ifs <;> first | omega | (exfalso; linarith)

/-- The double nearest to a number that is not negative, unless that is beyond the largest. -/
def nearestDouble (x : Rat) : Option Rat :=
  let spacing : Rat := 2 ^ max (Int.log 2 x - 52) (-1074)
  let d := roundHalfEven (x / spacing) * spacing
  if d < 2 ^ 1024 then some d else none

inductive Double where
  | finite (x : Rat)
  | infinity
  | nan
  deriving DecidableEq, Repr

/-- The digits read with the point so far to the left of their end; what is far from the range
of the doubles is not computed. -/
def ofDecimal (sign : Int) (digits : List Nat) (exponent : Int) : Double :=
  let n := ofDigits 10 (digits.map digitValue)
  let top := exponent + Nat.log 10 n
  if n = 0 ∨ top < -330 then .finite 0
  else if 310 < top then .infinity
  else match nearestDouble (n * 10 ^ exponent) with
    | some x => .finite (sign * x)
    | none => .infinity

def isDigit (c : Nat) : Bool := 0x30 ≤ c && c < 0x3a

/-- `float(literal)` for a literal with a fraction or an exponent, or a constant beyond the
numbers. -/
def ofLiteral (literal : List Nat) : Double :=
  let (sign, s) := scanSign literal
  if s = [0x4e, 0x61, 0x4e] then .nan
  else if s.head? = some 0x49 then .infinity
  else
    let whole := s.takeWhile isDigit
    let s := s.dropWhile isDigit
    let (fraction, s) := if s.head? = some 0x2e then (s.tail.takeWhile isDigit, s.tail.dropWhile isDigit)
      else ([], s)
    let (exponentSign, exponent) := scanSign s.tail
    ofDecimal sign (whole ++ fraction)
      (exponentSign * ofDigits 10 (exponent.map digitValue) - fraction.length)

/-- Toward zero. -/
def truncate (x : Rat) : Int := if 0 ≤ x then x.floor else x.ceil

end Numerals
