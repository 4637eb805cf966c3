import ResearchPlatform.Library.Json
import Mathlib.Data.List.Nodup
import Mathlib.Data.List.Sort
import Mathlib.Data.Nat.Digits.Lemmas

/-!
# Writing JSON

An object of plain members, sorted by name, is written to ASCII, and what was written
reads back.
-/

namespace Json

/-! ## Writing -/

/-- A value without members of its own. -/
inductive Scalar where
  | null
  | bool (b : Bool)
  | int (i : Int)
  | str (s : String)
  deriving DecidableEq, Repr

def Scalar.toValue : Scalar → Value
  | .null => .null
  | .bool b => .bool b
  | .int i => .int i
  | .str s => .str (codePoints s)

def hexDigit (v : Nat) : Nat := if v < 10 then 0x30 + v else 0x57 + v

def writeUnit (n : Nat) : Text :=
  [0x5c, 0x75, hexDigit (n / 0x1000), hexDigit (n / 0x100 % 0x10), hexDigit (n / 0x10 % 0x10),
    hexDigit (n % 0x10)]

/-- The character behind a backslash that stands for the code point. -/
def shortEscape (n : Nat) : Option Nat :=
  if n = 0x22 || n = 0x5c then some n
  else if n = 0x08 then some 0x62
  else if n = 0x0c then some 0x66
  else if n = 0x0a then some 0x6e
  else if n = 0x0d then some 0x72
  else if n = 0x09 then some 0x74
  else none

def highUnit (n : Nat) : Nat := 0xd800 + (n - 0x10000) / 0x400

def lowUnit (n : Nat) : Nat := 0xdc00 + (n - 0x10000) % 0x400

/-- Whatever is not printable ASCII is escaped. -/
def escape (n : Nat) : Text :=
  match shortEscape n with
  | some c => [0x5c, c]
  | none =>
    if 0x20 ≤ n ∧ n < 0x7f then [n]
    else if n < 0x10000 then writeUnit n
    else writeUnit (highUnit n) ++ writeUnit (lowUnit n)

def writeString (s : Text) : Text := 0x22 :: (s.flatMap escape ++ [0x22])

def decimal (n : Nat) : Text := if n = 0 then [0x30] else (Nat.digits 10 n).reverse.map (· + 0x30)

def writeScalar : Scalar → Text
  | .null => codePoints "null"
  | .bool true => codePoints "true"
  | .bool false => codePoints "false"
  | .int i => if i < 0 then 0x2d :: decimal i.natAbs else decimal i.natAbs
  | .str s => writeString (codePoints s)

def writeMember (m : String × Scalar) : Text :=
  writeString (codePoints m.1) ++ 0x3a :: 0x20 :: writeScalar m.2

/-- The members with what closes the object. -/
def writeMembers : List (String × Scalar) → Text
  | [] => [0x7d]
  | [m] => writeMember m ++ [0x7d]
  | m :: rest => writeMember m ++ 0x2c :: 0x20 :: writeMembers rest

def sortKeys (members : List (String × Scalar)) : List (String × Scalar) :=
  members.insertionSort fun a b => codePoints a.1 ≤ codePoints b.1

/-- `json.dumps(data, sort_keys=True)`. -/
def dumps (members : List (String × Scalar)) : Text := 0x7b :: writeMembers (sortKeys members)

/-! ## Strings read back -/

section Strings
variable {n : Nat} {rest : Text}

theorem hexValue_hexDigit : ∀ v < 16, hexValue (hexDigit v) = some v := by decide

theorem unescape_shortEscape_table : ∀ n < 0x5d, ∀ c ∈ shortEscape n, unescape c = some n ∧ c ≠ 0x75 := by
  decide

theorem shortEscape_small {c : Nat} (h : shortEscape n = some c) : n < 0x5d := by
  by_contra large
  rw [shortEscape] at h
  simp only [Bool.or_eq_true, decide_eq_true_eq] at h
  repeat' split at h
  all_goals first | omega | cases h

theorem unescape_shortEscape {c : Nat} (h : shortEscape n = some c) : unescape c = some n ∧ c ≠ 0x75 :=
  unescape_shortEscape_table n (shortEscape_small h) c h

/-- The units that a code point is written as. -/
def unitsOf (n : Nat) : List CodeUnit :=
  if (shortEscape n).isSome ∨ (0x20 ≤ n ∧ n < 0x7f) then [.point n]
  else if n < 0x10000 then [.unit n]
  else [.unit (highUnit n), .unit (lowUnit n)]

theorem scanUnits_writeUnit (small : n < 0x10000) : scanUnits (writeUnit n ++ rest) =
    (scanUnits rest).map fun (units, rest) => (.unit n :: units, rest) := by
  have digits : hex4 (hexDigit (n / 0x1000)) (hexDigit (n / 0x100 % 0x10)) (hexDigit (n / 0x10 % 0x10))
      (hexDigit (n % 0x10)) = some n := by
    rw [hex4, hexValue_hexDigit _ (by omega), hexValue_hexDigit _ (by omega),
      hexValue_hexDigit _ (by omega), hexValue_hexDigit _ (by omega)]
    simp only [Option.bind_eq_bind, Option.bind_some, Option.pure_def, Option.some.injEq]
    omega
  simp [writeUnit, scanUnits, digits]

theorem scanUnits_short {c : Nat} (back : unescape c = some n) (other : c ≠ 0x75) :
    scanUnits (0x5c :: c :: rest) =
      (scanUnits rest).map fun (units, rest) => (.point n :: units, rest) := by
  rw [scanUnits.eq_def]
  simp [back, other]

theorem scanUnits_plain (quote : n ≠ 0x22) (backslash : n ≠ 0x5c) (printable : 0x20 ≤ n) :
    scanUnits (n :: rest) = (scanUnits rest).map fun (units, rest) => (.point n :: units, rest) := by
  rw [scanUnits.eq_def]
  simp [quote, backslash, Nat.not_lt.mpr printable]

theorem scanUnits_escape (valid : n < 0x110000) : scanUnits (escape n ++ rest) =
    (scanUnits rest).map fun (units, rest) => (unitsOf n ++ units, rest) := by
  cases short : shortEscape n with
  | some c =>
    obtain ⟨back, other⟩ := unescape_shortEscape short
    simp [escape, unitsOf, short, scanUnits_short back other]
  | none =>
    by_cases printable : 0x20 ≤ n ∧ n < 0x7f
    · have quote : n ≠ 0x22 := by
        rintro rfl
        cases short
      have backslash : n ≠ 0x5c := by
        rintro rfl
        cases short
      simp [escape, unitsOf, short, printable, scanUnits_plain quote backslash printable.1]
    · by_cases small : n < 0x10000
      · simp [escape, unitsOf, short, printable, small, scanUnits_writeUnit small]
      · have high : highUnit n < 0x10000 := by
          rw [highUnit]
          omega
        have low : lowUnit n < 0x10000 := by
          rw [lowUnit]
          omega
        simp only [escape, unitsOf, short, if_neg printable, if_neg small, List.append_assoc,
          scanUnits_writeUnit high, scanUnits_writeUnit low]
        cases scanUnits rest <;> simp [printable, Except.map]

/-- A code point that is not a surrogate. -/
def Whole (n : Nat) : Prop := n < 0xd800 ∨ (0xe000 ≤ n ∧ n < 0x110000)

theorem whole_codePoints (s : String) : ∀ n ∈ codePoints s, Whole n := by
  intro n mem
  obtain ⟨c, -, rfl⟩ := List.mem_map.mp mem
  rcases c.valid with low | ⟨high, top⟩
  · exact Or.inl low
  · exact Or.inr ⟨high, top⟩

theorem joinUnit_of_not_high (h : isHigh n = false) (units : List CodeUnit) :
    joinUnit (.unit n) units = .unit n :: units := by
  match units with
  | [] => rfl
  | .point m :: others => rfl
  | .unit m :: others => simp [joinUnit, h]

theorem isHigh_iff : isHigh n = true ↔ 0xd800 ≤ n ∧ n < 0xdc00 := by
  rw [isHigh, Bool.and_eq_true, decide_eq_true_eq, decide_eq_true_eq]

theorem isLow_iff : isLow n = true ↔ 0xdc00 ≤ n ∧ n < 0xe000 := by
  rw [isLow, Bool.and_eq_true, decide_eq_true_eq, decide_eq_true_eq]

theorem joinUnit_pair (large : 0x10000 ≤ n) (top : n < 0x110000) (units : List CodeUnit) :
    joinUnit (.unit (highUnit n)) (joinUnit (.unit (lowUnit n)) units) = .point n :: units := by
  have high : isHigh (highUnit n) = true := isHigh_iff.mpr (by rw [highUnit]; omega)
  have low : isLow (lowUnit n) = true := isLow_iff.mpr (by rw [lowUnit]; omega)
  have other : isHigh (lowUnit n) = false := by
    rw [Bool.eq_false_iff, ne_eq, isHigh_iff, lowUnit]
    omega
  have sum : 0x10000 + (highUnit n - 0xd800) * 0x400 + (lowUnit n - 0xdc00) = n := by
    rw [highUnit, lowUnit]
    omega
  rw [joinUnit_of_not_high other]
  simp only [joinUnit, high, low, Bool.and_self, if_true, sum]

theorem joinSurrogates_unitsOf (whole : Whole n) (units : List CodeUnit) :
    joinSurrogates (unitsOf n ++ units) = n :: joinSurrogates units := by
  simp only [joinSurrogates, List.foldr_append]
  by_cases plain : (shortEscape n).isSome ∨ (0x20 ≤ n ∧ n < 0x7f)
  · rw [unitsOf, if_pos plain]
    rfl
  · by_cases small : n < 0x10000
    · have single : isHigh n = false := by
        rw [Bool.eq_false_iff, ne_eq, isHigh_iff]
        rcases whole with h | h <;> omega
      rw [unitsOf, if_neg plain, if_pos small, List.foldr_cons, List.foldr_nil,
        joinUnit_of_not_high single]
      rfl
    · have top : n < 0x110000 := by
        rcases whole with h | h <;> omega
      rw [unitsOf, if_neg plain, if_neg small, List.foldr_cons, List.foldr_cons, List.foldr_nil,
        joinUnit_pair (Nat.not_lt.mp small) top]
      rfl

/-- A text of whole code points reads back from its string. -/
theorem scanString_write {s : Text} (whole : ∀ n ∈ s, Whole n) :
    scanString (s.flatMap escape ++ 0x22 :: rest) = .ok (s, rest) := by
  have units : scanUnits (s.flatMap escape ++ 0x22 :: rest) = .ok (s.flatMap unitsOf, rest) := by
    induction s with
    | nil =>
      rw [List.flatMap_nil, List.nil_append, scanUnits.eq_def]
      rfl
    | cons n s ih =>
      obtain ⟨first, others⟩ := List.forall_mem_cons.mp whole
      have top : n < 0x110000 := by
        rcases first with h | h <;> omega
      rw [List.flatMap_cons, List.append_assoc, scanUnits_escape top, ih others]
      rfl
  have joined : joinSurrogates (s.flatMap unitsOf) = s := by
    clear units
    induction s with
    | nil => rfl
    | cons n s ih =>
      obtain ⟨first, others⟩ := List.forall_mem_cons.mp whole
      rw [List.flatMap_cons, joinSurrogates_unitsOf first, ih others]
  rw [scanString, units]
  exact congrArg (fun t => Except.ok (t, rest)) joined

end Strings

/-! ## Numbers read back -/

section Numbers
variable {n : Nat} {rest : Text}

theorem isDigit_iff {c : Nat} : isDigit c = true ↔ 0x30 ≤ c ∧ c < 0x3a := by
  rw [isDigit, Bool.and_eq_true, decide_eq_true_eq, decide_eq_true_eq]

theorem decimal_digits (n : Nat) : ∀ c ∈ decimal n, isDigit c = true := by
  intro c mem
  rw [decimal] at mem
  split at mem
  · cases List.mem_singleton.mp mem
    rfl
  · obtain ⟨d, hd, rfl⟩ := List.mem_map.mp mem
    have small := Nat.digits_lt_base (show 1 < 10 by decide) (List.mem_reverse.mp hd)
    exact isDigit_iff.mpr (by omega)

theorem ofDigits_decimal (n : Nat) : ofDigits (decimal n) = n := by
  rw [decimal]
  split
  · next zero => simp [ofDigits, zero]
  · rw [ofDigits, ← List.map_reverse, List.reverse_reverse, List.map_map]
    have back : (Nat.digits 10 n).map ((· - 0x30) ∘ (· + 0x30)) = Nat.digits 10 n :=
      (List.map_congr_left fun d _ => Nat.add_sub_cancel d 0x30).trans (List.map_id _)
    rw [back, Nat.ofDigits_digits]

/-- The first digit is a zero only in the zero. -/
theorem decimal_head (n : Nat) : (n = 0 ∧ decimal n = [0x30]) ∨
    ∃ d ds, decimal n = d :: ds ∧ d ≠ 0x30 := by
  by_cases zero : n = 0
  · exact Or.inl ⟨zero, by rw [decimal, if_pos zero]⟩
  · refine Or.inr ?_
    have some_ : Nat.digits 10 n ≠ [] := Nat.digits_ne_nil_iff_ne_zero.mpr zero
    have last := Nat.getLast_digit_ne_zero 10 zero
    rw [decimal, if_neg zero, ← List.dropLast_append_getLast some_, List.reverse_append]
    exact ⟨_, _, rfl, fun he => last (Nat.add_right_cancel (he.trans (Nat.zero_add 0x30).symm))⟩

theorem length_decimal_le {k : Nat} (positive : 0 < k) (small : n < 10 ^ k) : (decimal n).length ≤ k := by
  rw [decimal]
  split
  · exact positive
  · rw [List.length_map, List.length_reverse]
    exact (Nat.digits_length_le_iff (by decide) n).mpr small

/-- What stands behind a member: a comma or a closing brace. -/
def Ends (rest : Text) : Prop := ∃ c others, rest = c :: others ∧ (c = 0x2c ∨ c = 0x7d)

theorem Ends.digits (ends : Ends rest) : rest.takeWhile isDigit = [] ∧ rest.dropWhile isDigit = rest := by
  obtain ⟨c, others, rfl, rfl | rfl⟩ := ends
  · exact ⟨rfl, rfl⟩
  · exact ⟨rfl, rfl⟩

theorem scanWhole_decimal (ends : Ends rest) : scanWhole (decimal n ++ rest) = some (decimal n, rest) := by
  rcases decimal_head n with ⟨-, zero⟩ | ⟨d, ds, first, other⟩
  · rw [zero]
    rfl
  · have taken : (decimal n ++ rest).takeWhile isDigit = decimal n := by
      rw [List.takeWhile_append_of_pos (decimal_digits n), ends.digits.1, List.append_nil]
    have dropped : (decimal n ++ rest).dropWhile isDigit = rest := by
      rw [List.dropWhile_append_of_pos (decimal_digits n), ends.digits.2]
    rw [scanWhole, taken, dropped, if_neg (by rw [first]; exact List.cons_ne_nil d ds)]
    intro others he
    rw [first] at he
    exact other (List.cons.inj he).1

theorem Ends.scanFraction (ends : Ends rest) : scanFraction rest = ([], rest) := by
  obtain ⟨c, others, rfl, rfl | rfl⟩ := ends
  · rfl
  · rfl

theorem Ends.scanExponent (ends : Ends rest) : scanExponent rest = ([], rest) := by
  obtain ⟨c, others, rfl, rfl | rfl⟩ := ends
  · rfl
  · rfl

theorem scanUnsigned_decimal (sign : Text) (small : n < 10 ^ maxDigits) (ends : Ends rest) :
    scanUnsigned sign (decimal n ++ rest) =
      .ok (.int (if sign = [] then n else -(n : Int)), rest) := by
  have short : ¬ maxDigits < (decimal n).length :=
    Nat.not_lt.mpr (length_decimal_le (by decide) small)
  simp only [scanUnsigned, scanWhole_decimal ends, ends.scanFraction, ends.scanExponent, and_self,
    if_true, if_neg short, ofDigits_decimal]

theorem decimal_ne_sign (n : Nat) : ∃ d ds, decimal n = d :: ds ∧ isDigit d = true := by
  have digits := decimal_digits n
  rcases decimal_head n with ⟨-, zero⟩ | ⟨d, ds, first, -⟩
  · exact ⟨_, _, zero, rfl⟩
  · rw [first] at digits
    exact ⟨d, ds, first, digits d List.mem_cons_self⟩

theorem scanNumber_write {i : Int} (small : i.natAbs < 10 ^ maxDigits) (ends : Ends rest) :
    scanNumber (writeScalar (.int i) ++ rest) = .ok (.int i, rest) := by
  rw [writeScalar]
  by_cases negative : i < 0
  · rw [if_pos negative, List.cons_append, scanNumber, scanUnsigned_decimal _ small ends,
      if_neg (List.cons_ne_nil _ _), show -(i.natAbs : Int) = i by omega]
  · rw [if_neg negative, scanNumber, scanUnsigned_decimal _ small ends, if_pos rfl,
      show (i.natAbs : Int) = i by omega]
    intro others he
    obtain ⟨d, ds, first, digit⟩ := decimal_ne_sign i.natAbs
    rw [first] at he
    rw [(List.cons.inj he).1] at digit
    cases digit

end Numbers

/-! ## Objects read back -/

/-- Integers that the reader converts. -/
def Scalar.Fits : Scalar → Prop
  | .int i => i.natAbs < 10 ^ maxDigits
  | _ => True

def toMember (m : String × Scalar) : Text × Value := (codePoints m.1, m.2.toValue)

section Objects
variable {rest : Text} {fuel : Nat}

/-- No keyword starts with a digit, nor with a sign and a digit. -/
theorem scanKeyword_digit {d : Nat} (digit : isDigit d = true) :
    scanKeyword (d :: rest) = none ∧ scanKeyword (0x2d :: d :: rest) = none := by
  have differ : ∀ c, isDigit c = false → c ≠ d := fun c letter same => by
    rw [same, digit] at letter
    cases letter
  constructor
  · refine List.findSome?_eq_none_iff.mpr fun p mem => if_neg ?_
    obtain ⟨c, e, others, word, letter, -⟩ := keyword_letters p mem
    rw [word, List.isPrefixOf_iff_prefix, List.cons_prefix_cons]
    exact fun h => differ c letter h.1
  · refine List.findSome?_eq_none_iff.mpr fun p mem => if_neg ?_
    obtain ⟨c, e, others, word, -, letter⟩ := keyword_letters p mem
    rw [word, List.isPrefixOf_iff_prefix, List.cons_prefix_cons, List.cons_prefix_cons]
    exact fun h => differ e letter h.2.1

theorem scanValue_number {c : Nat} (start : isDigit c = true ∨ c = 0x2d)
    (other : scanKeyword (c :: rest) = none) :
    scanValue (fuel + 1) (c :: rest) = scanNumber (c :: rest) := by
  rw [isDigit_iff] at start
  rw [scanValue, if_neg (by omega), if_neg (by omega), if_neg (by omega), other]

theorem scanValue_write {v : Scalar} (fits : v.Fits) (ends : Ends rest) :
    scanValue (fuel + 1) (writeScalar v ++ rest) = .ok (v.toValue, rest) := by
  match v with
  | .null => rfl
  | .bool true => rfl
  | .bool false => rfl
  | .str s =>
    rw [writeScalar, writeString, List.cons_append, List.append_assoc, scanValue, if_pos rfl,
      List.singleton_append, scanString_write (whole_codePoints s)]
    rfl
  | .int i =>
    have number := scanNumber_write fits ends
    obtain ⟨d, ds, first, digit⟩ := decimal_ne_sign i.natAbs
    rw [writeScalar, first] at number ⊢
    by_cases negative : i < 0
    · rw [if_pos negative] at number ⊢
      exact (scanValue_number (Or.inr rfl) (scanKeyword_digit digit).2).trans number
    · rw [if_neg negative] at number ⊢
      exact (scanValue_number (Or.inl digit) (scanKeyword_digit digit).1).trans number

theorem skipSpace_of_not {c : Nat} (h : isSpace c = false) : skipSpace (c :: rest) = c :: rest := by
  rw [skipSpace, List.dropWhile_cons_of_neg (by rw [h]; exact Bool.false_ne_true)]

/-- A string, a number or a keyword follows the space behind the colon. -/
theorem writeScalar_head (v : Scalar) : ∃ c cs, writeScalar v = c :: cs ∧ isSpace c = false := by
  match v with
  | .null => exact ⟨_, _, rfl, rfl⟩
  | .bool true => exact ⟨_, _, rfl, rfl⟩
  | .bool false => exact ⟨_, _, rfl, rfl⟩
  | .str s => exact ⟨_, _, rfl, rfl⟩
  | .int i =>
    obtain ⟨d, ds, first, digit⟩ := decimal_ne_sign i.natAbs
    rw [isDigit_iff] at digit
    rw [writeScalar, first]
    by_cases negative : i < 0
    · exact ⟨_, _, if_pos negative, rfl⟩
    · refine ⟨_, _, if_neg negative, ?_⟩
      simp only [isSpace, Bool.or_eq_false_iff, decide_eq_false_iff_not]
      omega

/-- A member behind its opening quote. -/
def memberText (m : String × Scalar) : Text :=
  (codePoints m.1).flatMap escape ++ 0x22 :: 0x3a :: 0x20 :: writeScalar m.2

theorem writeMember_append (m : String × Scalar) (rest : Text) :
    writeMember m ++ rest = 0x22 :: (memberText m ++ rest) := by
  simp [writeMember, writeString, memberText]

theorem skipSpace_value (v : Scalar) (rest : Text) :
    skipSpace (0x20 :: (writeScalar v ++ rest)) = writeScalar v ++ rest := by
  obtain ⟨c, cs, first, other⟩ := writeScalar_head v
  rw [first]
  exact skipSpace_of_not other

/-- The name and the value of a member, up to the comma or the brace behind it. -/
theorem scanMember_parts (fuel : Nat) {m : String × Scalar} (fits : m.2.Fits) (ends : Ends rest) :
    ∃ behind, scanString (memberText m ++ rest) = .ok (codePoints m.1, behind) ∧
      ∃ value, skipSpace behind = 0x3a :: value ∧
        scanValue (fuel + 1) (skipSpace value) = .ok (m.2.toValue, rest) := by
  refine ⟨0x3a :: 0x20 :: (writeScalar m.2 ++ rest), ?_, _, skipSpace_of_not rfl, ?_⟩
  · rw [memberText, List.append_assoc]
    exact scanString_write (whole_codePoints m.1)
  · rw [skipSpace_value, scanValue_write fits ends]

theorem scanMembers_last {m : String × Scalar} (fits : m.2.Fits) :
    scanMembers (fuel + 2) (memberText m ++ 0x7d :: rest) = .ok ([toMember m], rest) := by
  obtain ⟨behind, key, value, colon, found⟩ := scanMember_parts fuel fits
    (show Ends (0x7d :: rest) from ⟨_, _, rfl, Or.inr rfl⟩)
  have brace : skipSpace (0x7d :: rest) = 0x7d :: rest := skipSpace_of_not rfl
  rw [scanMembers, key]
  simp only [bind, Except.bind, colon, found, brace]
  rfl

theorem scanMembers_more {m : String × Scalar} (fits : m.2.Fits) {text : Text}
    {members : List (Text × Value)} (others : scanMembers (fuel + 1) text = .ok (members, rest)) :
    scanMembers (fuel + 2) (memberText m ++ 0x2c :: 0x20 :: 0x22 :: text) =
      .ok (toMember m :: members, rest) := by
  obtain ⟨behind, key, value, colon, found⟩ := scanMember_parts fuel fits
    (show Ends (0x2c :: 0x20 :: 0x22 :: text) from ⟨_, _, rfl, Or.inl rfl⟩)
  have comma : skipSpace (0x2c :: 0x20 :: 0x22 :: text) = 0x2c :: 0x20 :: 0x22 :: text :=
    skipSpace_of_not rfl
  have quote : skipSpace (0x20 :: 0x22 :: text) = 0x22 :: text := rfl
  rw [scanMembers, key]
  simp only [bind, Except.bind, colon, found, comma, quote, others]
  rfl

theorem writeMembers_cons_cons (m m' : String × Scalar) (members : List (String × Scalar)) :
    writeMembers (m :: m' :: members) =
      writeMember m ++ 0x2c :: 0x20 :: writeMembers (m' :: members) := rfl

/-- The members read back, from behind the quote of the first name. -/
theorem scanMembers_write (m : String × Scalar) (members : List (String × Scalar))
    (fits : ∀ x ∈ m :: members, x.2.Fits) (enough : members.length + 1 < fuel) :
    ∃ text, writeMembers (m :: members) ++ rest = 0x22 :: text ∧
      scanMembers fuel text = .ok ((m :: members).map toMember, rest) := by
  obtain ⟨first, others⟩ := List.forall_mem_cons.mp fits
  induction members generalizing m fuel with
  | nil =>
    obtain ⟨k, rfl⟩ : ∃ k, fuel = k + 2 := ⟨fuel - 2, by omega⟩
    refine ⟨memberText m ++ 0x7d :: rest, ?_, scanMembers_last first⟩
    rw [writeMembers, List.append_assoc, writeMember_append]
    rfl
  | cons m' members ih =>
    obtain ⟨k, rfl⟩ : ∃ k, fuel = k + 2 := ⟨fuel - 2, by omega⟩
    obtain ⟨first', others'⟩ := List.forall_mem_cons.mp others
    have left : members.length + 1 < k + 1 := by
      rw [List.length_cons] at enough
      omega
    obtain ⟨text, written, read⟩ : ∃ text, writeMembers (m' :: members) ++ rest = 0x22 :: text ∧
        scanMembers (k + 1) text = .ok ((m' :: members).map toMember, rest) :=
      ih m' others left first' others'
    refine ⟨memberText m ++ 0x2c :: 0x20 :: 0x22 :: text, ?_, scanMembers_more first read⟩
    rw [writeMembers_cons_cons, List.append_assoc, List.cons_append,
      List.cons_append, written, writeMember_append]

theorem setItem_new {items : List (Text × Value)} {key : Text} {value : Value}
    (new : key ∉ items.map Prod.fst) : setItem items key value = items ++ [(key, value)] := by
  refine if_neg fun found => new ?_
  obtain ⟨item, mem, same⟩ := List.any_eq_true.mp found
  exact List.mem_map.mpr ⟨item, mem, of_decide_eq_true same⟩

/-- Members with names of their own are the items of the object. -/
theorem toDict_nodup {members : List (Text × Value)} (names : (members.map Prod.fst).Nodup) :
    toDict members = members := by
  have fold : ∀ items, ((items ++ members).map Prod.fst).Nodup →
      members.foldl (fun items m => setItem items m.1 m.2) items = items ++ members := by
    clear names
    induction members with
    | nil => exact fun items _ => (List.append_nil items).symm
    | cons m members ih =>
      intro items names
      have new : m.1 ∉ items.map Prod.fst := by
        rw [List.map_append, List.map_cons] at names
        exact fun mem => (List.nodup_append.mp names).2.2 _ mem _ List.mem_cons_self rfl
      rw [List.foldl_cons, setItem_new new, ih (items ++ [(m.1, m.2)]), List.append_assoc]
      · rfl
      · rwa [List.append_assoc]
  exact fold [] names

theorem nodup_toMember {members : List (String × Scalar)} (names : (members.map Prod.fst).Nodup) :
    ((members.map toMember).map Prod.fst).Nodup := by
  have points : (members.map toMember).map Prod.fst = (members.map Prod.fst).map codePoints := by
    rw [List.map_map, List.map_map]
    rfl
  rw [points]
  exact names.map codePoints_injective

theorem scanValue_writeMembers (fuel : Nat) {members : List (String × Scalar)} (fits : ∀ x ∈ members, x.2.Fits)
    (names : (members.map Prod.fst).Nodup) (enough : members.length < fuel) :
    scanValue (fuel + 1) (0x7b :: writeMembers members) = .ok (.dict (members.map toMember), []) := by
  rw [scanValue, if_neg (by decide), if_pos rfl]
  cases members with
  | nil => rfl
  | cons m members =>
    obtain ⟨text, written, read⟩ : ∃ text, writeMembers (m :: members) ++ [] = 0x22 :: text ∧
        scanMembers fuel text = .ok ((m :: members).map toMember, []) :=
      scanMembers_write m members fits enough
    have quote : skipSpace (writeMembers (m :: members)) = 0x22 :: text := by
      rw [← List.append_nil (writeMembers _), written]
      exact skipSpace_of_not rfl
    rw [quote]
    simp only [read, Except.map, toDict_nodup (nodup_toMember names)]

end Objects

/-! ## Objects as mappings -/

/-- Two objects with the same items, whatever their order. -/
structure SameDict (d e : List (Text × Value)) : Prop where
  left : (d.map Prod.fst).Nodup
  right : (e.map Prod.fst).Nodup
  lookup : ∀ key, d.lookup key = e.lookup key

theorem lookup_eq_some_of_mem {items : List (Text × Value)} (names : (items.map Prod.fst).Nodup)
    {item : Text × Value} (mem : item ∈ items) : items.lookup item.1 = some item.2 := by
  induction items with
  | nil => cases mem
  | cons first items ih =>
    rw [List.map_cons, List.nodup_cons] at names
    rcases List.mem_cons.mp mem with rfl | later
    · exact List.lookup_cons_self
    · have other : item.1 ≠ first.1 := fun same =>
        names.1 (same ▸ List.mem_map_of_mem later)
      rw [List.lookup_cons, beq_eq_false_iff_ne.mpr other]
      exact ih names.2 later

theorem mem_of_lookup_eq_some {items : List (Text × Value)} {key : Text} {value : Value}
    (found : items.lookup key = some value) : (key, value) ∈ items := by
  obtain ⟨before, after, rfl, -⟩ := List.lookup_eq_some_iff.mp found
  simp

theorem sameDict_of_perm {d e : List (Text × Value)} (names : (e.map Prod.fst).Nodup) (perm : d.Perm e) :
    SameDict d e := by
  have sorted : (d.map Prod.fst).Nodup := (perm.map Prod.fst).nodup_iff.mpr names
  refine ⟨sorted, names, fun key => Option.ext fun value => ?_⟩
  constructor
  · intro found
    exact lookup_eq_some_of_mem names (perm.mem_iff.mp (mem_of_lookup_eq_some found))
  · intro found
    exact lookup_eq_some_of_mem sorted (perm.mem_iff.mpr (mem_of_lookup_eq_some found))

/-! ## Bytes read back -/

section Bytes

theorem sortKeys_perm (members : List (String × Scalar)) : (sortKeys members).Perm members :=
  List.perm_insertionSort _ members

/-- The bytes of a text that is all ASCII, which is its own UTF-8. -/
def asciiBytes (s : Text) : List UInt8 := s.map UInt8.ofNat

def Ascii (s : Text) : Prop := ∀ c ∈ s, 0x20 ≤ c ∧ c < 0x7f

instance (s : Text) : Decidable (Ascii s) :=
  inferInstanceAs (Decidable (∀ c ∈ s, 0x20 ≤ c ∧ c < 0x7f))

theorem ascii_append {s t : Text} (hs : Ascii s) (ht : Ascii t) : Ascii (s ++ t) := by
  intro c mem
  rcases List.mem_append.mp mem with mem | mem
  · exact hs c mem
  · exact ht c mem

theorem hexDigit_ascii : ∀ v < 0x10, 0x20 ≤ hexDigit v ∧ hexDigit v < 0x7f := by decide

theorem writeUnit_ascii {n : Nat} (small : n < 0x10000) : Ascii (writeUnit n) := by
  simp only [Ascii, writeUnit, List.forall_mem_cons]
  exact ⟨by decide, by decide, hexDigit_ascii _ (by omega), hexDigit_ascii _ (by omega),
    hexDigit_ascii _ (by omega), hexDigit_ascii _ (by omega), by simp⟩

theorem shortEscape_ascii : ∀ n < 0x5d, ∀ c ∈ shortEscape n, 0x20 ≤ c ∧ c < 0x7f := by decide

theorem escape_ascii {n : Nat} (top : n < 0x110000) : Ascii (escape n) := by
  cases short : shortEscape n with
  | some c =>
    simp only [Ascii, escape, short, List.forall_mem_cons]
    exact ⟨by decide, shortEscape_ascii n (shortEscape_small short) c short, by simp⟩
  | none =>
    simp only [escape, short]
    split
    · next printable => simpa [Ascii] using printable
    · split
      · next small => exact writeUnit_ascii small
      · refine ascii_append (writeUnit_ascii ?_) (writeUnit_ascii ?_)
        · rw [highUnit]
          omega
        · rw [lowUnit]
          omega

theorem writeString_ascii (s : String) : Ascii (writeString (codePoints s)) := by
  have body : Ascii ((codePoints s).flatMap escape) := by
    intro c mem
    obtain ⟨n, hn, mem⟩ := List.mem_flatMap.mp mem
    refine escape_ascii ?_ c mem
    rcases whole_codePoints s n hn with h | h <;> omega
  exact ascii_append (s := [0x22]) (by decide) (ascii_append body (by decide))

theorem writeScalar_ascii (v : Scalar) : Ascii (writeScalar v) := by
  match v with
  | .null => decide
  | .bool true => decide
  | .bool false => decide
  | .str s => exact writeString_ascii s
  | .int i =>
    have digits : Ascii (decimal i.natAbs) := fun c mem => by
      have := isDigit_iff.mp (decimal_digits _ c mem)
      omega
    rw [writeScalar]
    split
    · exact ascii_append (s := [0x2d]) (by decide) digits
    · exact digits

theorem writeMembers_ascii (members : List (String × Scalar)) : Ascii (writeMembers members) := by
  have member : ∀ m, Ascii (writeMember m) := fun m =>
    ascii_append (writeString_ascii m.1) (ascii_append (s := [0x3a, 0x20]) (by decide) (writeScalar_ascii m.2))
  induction members with
  | nil => decide
  | cons m members ih =>
    cases members with
    | nil => exact ascii_append (member m) (by decide)
    | cons m' members =>
      rw [writeMembers_cons_cons]
      exact ascii_append (member m) (ascii_append (s := [0x2c, 0x20]) (by decide) ih)

theorem utf8_ascii {s : Text} (ascii : Ascii s) : utf8 s = some s := by
  induction s with
  | nil => rfl
  | cons c s ih =>
    obtain ⟨first, others⟩ := List.forall_mem_cons.mp ascii
    rw [utf8.eq_def]
    simp only [if_pos (show c < 0x80 by omega), ih others, Option.map_some]

/-- ASCII has no mark and no zeros. -/
theorem decodeText_ascii {s : Text} (ascii : Ascii s) : decodeText s = some s := by
  have whole := utf8_ascii ascii
  have start : ∀ c cs, s = c :: cs → 0x20 ≤ c ∧ c < 0x7f := fun c cs he =>
    ascii c (he ▸ List.mem_cons_self)
  have first : ∀ c cs, s = c :: cs → c ≠ 0 := fun c cs he zero => by
    have := start c cs he
    omega
  have second : ∀ b c cs, s = b :: c :: cs → c ≠ 0 := fun b c cs he zero => by
    have := ascii c (he ▸ List.mem_cons_of_mem b List.mem_cons_self)
    omega
  rw [decodeText.eq_def]
  split
  · exact absurd (start _ _ rfl).1 (by decide)
  · exact absurd (start _ _ rfl).2 (by decide)
  · exact absurd (start _ _ rfl).2 (by decide)
  · exact absurd (start _ _ rfl).2 (by decide)
  · exact absurd (start _ _ rfl).2 (by decide)
  · simp only [if_neg (first _ _ rfl), if_neg (second _ _ _ rfl), whole]
  · simp only [if_neg (first _ _ rfl), if_neg (second _ _ _ rfl), whole]
  · exact whole

theorem toNat_asciiBytes {s : Text} (ascii : Ascii s) : (asciiBytes s).map UInt8.toNat = s := by
  rw [asciiBytes, List.map_map]
  refine (List.map_congr_left fun c mem => ?_).trans (List.map_id _)
  have small := (ascii c mem).2
  exact Nat.mod_eq_of_lt (show c < 2 ^ 8 by omega)

/-- What was written reads back, with the members in the order of their names. -/
theorem loads_dumps {members : List (String × Scalar)} (fits : ∀ m ∈ members, m.2.Fits)
    (names : (members.map Prod.fst).Nodup) :
    loads (asciiBytes (dumps members)) = .ok (.dict ((sortKeys members).map toMember)) := by
  have perm := sortKeys_perm members
  have ascii : Ascii (dumps members) :=
    ascii_append (s := [0x7b]) (by decide) (writeMembers_ascii _)
  have brace : skipSpace (dumps members) = dumps members := skipSpace_of_not rfl
  have read := scanValue_writeMembers (2 * (dumps members).length + (sortKeys members).length)
    (fun m mem => fits m (perm.mem_iff.mp mem)) ((perm.map Prod.fst).nodup_iff.mpr names)
    (Nat.lt_add_of_pos_left (Nat.mul_pos Nat.two_pos (Nat.succ_pos _)))
  rw [Nat.add_right_comm] at read
  have enough := (scanValue_fuel (Nat.lt_succ_self (2 * (dumps members).length)) _).symm.trans read
  rw [loads, toNat_asciiBytes ascii, decodeText_ascii ascii]
  simp only [brace, enough]
  rfl

end Bytes

end Json
