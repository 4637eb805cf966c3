import Mathlib.Data.List.Basic
import Mathlib.Data.Nat.Digits.Defs

/-!
# Reading JSON

Bytes in any Unicode encoding are taken to a value, as a lenient reader does it: bare
surrogates pass, constants beyond the standard are taken, of two members with one name
the last one counts.
-/

namespace Json

/-- A text as its code points, which may be lone surrogates. -/
abbrev Text := List Nat

def codePoints (s : String) : Text := s.toList.map Char.toNat

theorem codePoints_injective : Function.Injective codePoints := fun _ _ h =>
  String.toList_injective (List.map_injective_iff.mpr (fun _ _ => Char.toNat_inj.mp) h)

/-! ## Encodings -/

/-- A code point, or one of the two units of sixteen bits that may make one together. -/
inductive CodeUnit where
  | point (n : Nat)
  | unit (n : Nat)
  deriving DecidableEq, Repr

def isHigh (n : Nat) : Bool := 0xd800 ≤ n && n < 0xdc00

def isLow (n : Nat) : Bool := 0xdc00 ≤ n && n < 0xe000

def CodeUnit.value : CodeUnit → Nat
  | .point n => n
  | .unit n => n

/-- A high unit takes the low unit behind it. -/
def joinUnit (u : CodeUnit) (rest : List CodeUnit) : List CodeUnit :=
  match u, rest with
  | .unit high, .unit low :: others =>
    if isHigh high && isLow low then
      .point (0x10000 + (high - 0xd800) * 0x400 + (low - 0xdc00)) :: others
    else u :: rest
  | _, _ => u :: rest

def joinSurrogates (units : List CodeUnit) : Text := (units.foldr joinUnit []).map CodeUnit.value

def continues (b : Nat) : Bool := 0x80 ≤ b && b < 0xc0

/-- UTF-8 that lets surrogates pass. -/
def utf8 : List Nat → Option Text
  | [] => some []
  | a :: rest =>
    if a < 0x80 then (utf8 rest).map (a :: ·)
    else match rest with
      | [] => none
      | b :: rest =>
        if !continues b then none
        else if 0xc2 ≤ a && a < 0xe0 then (utf8 rest).map (((a - 0xc0) * 0x40 + (b - 0x80)) :: ·)
        else match rest with
          | [] => none
          | c :: rest =>
            if !continues c || (a = 0xe0 && b < 0xa0) then none
            else if 0xe0 ≤ a && a < 0xf0 then
              (utf8 rest).map (((a - 0xe0) * 0x1000 + (b - 0x80) * 0x40 + (c - 0x80)) :: ·)
            else match rest with
              | [] => none
              | d :: rest =>
                if !continues d || (a = 0xf0 && b < 0x90) || (a = 0xf4 && 0x90 ≤ b) then none
                else if 0xf0 ≤ a && a < 0xf5 then
                  (utf8 rest).map (((a - 0xf0) * 0x40000 + (b - 0x80) * 0x1000 + (c - 0x80) * 0x40 +
                    (d - 0x80)) :: ·)
                else none

def units16 (bigEndian : Bool) : List Nat → Option (List CodeUnit)
  | [] => some []
  | [_] => none
  | a :: b :: rest =>
    (units16 bigEndian rest).map (.unit (if bigEndian then a * 0x100 + b else b * 0x100 + a) :: ·)

def utf16 (bigEndian : Bool) (bytes : List Nat) : Option Text :=
  (units16 bigEndian bytes).map joinSurrogates

def utf32 (bigEndian : Bool) : List Nat → Option Text
  | [] => some []
  | a :: b :: c :: d :: rest =>
    let n := if bigEndian then a * 0x1000000 + b * 0x10000 + c * 0x100 + d
      else d * 0x1000000 + c * 0x10000 + b * 0x100 + a
    if n < 0x110000 then (utf32 bigEndian rest).map (n :: ·) else none
  | _ => none

/-- The text of the bytes, in the encoding that their mark or their zeros tell. -/
def decodeText : List Nat → Option Text
  | 0x00 :: 0x00 :: 0xfe :: 0xff :: rest => utf32 true rest
  | 0xff :: 0xfe :: 0x00 :: 0x00 :: rest => utf32 false rest
  | 0xfe :: 0xff :: rest => utf16 true rest
  | 0xff :: 0xfe :: rest => utf16 false rest
  | 0xef :: 0xbb :: 0xbf :: rest => utf8 rest
  | a :: b :: c :: d :: rest =>
    let bytes := a :: b :: c :: d :: rest
    if a = 0 then if b = 0 then utf32 true bytes else utf16 true bytes
    else if b = 0 then if c = 0 && d = 0 then utf32 false bytes else utf16 false bytes
    else utf8 bytes
  | [a, b] => if a = 0 then utf16 true [a, b] else if b = 0 then utf16 false [a, b] else utf8 [a, b]
  | bytes => utf8 bytes

/-! ## Values -/

/-- A number with a fraction or an exponent, and the constants beyond the standard, are
kept as they are written. -/
inductive Value where
  | null
  | bool (b : Bool)
  | int (i : Int)
  | float (literal : Text)
  | str (s : Text)
  | list (items : List Value)
  | dict (items : List (Text × Value))
  deriving Repr

/-- `items[key] = value`. -/
def setItem (items : List (Text × Value)) (key : Text) (value : Value) : List (Text × Value) :=
  if items.any fun item => item.1 = key then
    items.map fun item => if item.1 = key then (key, value) else item
  else items ++ [(key, value)]

def toDict (members : List (Text × Value)) : List (Text × Value) :=
  members.foldl (fun items m => setItem items m.1 m.2) []

/-! ## Reading -/

def isSpace (c : Nat) : Bool := c = 0x20 || c = 0x09 || c = 0x0a || c = 0x0d

def skipSpace (s : Text) : Text := s.dropWhile isSpace

def isDigit (c : Nat) : Bool := 0x30 ≤ c && c < 0x3a

def hexValue (c : Nat) : Option Nat :=
  if isDigit c then some (c - 0x30)
  else if 0x61 ≤ c && c < 0x67 then some (c - 0x57)
  else if 0x41 ≤ c && c < 0x47 then some (c - 0x37)
  else none

def hex4 (a b c d : Nat) : Option Nat := do
  let a ← hexValue a
  let b ← hexValue b
  let c ← hexValue c
  let d ← hexValue d
  return a * 0x1000 + b * 0x100 + c * 0x10 + d

/-- The character that a backslash and the character make. -/
def unescape (c : Nat) : Option Nat :=
  if c = 0x22 || c = 0x5c || c = 0x2f then some c
  else if c = 0x62 then some 0x08
  else if c = 0x66 then some 0x0c
  else if c = 0x6e then some 0x0a
  else if c = 0x72 then some 0x0d
  else if c = 0x74 then some 0x09
  else none

/-- The rest of a string, behind its opening quote. -/
def scanUnits : Text → Except String (List CodeUnit × Text)
  | [] => .error "Unterminated string starting at"
  | c :: rest =>
    if c = 0x22 then .ok ([], rest)
    else if c = 0x5c then match rest with
      | [] => .error "Unterminated string starting at"
      | e :: rest =>
        if e = 0x75 then match rest with
          | a :: b :: c :: d :: rest => match hex4 a b c d with
            | none => .error "Invalid \\uXXXX escape"
            | some n => (scanUnits rest).map fun (units, rest) => (.unit n :: units, rest)
          | _ => .error "Invalid \\uXXXX escape"
        else match unescape e with
          | none => .error "Invalid \\escape: "
          | some n => (scanUnits rest).map fun (units, rest) => (.point n :: units, rest)
    else if c < 0x20 then .error "Invalid control character at"
    else (scanUnits rest).map fun (units, rest) => (.point c :: units, rest)

def scanString (s : Text) : Except String (Text × Text) :=
  (scanUnits s).map fun (units, rest) => (joinSurrogates units, rest)

def ofDigits (digits : Text) : Nat := Nat.ofDigits 10 (digits.reverse.map (· - 0x30))

/-- The digits before the point, of which none follows a zero. -/
def scanWhole : Text → Option (Text × Text)
  | 0x30 :: rest => some ([0x30], rest)
  | s => if s.takeWhile isDigit = [] then none else some (s.takeWhile isDigit, s.dropWhile isDigit)

def scanFraction : Text → Text × Text
  | 0x2e :: rest =>
    if rest.takeWhile isDigit = [] then ([], 0x2e :: rest)
    else (0x2e :: rest.takeWhile isDigit, rest.dropWhile isDigit)
  | s => ([], s)

def scanExponent : Text → Text × Text
  | e :: rest =>
    if e = 0x65 || e = 0x45 then
      let sign := rest.take 1 |>.filter fun c => c = 0x2b || c = 0x2d
      let digits := rest.drop sign.length
      if digits.takeWhile isDigit = [] then ([], e :: rest)
      else (e :: sign ++ digits.takeWhile isDigit, digits.dropWhile isDigit)
    else ([], e :: rest)
  | [] => ([], [])

/-- The longest run of digits that is converted to an integer. -/
def maxDigits : Nat := 4300

/-- The number behind a sign, or without one. -/
def scanUnsigned (sign : Text) (s : Text) : Except String (Value × Text) :=
  match scanWhole s with
  | none => .error "Expecting value"
  | some (whole, rest) =>
    let (fraction, rest) := scanFraction rest
    let (exponent, rest) := scanExponent rest
    if fraction = [] ∧ exponent = [] then
      if maxDigits < whole.length then
        .error "Exceeds the limit (4300 digits) for integer string conversion"
      else .ok (.int (if sign = [] then ofDigits whole else -(ofDigits whole : Int)), rest)
    else .ok (.float (sign ++ whole ++ fraction ++ exponent), rest)

def scanNumber : Text → Except String (Value × Text)
  | 0x2d :: rest => scanUnsigned [0x2d] rest
  | s => scanUnsigned [] s

def keywords : List (Text × Value) :=
  [(codePoints "null", .null), (codePoints "true", .bool true), (codePoints "false", .bool false),
    (codePoints "NaN", .float (codePoints "NaN")),
    (codePoints "Infinity", .float (codePoints "Infinity")),
    (codePoints "-Infinity", .float (codePoints "-Infinity"))]

def scanKeyword (s : Text) : Option (Value × Text) :=
  keywords.findSome? fun (word, value) =>
    if word.isPrefixOf s then some (value, s.drop word.length) else none

mutual

/-- One value, by calls nested no deeper than the fuel. -/
def scanValue : Nat → Text → Except String (Value × Text)
  | 0, _ => .error "Expecting value"
  | _ + 1, [] => .error "Expecting value"
  | fuel + 1, c :: rest =>
    if c = 0x22 then (scanString rest).map fun (s, rest) => (.str s, rest)
    else if c = 0x7b then match skipSpace rest with
      | 0x7d :: rest => .ok (.dict [], rest)
      | 0x22 :: rest => (scanMembers fuel rest).map fun (members, rest) => (.dict (toDict members), rest)
      | _ => .error "Expecting property name enclosed in double quotes"
    else if c = 0x5b then match skipSpace rest with
      | 0x5d :: rest => .ok (.list [], rest)
      | rest => (scanItems fuel rest).map fun (items, rest) => (.list items, rest)
    else match scanKeyword (c :: rest) with
      | some found => .ok found
      | none => scanNumber (c :: rest)

/-- The members of an object, behind the opening quote of a name. -/
def scanMembers : Nat → Text → Except String (List (Text × Value) × Text)
  | 0, _ => .error "Expecting value"
  | fuel + 1, s => do
    let (key, rest) ← scanString s
    match skipSpace rest with
    | 0x3a :: rest =>
      let (value, rest) ← scanValue fuel (skipSpace rest)
      match skipSpace rest with
      | 0x7d :: rest => return ([(key, value)], rest)
      | 0x2c :: rest => match skipSpace rest with
        | 0x22 :: rest =>
          let (members, rest) ← scanMembers fuel rest
          return ((key, value) :: members, rest)
        | _ => throw "Expecting property name enclosed in double quotes"
      | _ => throw "Expecting ',' delimiter"
    | _ => throw "Expecting ':' delimiter"

/-- The items of an array. -/
def scanItems : Nat → Text → Except String (List Value × Text)
  | 0, _ => .error "Expecting value"
  | fuel + 1, s => do
    let (value, rest) ← scanValue fuel s
    match skipSpace rest with
    | 0x5d :: rest => return ([value], rest)
    | 0x2c :: rest =>
      let (items, rest) ← scanItems fuel (skipSpace rest)
      return (value :: items, rest)
    | _ => throw "Expecting ',' delimiter"

end

/-- `json.loads` of bytes. No more than two nested calls start at one character, so the
fuel does not run out. -/
def loads (bytes : List UInt8) : Except String Value :=
  match decodeText (bytes.map UInt8.toNat) with
  | none => .error "codec can't decode bytes"
  | some text => match scanValue (2 * text.length + 1) (skipSpace text) with
    | .error e => .error e
    | .ok (value, rest) => if skipSpace rest = [] then .ok value else .error "Extra data"

/-! ## What a call leaves -/

section Fuel
variable {s rest : Text}

theorem length_skipSpace_le (s : Text) : (skipSpace s).length ≤ s.length :=
  (List.dropWhile_sublist _).length_le

/-- What is left is shorter than what was read. -/
def Shrinks {α : Type} (s : Text) (read : Except String (α × Text)) : Prop :=
  ∀ found ∈ read.toOption, found.2.length < s.length

theorem shrinks_error {α : Type} (e : String) : Shrinks s (.error e : Except String (α × Text)) :=
  fun _ mem => nomatch mem

theorem shrinks_ok {α : Type} {a : α} (shorter : rest.length < s.length) : Shrinks s (.ok (a, rest)) := by
  rintro found ⟨⟩
  exact shorter

theorem Shrinks.mono {α : Type} {s t : Text} {read : Except String (α × Text)} (h : Shrinks t read)
    (shorter : t.length ≤ s.length) : Shrinks s read := fun found mem =>
  (h found mem).trans_le shorter

theorem Shrinks.bind {α β : Type} {read : Except String (α × Text)}
    {next : α × Text → Except String (β × Text)} (h : Shrinks s read)
    (after : ∀ found, found.2.length < s.length → Shrinks s (next found)) : Shrinks s (read >>= next) := by
  match read with
  | .error e => exact shrinks_error e
  | .ok a => exact after a (h a rfl)

theorem Shrinks.map {α β : Type} {s t : Text} {read : Except String (α × Text)} {f : α × Text → β × Text}
    (h : Shrinks t read) (shorter : t.length ≤ s.length) (keeps : ∀ found, (f found).2 = found.2) :
    Shrinks s (read.map f) := by
  match read with
  | .error e => exact shrinks_error e
  | .ok a =>
    rintro found ⟨⟩
    rw [keeps]
    exact (h a rfl).trans_le shorter

theorem scanUnits_shrinks (s : Text) : Shrinks s (scanUnits s) := by
  induction s using scanUnits.induct with
  | case1 => exact shrinks_error _
  | case2 others =>
    rw [scanUnits.eq_def]
    exact shrinks_ok (Nat.lt_succ_self _)
  | case5 a b c d others n hex differ ih =>
    rw [scanUnits.eq_def]
    simp only [if_neg differ, if_true, hex]
    exact ih.map (by simp; omega) fun _ => rfl
  | case8 d others other n short differ ih =>
    rw [scanUnits.eq_def]
    simp only [if_neg differ, if_true, if_neg other, short]
    exact ih.map (by simp; omega) fun _ => rfl
  | case10 c others quote backslash printable ih =>
    rw [scanUnits.eq_def]
    simp only [if_neg quote, if_neg backslash, if_neg printable]
    exact ih.map (by simp) fun _ => rfl
  | case3 differ | case4 a b c d others hex differ | case6 others short differ
  | case7 d others other short differ | case9 c others quote backslash control =>
    rw [scanUnits.eq_def]
    simp_all [shrinks_error]

theorem scanString_shrinks (s : Text) : Shrinks s (scanString s) :=
  (scanUnits_shrinks s).map le_rfl fun _ => rfl

theorem length_dropDigits_lt (some_ : s.takeWhile isDigit ≠ []) :
    (s.dropWhile isDigit).length < s.length := by
  have whole := congrArg List.length (List.takeWhile_append_dropWhile (p := isDigit) (l := s))
  rw [List.length_append] at whole
  have := List.length_pos_iff.mpr some_
  omega

theorem scanWhole_shorter {whole : Text} (h : scanWhole s = some (whole, rest)) :
    rest.length < s.length := by
  rw [scanWhole.eq_def] at h
  split at h
  · cases h
    exact Nat.lt_succ_self _
  · split at h
    · cases h
    · next some_ =>
      cases h
      exact length_dropDigits_lt some_

theorem length_scanFraction_le (s : Text) : (scanFraction s).2.length ≤ s.length := by
  rw [scanFraction.eq_def]
  split
  · split
    · exact le_rfl
    · exact ((List.dropWhile_sublist _).length_le).trans (Nat.le_succ _)
  · exact le_rfl

theorem length_scanExponent_le (s : Text) : (scanExponent s).2.length ≤ s.length := by
  rw [scanExponent.eq_def]
  split
  · dsimp only
    split
    · split
      · exact le_rfl
      · exact (((List.dropWhile_sublist _).trans (List.drop_sublist _ _)).length_le).trans (Nat.le_succ _)
    · exact le_rfl
  · exact le_rfl

theorem scanUnsigned_shrinks (sign s : Text) : Shrinks s (scanUnsigned sign s) := by
  rw [scanUnsigned]
  cases first : scanWhole s with
  | none => exact shrinks_error _
  | some found =>
    obtain ⟨whole, behind⟩ := found
    have left : (scanExponent (scanFraction behind).2).2.length < s.length :=
      ((length_scanExponent_le _).trans (length_scanFraction_le _)).trans_lt (scanWhole_shorter first)
    dsimp only
    split
    · split
      · exact shrinks_error _
      · exact shrinks_ok left
    · exact shrinks_ok left

theorem scanNumber_shrinks (s : Text) : Shrinks s (scanNumber s) := by
  rw [scanNumber.eq_def]
  split
  · exact (scanUnsigned_shrinks _ _).mono (Nat.le_succ _)
  · exact scanUnsigned_shrinks _ _

theorem keyword_letters : ∀ p ∈ keywords, ∃ c e others,
    p.1 = c :: e :: others ∧ isDigit c = false ∧ isDigit e = false := by
  simp only [keywords, List.forall_mem_cons]
  exact ⟨⟨_, _, _, rfl, rfl, rfl⟩, ⟨_, _, _, rfl, rfl, rfl⟩, ⟨_, _, _, rfl, rfl, rfl⟩,
    ⟨_, _, _, rfl, rfl, rfl⟩, ⟨_, _, _, rfl, rfl, rfl⟩, ⟨_, _, _, rfl, rfl, rfl⟩, by simp⟩

theorem scanKeyword_shorter {found : Value × Text} (h : scanKeyword s = some found) :
    found.2.length < s.length := by
  obtain ⟨⟨word, value⟩, mem, h⟩ := List.exists_of_findSome?_eq_some h
  obtain ⟨c, e, others, letters, -, -⟩ : ∃ c e others, word = c :: e :: others ∧ _ ∧ _ :=
    keyword_letters _ mem
  by_cases starts : word.isPrefixOf s
  · have inside := (List.isPrefixOf_iff_prefix.mp starts).length_le
    simp only [if_pos starts, Option.some.injEq] at h
    subst h
    rw [letters] at inside ⊢
    rw [List.length_drop]
    simp only [List.length_cons] at inside ⊢
    omega
  · simp [starts] at h

/-- The rest behind the space and a character. -/
theorem length_of_skipSpace {c : Nat} {others : Text} (h : skipSpace s = c :: others) :
    others.length < s.length := by
  have := length_skipSpace_le s
  rw [h] at this
  exact this

theorem scan_shrinks (fuel : Nat) : (∀ s, Shrinks s (scanValue fuel s)) ∧
    (∀ s, Shrinks s (scanMembers fuel s)) ∧ ∀ s, Shrinks s (scanItems fuel s) := by
  induction fuel with
  | zero =>
    refine ⟨fun s => ?_, fun s => ?_, fun s => ?_⟩
    · rw [scanValue]
      exact shrinks_error _
    · rw [scanMembers]
      exact shrinks_error _
    · rw [scanItems]
      exact shrinks_error _
  | succ fuel ih =>
    obtain ⟨values, members, items⟩ := ih
    refine ⟨fun s => ?_, fun s => ?_, fun s => ?_⟩
    · match s with
      | [] =>
        rw [scanValue]
        exact shrinks_error _
      | c :: others =>
        rw [scanValue]
        split
        · exact (scanString_shrinks others).map (Nat.le_succ _) fun _ => rfl
        split
        · split
          · next h => exact shrinks_ok ((length_of_skipSpace h).trans (Nat.lt_succ_self _))
          · next h =>
            exact (members _).map ((length_of_skipSpace h).le.trans (Nat.le_succ _)) fun _ => rfl
          · exact shrinks_error _
        split
        · split
          · next h => exact shrinks_ok ((length_of_skipSpace h).trans (Nat.lt_succ_self _))
          · exact (items _).map ((length_skipSpace_le others).trans (Nat.le_succ _)) fun _ => rfl
        split
        · next h => exact shrinks_ok (scanKeyword_shorter h)
        · exact scanNumber_shrinks _
    · rw [scanMembers]
      refine (scanString_shrinks s).bind fun ⟨key, behind⟩ shorter => ?_
      dsimp only at shorter ⊢
      split
      · next colon =>
        have := length_of_skipSpace colon
        refine ((values _).mono ((length_skipSpace_le _).trans (by omega))).bind fun ⟨value, after⟩ less => ?_
        dsimp only at less ⊢
        split
        · next brace => exact shrinks_ok ((length_of_skipSpace brace).trans less)
        · next comma =>
          have := length_of_skipSpace comma
          split
          · next quote =>
            have := length_of_skipSpace quote
            exact ((members _).mono (by omega)).bind fun _ left => shrinks_ok left
          · exact shrinks_error _
        · exact shrinks_error _
      · exact shrinks_error _
    · rw [scanItems]
      refine (values s).bind fun ⟨value, after⟩ less => ?_
      dsimp only at less ⊢
      split
      · next bracket => exact shrinks_ok ((length_of_skipSpace bracket).trans less)
      · next comma =>
        have := length_of_skipSpace comma
        exact ((items _).mono ((length_skipSpace_le _).trans (by omega))).bind fun _ left => shrinks_ok left
      · exact shrinks_error _

theorem bind_congr {α β : Type} {s : Text} {read read' : Except String (α × Text)}
    {next next' : α × Text → Except String β} (same : read = read') (shrinks : Shrinks s read)
    (after : ∀ found, found.2.length < s.length → next found = next' found) :
    (read >>= next) = read' >>= next' := by
  subst same
  match read with
  | .error e => rfl
  | .ok a => exact after a (shrinks a rfl)

/-- Fuel beyond twice the length of the text changes nothing. -/
theorem scan_fuel (fuel : Nat) :
    (∀ s : Text, 2 * s.length < fuel → scanValue fuel s = scanValue (fuel + 1) s) ∧
    (∀ s : Text, 2 * s.length < fuel → scanMembers fuel s = scanMembers (fuel + 1) s) ∧
    ∀ s : Text, 2 * s.length + 1 < fuel → scanItems fuel s = scanItems (fuel + 1) s := by
  induction fuel with
  | zero => exact ⟨fun _ h => by omega, fun _ h => by omega, fun _ h => by omega⟩
  | succ fuel ih =>
    obtain ⟨values, members, items⟩ := ih
    obtain ⟨shrinks, -, -⟩ := scan_shrinks fuel
    refine ⟨fun s enough => ?_, fun s enough => ?_, fun s enough => ?_⟩
    · match s with
      | [] => rw [scanValue, scanValue]
      | c :: others =>
        rw [List.length_cons] at enough
        have := length_skipSpace_le others
        rw [scanValue, scanValue]
        split
        · rfl
        split
        · split
          · rfl
          · next quote =>
            have := length_of_skipSpace quote
            rw [members _ (by omega)]
          · rfl
        split
        · split
          · rfl
          · rw [items _ (by omega)]
        · rfl
    · rw [scanMembers, scanMembers]
      refine bind_congr rfl (scanString_shrinks s) fun ⟨key, behind⟩ shorter => ?_
      dsimp only at shorter ⊢
      split
      · next text colon =>
        have := length_of_skipSpace colon
        have := length_skipSpace_le text
        refine bind_congr (values _ (by omega)) (shrinks _) fun ⟨value, after⟩ less => ?_
        dsimp only at less ⊢
        split
        · rfl
        · next comma =>
          have := length_of_skipSpace comma
          split
          · next quote =>
            have := length_of_skipSpace quote
            rw [members _ (by omega)]
          · rfl
        · rfl
      · rfl
    · rw [scanItems, scanItems]
      refine bind_congr (values s (by omega)) (shrinks s) fun ⟨value, after⟩ less => ?_
      dsimp only at less ⊢
      split
      · rfl
      · next text comma =>
        have := length_of_skipSpace comma
        have := length_skipSpace_le text
        rw [items _ (by omega)]
      · rfl

theorem scanValue_fuel {fuel : Nat} (enough : 2 * s.length < fuel) (more : Nat) :
    scanValue (fuel + more) s = scanValue fuel s := by
  induction more with
  | zero => rfl
  | succ more ih => rw [← ih, ← Nat.add_assoc, ← (scan_fuel (fuel + more)).1 s (by omega)]

end Fuel

end Json
