import Mathlib.Data.List.Basic

/-!
# Base64

Three bytes become four digits, with a padded last group. A lenient reader skips whatever
is not a digit and stops at the padding that closes a group. A strict one takes nothing
else than digits with their padding behind them.
-/

namespace Base64

/-! ## Digits -/

def digit (v : Nat) : Char :=
  if v < 26 then Char.ofNat (65 + v)
  else if v < 52 then Char.ofNat (71 + v)
  else if v < 62 then Char.ofNat (v - 4)
  else if v = 62 then '+'
  else '/'

def value (c : Char) : Option Nat :=
  if 'A' ≤ c ∧ c ≤ 'Z' then some (c.toNat - 65)
  else if 'a' ≤ c ∧ c ≤ 'z' then some (c.toNat - 71)
  else if '0' ≤ c ∧ c ≤ '9' then some (c.toNat + 4)
  else if c = '+' then some 62
  else if c = '/' then some 63
  else none

theorem value_digit : ∀ v < 64, value (digit v) = some v := by decide

theorem digit_ne_pad : ∀ v < 64, digit v ≠ '=' := by decide

/-- A digit or the padding. -/
def Plain (c : Char) : Prop := c = '=' ∨ ∃ v < 64, c = digit v

/-! ## Writing -/

def encode : List UInt8 → List Char
  | a :: b :: c :: rest =>
    digit (a.toNat / 4) :: digit (a.toNat % 4 * 16 + b.toNat / 16) ::
      digit (b.toNat % 16 * 4 + c.toNat / 64) :: digit (c.toNat % 64) :: encode rest
  | [a, b] => [digit (a.toNat / 4), digit (a.toNat % 4 * 16 + b.toNat / 16), digit (b.toNat % 16 * 4), '=']
  | [a] => [digit (a.toNat / 4), digit (a.toNat % 4 * 16), '=', '=']
  | [] => []

/-! ## Reading -/

/-- What stops a reader; the last three stop a strict one only. -/
inductive Malformed where
  | dataCharacters
  | padding
  | excessData
  | onlyData
  | discontinuous
  deriving DecidableEq, Repr

/-- The reader in the middle of a group: the digits read, the bits left over from the
last of them, the padding seen since, and whether there was any padding at all. -/
def decodeFrom (strict : Bool) (padded : Bool) : Nat → Nat → Nat → List Char →
    Except Malformed (List UInt8)
  | position, _, _, [] =>
    if position = 0 then .ok []
    else if position = 1 then .error .dataCharacters
    else .error .padding
  | position, left, pads, c :: cs =>
    if c = '=' then
      -- behind the padding that closes a group nothing is read
      if 2 ≤ position ∧ 4 ≤ position + (pads + 1) then
        if strict && !cs.isEmpty then .error .excessData else .ok []
      else decodeFrom strict true position left (if 2 ≤ position then pads + 1 else pads) cs
    else match value c with
      | none => if strict then .error .onlyData else decodeFrom strict padded position left pads cs
      | some v =>
        if strict && padded then .error .discontinuous
        else match position with
          | 0 => decodeFrom strict padded 1 v 0 cs
          | 1 => (decodeFrom strict padded 2 (v % 16) 0 cs).map (UInt8.ofNat (left * 4 + v / 16) :: ·)
          | 2 => (decodeFrom strict padded 3 (v % 4) 0 cs).map (UInt8.ofNat (left * 16 + v / 4) :: ·)
          | _ => (decodeFrom strict padded 0 0 0 cs).map (UInt8.ofNat (left * 64 + v) :: ·)

/-- The text of the error, for a text with so many digits. -/
def Malformed.message (digits : Nat) : Malformed → String
  | .dataCharacters => "Invalid base64-encoded string: number of data characters (" ++
      toString digits ++ ") cannot be 1 more than a multiple of 4"
  | .padding => "Incorrect padding"
  | .excessData => "Excess data after padding"
  | .onlyData => "Only base64 data is allowed"
  | .discontinuous => "Discontinuous padding not allowed"

def decode (cs : List Char) : Except String (List UInt8) :=
  (decodeFrom false false 0 0 0 cs).mapError (Malformed.message (cs.countP fun c => (value c).isSome))

/-- `b64decode(text, validate=True)`. -/
def decodeStrict (cs : List Char) : Except String (List UInt8) :=
  if cs.any fun c => 0x80 ≤ c.toNat then .error "string argument should contain only ASCII characters"
  else if cs.head? = some '=' then .error "Leading padding not allowed"
  else (decodeFrom true false 0 0 0 cs).mapError
    (Malformed.message (cs.countP fun c => (value c).isSome))

section RoundTrip
variable {strict padded : Bool} {left pads v : Nat} {cs : List Char}

theorem decodeFrom_digit (position : Nat) (plain : (strict && padded) = false) (small : v < 64) :
    decodeFrom strict padded position left pads (digit v :: cs) = match position with
      | 0 => decodeFrom strict padded 1 v 0 cs
      | 1 => (decodeFrom strict padded 2 (v % 16) 0 cs).map (UInt8.ofNat (left * 4 + v / 16) :: ·)
      | 2 => (decodeFrom strict padded 3 (v % 4) 0 cs).map (UInt8.ofNat (left * 16 + v / 4) :: ·)
      | _ => (decodeFrom strict padded 0 0 0 cs).map (UInt8.ofNat (left * 64 + v) :: ·) := by
  rw [decodeFrom, if_neg (digit_ne_pad v small), value_digit v small, plain]
  rfl

/-- A byte is put together from the bits of two digits. -/
theorem byte_of {a : UInt8} {n : Nat} (h : n = a.toNat) : UInt8.ofNat n = a := by
  rw [h, UInt8.ofNat_toNat]

theorem decodeFrom_encode (bytes : List UInt8) :
    decodeFrom strict false 0 0 0 (encode bytes) = .ok bytes := by
  have plain : (strict && false) = false := Bool.and_false strict
  induction bytes using encode.induct with
  | case1 a b c rest ih =>
    have ha := a.toNat_lt
    have hb := b.toNat_lt
    have hc := c.toNat_lt
    rw [encode, decodeFrom_digit 0 plain (by omega), decodeFrom_digit 1 plain (by omega),
      decodeFrom_digit 2 plain (by omega), decodeFrom_digit 3 plain (by omega), ih]
    have first : UInt8.ofNat (a.toNat / 4 * 4 + (a.toNat % 4 * 16 + b.toNat / 16) / 16) = a :=
      byte_of (by omega)
    have second : UInt8.ofNat ((a.toNat % 4 * 16 + b.toNat / 16) % 16 * 16 +
        (b.toNat % 16 * 4 + c.toNat / 64) / 4) = b := byte_of (by omega)
    have third : UInt8.ofNat ((b.toNat % 16 * 4 + c.toNat / 64) % 4 * 64 + c.toNat % 64) = c :=
      byte_of (by omega)
    rw [first, second, third]
    rfl
  | case2 a b =>
    have ha := a.toNat_lt
    have hb := b.toNat_lt
    rw [encode, decodeFrom_digit 0 plain (by omega), decodeFrom_digit 1 plain (by omega),
      decodeFrom_digit 2 plain (by omega)]
    have first : UInt8.ofNat (a.toNat / 4 * 4 + (a.toNat % 4 * 16 + b.toNat / 16) / 16) = a :=
      byte_of (by omega)
    have second : UInt8.ofNat ((a.toNat % 4 * 16 + b.toNat / 16) % 16 * 16 + b.toNat % 16 * 4 / 4) = b :=
      byte_of (by omega)
    rw [first, second]
    simp [decodeFrom, Except.map]
  | case3 a =>
    have ha := a.toNat_lt
    rw [encode, decodeFrom_digit 0 plain (by omega), decodeFrom_digit 1 plain (by omega)]
    have first : UInt8.ofNat (a.toNat / 4 * 4 + a.toNat % 4 * 16 / 16) = a := byte_of (by omega)
    rw [first]
    simp [decodeFrom, Except.map]
  | case4 => rfl

theorem decode_encode (bytes : List UInt8) : decode (encode bytes) = .ok bytes := by
  rw [decode, decodeFrom_encode]
  rfl

end RoundTrip

/-- At most two characters of padding stand behind the digits. -/
theorem encode_padded (bytes : List UInt8) : ∃ (values : List Nat) (pads : Nat),
    encode bytes = values.map digit ++ List.replicate pads '=' ∧ pads ≤ 2 ∧ ∀ v ∈ values, v < 64 := by
  induction bytes using encode.induct with
  | case1 a b c rest ih =>
    obtain ⟨values, pads, written, few, small⟩ := ih
    have ha := a.toNat_lt
    have hb := b.toNat_lt
    have hc := c.toNat_lt
    refine ⟨a.toNat / 4 :: (a.toNat % 4 * 16 + b.toNat / 16) :: (b.toNat % 16 * 4 + c.toNat / 64) ::
      c.toNat % 64 :: values, pads, ?_, few, ?_⟩
    · rw [encode, written]
      rfl
    · simp only [List.forall_mem_cons]
      exact ⟨by omega, by omega, by omega, by omega, small⟩
  | case2 a b =>
    have ha := a.toNat_lt
    have hb := b.toNat_lt
    refine ⟨[a.toNat / 4, a.toNat % 4 * 16 + b.toNat / 16, b.toNat % 16 * 4], 1, rfl, by omega, ?_⟩
    simp only [List.forall_mem_cons]
    exact ⟨by omega, by omega, by omega, by simp⟩
  | case3 a =>
    have ha := a.toNat_lt
    refine ⟨[a.toNat / 4, a.toNat % 4 * 16], 2, rfl, by omega, ?_⟩
    simp only [List.forall_mem_cons]
    exact ⟨by omega, by omega, by simp⟩
  | case4 => exact ⟨[], 0, rfl, Nat.zero_le 2, by simp⟩

theorem encode_plain (bytes : List UInt8) : ∀ c ∈ encode bytes, Plain c := by
  obtain ⟨values, pads, written, -, small⟩ := encode_padded bytes
  intro c mem
  rw [written] at mem
  rcases List.mem_append.mp mem with mem | mem
  · obtain ⟨v, inside, rfl⟩ := List.mem_map.mp mem
    exact Or.inr ⟨v, small v inside, rfl⟩
  · exact Or.inl (List.eq_of_mem_replicate mem)

/-! ## The URL-safe alphabet -/

def toUrlsafe (c : Char) : Char := if c = '+' then '-' else if c = '/' then '_' else c

def ofUrlsafe (c : Char) : Char := if c = '-' then '+' else if c = '_' then '/' else c

theorem ofUrlsafe_toUrlsafe_digit : ∀ v < 64, ofUrlsafe (toUrlsafe (digit v)) = digit v := by decide

def urlsafeEncode (bytes : List UInt8) : List Char := (encode bytes).map toUrlsafe

def urlsafeDecode (cs : List Char) : Except String (List UInt8) := decode (cs.map ofUrlsafe)

theorem urlsafeDecode_urlsafeEncode (bytes : List UInt8) :
    urlsafeDecode (urlsafeEncode bytes) = .ok bytes := by
  have back : (encode bytes).map (ofUrlsafe ∘ toUrlsafe) = encode bytes := by
    refine (List.map_congr_left fun c mem => ?_).trans (List.map_id _)
    rcases encode_plain bytes c mem with rfl | ⟨v, small, rfl⟩
    · rfl
    · exact ofUrlsafe_toUrlsafe_digit v small
  rw [urlsafeDecode, urlsafeEncode, List.map_map, back, decode_encode]

/-- A digit of the URL-safe alphabet. -/
def UrlsafeDigit (c : Char) : Prop := c.isAlphanum = true ∨ c = '-' ∨ c = '_'

instance (c : Char) : Decidable (UrlsafeDigit c) := inferInstanceAs (Decidable (_ ∨ _))

theorem urlsafeDigit_digit : ∀ v < 64, UrlsafeDigit (toUrlsafe (digit v)) := by decide

theorem urlsafeEncode_alphabet (bytes : List UInt8) : ∃ digits pads,
    urlsafeEncode bytes = digits ++ List.replicate pads '=' ∧ pads ≤ 2 ∧ ∀ c ∈ digits, UrlsafeDigit c := by
  obtain ⟨values, pads, written, few, small⟩ := encode_padded bytes
  refine ⟨(values.map digit).map toUrlsafe, pads, ?_, few, ?_⟩
  · rw [urlsafeEncode, written, List.map_append, List.map_replicate]
    rfl
  · intro c mem
    obtain ⟨standard, made, rfl⟩ := List.mem_map.mp mem
    obtain ⟨v, inside, rfl⟩ := List.mem_map.mp made
    exact urlsafeDigit_digit v (small v inside)

end Base64
