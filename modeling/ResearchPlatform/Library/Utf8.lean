import Mathlib.Data.List.Basic

/-!
# UTF-8, as a reader takes it that replaces what it cannot read

The well-formed sequences are those of the Unicode standard. Whatever is not the start
of one is replaced, as far as it agrees with one, by a single mark.
-/

namespace Utf8

/-! ## Writing -/

def encode (text : List Char) : List UInt8 := text.flatMap String.utf8EncodeChar

/-! ## Reading -/

/-- What a first byte announces: the bits it holds, how many bytes follow, and the range
of the first of them. -/
structure Lead where
  bits : Nat
  more : Nat
  low : Nat
  high : Nat
  deriving DecidableEq

def lead (b : Nat) : Option Lead :=
  if 0xC2 ≤ b ∧ b ≤ 0xDF then some ⟨b - 0xC0, 1, 0x80, 0xBF⟩
  -- no longer form than needed
  else if b = 0xE0 then some ⟨0, 2, 0xA0, 0xBF⟩
  -- no surrogates
  else if b = 0xED then some ⟨13, 2, 0x80, 0x9F⟩
  else if 0xE1 ≤ b ∧ b ≤ 0xEF then some ⟨b - 0xE0, 2, 0x80, 0xBF⟩
  else if b = 0xF0 then some ⟨0, 3, 0x90, 0xBF⟩
  else if 0xF1 ≤ b ∧ b ≤ 0xF3 then some ⟨b - 0xF0, 3, 0x80, 0xBF⟩
  -- nothing behind the last code point
  else if b = 0xF4 then some ⟨4, 3, 0x80, 0x8F⟩
  else none

/-- The value with the bytes that follow, if they all do, and what is left behind them. -/
def follow : Nat → Nat → Nat → Nat → List UInt8 → Option Nat × List UInt8
  | 0, _, _, value, bytes => (some value, bytes)
  | _ + 1, _, _, _, [] => (none, [])
  | more + 1, low, high, value, b :: bytes =>
    if low ≤ b.toNat ∧ b.toNat ≤ high then follow more 0x80 0xBF (value * 64 + (b.toNat - 0x80)) bytes
    else (none, b :: bytes)

def replacement : Char := '\uFFFD'

/-- The reader for `fuel` characters at most. -/
def decodeFrom : Nat → List UInt8 → List Char
  | 0, _ => []
  | _ + 1, [] => []
  | fuel + 1, b :: bytes =>
    if b.toNat < 0x80 then Char.ofNat b.toNat :: decodeFrom fuel bytes
    else match lead b.toNat with
      | none => replacement :: decodeFrom fuel bytes
      | some l => (follow l.more l.low l.high l.bits bytes).1.elim replacement Char.ofNat ::
        decodeFrom fuel (follow l.more l.low l.high l.bits bytes).2

/-- Every character takes a byte at least. -/
def decode (bytes : List UInt8) : List Char := decodeFrom bytes.length bytes

/-! ## What is left -/

theorem follow_suffix (more low high value : Nat) (bytes : List UInt8) :
    (follow more low high value bytes).2 <:+ bytes := by
  induction more generalizing low high value bytes with
  | zero => exact List.suffix_refl bytes
  | succ more ih =>
    cases bytes with
    | nil => exact List.suffix_refl []
    | cons b bytes =>
      rw [follow]
      split
      · exact (ih _ _ _ bytes).trans (List.suffix_cons b bytes)
      · exact List.suffix_refl _

theorem decodeFrom_fuel {fuel : Nat} {bytes : List UInt8} (enough : bytes.length ≤ fuel) :
    decodeFrom fuel bytes = decode bytes := by
  have agree : ∀ (f g : Nat) (bytes : List UInt8), bytes.length ≤ f → bytes.length ≤ g →
      decodeFrom f bytes = decodeFrom g bytes := by
    intro f
    induction f with
    | zero =>
      intro g bytes hf hg
      obtain rfl := List.length_eq_zero_iff.mp (Nat.le_zero.mp hf)
      cases g <;> rfl
    | succ f ih =>
      intro g bytes hf hg
      cases bytes with
      | nil => cases g <;> rfl
      | cons b bytes =>
        obtain ⟨g, rfl⟩ : ∃ k, g = k + 1 := ⟨g - 1, by simp at hg; omega⟩
        simp only [List.length_cons, Nat.add_le_add_iff_right] at hf hg
        simp only [decodeFrom, ih g bytes hf hg]
        split
        · rfl
        · cases lead b.toNat with
          | none => rfl
          | some l =>
            have shorter := (follow_suffix l.more l.low l.high l.bits bytes).length_le
            exact congrArg _ (ih g _ (Nat.le_trans shorter hf) (Nat.le_trans shorter hg))
  exact agree fuel bytes.length bytes enough (Nat.le_refl _)

@[simp] theorem decode_nil : decode [] = [] := rfl

/-- How the reader takes the first character. -/
theorem decode_cons (b : UInt8) (bytes : List UInt8) : decode (b :: bytes) =
    if b.toNat < 0x80 then Char.ofNat b.toNat :: decode bytes
    else match lead b.toNat with
      | none => replacement :: decode bytes
      | some l => (follow l.more l.low l.high l.bits bytes).1.elim replacement Char.ofNat ::
        decode (follow l.more l.low l.high l.bits bytes).2 := by
  rw [decode, List.length_cons, decodeFrom]
  split
  · rfl
  · cases lead b.toNat with
    | none => rfl
    | some l => exact congrArg _ (decodeFrom_fuel (follow_suffix l.more l.low l.high l.bits bytes).length_le)

theorem decode_ascii {b : UInt8} (ascii : b.toNat < 0x80) (bytes : List UInt8) :
    decode (b :: bytes) = Char.ofNat b.toNat :: decode bytes := by
  rw [decode_cons, if_pos ascii]

theorem decode_stray {b : UInt8} (high : ¬ b.toNat < 0x80) (stray : lead b.toNat = none) (bytes : List UInt8) :
    decode (b :: bytes) = replacement :: decode bytes := by
  rw [decode_cons, if_neg high, stray]

theorem lead_high {b : Nat} {l : Lead} (h : lead b = some l) : 0x80 ≤ b := by
  by_contra ascii
  have none_ : lead b = none := by
    rw [lead, if_neg (by omega), if_neg (by omega), if_neg (by omega), if_neg (by omega), if_neg (by omega),
      if_neg (by omega), if_neg (by omega)]
  rw [none_] at h
  cases h

theorem decode_lead {b : UInt8} {l : Lead} (announced : lead b.toNat = some l) (bytes : List UInt8) :
    decode (b :: bytes) = (follow l.more l.low l.high l.bits bytes).1.elim replacement Char.ofNat ::
      decode (follow l.more l.low l.high l.bits bytes).2 := by
  rw [decode_cons, if_neg (by have := lead_high announced; omega), announced]

/-! ## Reading what was written -/

theorem toNat_ofNat {v : Nat} (small : v < 256) : (UInt8.ofNat v).toNat = v := by
  rw [UInt8.toNat_ofNat']
  omega

theorem follow_cons {low high value v : Nat} (more : Nat) (small : v < 256) (inside : low ≤ v ∧ v ≤ high)
    (bytes : List UInt8) : follow (more + 1) low high value (UInt8.ofNat v :: bytes) =
      follow more 0x80 0xBF (value * 64 + (v - 0x80)) bytes := by
  rw [follow, toNat_ofNat small, if_pos inside]

theorem decode_followed {b : UInt8} {bits more low high v : Nat} {bytes rest : List UInt8}
    (announced : lead b.toNat = some ⟨bits, more, low, high⟩)
    (followed : follow more low high bits bytes = (some v, rest)) :
    decode (b :: bytes) = Char.ofNat v :: decode rest := by
  rw [decode_lead announced, followed]
  rfl

section Announced
variable {v : Nat}

theorem lead_two (low : 0x80 ≤ v) (high : v ≤ 0x7FF) :
    lead (v / 64 % 32 + 0xC0) = some ⟨v / 64, 1, 0x80, 0xBF⟩ := by
  have bits : v / 64 % 32 + 0xC0 - 0xC0 = v / 64 := by omega
  rw [lead, if_pos (by omega), bits]

/-- The second byte shows that the form is not too long and that no surrogate is meant. -/
theorem lead_three (low : 0x800 ≤ v) (high : v ≤ 0xFFFF) (scalar : v < 0xD800 ∨ 0xDFFF < v) :
    ∃ first last, lead (v / 4096 % 16 + 0xE0) = some ⟨v / 4096, 2, first, last⟩ ∧
      first ≤ v / 64 % 64 + 0x80 ∧ v / 64 % 64 + 0x80 ≤ last := by
  have bits : v / 4096 % 16 + 0xE0 - 0xE0 = v / 4096 := by omega
  rw [lead, if_neg (by omega)]
  by_cases zero : v / 4096 = 0
  · exact ⟨0xA0, 0xBF, by rw [zero]; rfl, by omega, by omega⟩
  by_cases surrogate : v / 4096 = 13
  · exact ⟨0x80, 0x9F, by rw [surrogate]; rfl, by omega, by omega⟩
  · exact ⟨0x80, 0xBF, by rw [if_neg (by omega), if_neg (by omega), if_pos (by omega), bits], by omega, by omega⟩

theorem lead_four (low : 0x10000 ≤ v) (high : v < 0x110000) :
    ∃ first last, lead (v / 262144 % 8 + 0xF0) = some ⟨v / 262144, 3, first, last⟩ ∧
      first ≤ v / 4096 % 64 + 0x80 ∧ v / 4096 % 64 + 0x80 ≤ last := by
  have bits : v / 262144 % 8 + 0xF0 - 0xF0 = v / 262144 := by omega
  rw [lead, if_neg (by omega), if_neg (by omega), if_neg (by omega), if_neg (by omega)]
  by_cases zero : v / 262144 = 0
  · exact ⟨0x90, 0xBF, by rw [zero]; rfl, by omega, by omega⟩
  by_cases four : v / 262144 = 4
  · exact ⟨0x80, 0x8F, by rw [four]; rfl, by omega, by omega⟩
  · exact ⟨0x80, 0xBF, by rw [if_neg (by omega), if_pos (by omega), bits], by omega, by omega⟩

end Announced

/-- Behind the bytes of a character the reader starts anew. -/
theorem decode_encodeChar (c : Char) (bytes : List UInt8) :
    decode (String.utf8EncodeChar c ++ bytes) = c :: decode bytes := by
  have valid : c.toNat < 0xD800 ∨ 0xDFFF < c.toNat ∧ c.toNat < 0x110000 := c.valid
  have again : Char.ofNat c.toNat = c := Char.ofNat_toNat c
  simp only [String.utf8EncodeChar, Char.toNat_val]
  generalize c.toNat = v at valid again
  by_cases one : v ≤ 0x7F
  · rw [if_pos one, List.singleton_append, decode_ascii (by rw [toNat_ofNat (by omega)]; omega),
      toNat_ofNat (by omega), again]
  by_cases two : v ≤ 0x7FF
  · have announced := lead_two (by omega) two
    rw [← toNat_ofNat (show v / 64 % 32 + 0xC0 < 256 by omega)] at announced
    rw [if_neg one, if_pos two, ← again]
    simp only [List.cons_append, List.nil_append]
    refine decode_followed announced ?_
    have value : v / 64 * 64 + (v % 64 + 0x80 - 0x80) = v := by omega
    rw [follow_cons 0 (by omega) (by omega), follow, value]
  by_cases three : v ≤ 0xFFFF
  · obtain ⟨first, last, announced, inside⟩ := lead_three (by omega) three (by omega)
    rw [← toNat_ofNat (show v / 4096 % 16 + 0xE0 < 256 by omega)] at announced
    rw [if_neg one, if_neg two, if_pos three, ← again]
    simp only [List.cons_append, List.nil_append]
    refine decode_followed announced ?_
    have value : (v / 4096 * 64 + (v / 64 % 64 + 0x80 - 0x80)) * 64 + (v % 64 + 0x80 - 0x80) = v := by omega
    rw [follow_cons 1 (by omega) inside, follow_cons 0 (by omega) (by omega), follow, value]
  · obtain ⟨first, last, announced, inside⟩ := lead_four (v := v) (by omega) (by omega)
    rw [← toNat_ofNat (show v / 262144 % 8 + 0xF0 < 256 by omega)] at announced
    rw [if_neg one, if_neg two, if_neg three, ← again]
    simp only [List.cons_append, List.nil_append]
    refine decode_followed announced ?_
    have value : ((v / 262144 * 64 + (v / 4096 % 64 + 0x80 - 0x80)) * 64 + (v / 64 % 64 + 0x80 - 0x80)) * 64 +
        (v % 64 + 0x80 - 0x80) = v := by omega
    rw [follow_cons 2 (by omega) inside, follow_cons 1 (by omega) (by omega), follow_cons 0 (by omega) (by omega),
      follow, value]

/-- What was written is read as it was meant, whatever comes behind it. -/
theorem decode_encode_append (text : List Char) (bytes : List UInt8) :
    decode (encode text ++ bytes) = text ++ decode bytes := by
  induction text with
  | nil => rfl
  | cons c text ih => rw [encode, List.flatMap_cons, List.append_assoc, decode_encodeChar, ← encode, ih, List.cons_append]

/-! ## What the reader took -/

/-- The three lengths of a sequence behind a first byte. -/
inductive Announces (b : Nat) : Lead → Prop
  | two {bits : Nat} (bits_ : b = bits + 0xC0) (range : 0xC2 ≤ b ∧ b ≤ 0xDF) : Announces b ⟨bits, 1, 0x80, 0xBF⟩
  | three {bits low high : Nat} (bits_ : b = bits + 0xE0) (range : b ≤ 0xEF) (tails : 0x80 ≤ low ∧ high ≤ 0xBF)
      (needed : bits = 0 → 0xA0 ≤ low) (scalar : bits = 13 → high ≤ 0x9F) : Announces b ⟨bits, 2, low, high⟩
  | four {bits low high : Nat} (bits_ : b = bits + 0xF0) (range : b ≤ 0xF4) (tails : 0x80 ≤ low ∧ high ≤ 0xBF)
      (needed : bits = 0 → 0x90 ≤ low) (last : bits = 4 → high ≤ 0x8F) : Announces b ⟨bits, 3, low, high⟩

theorem announces {b : Nat} {l : Lead} (h : lead b = some l) : Announces b l := by
  rw [lead] at h
  split at h
  · obtain rfl := Option.some.inj h
    exact .two (by omega) (by omega)
  split at h
  · obtain rfl := Option.some.inj h
    exact .three (by omega) (by omega) (by omega) (by omega) (by omega)
  split at h
  · obtain rfl := Option.some.inj h
    exact .three (by omega) (by omega) (by omega) (by omega) (by omega)
  split at h
  · obtain rfl := Option.some.inj h
    exact .three (by omega) (by omega) (by omega) (by omega) (by omega)
  split at h
  · obtain rfl := Option.some.inj h
    exact .four (by omega) (by omega) (by omega) (by omega) (by omega)
  split at h
  · obtain rfl := Option.some.inj h
    exact .four (by omega) (by omega) (by omega) (by omega) (by omega)
  split at h
  · obtain rfl := Option.some.inj h
    exact .four (by omega) (by omega) (by omega) (by omega) (by omega)
  · cases h

theorem follow_some {more low high value v : Nat} {bytes rest : List UInt8}
    (h : follow (more + 1) low high value bytes = (some v, rest)) :
    ∃ b tail, bytes = b :: tail ∧ (low ≤ b.toNat ∧ b.toNat ≤ high) ∧
      follow more 0x80 0xBF (value * 64 + (b.toNat - 0x80)) tail = (some v, rest) := by
  cases bytes with
  | nil => cases h
  | cons b tail =>
    rw [follow] at h
    split at h
    · exact ⟨b, tail, rfl, ‹_›, h⟩
    · cases h

theorem follow_zero {low high value v : Nat} {bytes rest : List UInt8}
    (h : follow 0 low high value bytes = (some v, rest)) : value = v ∧ bytes = rest := by
  cases h
  exact ⟨rfl, rfl⟩

/-- The bytes that are taken behind a first byte are none of ASCII. -/
theorem follow_taken (more : Nat) {low : Nat} (tails : 0x80 ≤ low) (high value : Nat) (bytes : List UInt8) :
    ∃ taken, bytes = taken ++ (follow more low high value bytes).2 ∧ ∀ b ∈ taken, 0x80 ≤ b.toNat := by
  induction more generalizing low high value bytes with
  | zero => exact ⟨[], rfl, by simp⟩
  | succ more ih =>
    cases bytes with
    | nil => exact ⟨[], rfl, by simp⟩
    | cons b bytes =>
      rw [follow]
      split
      · rename_i inside
        obtain ⟨taken, whole, above⟩ := ih (Nat.le_refl 0x80) 0xBF (value * 64 + (b.toNat - 0x80)) bytes
        refine ⟨b :: taken, congrArg (b :: ·) whole, fun x hx => ?_⟩
        rcases List.mem_cons.mp hx with rfl | later
        · omega
        · exact above x later
      · exact ⟨[], rfl, by simp⟩

theorem ofNat_of_toNat {b : UInt8} {v : Nat} (same : v = b.toNat) : UInt8.ofNat v = b := by
  rw [same, UInt8.ofNat_toNat]

theorem ofNat_scalar {v : Nat} (scalar : v < 0xD800 ∨ 0xDFFF < v ∧ v < 0x110000) : (Char.ofNat v).toNat = v := by
  rw [Char.ofNat, dif_pos (show v.isValidChar from scalar)]
  rfl

/-- A sequence that is read whole is what its character is written as. -/
theorem encodeChar_followed {b : UInt8} {l : Lead} (announced : lead b.toNat = some l) {bytes rest : List UInt8}
    {v : Nat} (followed : follow l.more l.low l.high l.bits bytes = (some v, rest)) :
    String.utf8EncodeChar (Char.ofNat v) ++ rest = b :: bytes ∧ 0x80 ≤ (Char.ofNat v).toNat := by
  cases announces announced with
  | @two bits bits_ range =>
    simp only at followed
    obtain ⟨x, tail, rfl, inX, followed⟩ := follow_some followed
    obtain ⟨rfl, rfl⟩ := follow_zero followed
    rw [ofNat_scalar (by omega)]
    refine ⟨?_, by omega⟩
    simp only [String.utf8EncodeChar, Char.toNat_val]
    rw [ofNat_scalar (by omega), if_neg (by omega), if_pos (by omega), ofNat_of_toNat (b := b) (by omega),
      ofNat_of_toNat (b := x) (by omega)]
    rfl
  | @three bits low high bits_ range tails needed scalar =>
    simp only at followed
    obtain ⟨x, tail, rfl, inX, followed⟩ := follow_some followed
    obtain ⟨y, tail, rfl, inY, followed⟩ := follow_some followed
    obtain ⟨rfl, rfl⟩ := follow_zero followed
    rw [ofNat_scalar (by omega)]
    refine ⟨?_, by omega⟩
    simp only [String.utf8EncodeChar, Char.toNat_val]
    rw [ofNat_scalar (by omega), if_neg (by omega), if_neg (by omega), if_pos (by omega),
      ofNat_of_toNat (b := b) (by omega), ofNat_of_toNat (b := x) (by omega), ofNat_of_toNat (b := y) (by omega)]
    rfl
  | @four bits low high bits_ range tails needed last =>
    simp only at followed
    obtain ⟨x, tail, rfl, inX, followed⟩ := follow_some followed
    obtain ⟨y, tail, rfl, inY, followed⟩ := follow_some followed
    obtain ⟨z, tail, rfl, inZ, followed⟩ := follow_some followed
    obtain ⟨rfl, rfl⟩ := follow_zero followed
    rw [ofNat_scalar (by omega)]
    refine ⟨?_, by omega⟩
    simp only [String.utf8EncodeChar, Char.toNat_val]
    rw [ofNat_scalar (by omega), if_neg (by omega), if_neg (by omega), if_neg (by omega),
      ofNat_of_toNat (b := b) (by omega), ofNat_of_toNat (b := x) (by omega), ofNat_of_toNat (b := y) (by omega),
      ofNat_of_toNat (b := z) (by omega)]
    rfl

theorem replacement_high : ¬ replacement.toNat < 0x80 := by decide

/-- Every byte of ASCII is read as its character, in order, and nothing else is. -/
theorem decode_filter_ascii (bytes : List UInt8) :
    (decode bytes).filter (fun c => decide (c.toNat < 0x80)) =
      (bytes.filter fun b => decide (b.toNat < 0x80)).map fun b => Char.ofNat b.toNat := by
  induction h : bytes.length using Nat.strongRecOn generalizing bytes with
  | ind n ih =>
    subst h
    cases bytes with
    | nil => rfl
    | cons b bytes =>
      by_cases ascii : b.toNat < 0x80
      · have same : (Char.ofNat b.toNat).toNat = b.toNat := ofNat_scalar (by omega)
        rw [decode_ascii ascii, List.filter_cons_of_pos (by simpa [same] using ascii),
          List.filter_cons_of_pos (by simpa using ascii), List.map_cons, ih _ (by simp) bytes rfl]
      · rw [List.filter_cons_of_neg (by simpa using ascii)]
        cases announced : lead b.toNat with
        | none =>
          rw [decode_stray ascii announced, List.filter_cons_of_neg (by simpa using replacement_high),
            ih _ (by simp) bytes rfl]
        | some l =>
          have tails : 0x80 ≤ l.low := by
            cases announces announced <;> simp only <;> omega
          obtain ⟨taken, whole, above⟩ := follow_taken l.more tails l.high l.bits bytes
          have none_ : taken.filter (fun b => decide (b.toNat < 0x80)) = [] :=
            List.filter_eq_nil_iff.mpr fun x hx => by simpa using above x hx
          have shorter := (follow_suffix l.more l.low l.high l.bits bytes).length_le
          have high : ¬ ((follow l.more l.low l.high l.bits bytes).1.elim replacement Char.ofNat).toNat < 0x80 := by
            cases followed : (follow l.more l.low l.high l.bits bytes).1 with
            | none => exact replacement_high
            | some v => exact Nat.not_lt.mpr (encodeChar_followed announced (Prod.ext followed rfl)).2
          rw [decode_lead announced, List.filter_cons_of_neg (by simpa using high),
            ih _ (by simp; omega) _ rfl]
          conv_rhs => rw [whole, List.filter_append, none_, List.nil_append]

/-- Where nothing was replaced the text is written as the bytes that were read. -/
theorem encode_decode {bytes : List UInt8} (clean : replacement ∉ decode bytes) : encode (decode bytes) = bytes := by
  induction h : bytes.length using Nat.strongRecOn generalizing bytes with
  | ind n ih =>
    subst h
    cases bytes with
    | nil => rfl
    | cons b bytes =>
      by_cases ascii : b.toNat < 0x80
      · rw [decode_ascii ascii] at clean ⊢
        have rest := ih _ (by simp) (fun mem => clean (List.mem_cons_of_mem _ mem)) rfl
        have same : (Char.ofNat b.toNat).toNat = b.toNat := ofNat_scalar (by omega)
        rw [encode, List.flatMap_cons, ← encode, rest, String.utf8EncodeChar]
        simp only [Char.toNat_val]
        rw [same, if_pos (by omega), UInt8.ofNat_toNat, List.singleton_append]
      · cases announced : lead b.toNat with
        | none => exact absurd (decode_stray ascii announced bytes ▸ List.mem_cons_self) clean
        | some l =>
          have shorter := (follow_suffix l.more l.low l.high l.bits bytes).length_le
          rw [decode_lead announced] at clean ⊢
          cases followed : (follow l.more l.low l.high l.bits bytes).1 with
          | none =>
            rw [followed] at clean
            exact absurd List.mem_cons_self clean
          | some v =>
            have rest := ih _ (by simp; omega) (fun mem => clean (List.mem_cons_of_mem _ mem)) rfl
            rw [encode, List.flatMap_cons, ← encode, rest]
            exact (encodeChar_followed announced (Prod.ext followed rfl)).1

end Utf8
