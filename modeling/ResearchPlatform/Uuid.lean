import ResearchPlatform.Library.Numerals
import Mathlib.Data.List.Basic
import Mathlib.Data.List.DropRight
import Mathlib.Data.Nat.Basic
import Mathlib.Tactic.Ring

/-!
# UUIDs, digests and their text

Ids are 128-bit values. `str(uuid)` is the lower-case 8-4-4-4-12 form that goes
into storage keys and session variables; the database casts it back with
`::uuid`. Only the cast of that form matters to the platform, so the cast drops
hyphens and reads 32 hexadecimal digits. `uuid.UUID` takes whatever a client sends.
-/

namespace Uuid

abbrev UUID := BitVec 128

def hexDigit (d : Nat) : Char :=
  if d < 10 then Char.ofNat (48 + d) else Char.ofNat (87 + d)

def hexValue (c : Char) : Option Nat :=
  if '0' ≤ c ∧ c ≤ '9' then some (c.toNat - 48)
  else if 'a' ≤ c ∧ c ≤ 'f' then some (c.toNat - 87)
  else if 'A' ≤ c ∧ c ≤ 'F' then some (c.toNat - 55)
  else none

/-- The `k` low hexadecimal digits of `n`, most significant first. -/
def nibbles (n : Nat) : Nat → List Nat
  | 0 => []
  | k + 1 => nibbles (n / 16) k ++ [n % 16]

def hyphenate (cs : List Char) : List Char :=
  cs.take 8 ++ '-' :: ((cs.drop 8).take 4 ++ '-' :: ((cs.drop 12).take 4 ++ '-' ::
    ((cs.drop 16).take 4 ++ '-' :: cs.drop 20)))

def strChars (u : UUID) : List Char := hyphenate ((nibbles u.toNat 32).map hexDigit)

def str (u : UUID) : String := String.ofList (strChars u)

def ofDigits (ds : List Nat) : Nat := ds.foldl (fun acc d => 16 * acc + d) 0

/-- `text::uuid`. -/
def cast (s : String) : Option UUID :=
  let digits := s.toList.filter fun c => c ≠ '-'
  if digits.length = 32 then (digits.mapM hexValue).map fun ds => BitVec.ofNat 128 (ofDigits ds)
  else none

theorem length_nibbles (n k : Nat) : (nibbles n k).length = k := by
  induction k generalizing n with
  | zero => rfl
  | succ k ih => simp [nibbles, ih]

theorem nibbles_lt (n k : Nat) : ∀ d ∈ nibbles n k, d < 16 := by
  induction k generalizing n with
  | zero => simp [nibbles]
  | succ k ih =>
    intro d hd
    rcases List.mem_append.mp hd with hd | hd
    · exact ih _ d hd
    · rw [List.mem_singleton.mp hd]
      exact Nat.mod_lt _ (by decide)

theorem ofDigits_nibbles (n k : Nat) : ofDigits (nibbles n k) = n % 16 ^ k := by
  induction k generalizing n with
  | zero => simp [nibbles, ofDigits, Nat.mod_one]
  | succ k ih =>
    have step : ofDigits (nibbles n (k + 1)) = 16 * ofDigits (nibbles (n / 16) k) + n % 16 := by
      simp [nibbles, ofDigits, List.foldl_append]
    rw [step, ih, Nat.pow_succ, Nat.mul_comm (16 ^ k) 16, Nat.mod_mul]
    exact Nat.add_comm _ _

theorem hexValue_hexDigit : ∀ d < 16, hexValue (hexDigit d) = some d := by decide

theorem hexDigit_ne_hyphen : ∀ d < 16, hexDigit d ≠ '-' := by decide

theorem mapM_hexValue {ds : List Nat} (small : ∀ d ∈ ds, d < 16) :
    (ds.map hexDigit).mapM hexValue = some ds := by
  induction ds with
  | nil => rfl
  | cons d ds ih =>
    have hd := hexValue_hexDigit d (small d List.mem_cons_self)
    have hds := ih fun x hx => small x (List.mem_cons_of_mem d hx)
    simp [List.map_cons, List.mapM_cons, hd, hds]

theorem hyphenate_filter {cs : List Char} (h : ∀ c ∈ cs, c ≠ '-') :
    (hyphenate cs).filter (fun c => c ≠ '-') = cs := by
  have keep : ∀ l : List Char, (∀ c ∈ l, c ∈ cs) → l.filter (fun c => c ≠ '-') = l := by
    intro l hl
    exact List.filter_eq_self.mpr fun c hc => by simpa using h c (hl c hc)
  have mid : ∀ k, ∀ c ∈ (cs.drop k).take 4, c ∈ cs := fun k c hc =>
    List.mem_of_mem_drop (List.mem_of_mem_take hc)
  have split : ∀ k, (cs.drop k).take 4 ++ cs.drop (k + 4) = cs.drop k := by
    intro k
    rw [← List.drop_drop]
    exact List.take_append_drop 4 (cs.drop k)
  simp only [hyphenate, List.filter_append, List.filter_cons, ne_eq, not_true_eq_false,
    decide_false, Bool.false_eq_true, if_false]
  simp only [ne_eq] at keep
  rw [keep _ (fun c hc => List.mem_of_mem_take hc), keep _ (mid 8), keep _ (mid 12),
    keep _ (mid 16), keep _ (fun c hc => List.mem_of_mem_drop hc), split 16, split 12, split 8]
  exact List.take_append_drop 8 cs

theorem strChars_filter (u : UUID) :
    (strChars u).filter (fun c => c ≠ '-') = (nibbles u.toNat 32).map hexDigit := by
  apply hyphenate_filter
  intro c hc
  obtain ⟨d, hd, rfl⟩ := List.mem_map.mp hc
  exact hexDigit_ne_hyphen d (nibbles_lt _ _ d hd)

/-- The session variable set from `str(tenant_id)` casts back to that tenant. -/
theorem cast_str (u : UUID) : cast (str u) = some u := by
  have hlen : ((nibbles u.toNat 32).map hexDigit).length = 32 := by
    simp [length_nibbles]
  simp only [cast, str, String.toList_ofList, strChars_filter, hlen, if_true,
    mapM_hexValue (nibbles_lt u.toNat 32), ofDigits_nibbles, Option.map_some]
  have hu : u.toNat % 16 ^ 32 = u.toNat := Nat.mod_eq_of_lt (by
    have := u.isLt
    norm_num at this ⊢
    exact this)
  rw [hu, BitVec.ofNat_toNat]
  simp

theorem str_injective {u v : UUID} (h : str u = str v) : u = v := by
  have := congrArg cast h
  rw [cast_str, cast_str] at this
  exact Option.some.inj this

theorem length_str (u : UUID) : (str u).length = 36 := by
  rw [str, String.length_ofList]
  simp [strChars, hyphenate, length_nibbles]

/-- `hashlib.sha256(...).hexdigest()` of a digest. -/
def hexdigest (digest : BitVec 256) : String :=
  String.ofList ((nibbles digest.toNat 64).map hexDigit)

theorem length_hexdigest (digest : BitVec 256) : (hexdigest digest).length = 64 := by
  simp [hexdigest, String.length_ofList, length_nibbles]

theorem hexDigit_ne_nul : ∀ d < 16, hexDigit d ≠ '\x00' := by decide

theorem hexdigest_no_nul (digest : BitVec 256) : '\x00' ∉ (hexdigest digest).toList := by
  rw [hexdigest, String.toList_ofList]
  intro h
  obtain ⟨d, hd, he⟩ := List.mem_map.mp h
  exact hexDigit_ne_nul d (nibbles_lt _ _ d hd) he

theorem mem_hyphenate {cs : List Char} {c : Char} (mem : c ∈ hyphenate cs) : c ∈ cs ∨ c = '-' := by
  simp only [hyphenate, List.mem_append, List.mem_cons] at mem
  have group : ∀ k, c ∈ (cs.drop k).take 4 → c ∈ cs := fun k h =>
    List.mem_of_mem_drop (List.mem_of_mem_take h)
  rcases mem with h | h | h | h | h | h | h | h | h
  · exact Or.inl (List.mem_of_mem_take h)
  · exact Or.inr h
  · exact Or.inl (group 8 h)
  · exact Or.inr h
  · exact Or.inl (group 12 h)
  · exact Or.inr h
  · exact Or.inl (group 16 h)
  · exact Or.inr h
  · exact Or.inl (List.mem_of_mem_drop h)

theorem str_no_nul (u : UUID) : '\x00' ∉ (str u).toList := by
  rw [str, String.toList_ofList]
  intro h
  rcases mem_hyphenate h with h | h
  · obtain ⟨d, hd, he⟩ := List.mem_map.mp h
    exact hexDigit_ne_nul d (nibbles_lt _ _ d hd) he
  · exact absurd h (by decide)

theorem str_ne_empty (u : UUID) : str u ≠ "" := by
  intro h
  have := length_str u
  rw [h] at this
  exact absurd this (by decide)

/-! ## Texts that clients send -/

/-- `text.replace(old, "")`, where the characters to be passed over are counted. -/
def removeFrom (old : List Char) : Nat → List Char → List Char
  | _, [] => []
  | passed + 1, _ :: cs => removeFrom old passed cs
  | 0, c :: cs =>
    if old.isPrefixOf (c :: cs) then removeFrom old (old.length - 1) cs
    else c :: removeFrom old 0 cs

def remove (old : String) (cs : List Char) : List Char := removeFrom old.toList 0 cs

def isBrace (c : Char) : Bool := c = '\x7b' || c = '\x7d'

/-- `uuid.UUID(text)`. -/
def parse (text : String) : Option UUID :=
  let hex := remove "uuid:" (remove "urn:" text.toList)
  let digits := ((hex.dropWhile isBrace).rdropWhile isBrace).filter fun c => c ≠ '-'
  if digits.length ≠ 32 then none
  else match Numerals.parseInt 16 (digits.map Char.toNat) with
    | .ok n => if 0 ≤ n ∧ n < 2 ^ 128 then some (BitVec.ofInt 128 n) else none
    | .error _ => none

theorem removeFrom_of_not_mem {o : Char} {os cs : List Char} (absent : o ∉ cs) :
    removeFrom (o :: os) 0 cs = cs := by
  induction cs with
  | nil => rfl
  | cons c cs ih =>
    obtain ⟨differ, others⟩ := not_or.mp (mt List.mem_cons.mpr absent)
    rw [removeFrom, if_neg (by simp [List.isPrefixOf, differ]), ih others]

theorem remove_of_not_mem {cs : List Char} (absent : 'u' ∉ cs) :
    remove "uuid:" (remove "urn:" cs) = cs := by
  have urn : remove "urn:" cs = cs := removeFrom_of_not_mem absent
  rw [urn]
  exact removeFrom_of_not_mem absent

theorem strip_braces {cs : List Char} (plain : ∀ c ∈ cs, isBrace c = false) :
    (cs.dropWhile isBrace).rdropWhile isBrace = cs := by
  have front : cs.dropWhile isBrace = cs := by
    cases cs with
    | nil => rfl
    | cons c cs => exact List.dropWhile_cons_of_neg (by simp [plain c List.mem_cons_self])
  rw [front, List.rdropWhile_eq_self_iff]
  intro some_
  simp [plain _ (List.getLast_mem some_)]

theorem digitValue_hexDigit : ∀ d < 16, Numerals.digitValue (hexDigit d).toNat = d := by decide

theorem hexDigit_plain : ∀ d < 16, hexDigit d ≠ 'u' ∧ isBrace (hexDigit d) = false := by decide

theorem parseInt_hexDigits {ds : List Nat} (small : ∀ d ∈ ds, d < 16) (some_ : ds ≠ []) :
    Numerals.parseInt 16 ((ds.map hexDigit).map Char.toNat) = .ok (ofDigits ds : Int) := by
  have digits : ∀ c ∈ (ds.map hexDigit).map Char.toNat, Numerals.Digit 16 c := by
    simp only [List.map_map, List.mem_map, Function.comp_apply]
    rintro _ ⟨d, mem, rfl⟩
    rw [Numerals.Digit, digitValue_hexDigit d (small d mem)]
    exact small d mem
  have values : ((ds.map hexDigit).map Char.toNat).map Numerals.digitValue = ds := by
    rw [List.map_map, List.map_map]
    exact (List.map_congr_left fun d mem => digitValue_hexDigit d (small d mem)).trans (List.map_id _)
  rw [Numerals.parseInt_digits (by decide) digits (by simpa using some_) (fun ten => absurd ten (by decide)),
    values]
  rfl

/-- The text of an id is taken for that id. -/
theorem parse_str (u : UUID) : parse (str u) = some u := by
  have members : ∀ c ∈ strChars u, c ≠ 'u' ∧ isBrace c = false := by
    intro c mem
    rcases mem_hyphenate mem with mem | rfl
    · obtain ⟨d, hd, rfl⟩ := List.mem_map.mp mem
      exact hexDigit_plain d (nibbles_lt _ _ d hd)
    · decide
  have some_ : nibbles u.toNat 32 ≠ [] := List.ne_nil_of_length_pos (by simp [length_nibbles])
  have value : ofDigits (nibbles u.toNat 32) = u.toNat := by
    rw [ofDigits_nibbles]
    exact Nat.mod_eq_of_lt u.isLt
  have inside : (0 : Int) ≤ u.toNat ∧ (u.toNat : Int) < 2 ^ 128 := ⟨by omega, by exact_mod_cast u.isLt⟩
  simp only [parse, str, String.toList_ofList, remove_of_not_mem fun mem => (members _ mem).1 rfl,
    strip_braces fun c mem => (members c mem).2, strChars_filter, List.length_map, length_nibbles,
    parseInt_hexDigits (nibbles_lt u.toNat 32) some_, value, if_pos inside, ne_eq, not_true_eq_false,
    if_false, Option.some.injEq]
  exact (BitVec.ofInt_natCast 128 _).trans (BitVec.ofNat_toNat _ _ |>.trans (by simp))

example : str 0x0123456789abcdef0123456789abcdef#128 = "01234567-89ab-cdef-0123-456789abcdef" := by
  decide

end Uuid
