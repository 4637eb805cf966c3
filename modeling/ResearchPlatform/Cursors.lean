import ResearchPlatform.DocumentService
import ResearchPlatform.Library.Base64
import ResearchPlatform.Library.Calendar
import ResearchPlatform.Library.JsonWriting
import ResearchPlatform.Library.Numerals

/-!
# Pagination cursors

`encode_cursor` and `decode_cursor` down to the characters, and what the listings do
with the sort key that a cursor carries.
-/

namespace Cursors

open Schema DocumentService Json

/-- `encode_cursor`. -/
def encodeCursor (data : List (String × Scalar)) : String :=
  String.ofList (Base64.urlsafeEncode (asciiBytes (dumps data)))

/-- `decode_cursor`, where every error of the two decoders becomes a ValueError. -/
def decodeCursor (cursor : String) : Except Failure (List (Text × Value)) :=
  match Base64.urlsafeDecode cursor.toList >>= loads with
  | .error e => .error (.valueError ("Invalid pagination cursor: " ++ e))
  | .ok (.dict data) => .ok data
  | .ok _ => .error (.valueError "Pagination cursor must encode a JSON object.")

/-! ## Sort keys -/

/-- `created_at.isoformat()`. -/
def isoformat (t : Time) : String := String.ofList (Calendar.isoformat t)

/-- A value is bound with its own type, and the column does not compare with another one. -/
def undefinedOperator (type : String) : Failure :=
  .programmingError ("operator does not exist: timestamp with time zone < " ++ type)

/-- `Document.created_at < cursor_data["created_at"]`, given what the database makes of a text. -/
def createdAtBound (compared : Text → Except Failure Time) (data : List (Text × Value)) :
    Except Failure Time :=
  match data.lookup (codePoints "created_at") with
  | none => .error (.keyError "created_at")
  | some (.str s) => compared s
  | some .null | some (.bool _) =>
    .error (.argumentError ("Only '=', '!=', 'is_()', 'is_not()', 'is_distinct_from()', " ++
      "'is_not_distinct_from()' operators can be used with None/True/False"))
  | some (.int i) => .error (undefinedOperator (if i.natAbs < 2 ^ 31 then "integer" else "bigint"))
  | some (.float _) => .error (undefinedOperator "numeric")
  | some (.list _) | some (.dict _) => .error (.dataError "created_at")

/-- What PostgreSQL makes of a text: it is bound as one. -/
def asVarchar (_ : Text) : Except Failure Time := .error (undefinedOperator "character varying")

/-- The text of an instant compares as that instant. -/
def Denotes (compared : Text → Except Failure Time) : Prop :=
  ∀ t, compared (codePoints (isoformat t)) = .ok t

/-- `int(double)`. -/
def intOfFloat : Numerals.Double → Except Failure Int
  | .finite x => .ok (Numerals.truncate x)
  | .infinity => .error (.overflowError "cannot convert float infinity to integer")
  | .nan => .error (.valueError "cannot convert float NaN to integer")

/-- `int(value)`. -/
def intOf : Value → Except Failure Int
  | .int i => .ok i
  | .bool b => .ok (if b then 1 else 0)
  | .float literal => intOfFloat (Numerals.ofLiteral literal)
  | .str s => (Numerals.parseInt 10 s).mapError .valueError
  | .null => .error (.typeError ("int() argument must be a string, a bytes-like object or a real " ++
      "number, not 'NoneType'"))
  | .list _ => .error (.typeError ("int() argument must be a string, a bytes-like object or a real " ++
      "number, not 'list'"))
  | .dict _ => .error (.typeError ("int() argument must be a string, a bytes-like object or a real " ++
      "number, not 'dict'"))

/-- `Chunk.chunk_index > int(cursor_data["chunk_index"])`, whose column has 32 bits. -/
def chunkIndexBound (data : List (Text × Value)) : Except Failure Int :=
  match data.lookup (codePoints "chunk_index") with
  | none => .error (.keyError "chunk_index")
  | some value => do
    let i ← intOf value
    if -2 ^ 31 ≤ i ∧ i < 2 ^ 31 then return i else throw (.dataError "chunk_index")

def cursorCodec (compared : Text → Except Failure Time) : CursorCodec where
  createdAt cursor := decodeCursor cursor >>= createdAtBound compared
  chunkIndex cursor := decodeCursor cursor >>= chunkIndexBound
  encodeCreatedAt t := encodeCursor [("created_at", .str (isoformat t))]
  encodeChunkIndex i := encodeCursor [("chunk_index", .int i)]

/-! ## Cursors read back -/

/-- A cursor decodes to the members that it was made of, in the order of their names. -/
theorem decodeCursor_encodeCursor {data : List (String × Scalar)} (fits : ∀ m ∈ data, m.2.Fits)
    (names : (data.map Prod.fst).Nodup) :
    decodeCursor (encodeCursor data) = .ok ((sortKeys data).map toMember) := by
  have bytes : Base64.urlsafeDecode (encodeCursor data).toList = .ok (asciiBytes (dumps data)) := by
    rw [encodeCursor, String.toList_ofList, Base64.urlsafeDecode_urlsafeEncode]
  rw [decodeCursor, bytes]
  simp only [bind, Except.bind, loads_dumps fits names]

example : encodeCursor [("chunk_index", .int 7)] = "eyJjaHVua19pbmRleCI6IDd9" := by decide +kernel

/-! ## Dictionaries of any size -/

/-- No integer, or one of 64 bits with or without a sign. -/
def Int64 : Scalar → Prop
  | .int i => -2 ^ 63 ≤ i ∧ i < 2 ^ 64
  | _ => True

/-- A dictionary with string keys, as a list of its items. -/
structure CursorData where
  items : List (String × Scalar)
  keys : (items.map Prod.fst).Nodup
  integers : ∀ m ∈ items, Int64 m.2

theorem Int64.fits {v : Scalar} (small : Int64 v) : v.Fits := by
  cases v with
  | int i =>
    have bound : i.natAbs < 10 ^ 20 := by
      obtain ⟨low, high⟩ := small
      omega
    exact bound.trans_le (Nat.pow_le_pow_right (by decide) (by decide))
  | _ => trivial

/-- What is decoded is the dictionary that was encoded, and the cursor may stand in a URL. -/
theorem decode_cursor_encode_cursor (data : CursorData) :
    (∃ decoded, decodeCursor (encodeCursor data.items) = .ok decoded ∧
      SameDict decoded (data.items.map toMember)) ∧
    ∃ digits pads, (encodeCursor data.items).toList = digits ++ List.replicate pads '=' ∧ pads ≤ 2 ∧
      ∀ c ∈ digits, Base64.UrlsafeDigit c := by
  constructor
  · refine ⟨_, decodeCursor_encodeCursor (fun m mem => (data.integers m mem).fits) data.keys, ?_⟩
    exact sameDict_of_perm (nodup_toMember data.keys) ((sortKeys_perm data.items).map toMember)
  · rw [encodeCursor, String.toList_ofList]
    exact Base64.urlsafeEncode_alphabet _

/-! ## Sort keys read back -/

theorem encodeCursor_ne_empty (data : List (String × Scalar)) : encodeCursor data ≠ "" := by
  intro h
  have decoded := Base64.urlsafeDecode_urlsafeEncode (asciiBytes (dumps data))
  have chars := congrArg String.toList h
  rw [encodeCursor, String.toList_ofList] at chars
  rw [chars] at decoded
  cases decoded

theorem createdAtBound_str (compared : Text → Except Failure Time) (s : Text) :
    createdAtBound compared [(codePoints "created_at", .str s)] = compared s := by
  rw [createdAtBound, List.lookup_cons_self]

theorem decodeCursor_text (s : String) : decodeCursor (encodeCursor [("created_at", .str s)]) =
    .ok [(codePoints "created_at", .str (codePoints s))] :=
  decodeCursor_encodeCursor (by simp [Scalar.Fits]) (List.nodup_singleton _)

theorem createdAt_text (compared : Text → Except Failure Time) (s : String) :
    (cursorCodec compared).createdAt (encodeCursor [("created_at", .str s)]) =
      compared (codePoints s) := by
  simp only [cursorCodec, decodeCursor_text, bind, Except.bind, createdAtBound_str]

theorem createdAt_encodeCreatedAt {compared : Text → Except Failure Time} (denotes : Denotes compared)
    (t : Time) : (cursorCodec compared).createdAt ((cursorCodec compared).encodeCreatedAt t) = .ok t :=
  (createdAt_text compared (isoformat t)).trans (denotes t)

theorem chunkIndexBound_int {i : Int} (low : -2 ^ 31 ≤ i) (high : i < 2 ^ 31) :
    chunkIndexBound [(codePoints "chunk_index", .int i)] = .ok i := by
  rw [chunkIndexBound, List.lookup_cons_self]
  exact if_pos ⟨low, high⟩

/-- An index that its column can hold. -/
theorem chunkIndex_encodeChunkIndex (compared : Text → Except Failure Time) {i : Nat} (fits : i < 2 ^ 31) :
    (cursorCodec compared).chunkIndex ((cursorCodec compared).encodeChunkIndex i) = .ok i := by
  have short : (Scalar.int i).Fits := (show i < 2 ^ 31 from fits).trans_le (by decide +kernel)
  have decoded : decodeCursor (encodeCursor [("chunk_index", .int i)]) =
      .ok [(codePoints "chunk_index", .int i)] :=
    decodeCursor_encodeCursor (fun m mem => List.mem_singleton.mp mem ▸ short) (List.nodup_singleton _)
  simp only [cursorCodec, decoded, bind, Except.bind]
  exact chunkIndexBound_int (by omega) (by omega)

end Cursors
