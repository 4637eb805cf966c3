import ResearchPlatform.Uuid
import Mathlib.Data.List.Sort
import Mathlib.Data.Rat.Defs

/-!
# Tables, rows and errors

One record per mapped class, with the columns that the modelled functions read
or write, and the database as a list of rows per table. Enumerated text columns
are the values their CHECK constraint lists. Timestamps are microseconds, and
embeddings and scores are exact rationals.
-/

namespace Schema

open Uuid

abbrev Time := Nat
abbrev Bytes := List UInt8
abbrev Embedding := List Rat

inductive Role where
  | admin | editor | viewer
  deriving DecidableEq, Repr

inductive DocumentStatus where
  | pending | processing | ready | failed
  deriving DecidableEq, Repr

inductive JobStatus where
  | queued | claimed | running | completed | failed | dead
  deriving DecidableEq, Repr

structure User where
  id : UUID
  email : String
  isActive : Bool
  deriving DecidableEq, Repr

structure Organization where
  id : UUID
  name : String
  slug : String
  createdAt : Time
  deriving DecidableEq, Repr

structure OrgMembership where
  id : UUID
  orgId : UUID
  userId : UUID
  role : Role
  createdAt : Time
  deriving DecidableEq, Repr

structure Document where
  id : UUID
  userId : UUID
  tenantId : UUID
  filename : String
  contentHash : String
  sizeBytes : Nat
  mimeType : Option String
  storageKey : Option String
  status : DocumentStatus
  chunkCount : Nat
  errorMessage : Option String
  createdAt : Time
  updatedAt : Time
  deletedAt : Option Time
  deriving DecidableEq, Repr

structure Chunk where
  id : UUID
  documentId : UUID
  userId : UUID
  tenantId : UUID
  content : String
  pageNumber : Option Nat
  chunkIndex : Nat
  embedding : Embedding
  createdAt : Time
  deriving DecidableEq, Repr

structure IngestionJob where
  id : UUID
  documentId : UUID
  userId : UUID
  tenantId : UUID
  status : JobStatus
  idempotencyKey : String
  workerId : Option Nat
  attemptCount : Nat
  maxAttempts : Nat
  version : Nat
  errorMessage : Option String
  claimedAt : Option Time
  startedAt : Option Time
  completedAt : Option Time
  createdAt : Time
  deriving DecidableEq, Repr

structure Database where
  users : List User
  organizations : List Organization
  orgMemberships : List OrgMembership
  documents : List Document
  chunks : List Chunk
  ingestionJobs : List IngestionJob
  deriving DecidableEq, Repr

def Database.empty : Database := ⟨[], [], [], [], [], []⟩

/-! ## Errors -/

/-- The exception classes of the application that the modelled functions raise. -/
inductive AppError where
  | notFoundError (resource identifier : String)
  | conflictError (message : String)
  | authenticationError (message : String)
  | authorizationError (message : String)
  | rateLimitError (message : String)
  | validationError (message : String)
  | externalServiceError (service message : String)
  deriving DecidableEq, Repr

def AppError.message : AppError → String
  | .notFoundError resource identifier =>
      resource ++ " with identifier '" ++ identifier ++ "' not found."
  | .conflictError message => message
  | .authenticationError message => message
  | .authorizationError message => message
  | .rateLimitError message => message
  | .validationError message => message
  | .externalServiceError service message =>
      let detail := "External service '" ++ service ++ "' is unavailable."
      if message = "" then detail else detail ++ " " ++ message

/-- What a call may raise: an application error, an error of the driver or of
SQLAlchemy that the code lets through, or a Python error. -/
inductive Failure where
  | app (error : AppError)
  | integrityError (constraint : String)
  | dataError (column : String)
  | multipleResultsFound
  | indexError
  | valueError (message : String)
  | typeError (message : String)
  | keyError (key : String)
  | argumentError (message : String)
  | overflowError (message : String)
  | programmingError (message : String)
  | storageClientError (message : String)
  deriving DecidableEq, Repr

theorem of_bind_ok {α β : Type} {call : Except Failure α} {rest : α → Except Failure β} {b : β}
    (h : call >>= rest = .ok b) : ∃ a, call = .ok a ∧ rest a = .ok b := by
  match call, h with
  | .ok a, h => exact ⟨a, rfl, h⟩

/-! ## Query results -/

section Queries
universe u
variable {α : Type u}

def scalarOneOrNone : List α → Except Failure (Option α)
  | [] => .ok none
  | [x] => .ok (some x)
  | _ :: _ :: _ => .error .multipleResultsFound

/-- `ORDER BY column ASC`; equal keys keep the table's order. -/
def orderByAsc (column : α → Time) (rows : List α) : List α :=
  rows.insertionSort fun a b => column a ≤ column b

def orderByDesc (column : α → Time) (rows : List α) : List α :=
  rows.insertionSort fun a b => column b ≤ column a

/-- `LIMIT k`, which the database refuses for a negative count. -/
def sqlLimit (k : Int) (rows : List α) : Except Failure (List α) :=
  if k < 0 then .error (.dataError "LIMIT must not be negative") else .ok (rows.take k.toNat)

/-- `rows[:k]` in Python. -/
def pySlice (k : Int) (rows : List α) : List α :=
  if k < 0 then rows.take (rows.length - k.natAbs) else rows.take k.toNat

/-- The tail shared by the listings: one row more than the page asks for was
read, and a longer result is cut and continued from its last row. -/
def page (limit : Int) (encode : α → String) (rows : List α) :
    Except Failure (List α × Option String) :=
  if limit < rows.length then
    let items := pySlice limit rows
    match items.getLast? with
    | none => .error .indexError
    | some last => .ok (items, some (encode last))
  else .ok (rows, none)

end Queries

/-- `str.lower`, `str.upper` and `str.strip`, which go by the tables of Unicode. -/
structure TextMethods where
  lower : String → String
  upper : String → String
  strip : String → String

/-- Text with a NUL character cannot be sent to the database. -/
def sendable (s : String) : Bool := !s.toList.contains '\x00'

/-- A VARCHAR(n) column takes the value: what goes beyond the limit is blank. -/
def fitsVarchar (n : Nat) (s : String) : Bool := sendable s && (s.toList.drop n).all (· = ' ')

/-- The text that the column keeps; PostgreSQL cuts the blanks off. -/
def varchar (n : Nat) (s : String) : String := String.ofList (s.toList.take n)

section Varchar
variable {n : Nat} {s : String}

theorem fitsVarchar_of_length_le (sent : sendable s = true) (short : s.length ≤ n) : fitsVarchar n s = true := by
  rw [fitsVarchar, sent, List.drop_of_length_le (by rwa [String.length_toList])]
  rfl

theorem varchar_of_length_le (short : s.length ≤ n) : varchar n s = s := by
  rw [varchar, List.take_of_length_le (by rwa [String.length_toList]), String.ofList_toList]

/-- Text that ends in no blank is kept whole. -/
theorem varchar_of_fits (fits : fitsVarchar n s = true) (ends : s.toList.getLast? ≠ some ' ') : varchar n s = s := by
  refine varchar_of_length_le ?_
  by_contra long
  rw [fitsVarchar, Bool.and_eq_true] at fits
  have beyond : (s.toList.drop n).getLast? = s.toList.getLast? := by
    rw [List.getLast?_drop, if_neg (by rwa [String.length_toList])]
  cases last : (s.toList.drop n).getLast? with
  | none =>
    rw [List.getLast?_eq_none_iff, List.drop_eq_nil_iff, String.length_toList] at last
    exact long last
  | some c =>
    have blank : c = ' ' := of_decide_eq_true (List.all_eq_true.mp fits.2 c (List.mem_of_getLast? last))
    exact ends (beyond ▸ blank ▸ last)

theorem length_varchar_le (n : Nat) (s : String) : (varchar n s).length ≤ n := by
  rw [varchar, String.length_ofList]
  exact List.length_take_le n s.toList

theorem sendable_varchar (sent : sendable s = true) : sendable (varchar n s) = true := by
  rw [sendable, Bool.not_eq_true', List.contains_eq_mem, decide_eq_false_iff_not] at sent ⊢
  rw [varchar, String.toList_ofList]
  exact fun nul => sent (List.mem_of_mem_take nul)

theorem varchar_varchar (n : Nat) (s : String) : varchar n (varchar n s) = varchar n s :=
  varchar_of_length_le (length_varchar_le n s)

end Varchar

/-- The row that an INSERT leaves in the table; the object that was added keeps its texts. -/
def User.row (u : User) : User := { u with email := varchar 255 u.email }

def Document.row (d : Document) : Document :=
  { d with
    filename := varchar 500 d.filename
    mimeType := d.mimeType.map (varchar 100)
    storageKey := d.storageKey.map (varchar 500) }

def IngestionJob.row (j : IngestionJob) : IngestionJob := { j with idempotencyKey := varchar 255 j.idempotencyKey }

def Organization.row (o : Organization) : Organization :=
  { o with name := varchar 255 o.name, slug := varchar 100 o.slug }

@[simp] theorem IngestionJob.row_status (j : IngestionJob) : j.row.status = j.status := rfl

@[simp] theorem Document.row_row (d : Document) : d.row.row = d.row := by
  simp [Document.row, varchar_varchar, Function.comp_def]

@[simp] theorem IngestionJob.row_row (j : IngestionJob) : j.row.row = j.row := by
  simp [IngestionJob.row, varchar_varchar]

theorem Organization.row_of_short {o : Organization} (name : o.name.length ≤ 255) (slug : o.slug.length ≤ 100) :
    o.row = o := by
  rw [Organization.row, varchar_of_length_le name, varchar_of_length_le slug]

theorem scalarOneOrNone_of_eq_some {α : Type*} {rows : List α} {x : α}
    (h : scalarOneOrNone rows = .ok (some x)) : rows = [x] := by
  match rows with
  | [] => cases h
  | [y] =>
    simp only [scalarOneOrNone, Except.ok.injEq, Option.some.injEq] at h
    rw [h]
  | _ :: _ :: _ => cases h

theorem mem_orderByAsc {α : Type*} {column : α → Time} {rows : List α} {x : α} :
    x ∈ orderByAsc column rows ↔ x ∈ rows :=
  (List.perm_insertionSort _ rows).mem_iff

theorem mem_orderByDesc {α : Type*} {column : α → Time} {rows : List α} {x : α} :
    x ∈ orderByDesc column rows ↔ x ∈ rows :=
  (List.perm_insertionSort _ rows).mem_iff

end Schema
