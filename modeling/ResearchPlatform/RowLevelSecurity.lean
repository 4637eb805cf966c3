import ResearchPlatform.Schema
import ResearchPlatform.Library.Machines

/-!
# Session variables and row-level security

The two policies of migration 0002, and the transactions of one pooled
connection, which is all that ever writes the variables they read. A value set
with `set_config(name, value, true)` lasts to the end of its transaction, or to the
rollback to a savepoint set before it, and then goes back to what it was. A
variable that was unset may come back as the empty string, so a connection that
has been used differs from a new one.
-/

namespace RowLevelSecurity

open Uuid Schema Machines

/-- `app.current_tenant` and `app.worker_mode`. -/
structure SessionVars where
  currentTenant : Option String
  workerMode : Option String
  deriving DecidableEq, Repr

/-! ## Policies -/

/-- `nullif(current_setting(name, true), '')`. -/
def nullif (setting : Option String) : Option String := setting.filter fun s => s ≠ ""

/-- A value that is no UUID would make the statement fail; none is ever set. -/
def tenantIsolation (vars : SessionVars) (tenantId : UUID) : Bool :=
  ((nullif vars.currentTenant).bind cast).any fun t => tenantId = t

def workerAccess (vars : SessionVars) : Bool := vars.workerMode = some "on"

/-- Permissive policies are joined by OR. -/
def visible (vars : SessionVars) (tenantId : UUID) : Bool :=
  tenantIsolation vars tenantId || workerAccess vars

/-- The rows that a statement may leave behind: `WITH CHECK` repeats `USING`. -/
def writable (vars : SessionVars) (tenantId : UUID) : Bool :=
  tenantIsolation vars tenantId || workerAccess vars

/-- What a role under the policies sees of the three tables that have them. -/
def underPolicies (vars : SessionVars) (db : Database) : Database :=
  { db with
    documents := db.documents.filter fun d => visible vars d.tenantId
    chunks := db.chunks.filter fun c => visible vars c.tenantId
    ingestionJobs := db.ingestionJobs.filter fun j => visible vars j.tenantId }

/-! ## Connections -/

/-- Which variables come back as the empty string if they were unset. -/
structure Blanks where
  currentTenant : Bool
  workerMode : Bool
  deriving DecidableEq, Repr

def reverted (blank : Bool) (saved : Option String) : Option String :=
  match saved with
  | some value => some value
  | none => if blank then some "" else none

def SessionVars.reverted (saved : SessionVars) (blanks : Blanks) : SessionVars :=
  ⟨RowLevelSecurity.reverted blanks.currentTenant saved.currentTenant,
    RowLevelSecurity.reverted blanks.workerMode saved.workerMode⟩

/-- `before` is what the transaction found, `savepoints` what each of its savepoints
found, the latest first. -/
structure Connection where
  vars : SessionVars
  inTransaction : Bool
  before : SessionVars
  savepoints : List SessionVars
  deriving DecidableEq, Repr

inductive Statement where
  | begin
  | setTenantContext (tenantId : UUID)
  | setWorkerContext
  | savepoint
  /-- `ROLLBACK TO SAVEPOINT`, of the savepoint with `k` later ones -/
  | rollbackTo (k : Nat) (blanks : Blanks)
  | release (k : Nat)
  /-- commit or rollback -/
  | finish (blanks : Blanks)
  deriving DecidableEq, Repr

namespace Connection

def new : Connection := ⟨⟨none, none⟩, false, ⟨none, none⟩, []⟩

def begin (c : Connection) : Connection :=
  { c with inTransaction := true, before := c.vars, savepoints := [] }

def setTenantContext (tenantId : UUID) (c : Connection) : Connection :=
  { c with vars := { c.vars with currentTenant := some (str tenantId) } }

def setWorkerContext (c : Connection) : Connection :=
  { c with vars := { c.vars with workerMode := some "on" } }

def savepoint (c : Connection) : Connection := { c with savepoints := c.vars :: c.savepoints }

/-- The savepoint itself stays. -/
def rollbackTo (k : Nat) (blanks : Blanks) (c : Connection) : Option Connection :=
  match c.savepoints.drop k with
  | [] => none
  | saved :: older =>
    some { c with vars := saved.reverted blanks, savepoints := saved :: older }

def release (k : Nat) (c : Connection) : Option Connection :=
  if k < c.savepoints.length then some { c with savepoints := c.savepoints.drop (k + 1) } else none

def finish (blanks : Blanks) (c : Connection) : Connection :=
  { c with vars := c.before.reverted blanks, inTransaction := false, savepoints := [] }

def step (c : Connection) : Statement → Option Connection
  | .begin => if c.inTransaction then none else some c.begin
  | .setTenantContext tenantId => if c.inTransaction then some (c.setTenantContext tenantId) else none
  | .setWorkerContext => if c.inTransaction then some c.setWorkerContext else none
  | .savepoint => if c.inTransaction then some c.savepoint else none
  | .rollbackTo k blanks => if c.inTransaction then c.rollbackTo k blanks else none
  | .release k => if c.inTransaction then c.release k else none
  | .finish blanks => if c.inTransaction then some (c.finish blanks) else none

def machine : Machine Connection Statement := ⟨step⟩

/-- Back in the pool after any number of transactions. -/
def Pooled (c : Connection) : Prop := machine.Reachable new c ∧ c.inTransaction = false

end Connection

/-- The policies take both variables for unset. -/
structure Clear (vars : SessionVars) : Prop where
  tenant : nullif vars.currentTenant = none
  worker : nullif vars.workerMode = none

@[simp] theorem nullif_reverted (blank : Bool) (saved : Option String) :
    nullif (reverted blank saved) = nullif saved := by
  cases saved with
  | some value => rfl
  | none => cases blank <;> rfl

theorem Clear.reverted {saved : SessionVars} (h : Clear saved) (blanks : Blanks) :
    Clear (saved.reverted blanks) :=
  ⟨(nullif_reverted _ _).trans h.tenant, (nullif_reverted _ _).trans h.worker⟩

/-- What a transaction goes back to is as clear as what a new one finds. -/
def Untainted (c : Connection) : Prop := Clear (if c.inTransaction then c.before else c.vars)

/-- All that a statement inside a transaction leaves as it is. -/
theorem frame_step {c d : Connection} {e : Statement}
    (hs : Connection.machine.step c e = some d) :
    (e = .begin ∧ c.inTransaction = false ∧ d = c.begin) ∨
      (∃ blanks, e = .finish blanks ∧ c.inTransaction = true ∧ d = c.finish blanks) ∨
        (c.inTransaction = true ∧ d.inTransaction = true ∧ d.before = c.before) := by
  simp only [Connection.machine] at hs
  cases e with
  | begin =>
    simp only [Connection.step, Option.ite_none_left_eq_some, Option.some.injEq,
      Bool.not_eq_true] at hs
    exact Or.inl ⟨rfl, hs.1, hs.2.symm⟩
  | finish blanks =>
    simp only [Connection.step, Option.ite_none_right_eq_some, Option.some.injEq] at hs
    exact Or.inr (Or.inl ⟨blanks, rfl, hs.1, hs.2.symm⟩)
  | setTenantContext _ | setWorkerContext | savepoint =>
    simp only [Connection.step, Option.ite_none_right_eq_some, Option.some.injEq] at hs
    obtain ⟨busy, rfl⟩ := hs
    exact Or.inr (Or.inr ⟨busy, busy, rfl⟩)
  | rollbackTo k blanks =>
    simp only [Connection.step, Option.ite_none_right_eq_some, Connection.rollbackTo] at hs
    obtain ⟨busy, hs⟩ := hs
    split at hs
    · cases hs
    · cases hs
      exact Or.inr (Or.inr ⟨busy, busy, rfl⟩)
  | release k =>
    simp only [Connection.step, Option.ite_none_right_eq_some, Connection.release,
      Option.some.injEq] at hs
    obtain ⟨busy, _, rfl⟩ := hs
    exact Or.inr (Or.inr ⟨busy, busy, rfl⟩)

theorem untainted_step {c d : Connection} {e : Statement} (h : Untainted c)
    (hs : Connection.machine.step c e = some d) : Untainted d := by
  rcases frame_step hs with ⟨_, idle, rfl⟩ | ⟨blanks, _, busy, rfl⟩ | ⟨busy, busy', same⟩
  · simpa [Untainted, Connection.begin, idle] using h
  · have before : Clear c.before := by simpa [Untainted, busy] using h
    simpa [Untainted, Connection.finish] using before.reverted blanks
  · simpa [Untainted, busy, busy', same] using h

theorem untainted_reachable {c : Connection} (h : Connection.machine.Reachable Connection.new c) :
    Untainted c :=
  Machine.reachable_invariant ⟨rfl, rfl⟩ (fun _ _ _ h hs => untainted_step h hs) h

/-- No transaction leaves its tenant or its worker mode to the next one. -/
theorem Connection.Pooled.clear {c : Connection} (h : c.Pooled) : Clear c.vars := by
  have untainted := untainted_reachable h.1
  rwa [Untainted, h.2] at untainted

theorem workerAccess_of_unset {vars : SessionVars} (h : nullif vars.workerMode = none) :
    workerAccess vars = false := by
  rw [workerAccess, decide_eq_false_iff_not]
  intro on
  rw [on] at h
  exact absurd h (by decide)

theorem visible_of_clear {vars : SessionVars} (h : Clear vars) (tenantId : UUID) :
    visible vars tenantId = false := by
  rw [visible, workerAccess_of_unset h.worker, tenantIsolation, h.tenant]
  rfl

theorem visible_setTenantContext {c : Connection} (h : Clear c.vars) (tenantId t : UUID) :
    visible (c.setTenantContext tenantId).vars t = decide (t = tenantId) := by
  have set : (nullif (some (str tenantId))).bind cast = some tenantId := by
    rw [nullif, Option.filter_some_pos (by simpa using str_ne_empty tenantId), Option.bind_some,
      cast_str]
  have worker : workerAccess (c.setTenantContext tenantId).vars = false :=
    workerAccess_of_unset h.worker
  rw [visible, worker, Bool.or_false, tenantIsolation]
  simp [Connection.setTenantContext, set]

end RowLevelSecurity
