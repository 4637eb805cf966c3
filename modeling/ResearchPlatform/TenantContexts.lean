import ResearchPlatform.RowLevelSecurity
import Mathlib.Data.List.Forall2

/-!
# Tenant contexts

The tenant and the worker mode that a transaction has in force, read off its own
statements and no others: the last tenant set, and whether worker mode is set,
leaving out what a rollback to a savepoint took back. However many transactions
the connection has run before, under any role subject to the policies the rows of
this context are what a statement reads and writes.
-/

namespace TenantContexts

open Uuid Schema Machines RowLevelSecurity

structure Context where
  tenant : Option UUID
  worker : Bool
  deriving DecidableEq, Repr

/-- In worker mode all rows, otherwise those of the tenant that is set. -/
def Context.admits (x : Context) (tenantId : UUID) : Bool :=
  x.worker || x.tenant = some tenantId

def Context.confined (x : Context) (db : Database) : Database :=
  { db with
    documents := db.documents.filter fun d => x.admits d.tenantId
    chunks := db.chunks.filter fun c => x.admits c.tenantId
    ingestionJobs := db.ingestionJobs.filter fun j => x.admits j.tenantId }

/-- The context in force, and the one at each open savepoint. -/
structure Transaction where
  context : Context
  saved : List Context

def Transaction.new : Transaction := ⟨⟨none, false⟩, []⟩

def Transaction.after (x : Transaction) : Statement → Transaction
  | .begin | .finish _ => new
  | .setTenantContext tenantId => { x with context := { x.context with tenant := some tenantId } }
  | .setWorkerContext => { x with context := { x.context with worker := true } }
  | .savepoint => { x with saved := x.context :: x.saved }
  | .rollbackTo k _ => match x.saved.drop k with
    | [] => x
    | context :: older => ⟨context, context :: older⟩
  | .release k => { x with saved := x.saved.drop (k + 1) }

def transactionOf (body : List Statement) : Transaction := body.foldl Transaction.after .new

def contextOf (body : List Statement) : Context := (transactionOf body).context

/-- A statement that neither opens nor ends a transaction. -/
def Inside : Statement → Prop
  | .begin | .finish _ => False
  | _ => True

instance : DecidablePred Inside
  | .begin | .finish _ => isFalse id
  | .setTenantContext _ | .setWorkerContext | .savepoint | .rollbackTo _ _ | .release _ =>
    isTrue trivial

/-! ## What the statements set -/

def tenantSet : Statement → Option UUID
  | .setTenantContext tenantId => some tenantId
  | _ => none

def takesBack : Statement → Bool
  | .rollbackTo _ _ => true
  | _ => false

theorem foldl_context {body : List Statement} (x : Transaction) (inside : ∀ e ∈ body, Inside e)
    (kept : ∀ e ∈ body, takesBack e = false) :
    (body.foldl Transaction.after x).context =
      ⟨(body.filterMap tenantSet).getLast?.or x.context.tenant,
        x.context.worker || body.contains .setWorkerContext⟩ := by
  induction body generalizing x with
  | nil => simp
  | cons e body ih =>
    rw [List.foldl_cons, ih _ (fun a ha => inside a (List.mem_cons_of_mem _ ha))
      (fun a ha => kept a (List.mem_cons_of_mem _ ha))]
    have inside := inside e List.mem_cons_self
    have kept := kept e List.mem_cons_self
    cases e with
    | begin | finish _ => exact inside.elim
    | rollbackTo k blanks => cases kept
    | setTenantContext tenantId =>
      simp only [Transaction.after, List.filterMap_cons_some (show
        tenantSet (.setTenantContext tenantId) = some tenantId from rfl), List.getLast?_cons]
      cases (body.filterMap tenantSet).getLast? <;> simp
    | setWorkerContext => simp [Transaction.after, tenantSet]
    | savepoint | release k => simp [Transaction.after, tenantSet]

/-- Without a rollback to a savepoint it is the last tenant set, and worker mode if it
was set at all. -/
theorem contextOf_eq {body : List Statement} (inside : ∀ e ∈ body, Inside e)
    (kept : ∀ e ∈ body, takesBack e = false) :
    contextOf body =
      ⟨(body.filterMap tenantSet).getLast?, body.contains .setWorkerContext⟩ := by
  have folded := foldl_context .new inside kept
  rwa [Transaction.new, Option.or_none, Bool.false_or] at folded

/-! ## The variables hold the context -/

structure Holds (vars : SessionVars) (x : Context) : Prop where
  tenant : nullif vars.currentTenant = x.tenant.map str
  worker : nullif vars.workerMode = if x.worker then some "on" else none

theorem Holds.reverted {saved : SessionVars} {x : Context} (h : Holds saved x) (blanks : Blanks) :
    Holds (saved.reverted blanks) x :=
  ⟨(nullif_reverted _ _).trans h.tenant, (nullif_reverted _ _).trans h.worker⟩

theorem holds_of_clear {vars : SessionVars} (h : Clear vars) : Holds vars ⟨none, false⟩ :=
  ⟨h.tenant, h.worker⟩

theorem Holds.visible {vars : SessionVars} {x : Context} (h : Holds vars x) (tenantId : UUID) :
    visible vars tenantId = x.admits tenantId := by
  have worker : workerAccess vars = x.worker := by
    cases hx : x.worker with
    | false =>
      refine workerAccess_of_unset ?_
      rw [h.worker, hx]
      rfl
    | true =>
      have on := h.worker
      rw [hx, if_pos rfl, nullif, Option.filter_eq_some_iff] at on
      rw [workerAccess, on.1]
      rfl
  have tenant : tenantIsolation vars tenantId = decide (x.tenant = some tenantId) := by
    rw [tenantIsolation, h.tenant]
    cases x.tenant with
    | none => rfl
    | some t =>
      rw [Option.map_some, Option.bind_some, cast_str, Option.any_some]
      simp only [Option.some.injEq, eq_comm]
  rw [RowLevelSecurity.visible, worker, tenant, Bool.or_comm]
  rfl

theorem Holds.underPolicies {vars : SessionVars} {x : Context} (h : Holds vars x) (db : Database) :
    underPolicies vars db = x.confined db := by
  simp only [RowLevelSecurity.underPolicies, Context.confined, h.visible]

/-! ## Statement by statement -/

structure Follows (c : Connection) (x : Transaction) : Prop where
  context : Holds c.vars x.context
  saved : List.Forall₂ Holds c.savepoints x.saved

theorem follows_begin {c : Connection} (h : Untainted c) (idle : c.inTransaction = false) :
    Follows c.begin .new := by
  have clear : Clear c.vars := by simpa [Untainted, idle] using h
  exact ⟨holds_of_clear clear, .nil⟩

theorem follows_rollbackTo {c d : Connection} {x : Transaction} {k : Nat} {blanks : Blanks}
    (h : Follows c x) (hs : c.rollbackTo k blanks = some d) :
    Follows d (x.after (.rollbackTo k blanks)) := by
  have older := List.forall₂_drop k h.saved
  simp only [Connection.rollbackTo] at hs
  simp only [Transaction.after]
  generalize c.savepoints.drop k = found at hs older
  generalize x.saved.drop k = expected at older
  cases older with
  | nil => cases hs
  | cons same rest =>
    cases hs
    exact ⟨same.reverted blanks, .cons same rest⟩

theorem follows_step {c d : Connection} {x : Transaction} {e : Statement} (h : Follows c x)
    (hs : Connection.machine.step c e = some d) (inside : Inside e) : Follows d (x.after e) := by
  simp only [Connection.machine] at hs
  cases e with
  | begin | finish _ => exact inside.elim
  | setTenantContext tenantId =>
    simp only [Connection.step, Option.ite_none_right_eq_some, Option.some.injEq] at hs
    obtain ⟨_, rfl⟩ := hs
    have set : nullif (some (str tenantId)) = some (str tenantId) :=
      Option.filter_some_pos (by simpa using str_ne_empty tenantId)
    exact ⟨⟨set, h.context.worker⟩, h.saved⟩
  | setWorkerContext =>
    simp only [Connection.step, Option.ite_none_right_eq_some, Option.some.injEq] at hs
    obtain ⟨_, rfl⟩ := hs
    exact ⟨⟨h.context.tenant, rfl⟩, h.saved⟩
  | savepoint =>
    simp only [Connection.step, Option.ite_none_right_eq_some, Option.some.injEq] at hs
    obtain ⟨_, rfl⟩ := hs
    exact ⟨h.context, .cons h.context h.saved⟩
  | rollbackTo k blanks =>
    simp only [Connection.step, Option.ite_none_right_eq_some] at hs
    exact follows_rollbackTo h hs.2
  | release k =>
    simp only [Connection.step, Option.ite_none_right_eq_some, Connection.release,
      Option.some.injEq] at hs
    obtain ⟨_, _, rfl⟩ := hs
    exact ⟨h.context, List.forall₂_drop (k + 1) h.saved⟩

theorem follows_run {c d : Connection} {x : Transaction} {body : List Statement} (h : Follows c x)
    (hr : Connection.machine.run c body = some d) (inside : ∀ e ∈ body, Inside e) :
    Follows d (body.foldl Transaction.after x) := by
  induction body generalizing c x with
  | nil =>
    cases hr
    exact h
  | cons e body ih =>
    obtain ⟨m, hm, hr⟩ := Machine.run_cons_iff.mp hr
    exact ih (follows_step h hm (inside e List.mem_cons_self)) hr
      fun a ha => inside a (List.mem_cons_of_mem _ ha)

/-- After any transactions on the connection, a statement reads and writes the rows
of the context that its own transaction has in force. -/
theorem tenant_context_confined (before body : List Statement) (c : Connection) (db : Database)
    (hr : Connection.machine.run .new (before ++ .begin :: body) = some c)
    (inside : ∀ e ∈ body, Inside e) :
    underPolicies c.vars db = (contextOf body).confined db ∧
      ∀ tenantId, writable c.vars tenantId = (contextOf body).admits tenantId := by
  obtain ⟨pooled, hp, hr⟩ := Machine.run_append_iff.mp hr
  obtain ⟨started, hb, hr⟩ := Machine.run_cons_iff.mp hr
  obtain ⟨idle, rfl⟩ : pooled.inTransaction = false ∧ started = pooled.begin := by
    rcases frame_step hb with ⟨_, idle, same⟩ | ⟨_, other, _⟩ | ⟨busy, _⟩
    · exact ⟨idle, same⟩
    · cases other
    · simp [Connection.machine, Connection.step, busy] at hb
  have follows := follows_run (follows_begin (untainted_reachable ⟨before, hp⟩) idle) hr inside
  exact ⟨follows.context.underPolicies db, follows.context.visible⟩

namespace Demo

/-- A worker's transaction, then a request's: worker mode and the second tenant are
gone, the first one only comes back with the savepoint. -/
def worker : List Statement :=
  [.begin, .setWorkerContext, .setTenantContext 3, .finish ⟨true, true⟩]

def request : List Statement :=
  [.setTenantContext 2, .savepoint, .setTenantContext 3, .rollbackTo 0 ⟨false, false⟩]

end Demo

theorem tenant_context_confined_demo :
    underPolicies ((Connection.machine.run .new
        (Demo.worker ++ .begin :: Demo.request)).getD .new).vars =
      (⟨some 2, false⟩ : Context).confined := by
  have enabled : (Connection.machine.run .new
      (Demo.worker ++ .begin :: Demo.request)).isSome = true := by decide +kernel
  obtain ⟨c, hc⟩ := Option.isSome_iff_exists.mp enabled
  funext db
  rw [hc, Option.getD_some]
  exact (tenant_context_confined Demo.worker Demo.request c db hc (by decide)).1

end TenantContexts
