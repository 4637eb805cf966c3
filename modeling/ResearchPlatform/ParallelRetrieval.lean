import ResearchPlatform.RetrievalService

/-!
# Parallel retrieval under row-level security

`hybrid_search` opens two sessions of its own, and nothing sets the tenant in
their transactions. A role under the policies then sees no row there, whatever
the session of the request sees.
-/

namespace ParallelRetrieval

open Uuid Schema RowLevelSecurity RetrievalService

/-- A connection as the pool hands it out. -/
abbrev PooledConnection := {c : Connection // c.Pooled}

/-- The variables in a new transaction on the connection. -/
def PooledConnection.ownSession (c : PooledConnection) : SessionVars := c.val.begin.vars

/-- The variables in the transaction of a request of the tenant. -/
def PooledConnection.requestSession (tenantId : UUID) (c : PooledConnection) : SessionVars :=
  (c.val.begin.setTenantContext tenantId).vars

section Sessions
variable {index : SearchIndex} {query : String} {tenantId : UUID} {limit : Int} {db : Database}
  {vars : SessionVars} {c : PooledConnection}

end Sessions

/-! ## One ready document -/

namespace Demo

def index : SearchIndex where
  encode texts := .ok (texts.map fun _ => [1])
  distance _ _ := 0
  tsMatches content query := content = query
  tsRankCd _ _ := 1

/-- One document of tenant 2, with its only chunk. -/
def db : Database where
  users := [⟨1, "a@example.com", true⟩]
  organizations := [⟨2, "A", "a", 0⟩]
  orgMemberships := [⟨3, 2, 1, .admin, 0⟩]
  documents := [⟨4, 1, 2, "a.txt", "h", 5, none, none, .ready, 1, none, 10, 20, none⟩]
  chunks := [⟨6, 4, 1, 2, "hello", none, 0, [1], 20⟩]
  ingestionJobs := [⟨5, 4, 1, 2, .completed, "k", some 0, 1, 3, 3, none, some 15, some 16, some 20, 10⟩]

end Demo

end ParallelRetrieval
