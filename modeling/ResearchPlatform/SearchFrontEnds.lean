import ResearchPlatform.FrontEnds

/-!
# Search through the two front ends

`POST /search` and the adapter's `search` over one `hybrid_search`, with their own
argument lists and their own conversions of what it returns.
-/

namespace FrontEnds

open Uuid Schema TenantService RetrievalService

/-! ## The route -/

/-- The body of a search request, as its schema admits it. -/
structure SearchRequest where
  query : String
  topK : Int
  query_length : 1 ≤ query.length ∧ query.length ≤ 2000
  topK_range : 1 ≤ topK ∧ topK ≤ 50

def SearchRequest.validate (query : String) (topK : Int) : Except Failure SearchRequest :=
  if hq : 1 ≤ query.length ∧ query.length ≤ 2000 then
    if hk : 1 ≤ topK ∧ topK ≤ 50 then .ok ⟨query, topK, hq, hk⟩
    else if topK < 1 then .error (.valueError "Input should be greater than or equal to 1")
    else .error (.valueError "Input should be less than or equal to 50")
  else if query.length < 1 then .error (.valueError "String should have at least 1 character")
  else .error (.valueError "String should have at most 2000 characters")

structure ChunkResult where
  chunkId : UUID
  documentId : UUID
  content : String
  chunkIndex : Nat
  pageNumber : Option Nat
  score : Rat
  documentFilename : String
  sourceType : String
  deriving DecidableEq, Repr

structure WebResult where
  url : String
  title : String
  content : String
  score : Rat
  sourceType : String
  deriving DecidableEq, Repr

inductive ResponseResult where
  | chunk (result : ChunkResult)
  | web (result : WebResult)
  deriving DecidableEq, Repr

structure SearchResponse where
  query : String
  results : List ResponseResult
  total : Nat
  answer : Option String
  deriving DecidableEq, Repr

/-- `_ranked_to_result`. -/
def rankedToResult : SearchResult → ResponseResult
  | .web r => .web ⟨r.url, r.title, r.content, r.score, "web"⟩
  | .chunk r => .chunk ⟨r.chunkId, r.documentId, r.content, r.chunkIndex, r.pageNumber, r.score,
      r.documentFilename, "internal"⟩

/-- A call of `hybrid_search`, whose `settings` have no default. -/
def callHybridSearch (cfg : Settings) (draw : Draw) (query : String) (tenantId : UUID)
    (settings : Option Providers) (topK candidateMultiplier : Int) (db : Database) :
    Except Failure (List SearchResult × Option String) :=
  match settings with
  | none => .error (.typeError "hybrid_search() missing 1 required positional argument: 'settings'")
  | some providers => hybridSearch cfg.platform.index cfg.platform.text providers query tenantId topK
      candidateMultiplier draw.dense draw.sparse db

/-- `POST /search`. -/
def searchRoute (cfg : Settings) (draw : Draw) (userId : UUID) (xTenantId : Option String)
    (query : String) (topK : Int) (db : Database) : Except Failure SearchResponse := do
  let tenant ← getCurrentTenant xTenantId userId draw.allowed db
  let body ← SearchRequest.validate query topK
  let (results, answer) ← callHybridSearch cfg draw body.query tenant.orgId (some cfg.providers)
    body.topK cfg.candidateMultiplier db
  return ⟨body.query, results.map rankedToResult, results.length, answer⟩

/-! ## The adapter -/

structure ChunkDict where
  chunkId : String
  documentId : String
  content : String
  chunkIndex : Nat
  pageNumber : Option Nat
  score : Rat
  documentFilename : String
  deriving DecidableEq, Repr

structure SearchDict where
  query : String
  results : List ChunkDict
  total : Nat
  deriving DecidableEq, Repr

/-- `_ranked_chunk_to_dict`; a web result has none of these fields. -/
def rankedChunkToDict : SearchResult → Option ChunkDict
  | .web _ => none
  | .chunk r => some ⟨str r.chunkId, str r.documentId, r.content, r.chunkIndex, r.pageNumber, r.score,
      r.documentFilename⟩

/-- `[_ranked_chunk_to_dict(result) for result in results]` over the pair that
`hybrid_search` returns: its first member is a list. -/
def pairToDicts (_ : List SearchResult × Option String) : Except Failure (List ChunkDict) :=
  .error (.typeError "'list' object has no attribute 'chunk_id'")

/-- `ResearchPlatformMCPAdapter.search`, which passes no `settings`. -/
def mcpSearch (cfg : Settings) (draw : Draw) (userId : String) (tenantId : Option String)
    (query : String) (topK : Int) (db : Database) : Except Failure SearchDict := do
  let parsedUserId ← parseField userId "user_id"
  let membership ← resolveTenant parsedUserId tenantId db
  let results ← callHybridSearch cfg draw query membership.orgId none (min (max topK 1) 50)
    cfg.candidateMultiplier db
  let dicts ← pairToDicts results
  -- `len` of the pair
  return ⟨query, dicts, 2⟩

/-! ## Agreement -/

/-- The adapter's dictionary shows the same result as the route's response. -/
def SameResult (r : ResponseResult) (d : ChunkDict) : Prop :=
  ∃ result, rankedToResult result = r ∧ rankedChunkToDict result = some d

/-- The adapter answers with the route's results in the same order and with its total,
and raises only where the route does. -/
def Agrees (route : Except Failure SearchResponse) (tool : Except Failure SearchDict) : Prop :=
  match tool with
  | .ok found => ∃ response, route = .ok response ∧
      List.Forall₂ SameResult response.results found.results ∧ response.total = found.total
  | .error _ => ∃ e, route = .error e

/-- What makes the route itself raise: the tenant or the limiter, the body, the embedder,
a NUL in the query, or a negative LIMIT. -/
def RouteRaises (cfg : Settings) (draw : Draw) (userId : UUID) (xTenantId : Option String)
    (query : String) (db : Database) : Prop :=
  (¬ ∃ m, resolveTenant userId xTenantId db = .ok m) ∨ draw.allowed = false ∨
    query.length = 0 ∨ 2000 < query.length ∨
    (¬ ∃ v, embedQuery cfg.platform.index query = .ok v) ∨ sendable query = false ∨
    cfg.candidateMultiplier < 0

section Agreement
variable {cfg : Settings} {draw : Draw} {userId : UUID} {tenantId : Option String} {query : String}
  {topK : Int} {db : Database}

theorem mcpSearch_raises (user : String) :
    ∃ e, mcpSearch cfg draw user tenantId query topK db = .error e := by
  rw [mcpSearch]
  cases parseField user "user_id" with
  | error e => exact ⟨e, rfl⟩
  | ok parsedUserId =>
    cases hm : resolveTenant parsedUserId tenantId db with
    | error e => exact ⟨e, by simp [hm, bind, Except.bind]⟩
    | ok m => exact ⟨_, by simp [hm, bind, Except.bind, callHybridSearch]; rfl⟩

/-- The route resolves the membership that the adapter does, and asks the limiter. -/
theorem getCurrentTenant_ok_iff {m : OrgMembership} :
    getCurrentTenant tenantId userId draw.allowed db = .ok m ↔
      resolveTenant userId tenantId db = .ok m ∧ draw.allowed = true := by
  have requested : ∀ a b : Failure, (∃ x, requestedId tenantId a = .ok x ∧
      requestedId tenantId b = .ok x) ∨ (∃ e, requestedId tenantId a = .error e) ∧
      ∃ e, requestedId tenantId b = .error e := by
    intro a b
    simp only [requestedId]
    cases tenantId with
    | none => exact Or.inl ⟨none, rfl, rfl⟩
    | some t =>
      by_cases empty : t = ""
      · exact Or.inl ⟨none, by simp [empty], by simp [empty]⟩
      · cases hp : Uuid.parse t with
        | none => exact Or.inr ⟨⟨a, by simp [empty, hp]⟩, ⟨b, by simp [empty, hp]⟩⟩
        | some u => exact Or.inl ⟨some u, by simp [empty, hp], by simp [empty, hp]⟩
  rw [getCurrentTenant, resolveTenant]
  rcases requested (.app (.validationError "X-Tenant-ID must be a valid UUID."))
    (.valueError "tenant_id must be a valid UUID.") with ⟨x, ha, hb⟩ | ⟨⟨e, ha⟩, ⟨e', hb⟩⟩
  · rw [ha, hb]
    cases hr : resolveMembership userId x db with
    | error e => simp [hr, bind, Except.bind]
    | ok m' =>
      cases draw.allowed <;> simp [hr, bind, Except.bind]
  · rw [ha, hb]
    simp [bind, Except.bind]

theorem validate_ok {body : SearchRequest} (h : SearchRequest.validate query topK = .ok body) :
    body.query = query ∧ body.topK = topK := by
  rw [SearchRequest.validate] at h
  split at h
  · split at h
    · cases h
      exact ⟨rfl, rfl⟩
    · split at h <;> cases h
  · split at h <;> cases h

theorem validate_of_fits (fits : 1 ≤ query.length ∧ query.length ≤ 2000)
    (range : 1 ≤ topK ∧ topK ≤ 50) :
    SearchRequest.validate query topK = .ok ⟨query, topK, fits, range⟩ := by
  rw [SearchRequest.validate, dif_pos fits, dif_pos range]

theorem sqlLimit_ok_iff {α : Type} {k : Int} {rows : List α} :
    (∃ found, sqlLimit k rows = .ok found) ↔ 0 ≤ k := by
  rw [sqlLimit]
  by_cases negative : k < 0
  · simp [negative]
  · simp [negative, not_lt.mp negative]

/-- Hybrid search returns unless the query cannot be embedded or sent, or the LIMIT is
negative: whatever goes wrong behind the two statements is caught. -/
theorem hybridSearch_ok_iff {index : SearchIndex} {text : TextMethods} {providers : Providers}
    {orgId : UUID} {k multiplier : Int} {dense sparse : RowLevelSecurity.SessionVars} :
    (∃ r, hybridSearch index text providers query orgId k multiplier dense sparse db = .ok r) ↔
      (∃ v, embedQuery index query = .ok v) ∧ 0 ≤ k * multiplier ∧ sendable query = true := by
  constructor
  · rintro ⟨r, h⟩
    rw [hybridSearch] at h
    obtain ⟨candidates, hc, h⟩ := of_bind_ok h
    obtain ⟨denseRows, hd, h⟩ := of_bind_ok h
    obtain ⟨sparseRows, hs, -⟩ := of_bind_ok h
    rw [hybridCandidates] at hc
    obtain ⟨v, hv, hc⟩ := of_bind_ok hc
    cases hc
    refine ⟨⟨v, hv⟩, sqlLimit_ok_iff.mp ⟨denseRows, hd⟩, ?_⟩
    cases sends : sendable query with
    | true => rfl
    | false => simp [sparseSql, sends] at hs
  · rintro ⟨⟨v, hv⟩, positive, sends⟩
    have limits : ∀ {α : Type} (rows : List α), ∃ found, sqlLimit (k * multiplier) rows = .ok found :=
      fun rows => sqlLimit_ok_iff.mpr positive
    obtain ⟨denseRows, hd⟩ : ∃ found, denseSql index v orgId (k * multiplier)
        (RowLevelSecurity.underPolicies dense db) = .ok found := limits _
    obtain ⟨sparseRows, hs⟩ : ∃ found, sparseSql index query orgId (k * multiplier)
        (RowLevelSecurity.underPolicies sparse db) = .ok found := by
      rw [sparseSql, sends]
      exact limits _
    simp only [hybridSearch, hybridCandidates, hv, hd, hs, bind, Except.bind]
    exact ⟨_, rfl⟩

theorem searchRoute_ok_iff (range : 1 ≤ topK ∧ topK ≤ 50) :
    (∃ response, searchRoute cfg draw userId tenantId query topK db = .ok response) ↔
      ¬ RouteRaises cfg draw userId tenantId query db := by
  have sign : 0 ≤ topK * cfg.candidateMultiplier ↔ ¬ cfg.candidateMultiplier < 0 := by
    have positive : 0 < topK := by omega
    rw [not_lt]
    constructor
    · exact fun h => not_lt.mp fun negative =>
        absurd (Int.mul_neg_of_pos_of_neg positive negative) (not_lt.mpr h)
    · exact fun h => Int.mul_nonneg positive.le h
  simp only [RouteRaises, not_or, not_not, Bool.not_eq_false, ← sign]
  constructor
  · rintro ⟨response, h⟩
    rw [searchRoute] at h
    obtain ⟨m, hm, h⟩ := of_bind_ok h
    obtain ⟨body, hbody, h⟩ := of_bind_ok h
    obtain ⟨found, hfound, -⟩ := of_bind_ok h
    obtain ⟨resolved, allowed⟩ := getCurrentTenant_ok_iff.mp hm
    obtain ⟨rfl, rfl⟩ := validate_ok hbody
    obtain ⟨encoded, positive, sends⟩ := hybridSearch_ok_iff.mp ⟨found, hfound⟩
    have short := body.query_length
    exact ⟨⟨m, resolved⟩, allowed, by omega, by omega, encoded, sends, positive⟩
  · rintro ⟨⟨m, resolved⟩, allowed, nonempty, short, encoded, sends, positive⟩
    have fits : 1 ≤ query.length ∧ query.length ≤ 2000 := ⟨by omega, by omega⟩
    have hbody := validate_of_fits fits range
    obtain ⟨found, hfound⟩ := hybridSearch_ok_iff.mpr ⟨encoded, positive, sends⟩
    have hm := getCurrentTenant_ok_iff.mpr ⟨resolved, allowed⟩
    simp only [searchRoute, hm, hbody, callHybridSearch, bind, Except.bind]
    rw [hfound]
    exact ⟨_, rfl⟩

/-- The adapter agrees with the route only where the route raises, since it always does,
whatever text it is given for the user. -/
theorem search_agrees_iff (user : String) (range : 1 ≤ topK ∧ topK ≤ 50) :
    Agrees (searchRoute cfg draw userId tenantId query topK db)
        (mcpSearch cfg draw user tenantId query topK db) ↔
      RouteRaises cfg draw userId tenantId query db := by
  obtain ⟨e, raised⟩ : ∃ e, mcpSearch cfg draw user tenantId query topK db = .error e :=
    mcpSearch_raises user
  rw [raised]
  constructor
  · rintro ⟨e', routeRaised⟩
    by_contra answers
    obtain ⟨response, answered⟩ := (searchRoute_ok_iff range).mpr answers
    cases answered.symm.trans routeRaised
  · intro raises
    cases answered : searchRoute cfg draw userId tenantId query topK db with
    | error e' => exact ⟨e', rfl⟩
    | ok response => exact absurd raises ((searchRoute_ok_iff range).mp ⟨response, answered⟩)

/-- A query of no characters is refused by both. -/
theorem search_agrees_empty_query :
    Agrees (searchRoute Demo.settings Demo.draw 1 none "" 5 Demo.store.db)
      (mcpSearch Demo.settings Demo.draw (str 1) none "" 5 Demo.store.db) :=
  (search_agrees_iff (str 1) (by decide)).mpr (Or.inr (Or.inr (Or.inl rfl)))

/-- The member of a tenant without documents gets an empty page from the route and an
error from the adapter. -/
theorem search_disagrees :
    ¬ Agrees (searchRoute Demo.settings Demo.draw 1 none "hello" 5 Demo.store.db)
      (mcpSearch Demo.settings Demo.draw (str 1) none "hello" 5 Demo.store.db) := by
  have route : searchRoute Demo.settings Demo.draw 1 none "hello" 5 Demo.store.db =
      .ok ⟨"hello", [], 0, none⟩ := by decide +kernel
  obtain ⟨e, raised⟩ : ∃ e, mcpSearch Demo.settings Demo.draw (str 1) none "hello" 5 Demo.store.db =
      .error e := mcpSearch_raises (str 1)
  rw [route, raised]
  rintro ⟨e', routeRaised⟩
  cases routeRaised

end Agreement

end FrontEnds
