import ResearchPlatform.TenantPlane
import ResearchPlatform.Library.Base64

/-!
# The two front ends

The HTTP routes and the tools of the MCP adapter over the same services. The
routes check the role before they write; the adapter resolves a membership and
uses only its organization. Between two requests anything else may commit, as
long as document ids stay a primary key.
-/

namespace FrontEnds

open Uuid Schema RowLevelSecurity DocumentService TenantService RetrievalService EvaluationService
  TenantPlane Machines OwnedRows

/-- The services, and the providers of hybrid search. -/
structure Settings where
  platform : Platform
  providers : Providers
  candidateMultiplier : Int

/-- What one request meets outside: the limiter's answer, the error of
`ensure_bucket` or of the final commit, and the two sessions of hybrid search. -/
structure Draw where
  outside : Outside
  allowed : Bool
  bucketError : Option String
  commitError : Option Failure
  dense : SessionVars
  sparse : SessionVars

inductive Reply where
  | result (result : Result)
  | search (results : List SearchResult) (answer : Option String)
  deriving DecidableEq, Repr

inductive HttpQuery where
  | listDocuments (cursor : Option String) (limit : Int)
  | getDocument (documentId : UUID)
  | listChunks (documentId : UUID) (cursor : Option String) (limit : Int)
  | listJobs (cursor : Option String) (limit : Int)
  | getJob (jobId : UUID)
  | listJobsForDocument (documentId : UUID)
  | search (query : String) (topK : Int)
  | semanticSearch (query : String) (topK : Int)
  | keywordSearch (query : String) (topK : Int)
  | evaluateRelevance (query : String) (chunkIds : List UUID)
  deriving DecidableEq, Repr

inductive HttpRoute where
  | uploadDocument (filename : Option String) (content : Bytes) (contentType : Option String)
      (idempotencyKey : String)
  | deleteDocument (documentId : UUID)
  | read (query : HttpQuery)
  deriving DecidableEq, Repr

inductive McpQuery where
  | listDocuments (cursor : Option String) (limit : Int)
  | getDocument (documentId : String)
  | search (query : String) (topK : Int)
  | getJob (jobId : String)
  | evaluateRelevance (query : String) (chunkIds : List String)
  deriving DecidableEq, Repr

inductive McpTool where
  | uploadDocument (filename contentBase64 idempotencyKey : String) (mimeType : Option String)
  | read (query : McpQuery)
  deriving DecidableEq, Repr

/-- A call through either front end; the HTTP user is authenticated, the MCP user
is an argument. -/
inductive Request where
  | http (userId : UUID) (xTenantId : Option String) (route : HttpRoute)
  | mcp (userId : String) (tenantId : Option String) (tool : McpTool)
  deriving DecidableEq, Repr

section Serving
variable (cfg : Settings)

/-! ## Resolving the tenant -/

/-- A tenant id that may be missing or empty. -/
def requestedId (text : Option String) (malformed : Failure) : Except Failure (Option UUID) :=
  match text with
  | none => .ok none
  | some t =>
    if t = "" then .ok none
    else match Uuid.parse t with
      | none => .error malformed
      | some u => .ok (some u)

/-- `get_current_tenant`; the context holds the membership's organization and role. -/
def getCurrentTenant (xTenantId : Option String) (userId : UUID) (allowed : Bool) (db : Database) :
    Except Failure OrgMembership := do
  let requestedOrgId ←
    requestedId xTenantId (.app (.validationError "X-Tenant-ID must be a valid UUID."))
  let membership ← resolveMembership userId requestedOrgId db
  if allowed then .ok membership
  else .error (.app (.rateLimitError "Rate limit exceeded. Try again later."))

/-- `_parse_uuid`. -/
def parseField (value fieldName : String) : Except Failure UUID :=
  match Uuid.parse value with
  | none => .error (.valueError (fieldName ++ " must be a valid UUID."))
  | some u => .ok u

/-- `_resolve_tenant_id`, which returns only the membership's organization. -/
def resolveTenant (userId : UUID) (tenantId : Option String) (db : Database) :
    Except Failure OrgMembership := do
  let requestedTenantId ← requestedId tenantId (.valueError "tenant_id must be a valid UUID.")
  resolveMembership userId requestedTenantId db

/-- The membership that the request resolves. -/
def Request.membership (draw : Draw) (db : Database) : Request → Except Failure OrgMembership
  | .http userId xTenantId _ => getCurrentTenant xTenantId userId draw.allowed db
  | .mcp userId tenantId _ => do
    let parsedUserId ← parseField userId "user_id"
    resolveTenant parsedUserId tenantId db

/-! ## Answers -/

def httpAnswer (tenantId : UUID) (draw : Draw) (db : Database) : HttpQuery → Except Failure Reply
  | .listDocuments cursor limit =>
    (answer cfg.platform tenantId db (.listDocuments cursor (min limit 100))).map .result
  | .getDocument documentId => (answer cfg.platform tenantId db (.getDocument documentId)).map .result
  | .listChunks documentId cursor limit => do
    let _ ← getDocument documentId tenantId db
    (answer cfg.platform tenantId db (.listChunks documentId cursor (min limit 100))).map .result
  | .listJobs cursor limit =>
    (answer cfg.platform tenantId db (.listJobs cursor (min limit 100))).map .result
  | .getJob jobId => do
    let job ← JobService.getJob jobId tenantId db
    if job.isNone then .error (.app (.notFoundError "IngestionJob" (str jobId)))
    else .ok (.result (.job job))
  | .listJobsForDocument documentId =>
    (answer cfg.platform tenantId db (.listJobsForDocument documentId)).map .result
  | .search query topK =>
    (hybridSearch cfg.platform.index cfg.platform.text cfg.providers query tenantId topK
      cfg.candidateMultiplier draw.dense draw.sparse db).map fun r => .search r.1 r.2
  | .semanticSearch query topK =>
    (answer cfg.platform tenantId db (.denseSearch query topK)).map .result
  | .keywordSearch query topK =>
    (answer cfg.platform tenantId db (.sparseSearch query topK)).map .result
  | .evaluateRelevance query chunkIds =>
    (answer cfg.platform tenantId db (.evaluateRelevance query chunkIds)).map .result

def mcpAnswer (userId : String) (tenantId : Option String) (db : Database) :
    McpQuery → Except Failure Reply
  | .listDocuments cursor limit => do
    let parsedUserId ← parseField userId "user_id"
    let membership ← resolveTenant parsedUserId tenantId db
    (answer cfg.platform membership.orgId db
      (.listDocuments cursor (min (max limit 1) 100))).map .result
  | .getDocument documentId => do
    let parsedUserId ← parseField userId "user_id"
    let membership ← resolveTenant parsedUserId tenantId db
    let parsedDocumentId ← parseField documentId "document_id"
    (answer cfg.platform membership.orgId db (.getDocument parsedDocumentId)).map .result
  | .search _ _ => do
    let parsedUserId ← parseField userId "user_id"
    let _ ← resolveTenant parsedUserId tenantId db
    -- the adapter passes no settings
    .error (.typeError "hybrid_search() missing 1 required positional argument: 'settings'")
  | .getJob jobId => do
    let parsedUserId ← parseField userId "user_id"
    let membership ← resolveTenant parsedUserId tenantId db
    let parsedJobId ← parseField jobId "job_id"
    (answer cfg.platform membership.orgId db (.getJob parsedJobId)).map .result
  | .evaluateRelevance query chunkIds => do
    let parsedChunkIds ← chunkIds.mapM fun chunkId => parseField chunkId "chunk_ids"
    let parsedUserId ← parseField userId "user_id"
    let membership ← resolveTenant parsedUserId tenantId db
    (answer cfg.platform membership.orgId db (.evaluateRelevance query parsedChunkIds)).map .result

/-! ## Requests -/

/-- The end of a request that has run `op`: a failure rolls the database back. -/
def finished (draw : Draw) (s : Store) (r : Except Failure Result × Store) :
    Except Failure Reply × Store :=
  match r.1, draw.commitError with
  | .error e, _ | .ok _, some e => (.error e, ⟨s.db, r.2.objects⟩)
  | .ok result, none => (.ok (.result result), r.2)

/-- `file.filename or "untitled"`. -/
def filenameOr (filename : Option String) : String :=
  match filename with
  | none => "untitled"
  | some name => if name = "" then "untitled" else name

def httpServe (userId : UUID) (xTenantId : Option String) (draw : Draw) (route : HttpRoute)
    (s : Store) : Except Failure Reply × Store :=
  match getCurrentTenant xTenantId userId draw.allowed s.db with
  | .error e => (.error e, s)
  | .ok tenant => match route with
    | .read query => (httpAnswer cfg tenant.orgId draw s.db query, s)
    | .uploadDocument filename content contentType idempotencyKey =>
      match requireRole tenant.role [.admin, .editor] with
      | .error e => (.error e, s)
      | .ok _ => finished draw s (perform cfg.platform userId tenant.orgId draw.outside
        (.uploadDocument (filenameOr filename) content contentType idempotencyKey) s)
    | .deleteDocument documentId =>
      match requireRole tenant.role [.admin, .editor] with
      | .error e => (.error e, s)
      | .ok _ => finished draw s (perform cfg.platform userId tenant.orgId draw.outside
        (.softDeleteDocument documentId) s)

/-- The adapter's `upload_document` up to its call of the service. -/
def mcpUpload (userId contentBase64 : String) (tenantId : Option String) (draw : Draw)
    (db : Database) : Except Failure (UUID × Bytes × OrgMembership) := do
  let parsedUserId ← parseField userId "user_id"
  let content ← (Base64.decodeStrict contentBase64.toList).mapError .valueError
  let membership ← resolveTenant parsedUserId tenantId db
  match draw.bucketError with
  | some message => .error (.app (.externalServiceError "MinIO" message))
  | none => .ok (parsedUserId, content, membership)

def mcpServe (userId : String) (tenantId : Option String) (draw : Draw) (tool : McpTool)
    (s : Store) : Except Failure Reply × Store :=
  match tool with
  | .read query => (mcpAnswer cfg userId tenantId s.db query, s)
  | .uploadDocument filename contentBase64 idempotencyKey mimeType =>
    match mcpUpload userId contentBase64 tenantId draw s.db with
    | .error e => (.error e, s)
    | .ok (parsedUserId, content, membership) =>
      finished draw s (perform cfg.platform parsedUserId membership.orgId draw.outside
        (.uploadDocument filename content mimeType idempotencyKey) s)

def serve (draw : Draw) (s : Store) : Request → Except Failure Reply × Store
  | .http userId xTenantId route => httpServe cfg userId xTenantId draw route s
  | .mcp userId tenantId tool => mcpServe cfg userId tenantId draw tool s

inductive Event where
  | request (r : Request) (draw : Draw)
  /-- whatever else commits: accounts, workers -/
  | background (s : Store)

def step (s : Store) : Event → Option Store
  | .request r draw => some (serve cfg draw s r).2
  | .background t => if (t.db.documents.map Document.id).Nodup then some t else none

def machine : Machine Store Event := ⟨step cfg⟩

def start : Store := ⟨Database.empty, fun _ => none⟩

end Serving

/-! ## What an upload inserts -/

/-- The upload gets as far as inserting its rows, and they go in. -/
structure Inserts (sha256 : Sha256) (u : Upload) (o : Outside) (db : Database) : Prop where
  unknown : findExistingUpload db (contentHash sha256 u.content) u.idempotencyKey u.tenantId = .ok none
  stored : o.uploadError = none
  fits : Insertable db (newDocument sha256 u o) (newJob u o)

section Uploads
variable {sha256 : Sha256} {u : Upload} {o : Outside} {db : Database}

theorem uploadDocument_of_inserts (h : Inserts sha256 u o db) (objects : ObjectStore) :
    (uploadDocument sha256 u o db objects).1 = .ok (newDocument sha256 u o, newJob u o) ∧
      (uploadDocument sha256 u o db objects).2.1 = { db with
        documents := db.documents ++ [(newDocument sha256 u o).row]
        ingestionJobs := db.ingestionJobs ++ [(newJob u o).row] } := by
  have inserted := (insertUpload_ok_iff rfl rfl rfl).mpr ⟨h.fits, rfl⟩
  simp [uploadDocument, h.unknown, h.stored, inserted]

theorem uploadDocument_same (h : ¬ Inserts sha256 u o db) (objects : ObjectStore) :
    (uploadDocument sha256 u o db objects).2.1 = db := by
  rw [uploadDocument]
  cases unknown : findExistingUpload db (contentHash sha256 u.content) u.idempotencyKey u.tenantId with
  | error e => rfl
  | ok hit =>
    cases hit with
    | some hit => rfl
    | none =>
      cases stored : o.uploadError with
      | some message => rfl
      | none =>
        cases hi : insertUpload db (newDocument sha256 u o) (newJob u o) with
        | ok db' =>
          have fits := ((insertUpload_ok_iff rfl rfl rfl).mp hi).1
          exact absurd ⟨unknown, stored, fits⟩ h
        | error e => cases e <;> rfl

theorem uploadDocument_docIds (docIds : (db.documents.map Document.id).Nodup)
    (objects : ObjectStore) :
    ((uploadDocument sha256 u o db objects).2.1.documents.map Document.id).Nodup := by
  by_cases h : Inserts sha256 u o db
  · rw [(uploadDocument_of_inserts h objects).2]
    exact RowVersions.nodup_concat docIds h.fits.docFresh
  · rwa [uploadDocument_same h objects]

end Uploads

/-! ## Who may change what -/

/-- A document or job row of the tenant is created, changed or deleted. -/
def Touches (tenantId : UUID) (s t : Store) : Prop :=
  owned Document.tenantId tenantId t.db.documents ≠ owned Document.tenantId tenantId s.db.documents ∨
    owned IngestionJob.tenantId tenantId t.db.ingestionJobs ≠
      owned IngestionJob.tenantId tenantId s.db.ingestionJobs

/-- Whatever the request changes belongs to a tenant in which the membership that
the request resolves has the role admin or editor. -/
def RolesEnforced (s : Store) : Event → Store → Prop
  | .background _, _ => True
  | .request r draw, t => ∀ tenantId, Touches tenantId s t →
    ∃ m, r.membership draw s.db = .ok m ∧ m.orgId = tenantId ∧ m.role ∈ [Role.admin, .editor]

/-- An MCP upload on behalf of a viewer whose rows are inserted and committed. -/
def ViewerUpload (cfg : Settings) (s : Store) (e : Event) : Prop :=
  ∃ userId tenantId filename contentBase64 idempotencyKey mimeType draw,
    e = .request (.mcp userId tenantId
      (.uploadDocument filename contentBase64 idempotencyKey mimeType)) draw ∧
    draw.commitError = none ∧
    ∃ parsedUserId content m,
      mcpUpload userId contentBase64 tenantId draw s.db = .ok (parsedUserId, content, m) ∧
      m.role = .viewer ∧
      Inserts cfg.platform.sha256 ⟨filename, content, mimeType, idempotencyKey, parsedUserId, m.orgId⟩
        draw.outside s.db

section Requests
variable {cfg : Settings} {s t : Store} {draw : Draw} {tenantId userId : UUID} {op : Operation}

theorem not_touches_of_db (same : t.db = s.db) : ¬ Touches tenantId s t := by
  rintro (documents | jobs)
  · exact documents (by rw [same])
  · exact jobs (by rw [same])

/-- A service call leaves every other tenant's documents and jobs alone. -/
theorem perform_elsewhere (pf : Platform) (o : Outside)
    (docIds : (s.db.documents.map Document.id).Nodup) {b : UUID} (other : b ≠ tenantId) :
    ¬ Touches b s (perform pf userId tenantId o op s).2 := by
  have kept : others Document.tenantId tenantId (perform pf userId tenantId o op s).2.db.documents =
      others Document.tenantId tenantId s.db.documents ∧
      others IngestionJob.tenantId tenantId (perform pf userId tenantId o op s).2.db.ingestionJobs =
        others IngestionJob.tenantId tenantId s.db.ingestionJobs := by
    cases op with
    | uploadDocument filename content mimeType idempotencyKey =>
      have whole := upload_kept ⟨filename, content, mimeType, idempotencyKey, userId, tenantId⟩ rfl o
        pf.sha256 s
      exact ⟨whole.documents, whole.ingestionJobs⟩
    | softDeleteDocument documentId =>
      refine ⟨softDelete_others documentId o.now o.deleteError docIds s.objects, ?_⟩
      rcases softDeleteDocument_db documentId tenantId o.now o.deleteError s.db s.objects with
        same | ⟨_, marked⟩
      · simp only [perform, same]
      · simp only [perform, marked]
    | read query => exact ⟨rfl, rfl⟩
  rintro (documents | jobs)
  · exact documents (owned_of_others_eq other kept.1)
  · exact jobs (owned_of_others_eq other kept.2)

theorem perform_docIds (pf : Platform) (o : Outside)
    (docIds : (s.db.documents.map Document.id).Nodup) :
    ((perform pf userId tenantId o op s).2.db.documents.map Document.id).Nodup := by
  cases op with
  | uploadDocument filename content mimeType idempotencyKey => exact uploadDocument_docIds docIds s.objects
  | softDeleteDocument documentId =>
    rcases softDeleteDocument_db documentId tenantId o.now o.deleteError s.db s.objects with
      same | ⟨_, marked⟩
    · simpa only [perform, same] using docIds
    · simpa [perform, marked, Function.comp_def, deletedAs_id] using docIds
  | read query => exact docIds

/-- A request ends with the database as it was, or commits what the service did. -/
theorem finished_db (draw : Draw) (s : Store) (r : Except Failure Result × Store) :
    (finished draw s r).2.db = s.db ∨
      draw.commitError = none ∧ (finished draw s r).2.db = r.2.db := by
  rw [finished]
  cases r.1 with
  | error e => exact Or.inl rfl
  | ok result =>
    cases draw.commitError with
    | some e => exact Or.inl rfl
    | none => exact Or.inr ⟨rfl, rfl⟩

theorem finished_touches (docIds : (s.db.documents.map Document.id).Nodup) {b : UUID}
    (h : Touches b s
      (finished draw s (perform cfg.platform userId tenantId draw.outside op s)).2) :
    b = tenantId ∧ draw.commitError = none ∧
      Touches b s (perform cfg.platform userId tenantId draw.outside op s).2 := by
  rcases finished_db draw s (perform cfg.platform userId tenantId draw.outside op s) with
    same | ⟨commits, done⟩
  · exact absurd h (not_touches_of_db same)
  · have written : Touches b s (perform cfg.platform userId tenantId draw.outside op s).2 := by
      rwa [Touches, done] at h
    refine ⟨?_, commits, written⟩
    by_contra other
    exact perform_elsewhere cfg.platform draw.outside docIds other written

/-- Every route checks the role before it writes. -/
theorem http_enforced {user : UUID} {xTenantId : Option String} {route : HttpRoute}
    (docIds : (s.db.documents.map Document.id).Nodup) :
    RolesEnforced s (.request (.http user xTenantId route) draw)
      (httpServe cfg user xTenantId draw route s).2 := by
  intro b touched
  simp only [Request.membership]
  rw [httpServe] at touched
  cases hm : getCurrentTenant xTenantId user draw.allowed s.db with
  | error e =>
    rw [hm] at touched
    exact absurd touched (not_touches_of_db rfl)
  | ok tenant =>
    rw [hm] at touched
    have checked : ∀ {op : Operation}, Touches b s (match requireRole tenant.role [.admin, .editor] with
        | .error e => ((.error e, s) : Except Failure Reply × Store)
        | .ok _ => finished draw s (perform cfg.platform user tenant.orgId draw.outside op s)).2 →
        tenant.orgId = b ∧ tenant.role ∈ [Role.admin, .editor] := by
      intro op touched
      cases role : requireRole tenant.role [.admin, .editor] with
      | error e =>
        rw [role] at touched
        exact absurd touched (not_touches_of_db rfl)
      | ok _ =>
        rw [role] at touched
        exact ⟨(finished_touches docIds touched).1.symm, requireRole_ok_iff.mp role⟩
    cases route with
    | read query => exact absurd touched (not_touches_of_db rfl)
    | uploadDocument filename content contentType idempotencyKey => exact ⟨tenant, rfl, checked touched⟩
    | deleteDocument documentId => exact ⟨tenant, rfl, checked touched⟩

theorem membership_of_mcpUpload (tool : McpTool) {user contentBase64 : String}
    {tenant : Option String} {parsedUserId : UUID} {content : Bytes} {m : OrgMembership}
    (h : mcpUpload user contentBase64 tenant draw s.db = .ok (parsedUserId, content, m)) :
    Request.membership draw s.db (.mcp user tenant tool) = .ok m := by
  obtain ⟨u, hu, h⟩ := of_bind_ok h
  obtain ⟨c, _, h⟩ := of_bind_ok h
  obtain ⟨x, hx, h⟩ := of_bind_ok h
  cases hb : draw.bucketError with
  | some message =>
    rw [hb] at h
    cases h
  | none =>
    rw [hb] at h
    cases h
    rw [Request.membership, hu]
    exact hx

/-- The adapter's upload checks no role, so it is the role that decides. -/
theorem mcp_upload_enforced_iff {user filename contentBase64 idempotencyKey : String}
    {tenant mimeType : Option String} (docIds : (s.db.documents.map Document.id).Nodup) :
    RolesEnforced s
        (.request (.mcp user tenant
          (.uploadDocument filename contentBase64 idempotencyKey mimeType)) draw)
        (mcpServe cfg user tenant draw
          (.uploadDocument filename contentBase64 idempotencyKey mimeType) s).2 ↔
      ¬ ∃ parsedUserId content m,
        mcpUpload user contentBase64 tenant draw s.db = .ok (parsedUserId, content, m) ∧
        m.role = .viewer ∧ draw.commitError = none ∧
        Inserts cfg.platform.sha256
          ⟨filename, content, mimeType, idempotencyKey, parsedUserId, m.orgId⟩ draw.outside s.db := by
  rw [mcpServe]
  cases hu : mcpUpload user contentBase64 tenant draw s.db with
  | error e =>
    refine iff_of_true (fun b touched => absurd touched (not_touches_of_db rfl)) ?_
    rintro ⟨_, _, _, fails, _⟩
    cases fails
  | ok found =>
    obtain ⟨parsedUserId, content, m⟩ := found
    have member := membership_of_mcpUpload
      (.uploadDocument filename contentBase64 idempotencyKey mimeType) hu
    constructor
    · rintro enforced ⟨_, _, _, same, viewer, commits, inserts⟩
      cases same
      have grown := uploadDocument_of_inserts inserts s.objects
      have touched : Touches m.orgId s (finished draw s (perform cfg.platform parsedUserId m.orgId
          draw.outside (.uploadDocument filename content mimeType idempotencyKey) s)).2 := by
        have own : (newDocument cfg.platform.sha256
            ⟨filename, content, mimeType, idempotencyKey, parsedUserId, m.orgId⟩
            draw.outside).row.tenantId = m.orgId := rfl
        refine Or.inl ?_
        simp only [finished, perform, grown.1, grown.2, commits, Except.map]
        rw [owned_concat own]
        simp
      obtain ⟨m', hm', _, role⟩ := enforced m.orgId touched
      rw [member] at hm'
      cases hm'
      rw [viewer] at role
      exact absurd role (by decide)
    · intro refused b touched
      obtain ⟨rfl, commits, written⟩ := finished_touches docIds touched
      refine ⟨m, member, rfl, ?_⟩
      cases role : m.role with
      | admin => exact List.mem_cons_self
      | editor => exact List.mem_cons_of_mem _ List.mem_cons_self
      | viewer =>
        have inserts : Inserts cfg.platform.sha256
            ⟨filename, content, mimeType, idempotencyKey, parsedUserId, m.orgId⟩ draw.outside s.db := by
          by_contra absent
          exact not_touches_of_db (uploadDocument_same absent s.objects) written
        exact absurd ⟨parsedUserId, content, m, rfl, role, commits, inserts⟩ refused

/-! ## Runs -/

theorem roles_enforced_step (docIds : (s.db.documents.map Document.id).Nodup) {e : Event}
    (hs : (machine cfg).step s e = some t) : RolesEnforced s e t ↔ ¬ ViewerUpload cfg s e := by
  cases e with
  | background s' =>
    refine iff_of_true trivial ?_
    rintro ⟨_, _, _, _, _, _, _, other, _⟩
    cases other
  | request r draw =>
    simp only [machine, step, Option.some.injEq] at hs
    subst hs
    cases r with
    | http user xTenantId route =>
      refine iff_of_true (http_enforced docIds) ?_
      rintro ⟨_, _, _, _, _, _, _, other, _⟩
      cases other
    | mcp user tenant tool =>
      cases tool with
      | read query =>
        refine iff_of_true (fun b touched => absurd touched (not_touches_of_db rfl)) ?_
        rintro ⟨_, _, _, _, _, _, _, other, _⟩
        cases other
      | uploadDocument filename contentBase64 idempotencyKey mimeType =>
        refine (mcp_upload_enforced_iff docIds).trans (not_congr ?_)
        constructor
        · rintro ⟨u, content, m, found, viewer, commits, inserts⟩
          exact ⟨user, tenant, filename, contentBase64, idempotencyKey, mimeType, draw, rfl, commits,
            u, content, m, found, viewer, inserts⟩
        · rintro ⟨_, _, _, _, _, _, _, same, commits, u, content, m, found, viewer, inserts⟩
          cases same
          exact ⟨u, content, m, found, viewer, commits, inserts⟩

theorem docIds_step {e : Event} (docIds : (s.db.documents.map Document.id).Nodup)
    (hs : (machine cfg).step s e = some t) : (t.db.documents.map Document.id).Nodup := by
  have ended : ∀ {draw : Draw} {userId tenantId : UUID} {op : Operation},
      ((finished draw s (perform cfg.platform userId tenantId draw.outside op s)).2.db.documents.map
        Document.id).Nodup := by
    intro draw userId tenantId op
    rcases finished_db draw s (perform cfg.platform userId tenantId draw.outside op s) with
      same | ⟨_, done⟩
    · rwa [same]
    · rw [done]
      exact perform_docIds cfg.platform draw.outside docIds
  simp only [machine] at hs
  cases e with
  | background s' =>
    simp only [step] at hs
    split at hs
    · rename_i unique
      cases hs
      exact unique
    · cases hs
  | request r draw =>
    simp only [step, Option.some.injEq] at hs
    subst hs
    cases r with
    | http user xTenantId route =>
      simp only [serve, httpServe]
      split
      · exact docIds
      · split
        · exact docIds
        · split
          · exact docIds
          · exact ended
        · split
          · exact docIds
          · exact ended
    | mcp user tenant tool =>
      simp only [serve, mcpServe]
      split
      · exact docIds
      · split
        · exact docIds
        · exact ended

/-- In exactly those runs in which no MCP upload of a viewer inserts its rows,
every request changes documents and jobs only of a tenant in which its membership
is that of an admin or an editor. -/
theorem roles_enforced_iff (cfg : Settings) (es : List Event) :
    (machine cfg).EveryStep RolesEnforced start es ↔
      (machine cfg).EveryStep (fun s e _ => ¬ ViewerUpload cfg s e) start es :=
  Machine.everyStep_congr (I := fun s : Store => (s.db.documents.map Document.id).Nodup)
    (fun _ _ _ docIds hs => roles_enforced_step docIds hs)
    (fun _ _ _ docIds hs _ => docIds_step docIds hs) List.nodup_nil

end Requests

namespace Demo

def settings : Settings where
  platform := TenantPlane.Demo.platform
  providers := ⟨none, none⟩
  candidateMultiplier := 2

/-- One tenant, whose only member is a viewer. -/
def store : Store where
  db := { Database.empty with
    users := [⟨1, "a@example.com", true⟩]
    organizations := [⟨2, "A", "a", 0⟩]
    orgMemberships := [⟨3, 2, 1, .viewer, 0⟩] }
  objects _ := none

def upload : Request :=
  .mcp (str 1) none (.uploadDocument "a.txt" "aGVsbG8=" "k" (some "text/plain"))

def draw : Draw := ⟨⟨4, 5, 10, none, none⟩, true, none, none, ⟨none, none⟩, ⟨none, none⟩⟩

end Demo

theorem viewer_uploads_through_mcp :
    ¬ (machine Demo.settings).EveryStep RolesEnforced start
      [.background Demo.store, .request Demo.upload Demo.draw] := by
  intro every
  have enforced := (((every Demo.store rfl).2 _ rfl).1 : RolesEnforced Demo.store
    (.request Demo.upload Demo.draw) (serve Demo.settings Demo.draw Demo.store Demo.upload).2)
  obtain ⟨m, hm, _, role⟩ := enforced 2 (Or.inl (by decide +kernel))
  have viewer : Demo.upload.membership Demo.draw Demo.store.db =
      .ok ⟨3, 2, 1, .viewer, 0⟩ := by decide +kernel
  rw [viewer] at hm
  cases hm
  exact absurd role (by decide)

end FrontEnds
