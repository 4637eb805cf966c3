import ResearchPlatform.Schema
import ResearchPlatform.Library.Joins

/-!
# Migration 0002: a workspace for every user

The data steps of `upgrade` over the tables of schema 0001, statement by statement:
the two inserts, the new columns, the three updates that fill them, and the
constraints that are then put on them.
-/

namespace Migration

open Uuid Schema Joins

/-! ## Schema 0001 -/

namespace Initial

structure Document where
  id : UUID
  userId : UUID
  filename : String
  contentHash : String
  sizeBytes : Nat
  mimeType : Option String
  storageKey : Option String
  status : DocumentStatus
  chunkCount : Nat
  errorMessage : Option String
  createdAt : Time
  updatedAt : Time
  deletedAt : Option Time
  deriving DecidableEq, Repr

structure Chunk where
  id : UUID
  documentId : UUID
  userId : UUID
  content : String
  pageNumber : Option Nat
  chunkIndex : Nat
  embedding : Embedding
  createdAt : Time
  deriving DecidableEq, Repr

structure IngestionJob where
  id : UUID
  documentId : UUID
  userId : UUID
  status : JobStatus
  idempotencyKey : String
  workerId : Option Nat
  attemptCount : Nat
  maxAttempts : Nat
  version : Nat
  errorMessage : Option String
  claimedAt : Option Time
  startedAt : Option Time
  completedAt : Option Time
  createdAt : Time
  deriving DecidableEq, Repr

structure Database where
  users : List User
  documents : List Document
  chunks : List Chunk
  ingestionJobs : List IngestionJob
  deriving DecidableEq, Repr

/-- The keys, references and unique constraints of schema 0001. -/
structure Constraints (db : Database) : Prop where
  userIds : (db.users.map User.id).Nodup
  emails : (db.users.map User.email).Nodup
  emailFits : ∀ u ∈ db.users, fitsVarchar 255 u.email = true
  documentIds : (db.documents.map Document.id).Nodup
  documentUsers : ∀ d ∈ db.documents, ∃ u ∈ db.users, u.id = d.userId
  contents : (db.documents.map fun d => (d.userId, d.contentHash)).Nodup
  chunkIds : (db.chunks.map Chunk.id).Nodup
  chunkDocuments : ∀ c ∈ db.chunks, ∃ d ∈ db.documents, d.id = c.documentId
  chunkUsers : ∀ c ∈ db.chunks, ∃ u ∈ db.users, u.id = c.userId
  jobIds : (db.ingestionJobs.map IngestionJob.id).Nodup
  jobDocuments : ∀ j ∈ db.ingestionJobs, ∃ d ∈ db.documents, d.id = j.documentId
  jobUsers : ∀ j ∈ db.ingestionJobs, ∃ u ∈ db.users, u.id = j.userId
  idempotencyKeys : (db.ingestionJobs.map fun j => (j.userId, j.idempotencyKey)).Nodup

/-- Chunks and jobs have the user of their document, which schema 0001 does not check. -/
structure OwnersAgree (db : Database) : Prop where
  chunks : ∀ c ∈ db.chunks, ∀ d ∈ db.documents, d.id = c.documentId → c.userId = d.userId
  jobs : ∀ j ∈ db.ingestionJobs, ∀ d ∈ db.documents, d.id = j.documentId → j.userId = d.userId

def Document.withTenant (d : Document) (tenantId : UUID) : Schema.Document :=
  ⟨d.id, d.userId, tenantId, d.filename, d.contentHash, d.sizeBytes, d.mimeType, d.storageKey, d.status,
    d.chunkCount, d.errorMessage, d.createdAt, d.updatedAt, d.deletedAt⟩

def Chunk.withTenant (c : Chunk) (tenantId : UUID) : Schema.Chunk :=
  ⟨c.id, c.documentId, c.userId, tenantId, c.content, c.pageNumber, c.chunkIndex, c.embedding,
    c.createdAt⟩

def IngestionJob.withTenant (j : IngestionJob) (tenantId : UUID) : Schema.IngestionJob :=
  ⟨j.id, j.documentId, j.userId, tenantId, j.status, j.idempotencyKey, j.workerId, j.attemptCount,
    j.maxAttempts, j.version, j.errorMessage, j.claimedAt, j.startedAt, j.completedAt, j.createdAt⟩

end Initial

/-! ## The statements -/

/-- What the database draws: an id for the organization of each user, an id for each
membership, and the time of the transaction. -/
structure Draws where
  orgId : UUID → UUID
  membershipId : UUID → UUID → UUID
  now : Time

/-- A statement fails where a row breaks a constraint. -/
def require (holds : Prop) [Decidable holds] (failure : Failure) : Except Failure Unit :=
  if holds then .ok () else .error failure

/-- `split_part(text, delimiter, 1)`. -/
def splitPart (text : String) (delimiter : Char) : String :=
  String.ofList (text.toList.takeWhile (· ≠ delimiter))

/-- `'user-' || id::text`. -/
def personalSlug (userId : UUID) : String := "user-" ++ str userId

def personalOrganization (draws : Draws) (u : User) : Organization :=
  ⟨draws.orgId u.id, splitPart u.email '@' ++ "'s Workspace", personalSlug u.id, draws.now⟩

/-- `INSERT INTO organizations … SELECT … FROM users`. -/
def insertOrganizations (draws : Draws) (users : List User) : Except Failure (List Organization) := do
  let selected := users.map (personalOrganization draws)
  require (∀ o ∈ selected, fitsVarchar 255 o.name) (.dataError "organizations.name")
  require (∀ o ∈ selected, fitsVarchar 100 o.slug) (.dataError "organizations.slug")
  let rows := selected.map Organization.row
  require (rows.map Organization.id).Nodup (.integrityError "pk_organizations")
  require (rows.map Organization.slug).Nodup (.integrityError "uq_organizations_slug")
  return rows

def adminMembership (draws : Draws) (u : User) (o : Organization) : OrgMembership :=
  ⟨draws.membershipId o.id u.id, o.id, u.id, .admin, draws.now⟩

/-- `INSERT INTO org_memberships … SELECT … FROM users JOIN organizations`. -/
def insertMemberships (draws : Draws) (users : List User) (organizations : List Organization) :
    Except Failure (List OrgMembership) := do
  let rows := (joinOn (fun u o => decide (o.slug = personalSlug u.id)) users organizations).map
    fun (u, o) => adminMembership draws u o
  require (rows.map OrgMembership.id).Nodup (.integrityError "pk_org_memberships")
  require (∀ m ∈ rows, ∃ o ∈ organizations, o.id = m.orgId)
    (.integrityError "fk_org_memberships_org_id_organizations")
  require (∀ m ∈ rows, ∃ u ∈ users, u.id = m.userId)
    (.integrityError "fk_org_memberships_user_id_users")
  require (rows.map fun m => (m.orgId, m.userId)).Nodup (.integrityError "uq_org_memberships_org_user")
  return rows

/-- A row of a table with the new nullable column. -/
structure Widened (ρ : Type) where
  row : ρ
  tenantId : Option UUID
  deriving DecidableEq, Repr

section Columns
variable {ρ : Type}

/-- `op.add_column(table, sa.Column("tenant_id", sa.Uuid(), nullable=True))`. -/
def addColumn (rows : List ρ) : List (Widened ρ) := rows.map fun r => ⟨r, none⟩

/-- `op.alter_column(table, "tenant_id", nullable=False)`. -/
def setNotNull (column : String) (rows : List (Widened ρ)) : Except Failure (List (ρ × UUID)) :=
  rows.mapM fun r => match r.tenantId with
    | none => .error (.integrityError column)
    | some tenantId => .ok (r.row, tenantId)

/-- `op.create_foreign_key(name, table, "organizations", ["tenant_id"], ["id"])`. -/
def createForeignKey (name : String) (rows : List (ρ × UUID)) (organizations : List Organization) :
    Except Failure Unit :=
  require (∀ r ∈ rows, ∃ o ∈ organizations, o.id = r.2) (.integrityError name)

/-- `op.create_unique_constraint(name, table, ["tenant_id", column])`. -/
def createUniqueConstraint (name : String) (column : ρ → String) (rows : List (ρ × UUID)) :
    Except Failure Unit :=
  require (rows.map fun r => (r.2, column r.1)).Nodup (.integrityError name)

end Columns

/-- `UPDATE documents SET tenant_id = organizations.id FROM organizations …`. -/
def updateDocuments (organizations : List Organization) (documents : List (Widened Initial.Document)) :
    List (Widened Initial.Document) :=
  updateFrom (fun d o => decide (o.slug = personalSlug d.row.userId))
    (fun d o => { d with tenantId := some o.id }) organizations documents

/-- `UPDATE chunks SET tenant_id = documents.tenant_id FROM documents …`, and the same
statement for `ingestion_jobs`. -/
def updateFromDocuments {ρ : Type} (documentId : ρ → UUID)
    (documents : List (Widened Initial.Document)) (rows : List (Widened ρ)) : List (Widened ρ) :=
  updateFrom (fun r d => decide (d.row.id = documentId r.row))
    (fun r d => { r with tenantId := d.tenantId }) documents rows

def upgrade (draws : Draws) (db : Initial.Database) : Except Failure Database := do
  let organizations ← insertOrganizations draws db.users
  let orgMemberships ← insertMemberships draws db.users organizations
  let documents := updateDocuments organizations (addColumn db.documents)
  let chunks := updateFromDocuments Initial.Chunk.documentId documents (addColumn db.chunks)
  let ingestionJobs :=
    updateFromDocuments Initial.IngestionJob.documentId documents (addColumn db.ingestionJobs)
  let documents ← setNotNull "documents.tenant_id" documents
  let chunks ← setNotNull "chunks.tenant_id" chunks
  let ingestionJobs ← setNotNull "ingestion_jobs.tenant_id" ingestionJobs
  createForeignKey "fk_documents_tenant_id_organizations" documents organizations
  createForeignKey "fk_chunks_tenant_id_organizations" chunks organizations
  createForeignKey "fk_ingestion_jobs_tenant_id_organizations" ingestionJobs organizations
  createUniqueConstraint "uq_documents_tenant_content" Initial.Document.contentHash documents
  createUniqueConstraint "uq_jobs_tenant_idempotency" Initial.IngestionJob.idempotencyKey ingestionJobs
  return ⟨db.users, organizations, orgMemberships, documents.map fun (d, t) => d.withTenant t,
    chunks.map fun (c, t) => c.withTenant t, ingestionJobs.map fun (j, t) => j.withTenant t⟩

/-! ## Each statement on a database of schema 0001 -/

/-- No two rows of a table draw one id. -/
structure DrawsApart (draws : Draws) (users : List User) : Prop where
  organizations : (users.map fun u => draws.orgId u.id).Nodup
  memberships : (users.map fun u => draws.membershipId (draws.orgId u.id) u.id).Nodup

theorem require_of {holds : Prop} [Decidable holds] (failure : Failure) (h : holds) :
    require holds failure = .ok () := if_pos h

theorem length_personalSlug (userId : UUID) : (personalSlug userId).length = 41 := by
  rw [personalSlug, String.length_append, length_str]
  rfl

theorem personalSlug_injective {a b : UUID} (h : personalSlug a = personalSlug b) : a = b := by
  have chars := congrArg String.toList h
  rw [personalSlug, personalSlug, String.toList_append, String.toList_append] at chars
  exact str_injective (String.toList_injective (List.append_cancel_left chars))

section Statements
variable {draws : Draws} {users : List User}

theorem length_name {u : User} (short : (splitPart u.email '@').length ≤ 243) :
    (personalOrganization draws u).name.length ≤ 255 := by
  have suffix : "'s Workspace".length = 12 := by decide
  rw [personalOrganization, String.length_append]
  omega

/-- A user's part before the '@' and the suffix are a name. -/
theorem name_fits {u : User} (stored : fitsVarchar 255 u.email = true)
    (short : (splitPart u.email '@').length ≤ 243) :
    fitsVarchar 255 (personalOrganization draws u).name = true := by
  refine fitsVarchar_of_length_le ?_ (length_name short)
  simp only [fitsVarchar, sendable, Bool.and_eq_true, Bool.not_eq_true', List.contains_eq_mem,
    decide_eq_false_iff_not] at stored ⊢
  intro nul
  rw [personalOrganization, String.toList_append, splitPart, String.toList_ofList] at nul
  rcases List.mem_append.mp nul with nul | nul
  · exact stored.1 ((List.takeWhile_sublist _).mem nul)
  · exact absurd nul (by decide)

theorem length_slug_le (userId : UUID) : (personalSlug userId).length ≤ 100 := by
  rw [length_personalSlug]
  decide

theorem slug_fits (userId : UUID) : fitsVarchar 100 (personalSlug userId) = true := by
  refine fitsVarchar_of_length_le ?_ (length_slug_le userId)
  have nul : '\x00' ∉ (personalSlug userId).toList := by
    rw [personalSlug, String.toList_append]
    intro nul
    rcases List.mem_append.mp nul with nul | nul
    · exact absurd nul (by decide)
    · exact str_no_nul userId nul
  simp [sendable, nul]

/-- Nothing is cut off the rows. -/
theorem rows_selected (short : ∀ u ∈ users, (splitPart u.email '@').length ≤ 243) :
    (users.map (personalOrganization draws)).map Organization.row = users.map (personalOrganization draws) := by
  rw [List.map_map]
  exact List.map_congr_left fun u mem => Organization.row_of_short (length_name (short u mem)) (length_slug_le u.id)

theorem slugs_nodup (ids : (users.map User.id).Nodup) :
    ((users.map (personalOrganization draws)).map Organization.slug).Nodup := by
  have slugs : (users.map (personalOrganization draws)).map Organization.slug =
      (users.map User.id).map personalSlug := by
    rw [List.map_map, List.map_map]
    rfl
  rw [slugs]
  exact ids.map fun _ _ => personalSlug_injective

theorem insertOrganizations_ok (ids : (users.map User.id).Nodup)
    (stored : ∀ u ∈ users, fitsVarchar 255 u.email = true)
    (short : ∀ u ∈ users, (splitPart u.email '@').length ≤ 243) (apart : DrawsApart draws users) :
    insertOrganizations draws users = .ok (users.map (personalOrganization draws)) := by
  have names : ∀ o ∈ users.map (personalOrganization draws), fitsVarchar 255 o.name = true :=
    List.forall_mem_map.mpr fun u mem => name_fits (stored u mem) (short u mem)
  have slugs : ∀ o ∈ users.map (personalOrganization draws), fitsVarchar 100 o.slug = true :=
    List.forall_mem_map.mpr fun u _ => slug_fits u.id
  have keys : ((users.map (personalOrganization draws)).map Organization.id).Nodup := by
    rw [List.map_map]
    exact apart.organizations
  simp only [insertOrganizations, rows_selected short]
  rw [require_of _ names, require_of _ slugs, require_of _ keys, require_of _ (slugs_nodup ids)]
  rfl

/-- The slug of a user names the organization that was made for it, and no other. -/
theorem organization_of_slug (ids : (users.map User.id).Nodup) {u : User} (mem : u ∈ users) :
    ((users.map (personalOrganization draws)).filter fun o => o.slug = personalSlug u.id) =
      [personalOrganization draws u] :=
  filter_key Organization.slug (slugs_nodup ids) (List.mem_map_of_mem mem)

theorem insertMemberships_ok (ids : (users.map User.id).Nodup) (apart : DrawsApart draws users) :
    insertMemberships draws users (users.map (personalOrganization draws)) =
      .ok (users.map fun u => adminMembership draws u (personalOrganization draws u)) := by
  have joined : joinOn (fun (u : User) (o : Organization) => decide (o.slug = personalSlug u.id))
      users (users.map (personalOrganization draws)) =
      users.map fun u => (u, personalOrganization draws u) :=
    joinOn_of_partner fun u mem => organization_of_slug ids mem
  have rows : ((joinOn (fun (u : User) (o : Organization) => decide (o.slug = personalSlug u.id))
      users (users.map (personalOrganization draws))).map fun (u, o) => adminMembership draws u o) =
      users.map fun u => adminMembership draws u (personalOrganization draws u) := by
    rw [joined, List.map_map]
    rfl
  have keys : ((users.map fun u => adminMembership draws u (personalOrganization draws u)).map
      OrgMembership.id).Nodup := by
    rw [List.map_map]
    exact apart.memberships
  have organizations : ∀ m ∈ users.map fun u => adminMembership draws u (personalOrganization draws u),
      ∃ o ∈ users.map (personalOrganization draws), o.id = m.orgId :=
    List.forall_mem_map.mpr fun u mem => ⟨_, List.mem_map_of_mem mem, rfl⟩
  have known : ∀ m ∈ users.map fun u => adminMembership draws u (personalOrganization draws u),
      ∃ u ∈ users, u.id = m.userId :=
    List.forall_mem_map.mpr fun u mem => ⟨u, mem, rfl⟩
  have pairs : ((users.map fun u => adminMembership draws u (personalOrganization draws u)).map
      fun m => (m.orgId, m.userId)).Nodup := by
    refine List.Nodup.of_map Prod.snd ?_
    rw [List.map_map, List.map_map]
    exact ids
  simp only [insertMemberships, rows]
  rw [require_of _ keys, require_of _ organizations, require_of _ known, require_of _ pairs]
  rfl

theorem updateDocuments_eq (draws : Draws) (ids : (users.map User.id).Nodup) {documents : List Initial.Document}
    (known : ∀ d ∈ documents, ∃ u ∈ users, u.id = d.userId) :
    updateDocuments (users.map (personalOrganization draws)) (addColumn documents) =
      documents.map fun d => ⟨d, some (draws.orgId d.userId)⟩ := by
  rw [updateDocuments, updateFrom_of_partner
    (fun d => ⟨d.row, some (draws.orgId d.row.userId)⟩), addColumn, List.map_map]
  · rfl
  · refine List.forall_mem_map.mpr fun d mem => ?_
    obtain ⟨u, hu, same⟩ := known d mem
    refine ⟨personalOrganization draws u, ?_, ?_⟩
    · rw [← same]
      exact organization_of_slug ids hu
    · rw [← same]
      rfl

end Statements

section Tables
variable {ρ : Type} {draws : Draws} {users : List User} {rows : List ρ} {userId : ρ → UUID}

/-- A table whose rows have their document's user gets the tenants of these users. -/
theorem updateFromDocuments_eq (draws : Draws) {documentId : ρ → UUID} {documents : List Initial.Document}
    (ids : (documents.map Initial.Document.id).Nodup)
    (known : ∀ r ∈ rows, ∃ d ∈ documents, d.id = documentId r)
    (owned : ∀ r ∈ rows, ∀ d ∈ documents, d.id = documentId r → userId r = d.userId) :
    updateFromDocuments documentId (documents.map fun d => ⟨d, some (draws.orgId d.userId)⟩)
      (addColumn rows) = rows.map fun r => ⟨r, some (draws.orgId (userId r))⟩ := by
  rw [updateFromDocuments, updateFrom_of_partner
    (fun r => ⟨r.row, some (draws.orgId (userId r.row))⟩), addColumn, List.map_map]
  · rfl
  · refine List.forall_mem_map.mpr fun r mem => ?_
    obtain ⟨d, hd, link⟩ := known r mem
    have row : (⟨d, some (draws.orgId d.userId)⟩ : Widened Initial.Document) ∈
        documents.map fun d => ⟨d, some (draws.orgId d.userId)⟩ := List.mem_map_of_mem hd
    have keys : ((documents.map fun d => (⟨d, some (draws.orgId d.userId)⟩ :
        Widened Initial.Document)).map fun x => x.row.id).Nodup := by
      rw [List.map_map]
      exact ids
    refine ⟨⟨d, some (draws.orgId d.userId)⟩, ?_, by rw [owned r mem d hd link]⟩
    rw [← link]
    exact filter_key (fun x : Widened Initial.Document => x.row.id) keys row

theorem setNotNull_filled (column : String) (tenantId : ρ → UUID) :
    setNotNull column (rows.map fun r => ⟨r, some (tenantId r)⟩) =
      .ok (rows.map fun r => (r, tenantId r)) := by
  induction rows with
  | nil => rfl
  | cons r rows ih =>
    rw [setNotNull] at ih
    rw [setNotNull, List.map_cons, List.mapM_cons, ih]
    rfl

theorem createForeignKey_ok (name : String) (known : ∀ r ∈ rows, ∃ u ∈ users, u.id = userId r) :
    createForeignKey name (rows.map fun r => (r, draws.orgId (userId r)))
      (users.map (personalOrganization draws)) = .ok () := by
  refine require_of _ (List.forall_mem_map.mpr fun r mem => ?_)
  obtain ⟨u, hu, same⟩ := known r mem
  exact ⟨_, List.mem_map_of_mem hu, congrArg draws.orgId same⟩

/-- What was unique for each user is unique in the tenant that is the user's own. -/
theorem unique_of_users (apart : DrawsApart draws users) {column : ρ → String}
    (known : ∀ r ∈ rows, ∃ u ∈ users, u.id = userId r)
    (unique : (rows.map fun r => (userId r, column r)).Nodup) :
    (rows.map fun r => (draws.orgId (userId r), column r)).Nodup := by
  refine List.Nodup.map_on (fun r hr r' hr' same => ?_) (List.Nodup.of_map _ unique)
  obtain ⟨u, hu, mine⟩ := known r hr
  obtain ⟨v, hv, other⟩ := known r' hr'
  obtain ⟨tenants, columns⟩ := Prod.mk.inj same
  have users_ : u = v := List.inj_on_of_nodup_map apart.organizations hu hv
    (by rw [mine, other, tenants])
  refine List.inj_on_of_nodup_map unique hr hr' ?_
  rw [← mine, ← other, users_, columns]

theorem createUniqueConstraint_ok (name : String) (apart : DrawsApart draws users) {column : ρ → String}
    (known : ∀ r ∈ rows, ∃ u ∈ users, u.id = userId r)
    (unique : (rows.map fun r => (userId r, column r)).Nodup) :
    createUniqueConstraint name column (rows.map fun r => (r, draws.orgId (userId r))) = .ok () := by
  refine require_of _ ?_
  rw [List.map_map]
  exact unique_of_users apart known unique

end Tables

/-! ## The whole upgrade -/

/-- The tables with every user's rows in the user's own organization. -/
def migrated (draws : Draws) (db : Initial.Database) : Database where
  users := db.users
  organizations := db.users.map (personalOrganization draws)
  orgMemberships := db.users.map fun u => adminMembership draws u (personalOrganization draws u)
  documents := db.documents.map fun d => d.withTenant (draws.orgId d.userId)
  chunks := db.chunks.map fun c => c.withTenant (draws.orgId c.userId)
  ingestionJobs := db.ingestionJobs.map fun j => j.withTenant (draws.orgId j.userId)

/-- The user is a member of the organization. -/
def MemberOf (db : Database) (userId orgId : UUID) : Prop :=
  ∃ m ∈ db.orgMemberships, m.userId = userId ∧ m.orgId = orgId

/-- The rows of a table, each with a tenant. -/
def Kept {ρ σ : Type} (withTenant : ρ → UUID → σ) (before : List ρ) (after : List σ) : Prop :=
  List.Forall₂ (fun r x => ∃ tenantId, x = withTenant r tenantId) before after

/-- What the data steps leave behind. -/
structure Backfilled (before : Initial.Database) (after : Database) : Prop where
  users : after.users = before.users
  homes : ∀ u ∈ after.users, ∃ m o, (after.orgMemberships.filter fun x => x.userId = u.id) = [m] ∧
    m.role = .admin ∧ (after.organizations.filter fun x => x.id = m.orgId) = [o]
  members : ∀ o ∈ after.organizations, ∃ m,
    (after.orgMemberships.filter fun x => x.orgId = o.id) = [m] ∧ ∃ u ∈ after.users, u.id = m.userId
  keptDocuments : Kept Initial.Document.withTenant before.documents after.documents
  keptChunks : Kept Initial.Chunk.withTenant before.chunks after.chunks
  keptJobs : Kept Initial.IngestionJob.withTenant before.ingestionJobs after.ingestionJobs
  documents : ∀ d ∈ after.documents, MemberOf after d.userId d.tenantId
  chunks : ∀ c ∈ after.chunks, MemberOf after c.userId c.tenantId ∧
    ∃ d, (after.documents.filter fun x => x.id = c.documentId) = [d] ∧ d.tenantId = c.tenantId
  jobs : ∀ j ∈ after.ingestionJobs, MemberOf after j.userId j.tenantId ∧
    ∃ d, (after.documents.filter fun x => x.id = j.documentId) = [d] ∧ d.tenantId = j.tenantId
  contents : (after.documents.map fun d => (d.tenantId, d.contentHash)).Nodup
  idempotencyKeys : (after.ingestionJobs.map fun j => (j.tenantId, j.idempotencyKey)).Nodup

section Upgrade
variable {draws : Draws} {db : Initial.Database}

theorem upgrade_eq (valid : Initial.Constraints db) (owners : Initial.OwnersAgree db)
    (short : ∀ u ∈ db.users, (splitPart u.email '@').length ≤ 243)
    (apart : DrawsApart draws db.users) : upgrade draws db = .ok (migrated draws db) := by
  have filled := updateDocuments_eq draws valid.userIds valid.documentUsers
  have chunks := updateFromDocuments_eq draws valid.documentIds valid.chunkDocuments owners.chunks
  have jobs := updateFromDocuments_eq draws valid.documentIds valid.jobDocuments owners.jobs
  simp only [upgrade, insertOrganizations_ok valid.userIds valid.emailFits short apart,
    insertMemberships_ok valid.userIds apart, filled, chunks, jobs, setNotNull_filled, bind, Except.bind,
    createForeignKey_ok _ valid.documentUsers, createForeignKey_ok _ valid.chunkUsers,
    createForeignKey_ok _ valid.jobUsers,
    createUniqueConstraint_ok _ apart valid.documentUsers valid.contents,
    createUniqueConstraint_ok _ apart valid.jobUsers valid.idempotencyKeys, List.map_map]
  rfl

theorem kept_map {ρ σ : Type} {withTenant : ρ → UUID → σ} (tenantId : ρ → UUID) (rows : List ρ) :
    Kept withTenant rows (rows.map fun r => withTenant r (tenantId r)) := by
  rw [Kept, List.forall₂_map_right_iff]
  exact List.forall₂_same.mpr fun r _ => ⟨tenantId r, rfl⟩

theorem memberOf_migrated {u : User} (mem : u ∈ db.users) :
    MemberOf (migrated draws db) u.id (draws.orgId u.id) :=
  ⟨_, List.mem_map_of_mem mem, rfl, rfl⟩

theorem membership_of_user (ids : (db.users.map User.id).Nodup) {u : User} (mem : u ∈ db.users) :
    ((migrated draws db).orgMemberships.filter fun x => x.userId = u.id) =
      [adminMembership draws u (personalOrganization draws u)] := by
  have keys : ((migrated draws db).orgMemberships.map OrgMembership.userId).Nodup := by
    rw [migrated, List.map_map]
    exact ids
  exact filter_key OrgMembership.userId keys (List.mem_map_of_mem mem)

theorem membership_of_organization (apart : DrawsApart draws db.users) {u : User} (mem : u ∈ db.users) :
    ((migrated draws db).orgMemberships.filter fun x => x.orgId = draws.orgId u.id) =
      [adminMembership draws u (personalOrganization draws u)] := by
  have keys : ((migrated draws db).orgMemberships.map OrgMembership.orgId).Nodup := by
    rw [migrated, List.map_map]
    exact apart.organizations
  exact filter_key OrgMembership.orgId keys (List.mem_map_of_mem mem)

theorem organization_of_id (apart : DrawsApart draws db.users) {u : User} (mem : u ∈ db.users) :
    ((migrated draws db).organizations.filter fun x => x.id = draws.orgId u.id) =
      [personalOrganization draws u] := by
  have keys : ((migrated draws db).organizations.map Organization.id).Nodup := by
    rw [migrated, List.map_map]
    exact apart.organizations
  exact filter_key Organization.id keys (List.mem_map_of_mem mem)

theorem document_of_id (ids : (db.documents.map Initial.Document.id).Nodup) {d : Initial.Document}
    (mem : d ∈ db.documents) :
    ((migrated draws db).documents.filter fun x => x.id = d.id) =
      [d.withTenant (draws.orgId d.userId)] := by
  have keys : ((migrated draws db).documents.map Document.id).Nodup := by
    rw [migrated, List.map_map]
    exact ids
  have row : d.withTenant (draws.orgId d.userId) ∈ (migrated draws db).documents :=
    List.mem_map_of_mem mem
  exact filter_key Document.id keys row

/-- A row's tenant is its user's organization and its document's tenant. -/
theorem tenant_agrees (ids : (db.documents.map Initial.Document.id).Nodup) {documentId userId : UUID}
    (user : ∃ u ∈ db.users, u.id = userId) (document : ∃ d ∈ db.documents, d.id = documentId)
    (owned : ∀ d ∈ db.documents, d.id = documentId → userId = d.userId) :
    MemberOf (migrated draws db) userId (draws.orgId userId) ∧
      ∃ d, ((migrated draws db).documents.filter fun x => x.id = documentId) = [d] ∧
        d.tenantId = draws.orgId userId := by
  obtain ⟨u, hu, rfl⟩ := user
  obtain ⟨d, hd, rfl⟩ := document
  exact ⟨memberOf_migrated hu, _, document_of_id ids hd, congrArg draws.orgId (owned d hd rfl).symm⟩

/-- The data steps succeed on every database of schema 0001 whose chunks and jobs have their
document's user, and give each user an organization that takes all of the user's rows. -/
theorem backfill (valid : Initial.Constraints db) (owners : Initial.OwnersAgree db)
    (short : ∀ u ∈ db.users, (splitPart u.email '@').length ≤ 243)
    (apart : DrawsApart draws db.users) :
    ∃ after, upgrade draws db = .ok after ∧ Backfilled db after := by
  refine ⟨migrated draws db, upgrade_eq valid owners short apart, ?_⟩
  constructor
  case users => rfl
  case homes =>
    intro u mem
    exact ⟨_, _, membership_of_user valid.userIds mem, rfl, organization_of_id apart mem⟩
  case members =>
    refine List.forall_mem_map.mpr fun u mem => ?_
    exact ⟨_, membership_of_organization apart mem, u, mem, rfl⟩
  case keptDocuments => exact kept_map (fun d => draws.orgId d.userId) db.documents
  case keptChunks => exact kept_map (fun c => draws.orgId c.userId) db.chunks
  case keptJobs => exact kept_map (fun j => draws.orgId j.userId) db.ingestionJobs
  case documents =>
    refine List.forall_mem_map.mpr fun d mem => ?_
    obtain ⟨u, hu, same⟩ := valid.documentUsers d mem
    have member : MemberOf (migrated draws db) u.id (draws.orgId u.id) := memberOf_migrated hu
    rw [same] at member
    exact member
  case chunks =>
    refine List.forall_mem_map.mpr fun c mem => ?_
    exact tenant_agrees valid.documentIds (valid.chunkUsers c mem) (valid.chunkDocuments c mem)
      (owners.chunks c mem)
  case jobs =>
    refine List.forall_mem_map.mpr fun j mem => ?_
    exact tenant_agrees valid.documentIds (valid.jobUsers j mem) (valid.jobDocuments j mem)
      (owners.jobs j mem)
  case contents =>
    rw [migrated, List.map_map]
    exact unique_of_users apart valid.documentUsers valid.contents
  case idempotencyKeys =>
    rw [migrated, List.map_map]
    exact unique_of_users apart valid.jobUsers valid.idempotencyKeys

end Upgrade

namespace Demo

/-- Two users who stored the same content under the same key. -/
def document (id userId : UUID) : Initial.Document :=
  ⟨id, userId, "notes.txt", "c0ffee", 4, none, none, .ready, 1, none, 0, 0, none⟩

def job (id documentId userId : UUID) : Initial.IngestionJob :=
  ⟨id, documentId, userId, .completed, "first", none, 1, 3, 4, none, none, none, none, 0⟩

def before : Initial.Database where
  users := [⟨1, "ada@example.org", true⟩, ⟨2, "bob@example.org", true⟩]
  documents := [document 11 1, document 12 2]
  chunks := [⟨21, 11, 1, "text", none, 0, [], 0⟩]
  ingestionJobs := [job 31 11 1, job 32 12 2]

def draws : Draws := ⟨fun userId => userId + 100, fun _ userId => userId + 200, 7⟩

theorem constraints_before : Initial.Constraints before := by
  constructor <;> decide

theorem ownersAgree_before : Initial.OwnersAgree before := by
  constructor <;> decide

end Demo

theorem backfill_two_users :
    ∃ after, upgrade Demo.draws Demo.before = .ok after ∧ Backfilled Demo.before after :=
  backfill Demo.constraints_before Demo.ownersAgree_before (by decide) ⟨by decide, by decide⟩

end Migration
