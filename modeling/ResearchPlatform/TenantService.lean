import ResearchPlatform.Schema

/-!
# Tenant service: memberships, roles and invitations

The queries and checks of `tenants/service.py` on the committed tables. The
writes that follow them are left to the machine that interleaves requests.
-/

namespace TenantService

open Uuid Schema

inductive InviteStatus where
  | pending | accepted | rejected | revoked
  deriving DecidableEq, Repr

def InviteStatus.text : InviteStatus → String
  | .pending => "pending"
  | .accepted => "accepted"
  | .rejected => "rejected"
  | .revoked => "revoked"

structure OrganizationInvite where
  id : UUID
  orgId : UUID
  email : String
  role : Role
  tokenHash : String
  status : InviteStatus
  expiresAt : Time
  createdAt : Time
  acceptedAt : Option Time
  createdBy : Option UUID
  deriving DecidableEq, Repr

/-- The row that an INSERT leaves in the table. -/
def OrganizationInvite.row (v : OrganizationInvite) : OrganizationInvite := { v with email := varchar 255 v.email }

/-! ## Organizations -/

def isSlugChar (c : Char) : Bool := ('a' ≤ c && c ≤ 'z') || ('0' ≤ c && c ≤ '9')

/-- `_SLUG_RE.sub("-", ...)`: each run of other characters becomes one hyphen. -/
def hyphenateRuns : List Char → List Char
  | [] => []
  | c :: cs =>
    if isSlugChar c then c :: hyphenateRuns cs
    else match hyphenateRuns cs with
      | '-' :: rest => '-' :: rest
      | rest => '-' :: rest

/-- `slugify`, with `str.lower` as a parameter. -/
def slugify (lower : String → String) (value : String) : String :=
  let hyphenated := hyphenateRuns (lower value).toList
  let stripped := ((hyphenated.dropWhile (· = '-')).reverse.dropWhile (· = '-')).reverse
  if stripped = [] then "organization" else String.ofList stripped

def newOrganization (lower : String → String) (name : String) (slug : Option String) (id : UUID)
    (now : Time) : Organization where
  id := id
  name := name
  slug := match slug with
    | none => slugify lower name
    | some s => if s = "" then slugify lower name else s
  createdAt := now

/-- The creator's membership. -/
def ownerMembership (id orgId ownerId : UUID) (now : Time) : OrgMembership :=
  ⟨id, orgId, ownerId, .admin, now⟩

/-! ## Memberships -/

/-- The requested tenant, or the oldest membership. -/
def resolveMembership (userId : UUID) (orgId : Option UUID) (db : Database) :
    Except Failure OrgMembership :=
  match (orderByAsc OrgMembership.createdAt (db.orgMemberships.filter fun m =>
      m.userId = userId && orgId.all fun o => m.orgId = o)).head? with
  | some membership => .ok membership
  | none => match orgId with
    | some _ => .error (.app (.authorizationError "You are not a member of this organization."))
    | none => .error (.app (.notFoundError "Organization membership" (str userId)))

def requireRole (role : Role) (allowed : List Role) : Except Failure Unit :=
  if role ∈ allowed then .ok ()
  else .error (.app (.authorizationError "Insufficient organization role."))

/-- `remove_member` up to its DELETE. -/
def memberToRemove (orgId userIdToRemove currentUserId : UUID) (db : Database) :
    Except Failure OrgMembership :=
  if userIdToRemove = currentUserId then
    .error (.app (.conflictError "You cannot remove yourself from the organization."))
  else match scalarOneOrNone (db.orgMemberships.filter fun m =>
      m.orgId = orgId && m.userId = userIdToRemove) with
    | .error e => .error e
    | .ok (some membership) => .ok membership
    | .ok none =>
      .error (.app (.notFoundError "Organization membership" (str userIdToRemove)))

/-! ## Invitations -/

/-- `create_invite` up to its INSERT. -/
def inviteAllowed (orgId : UUID) (email : String) (db : Database)
    (invites : List OrganizationInvite) : Except Failure Unit := do
  let user ← scalarOneOrNone (db.users.filter fun u => u.email = email)
  let member ← match user with
    | none => .ok none
    | some u => scalarOneOrNone (db.orgMemberships.filter fun m =>
        m.orgId = orgId && m.userId = u.id)
  if member.isSome then
    .error (.app (.conflictError "User is already a member of this organization."))
  else do
    let existing ← scalarOneOrNone (invites.filter fun v =>
      v.orgId = orgId && v.email = email && v.status = .pending)
    if existing.isSome then
      .error (.app (.conflictError "A pending invitation already exists for this email."))
    else .ok ()

/-- The invitation expires after seven days. -/
def newInvite (orgId : UUID) (email : String) (role : Role) (inviterId id : UUID)
    (tokenHash : String) (now : Time) : OrganizationInvite where
  id := id
  orgId := orgId
  email := email
  role := role
  tokenHash := tokenHash
  status := .pending
  expiresAt := now + 7 * 24 * 3600 * 1000000
  createdAt := now
  acceptedAt := none
  createdBy := some inviterId

/-- `accept_invite` up to its writes. An expired invitation is set to a status
that the CHECK constraint does not list, so the flush itself fails. -/
def inviteToAccept (inviteId : UUID) (email : String) (now : Time)
    (invites : List OrganizationInvite) : Except Failure OrganizationInvite :=
  match scalarOneOrNone (invites.filter fun v => v.id = inviteId && v.email = email) with
  | .error e => .error e
  | .ok none => .error (.app (.notFoundError "Invitation" (str inviteId)))
  | .ok (some invite) =>
    if invite.status ≠ .pending then
      .error (.app (.conflictError ("Invitation is already " ++ invite.status.text ++ ".")))
    else if invite.expiresAt < now then .error (.integrityError "ck_organization_invites_ck_org_invites_status_valid")
    else .ok invite

def acceptedAs (now : Time) (v : OrganizationInvite) : OrganizationInvite :=
  { v with status := .accepted, acceptedAt := some now }

def invitedMembership (v : OrganizationInvite) (id userId : UUID) (now : Time) : OrgMembership :=
  ⟨id, v.orgId, userId, v.role, now⟩

/-! ## What the queries return -/

theorem resolveMembership_spec {userId : UUID} {orgId : Option UUID} {db : Database}
    {m : OrgMembership} (h : resolveMembership userId orgId db = .ok m) :
    m ∈ db.orgMemberships ∧ m.userId = userId ∧ ∀ o ∈ orgId, m.orgId = o := by
  simp only [resolveMembership] at h
  split at h
  · rename_i found hf
    cases h
    have hm := mem_orderByAsc.mp (List.mem_of_head? hf)
    simp only [List.mem_filter, Bool.and_eq_true, decide_eq_true_eq, Option.all_eq_true] at hm
    exact ⟨hm.1, hm.2.1, fun o ho => by simpa using hm.2.2 o ho⟩
  · split at h
    · cases h
    · cases h

theorem requireRole_ok_iff {role : Role} {allowed : List Role} :
    requireRole role allowed = .ok () ↔ role ∈ allowed := by
  simp [requireRole]

theorem memberToRemove_spec {orgId userIdToRemove currentUserId : UUID} {db : Database}
    {m : OrgMembership} (h : memberToRemove orgId userIdToRemove currentUserId db = .ok m) :
    m ∈ db.orgMemberships ∧ m.orgId = orgId ∧ m.userId = userIdToRemove ∧
      userIdToRemove ≠ currentUserId := by
  simp only [memberToRemove] at h
  split at h
  · cases h
  · rename_i other
    split at h
    · cases h
    · rename_i found hf
      cases h
      have hm : m ∈ db.orgMemberships.filter fun m =>
          m.orgId = orgId && m.userId = userIdToRemove := by
        simp [scalarOneOrNone_of_eq_some hf]
      simp only [List.mem_filter, Bool.and_eq_true, decide_eq_true_eq] at hm
      exact ⟨hm.1, hm.2.1, hm.2.2, other⟩
    · cases h

theorem inviteToAccept_spec {inviteId : UUID} {email : String} {now : Time}
    {invites : List OrganizationInvite} {v : OrganizationInvite}
    (h : inviteToAccept inviteId email now invites = .ok v) :
    v ∈ invites ∧ v.id = inviteId ∧ v.email = email ∧ v.status = .pending ∧ now ≤ v.expiresAt := by
  simp only [inviteToAccept] at h
  split at h
  · cases h
  · cases h
  · rename_i found hf
    split at h
    · cases h
    · rename_i pending
      split at h
      · cases h
      · rename_i live
        cases h
        have hm : v ∈ invites.filter fun v => v.id = inviteId && v.email = email := by
          simp [scalarOneOrNone_of_eq_some hf]
        simp only [List.mem_filter, Bool.and_eq_true, decide_eq_true_eq] at hm
        exact ⟨hm.1, hm.2.1, hm.2.2, not_not.mp pending, not_lt.mp live⟩

end TenantService
