import ResearchPlatform.TenantService
import ResearchPlatform.Library.Machines
import Mathlib.Data.Fintype.Basic

/-!
# Membership requests that overlap

The four requests that write memberships, cut at their statements, for any number
of them at once at READ COMMITTED: resolving the caller's role, the queries and
inserts of the service function, the DELETE of a removal, and the commit. An
insert waits for an uncommitted equal unique value, `FOR UPDATE` and a DELETE
wait for the row. Nothing locks the membership that authorises a request.
-/

namespace LastAdmin

open Uuid Schema TenantService Machines

inductive Request where
  | createOrganization (name : String) (slug : Option String) (ownerId : UUID)
  | createInvite (caller : UUID) (xTenantId : Option UUID) (email : String) (role : Role)
  | acceptInvite (inviteId userId : UUID) (email : String)
  | removeMember (caller : UUID) (xTenantId : Option UUID) (userIdToRemove : UUID)
  deriving DecidableEq, Repr

/-- What an open transaction has written. -/
inductive Pending where
  | creation (o : Organization) (m : OrgMembership)
  | invitation (v : OrganizationInvite)
  | acceptance (v : OrganizationInvite) (m : OrgMembership)
  | removal (m target : OrgMembership)
  deriving DecidableEq, Repr

/-- Where one request stands; `m` is the membership that authorised it. -/
inductive Phase where
  | start
  | resolved (m : OrgMembership)
  | target (m target : OrgMembership)
  | writing (p : Pending)
  | done
  | failed (e : Failure)
  | aborted
  deriving DecidableEq, Repr

namespace Phase

/-- The membership rows that the request has read or written. -/
def rows : Phase → List OrgMembership
  | resolved m => [m]
  | target m t | writing (.removal m t) => [m, t]
  | writing (.creation _ m) | writing (.acceptance _ m) => [m]
  | start | writing (.invitation _) | done | failed _ | aborted => []

def pending : Phase → Option Pending
  | writing p => some p
  | _ => none

/-- The authorising membership of a removal and the row that it has deleted. -/
def removing : Phase → Option (OrgMembership × OrgMembership)
  | writing (.removal m t) => some (m, t)
  | _ => none

end Phase

structure World (n : Nat) where
  db : Database
  invites : List OrganizationInvite
  phase : Fin n → Phase

/-- What a request draws from outside. -/
structure Draw where
  orgId : UUID
  membershipId : UUID
  inviteId : UUID
  tokenHash : String
  now : Time
  deriving DecidableEq, Repr

inductive Event (n : Nat) where
  | resolve (i : Fin n)
  | work (i : Fin n) (draw : Draw)
  | delete (i : Fin n)
  | commit (i : Fin n)
  | abort (i : Fin n)
  deriving DecidableEq

section Step
variable {n : Nat} (lower : String → String) (calls : Fin n → Request)

def World.setPhase (s : World n) (i : Fin n) (p : Phase) : World n :=
  { s with phase := fun k => if k = i then p else s.phase k }

/-- What the transaction inserts has other ids than the draw. -/
def Pending.apart (draw : Draw) : Pending → Bool
  | .creation o _ => o.id ≠ draw.orgId
  | .invitation v => v.id ≠ draw.inviteId && v.tokenHash ≠ draw.tokenHash
  | .acceptance _ _ | .removal _ _ => true

/-- The ids and the token hash that a request draws are new. -/
def Fresh (s : World n) (draw : Draw) : Prop :=
  (∀ o ∈ s.db.organizations, o.id ≠ draw.orgId) ∧
    (∀ m ∈ s.db.orgMemberships, m.id ≠ draw.membershipId) ∧
    (∀ v ∈ s.invites, v.id ≠ draw.inviteId ∧ v.tokenHash ≠ draw.tokenHash) ∧
    ∀ k, (∀ m ∈ (s.phase k).rows, m.id ≠ draw.membershipId) ∧
      ∀ p ∈ (s.phase k).pending, p.apart draw = true

instance (s : World n) (draw : Draw) : Decidable (Fresh s draw) :=
  inferInstanceAs (Decidable (_ ∧ _))

/-- Another open transaction has written something that makes this one wait. -/
def Blocked (s : World n) (i : Fin n) (waits : Pending → Bool) : Prop :=
  ∃ k, k ≠ i ∧ ∃ p ∈ (s.phase k).pending, waits p = true

instance (s : World n) (i : Fin n) (waits : Pending → Bool) : Decidable (Blocked s i waits) :=
  inferInstanceAs (Decidable (∃ k, k ≠ i ∧ ∃ p ∈ (s.phase k).pending, waits p = true))

def sameSlug (o : Organization) : Pending → Bool
  | .creation o' _ => o'.slug = o.slug
  | _ => false

/-- An equal unique value, or one that is about to be deleted. -/
def sameMembership (rows : List OrgMembership) (m : OrgMembership) : Pending → Bool
  | .creation _ m' | .acceptance _ m' => m'.orgId = m.orgId && m'.userId = m.userId
  | .removal _ t => t.orgId = m.orgId && t.userId = m.userId && rows.any fun x => x.id = t.id
  | .invitation _ => false

def sameInvite (inviteId : UUID) : Pending → Bool
  | .acceptance v _ => v.id = inviteId
  | _ => false

def sameTarget (rows : List OrgMembership) (target : OrgMembership) : Pending → Bool
  | .removal _ t => t.id = target.id && rows.any fun m => m.id = target.id
  | _ => false

/-- `create_organization` up to its commit. -/
def organizationPhase (s : World n) (name : String) (slug : Option String) (ownerId : UUID)
    (draw : Draw) : Phase :=
  let o := newOrganization lower name slug draw.orgId draw.now
  if !(fitsVarchar 255 o.name && fitsVarchar 100 o.slug) then .failed (.dataError "organizations")
  else if s.db.organizations.any (fun x => x.slug = o.row.slug) ||
      !s.db.users.any (fun u => u.id = ownerId) then
    .failed (.app (.conflictError "Organization slug already exists."))
  else .writing (.creation o.row (ownerMembership draw.membershipId o.id ownerId draw.now))

/-- `accept_invite` once it has its row lock, up to its commit. -/
def acceptancePhase (s : World n) (v : OrganizationInvite) (userId : UUID) (draw : Draw) : Phase :=
  let m := invitedMembership v draw.membershipId userId draw.now
  if s.db.orgMemberships.any (fun x => x.orgId = m.orgId && x.userId = m.userId) then
    .failed (.integrityError "uq_org_memberships_org_user")
  else if !s.db.users.any (fun u => u.id = userId) then
    .failed (.integrityError "fk_org_memberships_user_id_users")
  else .writing (.acceptance (acceptedAs draw.now v) m)

/-- `get_current_tenant` and `require_role`. -/
def authorized (s : World n) (caller : UUID) (xTenantId : Option UUID) : Phase :=
  match resolveMembership caller xTenantId s.db with
  | .error e => .failed e
  | .ok m => match requireRole m.role [.admin] with
    | .error e => .failed e
    | .ok _ => .resolved m

/-- The statements of the service function: `none` while one of them waits. -/
def work (s : World n) (i : Fin n) (draw : Draw) : Option Phase :=
  match s.phase i, calls i with
  | .start, .createOrganization name slug ownerId =>
    if Blocked s i (sameSlug (newOrganization lower name slug draw.orgId draw.now).row) then none
    else some (organizationPhase lower s name slug ownerId draw)
  | .start, .acceptInvite inviteId userId email =>
    if Blocked s i (sameInvite inviteId) then none
    else match inviteToAccept inviteId email draw.now s.invites with
      | .error e => some (.failed e)
      | .ok v =>
        let m := invitedMembership v draw.membershipId userId draw.now
        if Blocked s i (sameMembership s.db.orgMemberships m) then none
        else some (acceptancePhase s v userId draw)
  | .resolved m, .createInvite caller _ email role =>
    match inviteAllowed m.orgId email s.db s.invites with
    | .error e => some (.failed e)
    | .ok _ =>
      if fitsVarchar 255 email then
        some (.writing (.invitation
          (newInvite m.orgId email role caller draw.inviteId draw.tokenHash draw.now).row))
      else some (.failed (.dataError "organization_invites"))
  | .resolved m, .removeMember caller _ userIdToRemove =>
    match memberToRemove m.orgId userIdToRemove caller s.db with
    | .error e => some (.failed e)
    | .ok t => some (.target m t)
  | _, _ => none

/-- The tables after the commit. -/
def Pending.apply (p : Pending) (db : Database) (invites : List OrganizationInvite) :
    Database × List OrganizationInvite :=
  match p with
  | .creation o m => ({ db with
      organizations := db.organizations ++ [o], orgMemberships := db.orgMemberships ++ [m] }, invites)
  | .invitation v => (db, invites ++ [v])
  | .acceptance v m => ({ db with orgMemberships := db.orgMemberships ++ [m] },
      invites.map fun x => if x.id = v.id then v else x)
  | .removal _ t =>
    ({ db with orgMemberships := db.orgMemberships.filter fun x : OrgMembership => x.id ≠ t.id }, invites)

def step (s : World n) : Event n → Option (World n)
  | .resolve i => match s.phase i, calls i with
    | .start, .createInvite caller xTenantId _ _ => some (s.setPhase i (authorized s caller xTenantId))
    | .start, .removeMember caller xTenantId _ => some (s.setPhase i (authorized s caller xTenantId))
    | _, _ => none
  | .work i draw =>
    if Fresh s draw then (work lower calls s i draw).map fun p => s.setPhase i p else none
  | .delete i => match s.phase i with
    | .target m t =>
      if Blocked s i (sameTarget s.db.orgMemberships t) then none
      else some (s.setPhase i (.writing (.removal m t)))
    | _ => none
  | .commit i => match s.phase i with
    | .writing p => some ({ s with
        db := (p.apply s.db s.invites).1, invites := (p.apply s.db s.invites).2 }.setPhase i .done)
    | _ => none
  | .abort i => match s.phase i with
    | .done | .failed _ | .aborted => none
    | _ => some (s.setPhase i .aborted)

def machine : Machine (World n) (Event n) := ⟨step lower calls⟩

/-- Users exist; there are no organizations yet. -/
def start (n : Nat) (users : List User) : World n :=
  ⟨{ Database.empty with users := users }, [], fun _ => .start⟩

end Step

section Runs
variable {n : Nat} {lower : String → String} {calls : Fin n → Request} {s t : World n}
  {e : Event n} {i : Fin n} {p : Phase}

def EveryOrganizationHasAdmin (s : World n) : Prop :=
  ∀ o ∈ s.db.organizations, ∃ m ∈ s.db.orgMemberships, m.orgId = o.id ∧ m.role = .admin

instance (s : World n) : Decidable (EveryOrganizationHasAdmin s) :=
  inferInstanceAs (Decidable (∀ o ∈ s.db.organizations, ∃ m ∈ s.db.orgMemberships,
    m.orgId = o.id ∧ m.role = .admin))

/-- The step commits the removal of an admin, and the membership that authorised
it is itself no longer committed. -/
def StaleRemoval (s : World n) (e : Event n) : Prop :=
  ∃ i, e = .commit i ∧ ∃ r ∈ (s.phase i).removing,
    r.2 ∈ s.db.orgMemberships ∧ r.2.role = .admin ∧ r.1 ∉ s.db.orgMemberships

instance (s : World n) (e : Event n) : Decidable (StaleRemoval s e) :=
  inferInstanceAs (Decidable (∃ i, e = .commit i ∧ ∃ r ∈ (s.phase i).removing,
    r.2 ∈ s.db.orgMemberships ∧ r.2.role = .admin ∧ r.1 ∉ s.db.orgMemberships))

/-- Every membership row that is committed, was read, or is about to be. -/
def Known (s : World n) (m : OrgMembership) : Prop :=
  m ∈ s.db.orgMemberships ∨ ∃ k, m ∈ (s.phase k).rows

/-- The user whose role the request checks. -/
def Request.caller : Request → Option UUID
  | .createInvite caller _ _ _ | .removeMember caller _ _ => some caller
  | .createOrganization _ _ _ | .acceptInvite _ _ _ => none

/-- What the checks of a request have established when it stands here. -/
def Phase.Checked (r : Request) : Phase → Prop
  | resolved m => m.role = .admin ∧ r.caller = some m.userId
  | target m t | writing (.removal m t) => m.role = .admin ∧ t.orgId = m.orgId ∧ t.userId ≠ m.userId
  | writing (.creation o m) => m.role = .admin ∧ m.orgId = o.id
  | _ => True

structure Inv (calls : Fin n → Request) (s : World n) : Prop where
  unique : ∀ a b, Known s a → Known s b → a.id = b.id → a = b
  checked : ∀ i, (s.phase i).Checked (calls i)

@[simp] theorem setPhase_self : (s.setPhase i p).phase i = p := if_pos rfl

theorem setPhase_of_ne {k : Fin n} (h : k ≠ i) : (s.setPhase i p).phase k = s.phase k := if_neg h

/-- Everything that the statements of a service function can come to. -/
inductive Worked (lower : String → String) (calls : Fin n → Request) (s : World n) (i : Fin n)
    (draw : Draw) : Phase → Prop
  | failed (failure : Failure) : Worked lower calls s i draw (.failed failure)
  | creating (name : String) (slug : Option String) (ownerId : UUID)
      (hc : calls i = .createOrganization name slug ownerId) :
      Worked lower calls s i draw (.writing (.creation
        (newOrganization lower name slug draw.orgId draw.now).row
        (ownerMembership draw.membershipId draw.orgId ownerId draw.now)))
  | accepting (inviteId userId : UUID) (email : String) (v : OrganizationInvite)
      (hc : calls i = .acceptInvite inviteId userId email)
      (free : ¬ Blocked s i (sameInvite inviteId))
      (hv : inviteToAccept inviteId email draw.now s.invites = .ok v) :
      Worked lower calls s i draw (.writing (.acceptance (acceptedAs draw.now v)
        (invitedMembership v draw.membershipId userId draw.now)))
  | inviting (m : OrgMembership) (caller : UUID) (xTenantId : Option UUID) (email : String)
      (role : Role) (hi : s.phase i = .resolved m)
      (hc : calls i = .createInvite caller xTenantId email role)
      (allowed : inviteAllowed m.orgId email s.db s.invites = .ok ())
      (fits : fitsVarchar 255 email = true) :
      Worked lower calls s i draw (.writing (.invitation
        (newInvite m.orgId email role caller draw.inviteId draw.tokenHash draw.now).row))
  | removing (m : OrgMembership) (caller : UUID) (xTenantId : Option UUID) (userIdToRemove : UUID)
      (r : OrgMembership) (hi : s.phase i = .resolved m)
      (hc : calls i = .removeMember caller xTenantId userIdToRemove)
      (hr : memberToRemove m.orgId userIdToRemove caller s.db = .ok r) :
      Worked lower calls s i draw (.target m r)

theorem organization_worked {draw : Draw} {name : String} {slug : Option String} {ownerId : UUID}
    (hc : calls i = .createOrganization name slug ownerId) :
    Worked lower calls s i draw (organizationPhase lower s name slug ownerId draw) := by
  simp only [organizationPhase]
  split
  · exact .failed _
  · split
    · exact .failed _
    · exact .creating name slug ownerId hc

theorem acceptance_worked {draw : Draw} {inviteId userId : UUID} {email : String}
    {v : OrganizationInvite} (hc : calls i = .acceptInvite inviteId userId email)
    (free : ¬ Blocked s i (sameInvite inviteId))
    (hv : inviteToAccept inviteId email draw.now s.invites = .ok v) :
    Worked lower calls s i draw (acceptancePhase s v userId draw) := by
  simp only [acceptancePhase]
  split
  · exact .failed _
  · split
    · exact .failed _
    · exact .accepting inviteId userId email v hc free hv

theorem work_cases {draw : Draw} (hp : work lower calls s i draw = some p) :
    Worked lower calls s i draw p := by
  simp only [work] at hp
  split at hp
  · rename_i hc
    split at hp
    · cases hp
    · cases hp
      exact organization_worked hc
  · rename_i hc
    split at hp
    · cases hp
    · rename_i free
      split at hp
      · cases hp
        exact .failed _
      · rename_i v hv
        split at hp
        · cases hp
        · cases hp
          exact acceptance_worked hc free hv
  · rename_i m caller xTenantId email role hi hc
    split at hp
    · cases hp
      exact .failed _
    · rename_i allowed
      split at hp
      · rename_i fits
        cases hp
        exact .inviting m caller xTenantId email role hi hc allowed fits
      · cases hp
        exact .failed _
  · rename_i m caller xTenantId userIdToRemove hi hc
    split at hp
    · cases hp
      exact .failed _
    · rename_i r hr
      cases hp
      exact .removing m caller xTenantId userIdToRemove r hi hc hr
  · cases hp

/-- The events of the machine, with what each finds and leaves. -/
inductive Stepped (lower : String → String) (calls : Fin n → Request) (s : World n) :
    Event n → World n → Prop
  | resolved (i : Fin n) (caller : UUID) (xTenantId : Option UUID)
      (hc : (calls i).caller = some caller) :
      Stepped lower calls s (.resolve i) (s.setPhase i (authorized s caller xTenantId))
  | worked (i : Fin n) (draw : Draw) (p : Phase) (fresh : Fresh s draw)
      (hp : Worked lower calls s i draw p) : Stepped lower calls s (.work i draw) (s.setPhase i p)
  | deleted (i : Fin n) (m r : OrgMembership) (hi : s.phase i = .target m r) :
      Stepped lower calls s (.delete i) (s.setPhase i (.writing (.removal m r)))
  | committed (i : Fin n) (p : Pending) (hi : s.phase i = .writing p) :
      Stepped lower calls s (.commit i) ({ s with
        db := (p.apply s.db s.invites).1, invites := (p.apply s.db s.invites).2 }.setPhase i .done)
  | aborted (i : Fin n) : Stepped lower calls s (.abort i) (s.setPhase i .aborted)

theorem step_cases (hs : (machine lower calls).step s e = some t) : Stepped lower calls s e t := by
  simp only [machine] at hs
  cases e with
  | resolve i =>
    simp only [step] at hs
    split at hs
    · rename_i hc
      cases hs
      exact .resolved i _ _ (by rw [hc]; rfl)
    · rename_i hc
      cases hs
      exact .resolved i _ _ (by rw [hc]; rfl)
    · cases hs
  | work i draw =>
    simp only [step] at hs
    split at hs
    · rename_i fresh
      obtain ⟨p, hp, rfl⟩ := Option.map_eq_some_iff.mp hs
      exact .worked i draw p fresh (work_cases hp)
    · cases hs
  | delete i =>
    simp only [step] at hs
    split at hs
    · rename_i m r hi
      split at hs
      · cases hs
      · cases hs
        exact .deleted i m r hi
    · cases hs
  | commit i =>
    simp only [step] at hs
    split at hs
    · rename_i p hi
      cases hs
      exact .committed i p hi
    · cases hs
  | abort i =>
    simp only [step] at hs
    split at hs
    · cases hs
    · cases hs
    · cases hs
    · cases hs
      exact .aborted i

/-- Everything that one step can do. -/
inductive Change (calls : Fin n → Request) (s : World n) : Event n → World n → Prop
  | moved (e : Event n) (i : Fin n) (p : Phase) (notCommit : ∀ k, e ≠ .commit k)
      (rows : ∀ m ∈ p.rows, Known s m) (checked : p.Checked (calls i)) :
      Change calls s e (s.setPhase i p)
  | inserted (i : Fin n) (draw : Draw) (p : Phase) (m : OrgMembership) (fresh : Fresh s draw)
      (rows : p.rows = [m]) (new : m.id = draw.membershipId) (checked : p.Checked (calls i)) :
      Change calls s (.work i draw) (s.setPhase i p)
  | committed (i : Fin n) (p : Pending) (hi : s.phase i = .writing p) :
      Change calls s (.commit i) ({ s with
        db := (p.apply s.db s.invites).1, invites := (p.apply s.db s.invites).2 }.setPhase i .done)

theorem failed_change (notCommit : ∀ k, e ≠ .commit k) (failure : Failure) :
    Change calls s e (s.setPhase i (.failed failure)) :=
  .moved e i _ notCommit (fun _ h => by cases h) trivial

/-- Resolving fails, or finds a committed membership of the caller with role admin. -/
theorem authorized_cases (s : World n) (caller : UUID) (xTenantId : Option UUID) :
    (∃ e, authorized s caller xTenantId = .failed e) ∨
      ∃ m ∈ s.db.orgMemberships, m.userId = caller ∧ m.role = .admin ∧
        authorized s caller xTenantId = .resolved m := by
  cases hm : resolveMembership caller xTenantId s.db with
  | error e => exact Or.inl ⟨e, by simp only [authorized, hm]⟩
  | ok m =>
    obtain ⟨row, user, _⟩ := resolveMembership_spec hm
    cases hr : requireRole m.role [.admin] with
    | error e => exact Or.inl ⟨e, by simp only [authorized, hm, hr]⟩
    | ok _ =>
      have admin : m.role = .admin := List.mem_singleton.mp (requireRole_ok_iff.mp hr)
      exact Or.inr ⟨m, row, user, admin, by simp only [authorized, hm, hr]⟩

theorem authorized_change (notCommit : ∀ k, e ≠ .commit k) {caller : UUID}
    (xTenantId : Option UUID) (hc : (calls i).caller = some caller) :
    Change calls s e (s.setPhase i (authorized s caller xTenantId)) := by
  rcases authorized_cases s caller xTenantId with ⟨failure, he⟩ | ⟨m, row, user, admin, he⟩
  · rw [he]
    exact failed_change notCommit failure
  · rw [he]
    refine .moved e i _ notCommit ?_ ⟨admin, user ▸ hc⟩
    intro a ha
    exact Or.inl (List.mem_singleton.mp ha ▸ row)

theorem work_change (h : Inv calls s) {draw : Draw} (fresh : Fresh s draw)
    (hp : Worked lower calls s i draw p) : Change calls s (.work i draw) (s.setPhase i p) := by
  cases hp with
  | failed failure => exact failed_change (by simp) failure
  | creating name slug ownerId hc => exact .inserted i draw _ _ fresh rfl rfl ⟨rfl, rfl⟩
  | accepting inviteId userId email v hc free hv => exact .inserted i draw _ _ fresh rfl rfl trivial
  | inviting m caller xTenantId email role hi hc allowed fits =>
    exact .moved _ i _ (by simp) (fun _ ha => by cases ha) trivial
  | removing m caller xTenantId userIdToRemove r hi hc hr =>
    have checked := h.checked i
    rw [hi, hc] at checked
    obtain ⟨row, org, user, other⟩ := memberToRemove_spec hr
    have self : caller = m.userId := Option.some.inj checked.2
    refine .moved _ i _ (by simp) ?_ ⟨checked.1, org, by rwa [user, ← self]⟩
    intro a ha
    rcases List.mem_cons.mp ha with ha | ha
    · exact Or.inr ⟨i, by rw [hi, ha]; exact List.mem_singleton.mpr rfl⟩
    · exact Or.inl (List.mem_singleton.mp ha ▸ row)

theorem step_change (h : Inv calls s) (hs : (machine lower calls).step s e = some t) :
    Change calls s e t := by
  cases step_cases hs with
  | resolved i caller xTenantId hc => exact authorized_change (by simp) xTenantId hc
  | worked i draw p fresh hp => exact work_change h fresh hp
  | deleted i m r hi =>
    have checked := h.checked i
    rw [hi] at checked
    exact .moved _ i _ (by simp) (fun a ha => Or.inr ⟨i, by rw [hi]; exact ha⟩) checked
  | committed i p hi => exact .committed i p hi
  | aborted i => exact .moved _ i _ (by simp) (fun _ ha => by cases ha) trivial

/-- The membership rows after a commit are old ones and those of the transaction. -/
theorem mem_apply {p : Pending} {m : OrgMembership}
    (h : m ∈ (p.apply s.db s.invites).1.orgMemberships) :
    m ∈ s.db.orgMemberships ∨ m ∈ (Phase.writing p).rows := by
  cases p with
  | creation o r | acceptance v r => exact List.mem_append.mp h
  | invitation v => exact Or.inl h
  | removal r target => exact Or.inl (List.mem_filter.mp h).1

theorem known_setPhase {a : OrgMembership} (h : Known (s.setPhase i p) a) :
    Known s a ∨ a ∈ p.rows := by
  rcases h with ha | ⟨k, ha⟩
  · exact Or.inl (Or.inl ha)
  · by_cases hk : k = i
    · subst hk
      exact Or.inr (by rwa [setPhase_self] at ha)
    · rw [setPhase_of_ne hk] at ha
      exact Or.inl (Or.inr ⟨k, ha⟩)

theorem checked_setPhase (h : ∀ k, (s.phase k).Checked (calls k)) (checked : p.Checked (calls i))
    (k : Fin n) : ((s.setPhase i p).phase k).Checked (calls k) := by
  by_cases hk : k = i
  · subst hk
    rwa [setPhase_self]
  · rw [setPhase_of_ne hk]
    exact h k

theorem inv_change (h : Inv calls s) (change : Change calls s e t) : Inv calls t := by
  cases change with
  | moved e i p notCommit rows checked =>
    have known : ∀ a, Known (s.setPhase i p) a → Known s a := fun a ha =>
      (known_setPhase ha).elim id (rows a)
    exact ⟨fun a b ha hb => h.unique a b (known a ha) (known b hb), checked_setPhase h.checked checked⟩
  | inserted i draw p m fresh rows new checked =>
    have other : ∀ a, Known s a → a.id ≠ m.id := by
      rintro a (ha | ⟨k, ha⟩)
      · exact new ▸ fresh.2.1 a ha
      · exact new ▸ (fresh.2.2.2 k).1 a ha
    have known : ∀ a, Known (s.setPhase i p) a → Known s a ∨ a = m := fun a ha =>
      (known_setPhase ha).imp_right fun mine => List.mem_singleton.mp (rows ▸ mine)
    refine ⟨?_, checked_setPhase h.checked checked⟩
    intro a b ha hb same
    rcases known a ha with oldA | rfl
    · rcases known b hb with oldB | rfl
      · exact h.unique a b oldA oldB same
      · exact absurd same (other a oldA)
    · rcases known b hb with oldB | rfl
      · exact absurd same.symm (other b oldB)
      · rfl
  | committed i p hi =>
    refine ⟨?_, checked_setPhase h.checked trivial⟩
    have old : ∀ a, a ∈ (p.apply s.db s.invites).1.orgMemberships → Known s a := fun a ha =>
      (mem_apply ha).imp_right fun mine => ⟨i, by rwa [hi]⟩
    have known : ∀ a, Known (({ s with
        db := (p.apply s.db s.invites).1, invites := (p.apply s.db s.invites).2 } :
          World n).setPhase i .done) a → Known s a := by
      intro a ha
      rcases known_setPhase ha with (row | read) | none
      · exact old a row
      · exact Or.inr read
      · cases none
    exact fun a b ha hb => h.unique a b (known a ha) (known b hb)

theorem inv_start (users : List User) : Inv calls (start n users) where
  unique := by
    rintro a b (ha | ⟨_, ha⟩)
    · cases ha
    · cases ha
  checked _ := trivial

/-- A removal whose author is still a committed admin leaves that admin. -/
theorem admin_after_removal (h : Inv calls s) (admins : EveryOrganizationHasAdmin s)
    {m target : OrgMembership} (hi : s.phase i = .writing (.removal m target))
    (author : target ∈ s.db.orgMemberships → target.role = .admin → m ∈ s.db.orgMemberships)
    {o : Organization} (ho : o ∈ s.db.organizations) :
    ∃ r ∈ s.db.orgMemberships, r.id ≠ target.id ∧ r.orgId = o.id ∧ r.role = .admin := by
  obtain ⟨r, hr, org, admin⟩ := admins o ho
  by_cases same : r.id = target.id
  · have read : ∀ a ∈ [m, target], Known s a := fun a ha => Or.inr ⟨i, by rwa [hi]⟩
    have checked := h.checked i
    rw [hi] at checked
    obtain ⟨adminM, orgM, otherUser⟩ := checked
    have row : r = target := h.unique r target (Or.inl hr) (read target (by simp)) same
    subst row
    refine ⟨m, author hr admin, ?_, orgM ▸ org, adminM⟩
    intro sameId
    have equal := h.unique m r (read m (by simp)) (Or.inl hr) sameId
    exact otherUser (congrArg OrgMembership.userId equal.symm)
  · exact ⟨r, hr, same, org, admin⟩

theorem admin_kept (h : Inv calls s) (admins : EveryOrganizationHasAdmin s)
    (hs : (machine lower calls).step s e = some t) (fair : ¬ StaleRemoval s e) :
    EveryOrganizationHasAdmin t := by
  cases step_change h hs with
  | moved e i p notCommit rows checked => exact admins
  | inserted i draw p m fresh rows new checked => exact admins
  | committed i p hi =>
    have checked := h.checked i
    rw [hi] at checked
    intro o ho
    cases p with
    | creation created m =>
      rcases List.mem_append.mp ho with ho | ho
      · obtain ⟨r, hr, admin⟩ := admins o ho
        exact ⟨r, List.mem_append_left _ hr, admin⟩
      · obtain rfl := List.mem_singleton.mp ho
        exact ⟨m, List.mem_append_right _ (List.mem_singleton.mpr rfl), checked.2, checked.1⟩
    | invitation v => exact admins o ho
    | acceptance v m =>
      obtain ⟨r, hr, admin⟩ := admins o ho
      exact ⟨r, List.mem_append_left _ hr, admin⟩
    | removal m target =>
      have author : target ∈ s.db.orgMemberships → target.role = .admin →
          m ∈ s.db.orgMemberships := by
        intro row role
        by_contra gone
        exact fair ⟨i, rfl, (m, target), by rw [hi]; rfl, row, role, gone⟩
      obtain ⟨r, hr, other, admin⟩ := admin_after_removal h admins hi author ho
      exact ⟨r, List.mem_filter.mpr ⟨hr, by simpa using other⟩, admin⟩

/-- In a run in which no admin is removed on the authority of a membership that
is itself gone, every organization has an admin in every state. -/
theorem admin_remains (lower : String → String) (calls : Fin n → Request) (users : List User)
    (es : List (Event n))
    (fair : (machine lower calls).EveryStep (fun s e _ => ¬ StaleRemoval s e) (start n users) es) :
    (machine lower calls).Throughout EveryOrganizationHasAdmin (start n users) es := by
  have first : EveryOrganizationHasAdmin (start n users) := by
    intro o ho
    cases ho
  refine ⟨first, Machine.everyStep_mono (I := fun s => Inv calls s ∧ EveryOrganizationHasAdmin s)
    ?_ ⟨inv_start users, first⟩ fair⟩
  intro s e t hi hs ok
  have admins := admin_kept hi.1 hi.2 hs ok
  exact ⟨⟨inv_change hi.1 (step_change hi.1 hs), admins⟩, admins⟩

end Runs

namespace Demo

def lower (s : String) : String := String.ofList (s.toList.map Char.toLower)

def users : List User := [⟨1, "ann@example.com", true⟩, ⟨2, "bob@example.com", true⟩]

/-- Ann creates the organization and invites Bob as an admin; then each of them
removes the other. -/
def calls : Fin 5 → Request
  | 0 => .createOrganization "Lab" none 1
  | 1 => .createInvite 1 none "bob@example.com" .admin
  | 2 => .acceptInvite 12 2 "bob@example.com"
  | 3 => .removeMember 1 none 2
  | 4 => .removeMember 2 none 1

def draw (now : Time) : Draw where
  orgId := .ofNat 128 (now + 10)
  membershipId := .ofNat 128 (now + 20)
  inviteId := .ofNat 128 now
  tokenHash := toString now
  now := now

def joined : List (Event 5) :=
  [.work 0 (draw 10), .commit 0, .resolve 1, .work 1 (draw 12), .commit 1, .work 2 (draw 14),
    .commit 2]

/-- Ann's removal of Bob is committed before Bob asks for his. -/
def oneAfterTheOther : List (Event 5) :=
  joined ++ [.resolve 3, .work 3 (draw 16), .delete 3, .commit 3, .resolve 4]

/-- Both resolve their roles before either commits. -/
def overlap : List (Event 5) :=
  joined ++ [.resolve 3, .resolve 4, .work 3 (draw 16), .work 4 (draw 17), .delete 3, .delete 4,
    .commit 3, .commit 4]

end Demo

theorem admin_remains_demo :
    ((machine Demo.lower Demo.calls).run (start 5 Demo.users) Demo.oneAfterTheOther).isSome ∧
      (machine Demo.lower Demo.calls).Throughout EveryOrganizationHasAdmin
        (start 5 Demo.users) Demo.oneAfterTheOther :=
  ⟨by decide +kernel, admin_remains Demo.lower Demo.calls Demo.users Demo.oneAfterTheOther
    (by decide +kernel)⟩

theorem overlap_leaves_no_admin :
    ¬ (machine Demo.lower Demo.calls).Throughout EveryOrganizationHasAdmin
      (start 5 Demo.users) Demo.overlap := by
  decide +kernel

end LastAdmin
