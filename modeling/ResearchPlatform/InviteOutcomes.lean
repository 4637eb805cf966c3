import ResearchPlatform.LastAdmin

/-!
# How a request to accept an invitation ends

`accept_invite` as one transaction run alone, with its writes as the session holds them
before the flush: a status is a text there, and the tables check it. A request that
raises is rolled back.
-/

namespace InviteOutcomes

open Uuid Schema TenantService Machines

/-- The CHECK constraint on `organization_invites.status`. -/
def InviteStatus.ofText (text : String) : Option InviteStatus :=
  [InviteStatus.pending, .accepted, .rejected, .revoked].find? fun s => s.text = text

/-- An invitation that the session has changed. -/
structure DirtyInvite where
  row : OrganizationInvite
  status : String
  acceptedAt : Option Time

/-- The UPDATE of a flush. -/
def flushInvite (v : DirtyInvite) (invites : List OrganizationInvite) :
    Except Failure (List OrganizationInvite) :=
  match InviteStatus.ofText v.status with
  | none => .error (.integrityError "ck_organization_invites_ck_org_invites_status_valid")
  | some status => .ok (invites.map fun x =>
      if x.id = v.row.id then { v.row with status := status, acceptedAt := v.acceptedAt } else x)

/-- The INSERT of a flush. -/
def flushMembership (m : OrgMembership) (db : Database) : Except Failure Database :=
  if db.orgMemberships.any fun x => x.id = m.id then .error (.integrityError "pk_org_memberships")
  else if db.orgMemberships.any fun x => x.orgId = m.orgId && x.userId = m.userId then
    .error (.integrityError "uq_org_memberships_org_user")
  else if !db.organizations.any fun o => o.id = m.orgId then
    .error (.integrityError "fk_org_memberships_org_id_organizations")
  else if !db.users.any fun u => u.id = m.userId then
    .error (.integrityError "fk_org_memberships_user_id_users")
  else .ok { db with orgMemberships := db.orgMemberships ++ [m] }

/-- What a request returns, and the tables behind it. -/
structure Ended where
  result : Except Failure OrgMembership
  db : Database
  invites : List OrganizationInvite

section Request
variable (inviteId userId : UUID) (email : String) (membershipId : UUID) (now : Time) (db : Database)
  (invites : List OrganizationInvite)

def raised (e : Failure) : Ended := ⟨.error e, db, invites⟩

/-- `accept_invite`. -/
def acceptInvite : Ended :=
  match scalarOneOrNone (invites.filter fun v => v.id = inviteId && v.email = email) with
  | .error e => raised db invites e
  | .ok none => raised db invites (.app (.notFoundError "Invitation" (str inviteId)))
  | .ok (some invite) =>
    if invite.status ≠ .pending then
      raised db invites (.app (.conflictError ("Invitation is already " ++ invite.status.text ++ ".")))
    else if invite.expiresAt < now then
      match flushInvite ⟨invite, "expired", invite.acceptedAt⟩ invites with
      | .error e => raised db invites e
      | .ok _ => raised db invites (.app (.conflictError "Invitation has expired."))
    else
      let membership := invitedMembership invite membershipId userId now
      match flushMembership membership db, flushInvite ⟨invite, "accepted", some now⟩ invites with
      | .error e, _ | .ok _, .error e => raised db invites e
      | .ok db', .ok invites' => ⟨.ok membership, db', invites'⟩

/-- What the schema promises of the tables: keys, and the parents of the rows at hand. -/
structure Constraints : Prop where
  inviteIds : (invites.map OrganizationInvite.id).Nodup
  organizations : ∀ v ∈ invites, ∃ o ∈ db.organizations, o.id = v.orgId
  user : ∃ u ∈ db.users, u.id = userId
  fresh : ∀ m ∈ db.orgMemberships, m.id ≠ membershipId

/-- The documented ways to end. -/
inductive Outcome where
  | joined | notFound | conflict
  deriving DecidableEq, Repr

inductive Ends (ended : Ended) : Outcome → Prop
  | joined (v : OrganizationInvite) (mem : v ∈ invites) (id : v.id = inviteId)
      (address : v.email = email) (pending : v.status = .pending)
      (result : ended.result = .ok (invitedMembership v membershipId userId now))
      (member : ended.db = { db with
        orgMemberships := db.orgMemberships ++ [invitedMembership v membershipId userId now] })
      (marked : ended.invites = invites.map fun x => if x.id = inviteId then acceptedAs now v else x) :
      Ends ended .joined
  | notFound (raises : ended = raised db invites (.app (.notFoundError "Invitation" (str inviteId)))) :
      Ends ended .notFound
  | conflict (message : String) (raises : ended = raised db invites (.app (.conflictError message))) :
      Ends ended .conflict

/-- The invitation that the request finds. -/
def Finds (v : OrganizationInvite) : Prop := v ∈ invites ∧ v.id = inviteId ∧ v.email = email

def Expired : Prop := ∃ v, Finds inviteId email invites v ∧ v.status = .pending ∧ v.expiresAt < now

/-- The user is a member of the organization of the pending invitation. -/
def AlreadyMember : Prop := ∃ v, Finds inviteId email invites v ∧ v.status = .pending ∧
  ∃ m ∈ db.orgMemberships, m.orgId = v.orgId ∧ m.userId = userId

/-- Exactly one documented outcome, a conflict for an expired invitation and for a member, and
no other status in the table than before or `accepted`. -/
structure EndsWell (ended : Ended) : Prop where
  documented : ∃! outcome, Ends inviteId userId email membershipId now db invites ended outcome
  expired : Expired inviteId email now invites →
    Ends inviteId userId email membershipId now db invites ended .conflict
  member : AlreadyMember inviteId userId email db invites →
    Ends inviteId userId email membershipId now db invites ended .conflict
  statuses : ∀ x ∈ ended.invites, x ∈ invites ∨ x.status = .accepted

end Request

/-! ## The flushes -/

/-- No invitation can be expired in the table. -/
theorem flushInvite_expired (v : OrganizationInvite) (acceptedAt : Option Time)
    (invites : List OrganizationInvite) : flushInvite ⟨v, "expired", acceptedAt⟩ invites =
      .error (.integrityError "ck_organization_invites_ck_org_invites_status_valid") := rfl

theorem flushInvite_accepted (v : OrganizationInvite) (now : Time) (invites : List OrganizationInvite) :
    flushInvite ⟨v, "accepted", some now⟩ invites =
      .ok (invites.map fun x => if x.id = v.id then acceptedAs now v else x) := rfl

section Outcomes
variable {inviteId userId : UUID} {email : String} {membershipId : UUID} {now : Time} {db : Database}
  {invites : List OrganizationInvite}

/-- With the keys in place an INSERT can only break the rule of one membership for each
organization and user. -/
theorem flushMembership_eq (c : Constraints userId membershipId db invites) {v : OrganizationInvite}
    (mem : v ∈ invites) :
    flushMembership (invitedMembership v membershipId userId now) db =
      if db.orgMemberships.any fun m => m.orgId = v.orgId && m.userId = userId then
        .error (.integrityError "uq_org_memberships_org_user")
      else .ok { db with
        orgMemberships := db.orgMemberships ++ [invitedMembership v membershipId userId now] } := by
  let m := invitedMembership v membershipId userId now
  have fresh : ¬ db.orgMemberships.any fun x => x.id = m.id := by
    simpa [m, invitedMembership] using c.fresh
  have organization : ¬ !db.organizations.any fun o => o.id = m.orgId := by
    simpa [m, invitedMembership] using c.organizations v mem
  have user : ¬ !db.users.any fun u => u.id = m.userId := by
    simpa [m, invitedMembership] using c.user
  by_cases member : db.orgMemberships.any fun x => x.orgId = m.orgId && x.userId = m.userId
  · rw [flushMembership, if_neg fresh, if_pos member]
    exact (if_pos member).symm
  · rw [flushMembership, if_neg fresh, if_neg member, if_neg organization, if_neg user]
    exact (if_neg member).symm

theorem mem_found {v : OrganizationInvite} :
    v ∈ invites.filter (fun v => v.id = inviteId && v.email = email) ↔
      Finds inviteId email invites v := by
  simp [Finds]

variable (inviteId email) in
/-- What the request finds is one invitation, or none. -/
theorem found_cases (c : Constraints userId membershipId db invites) :
    (scalarOneOrNone (invites.filter fun v => v.id = inviteId && v.email = email) = .ok none ∧
      ∀ w, ¬ Finds inviteId email invites w) ∨
    ∃ v, scalarOneOrNone (invites.filter fun v => v.id = inviteId && v.email = email) = .ok (some v) ∧
      ∀ w, Finds inviteId email invites w ↔ w = v := by
  have found (w : OrganizationInvite) :
      w ∈ invites.filter (fun v => v.id = inviteId && v.email = email) ↔
        Finds inviteId email invites w := mem_found
  have nodup : (invites.filter fun v => v.id = inviteId && v.email = email).Nodup :=
    (List.Nodup.of_map _ c.inviteIds).filter _
  generalize invites.filter (fun v => v.id = inviteId && v.email = email) = rows at found nodup ⊢
  match rows with
  | [] => exact .inl ⟨rfl, fun w hw => List.not_mem_nil ((found w).mpr hw)⟩
  | [v] => exact .inr ⟨v, rfl, fun w => (found w).symm.trans List.mem_singleton⟩
  | v :: w :: rest =>
    have hv := (found v).mp (by simp)
    have hw := (found w).mp (by simp)
    have same : v = w := List.inj_on_of_nodup_map c.inviteIds hv.1 hw.1 (hv.2.1.trans hw.2.1.symm)
    exact absurd nodup (by simp [same])

/-! ## One case for each branch -/

section Branches
variable {v : OrganizationInvite}
  (found : scalarOneOrNone (invites.filter fun v => v.id = inviteId && v.email = email) = .ok (some v))
include found

theorem acceptInvite_decided (decided : v.status ≠ .pending) :
    acceptInvite inviteId userId email membershipId now db invites =
      raised db invites (.app (.conflictError ("Invitation is already " ++ v.status.text ++ "."))) := by
  simp only [acceptInvite, found]
  exact if_pos decided

theorem acceptInvite_expired (pending : v.status = .pending) (late : v.expiresAt < now) :
    acceptInvite inviteId userId email membershipId now db invites =
      raised db invites (.integrityError "ck_organization_invites_ck_org_invites_status_valid") := by
  simp only [acceptInvite, found, flushInvite_expired]
  rw [if_neg (not_not.mpr pending), if_pos late]

theorem acceptInvite_live (c : Constraints userId membershipId db invites) (mem : v ∈ invites)
    (pending : v.status = .pending) (live : ¬ v.expiresAt < now) :
    acceptInvite inviteId userId email membershipId now db invites =
      if db.orgMemberships.any fun m => m.orgId = v.orgId && m.userId = userId then
        raised db invites (.integrityError "uq_org_memberships_org_user")
      else ⟨.ok (invitedMembership v membershipId userId now),
        { db with orgMemberships := db.orgMemberships ++ [invitedMembership v membershipId userId now] },
        invites.map fun x => if x.id = v.id then acceptedAs now v else x⟩ := by
  simp only [acceptInvite, found, flushInvite_accepted, flushMembership_eq c mem]
  rw [if_neg (not_not.mpr pending), if_neg live]
  by_cases member : db.orgMemberships.any fun m => m.orgId = v.orgId && m.userId = userId
  · rw [if_pos member, if_pos member]
  · rw [if_neg member, if_neg member]

end Branches

theorem acceptInvite_none
    (found : scalarOneOrNone (invites.filter fun v => v.id = inviteId && v.email = email) = .ok none) :
    acceptInvite inviteId userId email membershipId now db invites =
      raised db invites (.app (.notFoundError "Invitation" (str inviteId))) := by
  simp only [acceptInvite, found]

/-- The result of a request tells how it has ended. -/
theorem Ends.unique {ended : Ended} {o p : Outcome}
    (ho : Ends inviteId userId email membershipId now db invites ended o)
    (hp : Ends inviteId userId email membershipId now db invites ended p) : o = p := by
  cases ho <;> cases hp <;> simp_all [raised]

/-- No other failure is documented. -/
theorem not_endsWell_of_integrityError {name : String} :
    ¬ EndsWell inviteId userId email membershipId now db invites (raised db invites (.integrityError name)) := by
  intro h
  obtain ⟨outcome, ends, -⟩ := h.documented
  cases ends <;> simp_all [raised]

theorem expired_iff {v : OrganizationInvite} (only : ∀ w, Finds inviteId email invites w ↔ w = v) :
    Expired inviteId email now invites ↔ v.status = .pending ∧ v.expiresAt < now := by
  simp only [Expired, only, exists_eq_left]

theorem alreadyMember_iff {v : OrganizationInvite}
    (only : ∀ w, Finds inviteId email invites w ↔ w = v) :
    AlreadyMember inviteId userId email db invites ↔ v.status = .pending ∧
      db.orgMemberships.any fun m => m.orgId = v.orgId && m.userId = userId := by
  simp only [AlreadyMember, only, exists_eq_left, List.any_eq_true, Bool.and_eq_true,
    decide_eq_true_eq]

/-- A failure that is documented, and not for one of the two that must be a conflict. -/
theorem endsWell_of_ends {ended : Ended} {o : Outcome}
    (ends : Ends inviteId userId email membershipId now db invites ended o)
    (expired : ¬ Expired inviteId email now invites)
    (member : ¬ AlreadyMember inviteId userId email db invites)
    (statuses : ∀ x ∈ ended.invites, x ∈ invites ∨ x.status = .accepted) :
    EndsWell inviteId userId email membershipId now db invites ended :=
  ⟨⟨o, ends, fun _ h => h.unique ends⟩, fun h => absurd h expired, fun h => absurd h member, statuses⟩

theorem marked_statuses (v : OrganizationInvite) :
    ∀ x ∈ invites.map (fun x => if x.id = v.id then acceptedAs now v else x),
      x ∈ invites ∨ x.status = .accepted := by
  intro x hx
  obtain ⟨w, hw, rfl⟩ := List.mem_map.mp hx
  by_cases same : w.id = v.id
  · rw [if_pos same]
    exact .inr rfl
  · rw [if_neg same]
    exact .inl hw

/-! ## The machine of overlapping requests -/

section Alone
variable {n : Nat} {lower : String → String} {calls : Fin n → LastAdmin.Request}
  {w : LastAdmin.World n} {i : Fin n} {draw : LastAdmin.Draw}

theorem not_blocked (alone : ∀ k, k ≠ i → (w.phase k).pending = none) (waits : LastAdmin.Pending → Bool) :
    ¬ LastAdmin.Blocked w i waits := by
  rintro ⟨k, other, p, hp, -⟩
  rw [alone k other] at hp
  cases hp

/-- With no other transaction open, the statements of the machine fail as the request does, or
are about to commit the tables that it leaves. -/
theorem work_alone (c : Constraints userId draw.membershipId w.db w.invites)
    (start : w.phase i = .start) (call : calls i = .acceptInvite inviteId userId email)
    (alone : ∀ k, k ≠ i → (w.phase k).pending = none) :
    let ended := acceptInvite inviteId userId email draw.membershipId draw.now w.db w.invites
    (∃ e, ended.result = .error e ∧ LastAdmin.work lower calls w i draw = some (.failed e)) ∨
    ∃ m p, ended.result = .ok m ∧ LastAdmin.work lower calls w i draw = some (.writing p) ∧
      p.apply w.db w.invites = (ended.db, ended.invites) := by
  have free := not_blocked alone
  have user : ¬ !w.db.users.any fun u => u.id = userId := by simpa using c.user
  simp only [LastAdmin.work, start, call, if_neg (free _), inviteToAccept]
  obtain ⟨none, -⟩ | ⟨v, found, only⟩ := found_cases inviteId email c
  · exact .inl ⟨_, by rw [acceptInvite_none none]; rfl, by simp only [none]⟩
  · have hv : Finds inviteId email w.invites v := (only v).mpr rfl
    by_cases pending : v.status = .pending
    · by_cases late : v.expiresAt < draw.now
      · refine .inl ⟨_, by rw [acceptInvite_expired found pending late]; rfl, ?_⟩
        simp only [found, if_neg (not_not.mpr pending), if_pos late]
      · have live := acceptInvite_live found c hv.1 pending late
        simp only [found, if_neg (not_not.mpr pending), if_neg late, LastAdmin.acceptancePhase, live]
        by_cases member : w.db.orgMemberships.any fun m => m.orgId = v.orgId && m.userId = userId
        · exact .inl ⟨_, by rw [if_pos member]; rfl, congrArg some (if_pos member)⟩
        · let m := invitedMembership v draw.membershipId userId draw.now
          refine .inr ⟨m, .acceptance (acceptedAs draw.now v) m, by rw [if_neg member],
            congrArg some ((if_neg member).trans (if_neg user)), ?_⟩
          rw [if_neg member]
          rfl
    · refine .inl ⟨_, by rw [acceptInvite_decided found pending]; rfl, ?_⟩
      simp only [found, if_pos pending]

end Alone

/-- A request ends as documented exactly when the invitation that it finds is not both pending
and either expired or for an organization that the user is already in. -/
theorem accept_outcomes_iff (c : Constraints userId membershipId db invites) :
    EndsWell inviteId userId email membershipId now db invites
        (acceptInvite inviteId userId email membershipId now db invites) ↔
      ¬ (Expired inviteId email now invites ∨ AlreadyMember inviteId userId email db invites) := by
  obtain ⟨none, nobody⟩ | ⟨v, found, only⟩ := found_cases inviteId email c
  · have expired : ¬ Expired inviteId email now invites := fun ⟨w, hw, _⟩ => nobody w hw
    have member : ¬ AlreadyMember inviteId userId email db invites := fun ⟨w, hw, _⟩ => nobody w hw
    rw [acceptInvite_none none]
    exact iff_of_true (endsWell_of_ends (.notFound rfl) expired member fun x hx => .inl hx)
      (not_or.mpr ⟨expired, member⟩)
  · have hv : Finds inviteId email invites v := (only v).mpr rfl
    rw [expired_iff only, alreadyMember_iff only]
    by_cases pending : v.status = .pending
    · by_cases late : v.expiresAt < now
      -- The flush of the status fails.
      · rw [acceptInvite_expired found pending late]
        exact iff_of_false not_endsWell_of_integrityError (not_not.mpr (.inl ⟨pending, late⟩))
      · rw [acceptInvite_live found c hv.1 pending late]
        by_cases member : db.orgMemberships.any fun m => m.orgId = v.orgId && m.userId = userId
        -- The flush of the membership fails.
        · rw [if_pos member]
          exact iff_of_false not_endsWell_of_integrityError (not_not.mpr (.inr ⟨pending, member⟩))
        · rw [if_neg member]
          refine iff_of_true ?_ (by simp [late, member])
          exact endsWell_of_ends (.joined v hv.1 hv.2.1 hv.2.2 pending rfl rfl (by rw [hv.2.1]))
            (by simp [expired_iff only, late]) (by simp [alreadyMember_iff only, member])
            (marked_statuses v)
    · rw [acceptInvite_decided found pending]
      refine iff_of_true ?_ (by simp [pending])
      exact endsWell_of_ends (.conflict _ rfl) (by simp [expired_iff only, pending])
        (by simp [alreadyMember_iff only, pending]) fun x hx => .inl hx

end Outcomes

namespace Demo

def ann : User := ⟨1, "ann@example.com", true⟩

def tables : Database :=
  { Database.empty with users := [ann], organizations := [⟨2, "A", "a", 0⟩] }

/-- An invitation that expires at 5. -/
def invite : OrganizationInvite := ⟨3, 2, ann.email, .viewer, "t", .pending, 5, 0, none, none⟩

theorem constraints : Constraints ann.id 4 tables [invite] where
  inviteIds := List.nodup_singleton _
  organizations := by decide
  user := by decide
  fresh := by decide

end Demo

theorem accept_outcomes_live :
    EndsWell 3 Demo.ann.id Demo.ann.email 4 5 Demo.tables [Demo.invite]
        (acceptInvite 3 Demo.ann.id Demo.ann.email 4 5 Demo.tables [Demo.invite]) ↔
      ¬ (Expired 3 Demo.ann.email 5 [Demo.invite] ∨
        AlreadyMember 3 Demo.ann.id Demo.ann.email Demo.tables [Demo.invite]) :=
  accept_outcomes_iff Demo.constraints

/-- One microsecond later the tables refuse the status `expired`, and the request fails with
an IntegrityError. -/
theorem expired_invite_breaks_table :
    acceptInvite 3 Demo.ann.id Demo.ann.email 4 6 Demo.tables [Demo.invite] =
        raised Demo.tables [Demo.invite]
          (.integrityError "ck_organization_invites_ck_org_invites_status_valid") ∧
      ¬ EndsWell 3 Demo.ann.id Demo.ann.email 4 6 Demo.tables [Demo.invite]
        (acceptInvite 3 Demo.ann.id Demo.ann.email 4 6 Demo.tables [Demo.invite]) := by
  have late : Demo.invite.expiresAt < 6 := by decide
  have raises : acceptInvite 3 Demo.ann.id Demo.ann.email 4 6 Demo.tables [Demo.invite] =
      raised Demo.tables [Demo.invite]
        (.integrityError "ck_organization_invites_ck_org_invites_status_valid") :=
    acceptInvite_expired rfl rfl late
  refine ⟨raises, ?_⟩
  rw [raises]
  exact not_endsWell_of_integrityError

end InviteOutcomes
