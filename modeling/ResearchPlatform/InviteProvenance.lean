import ResearchPlatform.LastAdmin

/-!
# Where memberships come from

The five requests that write memberships and invitations as their routes issue
them, for the user that `get_current_user` has loaded, and what can be said of
the past of every membership that a run of the machine leaves committed.
-/

namespace InviteProvenance

open Uuid Schema TenantService Machines LastAdmin

/-- What a client asks for; the registration is that of the user itself. -/
inductive RouteCall where
  | createOrganization (name : String) (slug : Option String)
  | register
  | createInvite (xTenantId : Option UUID) (email : String) (role : Role)
  | acceptInvite (inviteId : UUID)
  | removeMember (xTenantId : Option UUID) (userIdToRemove : UUID)
  deriving DecidableEq, Repr

/-- `create_personal_organization`. -/
def createPersonalOrganization (userId : UUID) (email : String) : Request :=
  let base := String.ofList (email.toList.takeWhile fun c => c ≠ '@')
  .createOrganization (base ++ "'s Workspace") (some ("user-" ++ str userId)) userId

/-- The request that the route makes of the call for the current user. -/
def RouteCall.request (user : User) : RouteCall → Request
  | createOrganization name slug => .createOrganization name slug user.id
  | register => createPersonalOrganization user.id user.email
  | createInvite xTenantId email role => .createInvite user.id xTenantId email role
  | acceptInvite inviteId => .acceptInvite inviteId user.id user.email
  | removeMember xTenantId userIdToRemove => .removeMember user.id xTenantId userIdToRemove

section Histories
variable {n : Nat} (lower : String → String) (calls : Fin n → Request) (init : World n)
  (es : List (Event n))

/-- When the request resolved its tenant, the membership was committed, with role admin. -/
def ResolvedAs (i : Fin n) (caller : UUID) (m : OrgMembership) : Prop :=
  (machine lower calls).Happened (fun w e =>
    e = .resolve i ∧ m ∈ w.db.orgMemberships ∧ m.userId = caller ∧ m.role = .admin) init es

/-- The invitation is that of a request whose caller was an admin of the
organization when the request resolved its tenant. -/
def Issued (v : OrganizationInvite) : Prop :=
  ∃ i caller xTenantId email m, calls i = .createInvite caller xTenantId email v.role ∧
    v.email = varchar 255 email ∧ v.createdBy = some caller ∧ m.orgId = v.orgId ∧ ResolvedAs lower calls init es i caller m

/-- What the past says of a request that stands here. -/
def Backed (i : Fin n) : Phase → Prop
  | .resolved m => ∀ caller xTenantId email role,
      calls i = .createInvite caller xTenantId email role →
        ResolvedAs lower calls init es i caller m
  | .writing (.creation o m) => ∃ name slug, calls i = .createOrganization name slug m.userId ∧
      m.orgId = o.id ∧ m.role = .admin
  | .writing (.invitation v) => Issued lower calls init es v
  | .writing (.acceptance v m) => calls i = .acceptInvite v.id m.userId v.email ∧
      m.orgId = v.orgId ∧ m.role = v.role ∧ Issued lower calls init es v
  | _ => True

/-- The membership was committed together with its organization. -/
def Founded (m : OrgMembership) : Prop :=
  m.role = .admin ∧ (machine lower calls).Happened (fun w e => ∃ i o name slug,
    e = .commit i ∧ w.phase i = .writing (.creation o m) ∧ o.id = m.orgId ∧
      calls i = .createOrganization name slug m.userId) init es

/-- The membership was committed by accepting an invitation. -/
def Invited (m : OrgMembership) : Prop :=
  ∃ v : OrganizationInvite, v.orgId = m.orgId ∧ v.role = m.role ∧ Issued lower calls init es v ∧
    (machine lower calls).Happened (fun w e => ∃ i, e = .commit i ∧
      w.phase i = .writing (.acceptance v m) ∧ calls i = .acceptInvite v.id m.userId v.email) init es

/-- Every membership and every invitation has its past. -/
structure Provenance (s : World n) : Prop where
  members : ∀ m ∈ s.db.orgMemberships,
    Founded lower calls init es m ∨ Invited lower calls init es m
  invites : ∀ v ∈ s.invites, Issued lower calls init es v
  phases : ∀ i, Backed lower calls init es i (s.phase i)

end Histories

section Runs
variable {n : Nat} {lower : String → String} {calls : Fin n → Request} {init : World n}
  {es : List (Event n)} {s t : World n} {e : Event n} {i : Fin n} {p : Phase}

theorem Issued.later {v : OrganizationInvite} (more : List (Event n))
    (h : Issued lower calls init es v) : Issued lower calls init (es ++ more) v := by
  obtain ⟨k, caller, xTenantId, email, m, request, address, created, org, resolved⟩ := h
  exact ⟨k, caller, xTenantId, email, m, request, address, created, org, resolved.later more⟩

theorem Backed.later (more : List (Event n)) (h : Backed lower calls init es i p) :
    Backed lower calls init (es ++ more) i p := by
  cases p with
  | resolved m =>
    intro caller xTenantId email role request
    exact (h caller xTenantId email role request).later more
  | writing q =>
    cases q with
    | creation o m => exact h
    | invitation v => exact Issued.later more h
    | acceptance v m => exact ⟨h.1, h.2.1, h.2.2.1, h.2.2.2.later more⟩
    | removal m target => trivial
  | start | target | done | failed | aborted => trivial

theorem Founded.later {m : OrgMembership} (more : List (Event n))
    (h : Founded lower calls init es m) : Founded lower calls init (es ++ more) m :=
  ⟨h.1, h.2.later more⟩

theorem Invited.later {m : OrgMembership} (more : List (Event n))
    (h : Invited lower calls init es m) : Invited lower calls init (es ++ more) m := by
  obtain ⟨v, org, role, issued, accepted⟩ := h
  exact ⟨v, org, role, issued.later more, accepted.later more⟩

theorem Provenance.later (more : List (Event n)) (h : Provenance lower calls init es s) :
    Provenance lower calls init (es ++ more) s where
  members m hm := (h.members m hm).imp (Founded.later more) (Invited.later more)
  invites v hv := (h.invites v hv).later more
  phases i := (h.phases i).later more

theorem Provenance.setPhase (h : Provenance lower calls init es s)
    (backed : Backed lower calls init es i p) : Provenance lower calls init es (s.setPhase i p) where
  members := h.members
  invites := h.invites
  phases := by
    intro k
    by_cases hk : k = i
    · subst hk
      rwa [setPhase_self]
    · rw [setPhase_of_ne hk]
      exact h.phases k

/-- Resolving fails, or puts the admin membership that it read on record. -/
theorem resolve_backed (hr : (machine lower calls).run init es = some s) {caller : UUID}
    {xTenantId : Option UUID} (hc : (calls i).caller = some caller) :
    Backed lower calls init (es ++ [.resolve i]) i (authorized s caller xTenantId) := by
  rcases authorized_cases s caller xTenantId with ⟨failure, he⟩ | ⟨m, row, user, admin, he⟩
  · rw [he]
    trivial
  · rw [he]
    intro caller' xTenantId' email role request
    rw [request] at hc
    obtain rfl : caller' = caller := Option.some.inj hc
    exact Machine.happened_now hr ⟨rfl, row, user, admin⟩

theorem work_backed {draw : Draw} (h : Provenance lower calls init es s)
    (hp : Worked lower calls s i draw p) : Backed lower calls init es i p := by
  cases hp with
  | failed failure => trivial
  | creating name slug ownerId hc => exact ⟨name, slug, hc, rfl, rfl⟩
  | accepting inviteId userId email v hc free hv =>
    obtain ⟨row, id, address, -, -⟩ := inviteToAccept_spec hv
    refine ⟨?_, rfl, rfl, h.invites v row⟩
    rw [hc, ← id, ← address]
    rfl
  | inviting m caller xTenantId email role hi hc allowed fits =>
    have backed := h.phases i
    rw [hi] at backed
    exact ⟨i, caller, xTenantId, email, m, hc, rfl, rfl, rfl, backed caller xTenantId email role hc⟩
  | removing => trivial

/-- A commit turns what its request has on record into rows. -/
theorem commit_provenance (h : Provenance lower calls init es s)
    (hr : (machine lower calls).run init es = some s) {q : Pending} (hi : s.phase i = .writing q) :
    Provenance lower calls init (es ++ [.commit i]) ({ s with
      db := (q.apply s.db s.invites).1, invites := (q.apply s.db s.invites).2 }.setPhase i .done) := by
  have before := h.later [.commit i]
  have backed := h.phases i
  rw [hi] at backed
  refine Provenance.setPhase ⟨?_, ?_, before.phases⟩ trivial
  · intro m hm
    cases q with
    | creation o r =>
      rcases List.mem_append.mp hm with hm | hm
      · exact before.members m hm
      · obtain rfl := List.mem_singleton.mp hm
        obtain ⟨name, slug, request, org, admin⟩ := backed
        exact Or.inl ⟨admin, Machine.happened_now hr ⟨i, o, name, slug, rfl, hi, org.symm, request⟩⟩
    | acceptance v r =>
      rcases List.mem_append.mp hm with hm | hm
      · exact before.members m hm
      · obtain rfl := List.mem_singleton.mp hm
        obtain ⟨request, org, role, issued⟩ := backed
        exact Or.inr ⟨v, org.symm, role.symm, issued.later _,
          Machine.happened_now hr ⟨i, rfl, hi, request⟩⟩
    | invitation v => exact before.members m hm
    | removal r target => exact before.members m (List.mem_filter.mp hm).1
  · intro v hv
    cases q with
    | creation o r => exact before.invites v hv
    | invitation issued =>
      rcases List.mem_append.mp hv with hv | hv
      · exact before.invites v hv
      · obtain rfl := List.mem_singleton.mp hv
        exact Issued.later _ backed
    | acceptance accepted r =>
      obtain ⟨x, hx, rfl⟩ := List.mem_map.mp hv
      split
      · exact backed.2.2.2.later _
      · exact before.invites x hx
    | removal r target => exact before.invites v hv

theorem step_provenance (h : Provenance lower calls init es s)
    (hr : (machine lower calls).run init es = some s)
    (hs : (machine lower calls).step s e = some t) : Provenance lower calls init (es ++ [e]) t := by
  have before := h.later [e]
  cases step_cases hs with
  | resolved i caller xTenantId hc => exact before.setPhase (resolve_backed hr hc)
  | worked i draw p fresh hp => exact before.setPhase (Backed.later _ (work_backed h hp))
  | deleted i m r hi => exact before.setPhase trivial
  | committed i q hi => exact commit_provenance h hr hi
  | aborted i => exact before.setPhase trivial

theorem run_provenance {users : List User}
    (hr : (machine lower calls).run (start n users) es = some s) :
    Provenance lower calls (start n users) es s := by
  have first : Provenance lower calls (start n users) [] (start n users) :=
    ⟨fun m hm => (by cases hm), fun v hv => (by cases hv), fun _ => trivial⟩
  exact Machine.run_prefix (P := Provenance lower calls (start n users)) first
    (fun fs w e t hw h ht => step_provenance h hw ht) hr

end Runs

section Routes
variable {n : Nat}

/-- The requests that the routes make for the users who call them. -/
def routed (callers : Fin n → User) (bodies : Fin n → RouteCall) (i : Fin n) : Request :=
  (bodies i).request (callers i)

variable {lower : String → String} {callers : Fin n → User} {bodies : Fin n → RouteCall}
  {users : List User} {es : List (Event n)} {s : World n} {i : Fin n}

theorem routed_creation {name : String} {slug : Option String} {ownerId : UUID}
    (h : routed callers bodies i = .createOrganization name slug ownerId) :
    (callers i).id = ownerId ∧
      ((∃ name slug, bodies i = .createOrganization name slug) ∨ bodies i = .register) := by
  unfold routed at h
  cases hb : bodies i with
  | createOrganization asked slug' =>
    rw [hb] at h
    cases h
    exact ⟨rfl, Or.inl ⟨_, _, rfl⟩⟩
  | register =>
    rw [hb] at h
    cases h
    exact ⟨rfl, Or.inr rfl⟩
  | createInvite | acceptInvite | removeMember =>
    rw [hb] at h
    cases h

theorem routed_acceptance {inviteId userId : UUID} {email : String}
    (h : routed callers bodies i = .acceptInvite inviteId userId email) :
    bodies i = .acceptInvite inviteId ∧ (callers i).id = userId ∧ (callers i).email = email := by
  unfold routed at h
  cases hb : bodies i with
  | acceptInvite asked =>
    rw [hb] at h
    cases h
    exact ⟨rfl, rfl, rfl⟩
  | createOrganization | register | createInvite | removeMember =>
    rw [hb] at h
    cases h

theorem routed_invite {caller : UUID} {xTenantId : Option UUID} {email : String} {role : Role}
    (h : routed callers bodies i = .createInvite caller xTenantId email role) :
    bodies i = .createInvite xTenantId email role ∧ (callers i).id = caller := by
  unfold routed at h
  cases hb : bodies i with
  | createInvite tenant address invited =>
    rw [hb] at h
    cases h
    exact ⟨rfl, rfl⟩
  | createOrganization | register | acceptInvite | removeMember =>
    rw [hb] at h
    cases h

/-- The membership is that of the user who created the organization, as an admin. -/
def OfFounder (lower : String → String) (callers : Fin n → User) (bodies : Fin n → RouteCall)
    (init : World n) (es : List (Event n)) (m : OrgMembership) : Prop :=
  m.role = .admin ∧ (machine lower (routed callers bodies)).Happened (fun w e => ∃ i o,
    e = .commit i ∧
    ((∃ name slug, bodies i = .createOrganization name slug) ∨ bodies i = .register) ∧
    (callers i).id = m.userId ∧ w.phase i = .writing (.creation o m) ∧ o.id = m.orgId) init es

/-- The membership was made by accepting an invitation of its organization, with
its role and addressed to its user, whose author was an admin of the organization
when the inviting request resolved its tenant. -/
def OfInvitee (lower : String → String) (callers : Fin n → User) (bodies : Fin n → RouteCall)
    (init : World n) (es : List (Event n)) (m : OrgMembership) : Prop :=
  ∃ v : OrganizationInvite, v.orgId = m.orgId ∧ v.role = m.role ∧
    (machine lower (routed callers bodies)).Happened (fun w e => ∃ j, e = .commit j ∧
      bodies j = .acceptInvite v.id ∧ (callers j).id = m.userId ∧ (callers j).email = v.email ∧
      w.phase j = .writing (.acceptance v m)) init es ∧
    (machine lower (routed callers bodies)).Happened (fun w e => ∃ i xTenantId email r,
      e = .resolve i ∧ bodies i = .createInvite xTenantId email v.role ∧ v.email = varchar 255 email ∧
      v.createdBy = some (callers i).id ∧ r ∈ w.db.orgMemberships ∧ r.orgId = v.orgId ∧
      r.userId = (callers i).id ∧ r.role = .admin) init es

/-- Every membership that a run of the routes has committed is that of a founder
or of an invitee. -/
theorem membership_provenance
    (hr : (machine lower (routed callers bodies)).run (start n users) es = some s) :
    ∀ m ∈ s.db.orgMemberships, OfFounder lower callers bodies (start n users) es m ∨
      OfInvitee lower callers bodies (start n users) es m := by
  intro m hm
  rcases (run_provenance hr).members m hm with ⟨admin, created⟩ | ⟨v, org, role, issued, accepted⟩
  · refine Or.inl ⟨admin, created.mono ?_⟩
    rintro w e ⟨i, o, name, slug, rfl, hi, id, request⟩
    obtain ⟨owner, body⟩ := routed_creation request
    exact ⟨i, o, rfl, body, owner, hi, id⟩
  · obtain ⟨i, caller, xTenantId, email, r, request, address, author, tenant, resolved⟩ := issued
    obtain ⟨body, self⟩ := routed_invite request
    refine Or.inr ⟨v, org, role, accepted.mono ?_, resolved.mono ?_⟩
    · rintro w e ⟨j, rfl, hj, request'⟩
      obtain ⟨body', invitee, own⟩ := routed_acceptance request'
      exact ⟨j, rfl, body', invitee, own, hj⟩
    · rintro w e ⟨rfl, row, user, admin⟩
      exact ⟨i, xTenantId, email, r, rfl, body, address, by rw [author, self], row, tenant, by rw [user, self],
        admin⟩

end Routes

namespace Demo

def callers : Fin 3 → User
  | 0 | 1 => ⟨1, "ann@example.com", true⟩
  | 2 => ⟨2, "bob@example.com", true⟩

/-- Ann registers and invites Bob as an editor, and Bob accepts. -/
def bodies : Fin 3 → RouteCall
  | 0 => .register
  | 1 => .createInvite none "bob@example.com" .editor
  | 2 => .acceptInvite 12

def joined (register invite accept : Fin 3) : List (Event 3) :=
  [.work register (LastAdmin.Demo.draw 10), .commit register, .resolve invite,
    .work invite (LastAdmin.Demo.draw 12), .commit invite, .work accept (LastAdmin.Demo.draw 14),
    .commit accept]

end Demo

theorem membership_provenance_editor :
    ∃ s, (machine LastAdmin.Demo.lower (routed Demo.callers Demo.bodies)).run
        (start 3 LastAdmin.Demo.users) (Demo.joined 0 1 2) = some s ∧
      (∃ m ∈ s.db.orgMemberships, m.userId = 2 ∧ m.role = .editor) ∧
      ∀ m ∈ s.db.orgMemberships,
        OfFounder LastAdmin.Demo.lower Demo.callers Demo.bodies (start 3 LastAdmin.Demo.users)
          (Demo.joined 0 1 2) m ∨
        OfInvitee LastAdmin.Demo.lower Demo.callers Demo.bodies (start 3 LastAdmin.Demo.users)
          (Demo.joined 0 1 2) m := by
  obtain ⟨s, reached, editor⟩ : ∃ s ∈ (machine LastAdmin.Demo.lower
      (routed Demo.callers Demo.bodies)).run (start 3 LastAdmin.Demo.users) (Demo.joined 0 1 2),
      ∃ m ∈ s.db.orgMemberships, m.userId = 2 ∧ m.role = .editor := by decide +kernel
  exact ⟨s, reached, editor, membership_provenance reached⟩

end InviteProvenance
