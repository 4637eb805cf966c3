import ResearchPlatform.LastAdmin

/-!
# Invitations over whole runs

What overlapping membership requests make of the rows of `organization_invites`:
how many can be pending for one address, how often one can be redeemed, and when
an address can be invited again.
-/

namespace Invitations

open Uuid Schema TenantService Machines LastAdmin

section Changes
variable {n : Nat} {lower : String → String} {calls : Fin n → Request} {s t : World n}
  {e : Event n} {i : Fin n} {p : Phase}

/-- The transaction leaves the invitations alone. -/
def aside : Pending → Bool
  | .creation _ _ | .removal _ _ => true
  | .invitation _ | .acceptance _ _ => false

/-- What one step can do about invitations. -/
inductive InviteChange (s : World n) : Event n → World n → Prop
  | quiet (e : Event n) (i : Fin n) (p : Phase) (notCommit : ∀ k, e ≠ .commit k)
      (apart : ∀ q ∈ p.pending, aside q = true) : InviteChange s e (s.setPhase i p)
  | inserted (i : Fin n) (draw : Draw) (v : OrganizationInvite) (fresh : Fresh s draw)
      (id : v.id = draw.inviteId) (pending : v.status = .pending) :
      InviteChange s (.work i draw) (s.setPhase i (.writing (.invitation v)))
  | accepting (i : Fin n) (draw : Draw) (v : OrganizationInvite) (m : OrgMembership)
      (row : v ∈ s.invites) (pending : v.status = .pending)
      (free : ¬ Blocked s i (sameInvite v.id)) (org : m.orgId = v.orgId) (role : m.role = v.role) :
      InviteChange s (.work i draw)
        (s.setPhase i (.writing (.acceptance (acceptedAs draw.now v) m)))
  | committed (i : Fin n) (q : Pending) (hi : s.phase i = .writing q) :
      InviteChange s (.commit i) ({ s with
        db := (q.apply s.db s.invites).1, invites := (q.apply s.db s.invites).2 }.setPhase i .done)

theorem quiet_failed (notCommit : ∀ k, e ≠ .commit k) (failure : Failure) :
    InviteChange s e (s.setPhase i (.failed failure)) :=
  .quiet e i _ notCommit fun _ h => by cases h

theorem authorized_quiet (notCommit : ∀ k, e ≠ .commit k) (caller : UUID)
    (xTenantId : Option UUID) : InviteChange s e (s.setPhase i (authorized s caller xTenantId)) := by
  rcases authorized_cases s caller xTenantId with ⟨failure, he⟩ | ⟨m, _, _, _, he⟩
  · rw [he]
    exact quiet_failed notCommit failure
  · rw [he]
    exact .quiet e i _ notCommit fun _ h => by cases h

theorem work_inviteChange {draw : Draw} (fresh : Fresh s draw) (hp : Worked lower calls s i draw p) :
    InviteChange s (.work i draw) (s.setPhase i p) := by
  cases hp with
  | failed failure => exact quiet_failed (by simp) failure
  | creating name slug ownerId hc =>
    refine .quiet _ i _ (by simp) ?_
    rintro q hq
    cases hq
    rfl
  | accepting inviteId userId email v hc free hv =>
    obtain ⟨row, id, -, pending, -⟩ := inviteToAccept_spec hv
    exact .accepting i draw v _ row pending (id ▸ free) rfl rfl
  | inviting m caller xTenantId email role hi hc allowed fits => exact .inserted i draw _ fresh rfl rfl
  | removing m caller xTenantId userIdToRemove r hi hc hr =>
    exact .quiet _ i _ (by simp) fun _ h => by cases h

theorem step_inviteChange (hs : (machine lower calls).step s e = some t) : InviteChange s e t := by
  cases step_cases hs with
  | resolved i caller xTenantId hc => exact authorized_quiet (by simp) caller xTenantId
  | worked i draw p fresh hp => exact work_inviteChange fresh hp
  | deleted i m r hi =>
    refine .quiet _ i _ (by simp) ?_
    rintro q hq
    cases hq
    rfl
  | committed i q hi => exact .committed i q hi
  | aborted i => exact .quiet _ i _ (by simp) fun _ h => by cases h

/-! ## What the rows of invitations keep -/

/-- The invitation that the request inserts is pending, and has its id to itself. -/
def Inserting (s : World n) (i : Fin n) (v : OrganizationInvite) : Prop :=
  v.status = .pending ∧ (∀ u ∈ s.invites, u.id ≠ v.id) ∧
    ∀ k w, k ≠ i → s.phase k = .writing (.invitation w) → w.id ≠ v.id

/-- The request accepts a pending invitation, for its organization and role, and
no other request does. -/
def Accepting (s : World n) (i : Fin n) (v : OrganizationInvite) (m : OrgMembership) : Prop :=
  (∃ u ∈ s.invites, u.status = .pending ∧ (∃ now, v = acceptedAs now u) ∧
    m.orgId = u.orgId ∧ m.role = u.role) ∧
  ∀ k w r, k ≠ i → s.phase k = .writing (.acceptance w r) → w.id ≠ v.id

structure Inv (s : World n) : Prop where
  unique : ∀ a ∈ s.invites, ∀ b ∈ s.invites, a.id = b.id → a = b
  status : ∀ v ∈ s.invites, v.status = .pending ∨ v.status = .accepted
  inserting : ∀ i v, s.phase i = .writing (.invitation v) → Inserting s i v
  accepting : ∀ i v m, s.phase i = .writing (.acceptance v m) → Accepting s i v m

theorem phase_setPhase {k : Fin n} {q : Phase} (h : (s.setPhase i p).phase k = q) :
    k = i ∧ q = p ∨ k ≠ i ∧ s.phase k = q := by
  by_cases hk : k = i
  · subst hk
    rw [setPhase_self] at h
    exact Or.inl ⟨rfl, h.symm⟩
  · rw [setPhase_of_ne hk] at h
    exact Or.inr ⟨hk, h⟩

/-- A request may move to any phase that fits in with the other requests. -/
theorem Inv.setPhase (h : Inv s)
    (inserting : ∀ v, p = .writing (.invitation v) → Inserting s i v)
    (accepting : ∀ v m, p = .writing (.acceptance v m) → Accepting s i v m) :
    Inv (s.setPhase i p) where
  unique := h.unique
  status := h.status
  inserting := by
    intro k v hv
    rcases phase_setPhase hv with ⟨rfl, own⟩ | ⟨hk, old⟩
    · obtain ⟨pending, new, others⟩ := inserting v own.symm
      refine ⟨pending, new, ?_⟩
      intro j w hj hw
      rcases phase_setPhase hw with ⟨rfl, -⟩ | ⟨-, hw⟩
      · exact absurd rfl hj
      · exact others j w hj hw
    · obtain ⟨pending, new, others⟩ := h.inserting k v old
      refine ⟨pending, new, ?_⟩
      intro j w hj hw
      rcases phase_setPhase hw with ⟨rfl, own⟩ | ⟨-, hw⟩
      · exact ((inserting w own.symm).2.2 k v hk old).symm
      · exact others j w hj hw
  accepting := by
    intro k v m hv
    rcases phase_setPhase hv with ⟨rfl, own⟩ | ⟨hk, old⟩
    · obtain ⟨row, others⟩ := accepting v m own.symm
      refine ⟨row, ?_⟩
      intro j w r hj hw
      rcases phase_setPhase hw with ⟨rfl, -⟩ | ⟨-, hw⟩
      · exact absurd rfl hj
      · exact others j w r hj hw
    · obtain ⟨row, others⟩ := h.accepting k v m old
      refine ⟨row, ?_⟩
      intro j w r hj hw
      rcases phase_setPhase hw with ⟨rfl, own⟩ | ⟨-, hw⟩
      · exact ((accepting w r own.symm).2 k v m hk old).symm
      · exact others j w r hj hw

theorem inserting_of_fresh {draw : Draw} {v : OrganizationInvite} (fresh : Fresh s draw)
    (id : v.id = draw.inviteId) (pending : v.status = .pending) : Inserting s i v := by
  refine ⟨pending, fun u hu => id ▸ (fresh.2.2.1 u hu).1, ?_⟩
  intro k w _ hw
  have apart := (fresh.2.2.2 k).2 (.invitation w) (by rw [hw]; rfl)
  simp only [Pending.apart, Bool.and_eq_true, decide_eq_true_eq] at apart
  rw [id]
  exact apart.1

/-- The row lock of `FOR UPDATE` keeps other acceptances out. -/
theorem accepting_of_free {now : Time} {v : OrganizationInvite} {m : OrgMembership}
    (row : v ∈ s.invites) (pending : v.status = .pending) (free : ¬ Blocked s i (sameInvite v.id))
    (org : m.orgId = v.orgId) (role : m.role = v.role) : Accepting s i (acceptedAs now v) m := by
  refine ⟨⟨v, row, pending, ⟨now, rfl⟩, org, role⟩, ?_⟩
  intro k w r hk hw same
  have holds : sameInvite v.id (.acceptance w r) = true := decide_eq_true same
  exact free ⟨k, hk, .acceptance w r, by rw [hw]; rfl, holds⟩

/-- The rows after an acceptance: the accepted one, and the others as they were. -/
theorem mem_accepted {v x : OrganizationInvite} (rows : List OrganizationInvite) :
    (x ∈ rows.map fun u => if u.id = v.id then v else u) ↔
      (x = v ∧ ∃ u ∈ rows, u.id = v.id) ∨ (x ∈ rows ∧ x.id ≠ v.id) := by
  rw [List.mem_map]
  constructor
  · rintro ⟨u, hu, rfl⟩
    by_cases same : u.id = v.id
    · rw [if_pos same]
      exact Or.inl ⟨rfl, u, hu, same⟩
    · rw [if_neg same]
      exact Or.inr ⟨hu, same⟩
  · rintro (⟨rfl, u, hu, same⟩ | ⟨hx, other⟩)
    · exact ⟨u, hu, if_pos same⟩
    · exact ⟨x, hx, if_neg other⟩

/-- The world after a commit. -/
def afterCommit (s : World n) (i : Fin n) (q : Pending) : World n :=
  { s with db := (q.apply s.db s.invites).1, invites := (q.apply s.db s.invites).2 }.setPhase i .done

theorem commit_phase {k : Fin n} {q r : Pending} (h : (afterCommit s i q).phase k = .writing r) :
    k ≠ i ∧ s.phase k = .writing r := by
  rcases phase_setPhase h with ⟨-, own⟩ | other
  · cases own
  · exact other

theorem inv_commit (h : Inv s) {q : Pending} (hi : s.phase i = .writing q) :
    Inv (afterCommit s i q) := by
  cases q with
  | creation | removal =>
    exact Inv.setPhase (s := { s with db := _ }) ⟨h.unique, h.status, h.inserting, h.accepting⟩
      (fun _ own => by cases own) (fun _ _ own => by cases own)
  | invitation v =>
    obtain ⟨pending, new, others⟩ := h.inserting i v hi
    refine ⟨?_, ?_, ?_, ?_⟩
    · intro a ha b hb same
      rcases List.mem_append.mp ha with ha | ha
      · rcases List.mem_append.mp hb with hb | hb
        · exact h.unique a ha b hb same
        · exact absurd same (List.mem_singleton.mp hb ▸ new a ha)
      · rcases List.mem_append.mp hb with hb | hb
        · exact absurd same.symm (List.mem_singleton.mp ha ▸ new b hb)
        · exact (List.mem_singleton.mp ha).trans (List.mem_singleton.mp hb).symm
    · intro u hu
      rcases List.mem_append.mp hu with hu | hu
      · exact h.status u hu
      · exact Or.inl (List.mem_singleton.mp hu ▸ pending)
    · intro k w hw
      obtain ⟨hk, hw⟩ := commit_phase hw
      obtain ⟨pending', new', others'⟩ := h.inserting k w hw
      refine ⟨pending', ?_, fun j x hj hx => others' j x hj (commit_phase hx).2⟩
      intro u hu
      rcases List.mem_append.mp hu with hu | hu
      · exact new' u hu
      · exact List.mem_singleton.mp hu ▸ (others k w hk hw).symm
    · intro k w m hw
      obtain ⟨hk, hw⟩ := commit_phase hw
      obtain ⟨⟨u, hu, row⟩, others'⟩ := h.accepting k w m hw
      exact ⟨⟨u, List.mem_append_left _ hu, row⟩,
        fun j x r hj hx => others' j x r hj (commit_phase hx).2⟩
  | acceptance v m =>
    obtain ⟨⟨u, hu, pending, ⟨now, rfl⟩, -⟩, others⟩ := h.accepting i v m hi
    have ids : ∀ x, x ∈ (afterCommit s i (.acceptance (acceptedAs now u) m)).invites →
        ∃ y ∈ s.invites, y.id = x.id := by
      intro x hx
      rcases (mem_accepted s.invites).mp hx with ⟨rfl, -⟩ | ⟨hx, -⟩
      · exact ⟨u, hu, rfl⟩
      · exact ⟨x, hx, rfl⟩
    refine ⟨?_, ?_, ?_, ?_⟩
    · intro a ha b hb same
      rcases (mem_accepted s.invites).mp ha with ⟨rfl, -⟩ | ⟨ha, otherA⟩
      · rcases (mem_accepted s.invites).mp hb with ⟨rfl, -⟩ | ⟨-, otherB⟩
        · rfl
        · exact absurd same.symm otherB
      · rcases (mem_accepted s.invites).mp hb with ⟨rfl, -⟩ | ⟨hb, -⟩
        · exact absurd same otherA
        · exact h.unique a ha b hb same
    · intro x hx
      rcases (mem_accepted s.invites).mp hx with ⟨rfl, -⟩ | ⟨hx, -⟩
      · exact Or.inr rfl
      · exact h.status x hx
    · intro k w hw
      obtain ⟨-, hw⟩ := commit_phase hw
      obtain ⟨pending', new', others'⟩ := h.inserting k w hw
      refine ⟨pending', ?_, fun j x hj hx => others' j x hj (commit_phase hx).2⟩
      intro x hx
      obtain ⟨y, hy, same⟩ := ids x hx
      exact same ▸ new' y hy
    · intro k w r hw
      obtain ⟨hk, hw⟩ := commit_phase hw
      obtain ⟨⟨y, hy, pending', ⟨now', rfl⟩, org, role⟩, others'⟩ := h.accepting k w r hw
      have other : y.id ≠ (acceptedAs now u).id := others k (acceptedAs now' y) r hk hw
      exact ⟨⟨y, (mem_accepted s.invites).mpr (Or.inr ⟨hy, other⟩), pending', ⟨now', rfl⟩, org, role⟩,
        fun j x r' hj hx => others' j x r' hj (commit_phase hx).2⟩

theorem inv_step (h : Inv s) (hs : (machine lower calls).step s e = some t) : Inv t := by
  cases step_inviteChange hs with
  | quiet e i p notCommit apart =>
    refine h.setPhase ?_ ?_
    · rintro v rfl
      cases apart _ rfl
    · rintro v m rfl
      cases apart _ rfl
  | inserted i draw v fresh id pending =>
    refine h.setPhase ?_ (fun _ _ own => by cases own)
    intro w own
    cases own
    exact inserting_of_fresh fresh id pending
  | accepting i draw v m row pending free org role =>
    refine h.setPhase (fun _ own => by cases own) ?_
    intro w r own
    cases own
    exact accepting_of_free row pending free org role
  | committed i q hi => exact inv_commit h hi

theorem inv_start (users : List User) : Inv (start n users) where
  unique := by
    intro a ha
    cases ha
  status := by
    intro v hv
    cases hv
  inserting := by
    intro i v hv
    cases hv
  accepting := by
    intro i v m hv
    cases hv

/-! ## One pending invitation for each address -/

/-- The filter of the pending lookup in `create_invite`. -/
def pendingFor (orgId : UUID) (email : String) (v : OrganizationInvite) : Bool :=
  v.orgId = orgId && v.email = email && v.status = .pending

/-- No lookup of a pending invitation meets two rows. -/
def OnePending (s : World n) : Prop :=
  ∀ orgId email, s.invites.countP (pendingFor orgId email) ≤ 1

instance (s : World n) : Decidable (OnePending s) :=
  decidable_of_iff (∀ v ∈ s.invites, s.invites.countP (pendingFor v.orgId v.email) ≤ 1) (by
    constructor
    · intro each orgId email
      by_cases some : ∃ v ∈ s.invites, pendingFor orgId email v = true
      · obtain ⟨v, hv, found⟩ := some
        simp only [pendingFor, Bool.and_eq_true, decide_eq_true_eq] at found
        obtain ⟨⟨rfl, rfl⟩, -⟩ := found
        exact each v hv
      · have zero : s.invites.countP (pendingFor orgId email) = 0 :=
          List.countP_eq_zero.mpr fun v hv found => some ⟨v, hv, found⟩
        omega
    · exact fun all v _ => all v.orgId v.email)

/-- The step commits an invitation beside a pending one for the same address. -/
def LateInvite (s : World n) (e : Event n) : Prop :=
  ∃ i v, e = .commit i ∧ s.phase i = .writing (.invitation v) ∧
    ∃ u ∈ s.invites, pendingFor v.orgId v.email u = true

theorem pendingFor_acceptedAs (orgId : UUID) (email : String) (now : Time) (v : OrganizationInvite) :
    pendingFor orgId email (acceptedAs now v) = false := by
  simp [pendingFor, acceptedAs]

/-- An acceptance takes pending rows away and adds none. -/
theorem countP_accepted (orgId : UUID) (email : String) (now : Time) (v : OrganizationInvite)
    (rows : List OrganizationInvite) :
    (rows.map fun u => if u.id = v.id then acceptedAs now v else u).countP (pendingFor orgId email) ≤
      rows.countP (pendingFor orgId email) := by
  rw [List.countP_map]
  refine List.countP_mono_left fun u _ found => ?_
  by_cases same : u.id = v.id
  · simp [same, pendingFor_acceptedAs] at found
  · simpa [same] using found

theorem onePending_step (inv : Inv s) (h : OnePending s)
    (hs : (machine lower calls).step s e = some t) : OnePending t ↔ ¬ LateInvite s e := by
  cases step_inviteChange hs with
  | quiet e i p notCommit apart =>
    refine iff_of_true h ?_
    rintro ⟨k, v, rfl, -⟩
    exact notCommit k rfl
  | inserted i draw v fresh id pending => exact iff_of_true h (by simp [LateInvite])
  | accepting i draw v m row pending free org role => exact iff_of_true h (by simp [LateInvite])
  | committed i q hi =>
    cases q with
    | creation | removal =>
      refine iff_of_true h ?_
      rintro ⟨k, v, own, hv, -⟩
      cases own
      rw [hi] at hv
      cases hv
    | acceptance v m =>
      obtain ⟨⟨u, -, -, ⟨now, rfl⟩, -⟩, -⟩ := inv.accepting i v m hi
      refine iff_of_true ?_ ?_
      · intro orgId email
        exact (countP_accepted orgId email now u s.invites).trans (h orgId email)
      · rintro ⟨k, v, own, hv, -⟩
        cases own
        rw [hi] at hv
        cases hv
    | invitation v =>
      obtain ⟨pending, -⟩ := inv.inserting i v hi
      have mine : pendingFor v.orgId v.email v = true := by simp [pendingFor, pending]
      constructor
      · rintro one ⟨k, w, own, hw, u, hu, found⟩
        cases own
        rw [hi] at hw
        cases hw
        have two := one v.orgId v.email
        have before : 0 < s.invites.countP (pendingFor v.orgId v.email) :=
          List.countP_pos_iff.mpr ⟨u, hu, found⟩
        change (s.invites ++ [v]).countP (pendingFor v.orgId v.email) ≤ 1 at two
        simp only [List.countP_append, List.countP_singleton, mine, ↓reduceIte] at two
        omega
      · intro fair orgId email
        change (s.invites ++ [v]).countP (pendingFor orgId email) ≤ 1
        rw [List.countP_append, List.countP_singleton]
        by_cases same : pendingFor orgId email v = true
        · have none_ : s.invites.countP (pendingFor orgId email) = 0 := by
            simp only [pendingFor, Bool.and_eq_true, decide_eq_true_eq] at same
            obtain ⟨⟨rfl, rfl⟩, -⟩ := same
            exact List.countP_eq_zero.mpr fun u hu found => fair ⟨i, v, rfl, hi, u, hu, found⟩
          rw [if_pos same, none_]
        · rw [if_neg same]
          exact h orgId email

/-! ## Lookups that come too early -/

/-- The request invites an address that no row of the column can hold uncut. -/
def TooLong (calls : Fin n → Request) (i : Fin n) : Prop :=
  ∃ caller xTenantId email role, calls i = .createInvite caller xTenantId email role ∧ 255 < email.length

/-- The run has committed the invitation, and then taken the steps `gs`. -/
def BroughtIn (lower : String → String) (calls : Fin n → Request) (init : World n) (fs gs : List (Event n))
    (u : OrganizationInvite) : Prop :=
  ∃ before k r, fs = before ++ .commit k :: gs ∧ (machine lower calls).run init before = some r ∧
    r.phase k = .writing (.invitation u)

/-- The pending lookup of request `i` cannot have met the invitation: it ran before the invitation was
committed, or it looks for an address that is too long. -/
def Unseen (lower : String → String) (calls : Fin n → Request) (init : World n) (fs : List (Event n))
    (i : Fin n) (u : OrganizationInvite) : Prop :=
  ∃ gs, BroughtIn lower calls init fs gs u ∧ ((∀ draw, .work i draw ∉ gs) ∨ TooLong calls i)

/-- The run commits an invitation while another one for its address is pending that the request's lookup
cannot have met. -/
def Surprised (lower : String → String) (calls : Fin n → Request) (init : World n) (es : List (Event n)) : Prop :=
  ∃ fs i gs s v, es = fs ++ .commit i :: gs ∧ (machine lower calls).run init fs = some s ∧
    s.phase i = .writing (.invitation v) ∧
    ∃ u ∈ s.invites, pendingFor v.orgId v.email u = true ∧ Unseen lower calls init fs i u

theorem BroughtIn.later {init : World n} {fs gs : List (Event n)} {u : OrganizationInvite}
    (h : BroughtIn lower calls init fs gs u) (e : Event n) :
    BroughtIn lower calls init (fs ++ [e]) (gs ++ [e]) u := by
  obtain ⟨before, k, r, rfl, hr, writing⟩ := h
  exact ⟨before, k, r, by simp, hr, writing⟩

theorem Unseen.later {init : World n} {fs : List (Event n)} {u : OrganizationInvite}
    (h : Unseen lower calls init fs i u) (notWork : ∀ draw, e ≠ .work i draw) :
    Unseen lower calls init (fs ++ [e]) i u := by
  obtain ⟨gs, broughtIn, early⟩ := h
  refine ⟨gs ++ [e], broughtIn.later e, early.imp_left fun never draw looked => ?_⟩
  rcases List.mem_append.mp looked with looked | looked
  · exact never draw looked
  · exact notWork draw (List.mem_singleton.mp looked).symm

/-- A pending row was there before the step, or the step commits it. -/
theorem pending_step (inv : Inv s) (hs : (machine lower calls).step s e = some t) {u : OrganizationInvite}
    (hu : u ∈ t.invites) (pending : u.status = .pending) :
    u ∈ s.invites ∨ ∃ k, e = .commit k ∧ s.phase k = .writing (.invitation u) := by
  cases step_inviteChange hs with
  | quiet | inserted | accepting => exact Or.inl hu
  | committed i q hi =>
    cases q with
    | creation | removal => exact Or.inl hu
    | acceptance v m =>
      obtain ⟨⟨w, _, _, ⟨now, rfl⟩, _⟩, _⟩ := inv.accepting i v m hi
      rcases (mem_accepted s.invites).mp hu with ⟨rfl, _⟩ | ⟨old, _⟩
      · cases pending
      · exact Or.inl old
    | invitation v =>
      rcases List.mem_append.mp hu with old | new
      · exact Or.inl old
      · exact Or.inr ⟨i, rfl, List.mem_singleton.mp new ▸ hi⟩

theorem pendingLookup_ok_iff (rows : List OrganizationInvite) (failure : Failure) :
    (scalarOneOrNone rows >>= fun existing =>
      if existing.isSome then .error failure else .ok ()) = (.ok () : Except Failure Unit) ↔
      rows = [] := by
  match rows with
  | [] => exact iff_of_true rfl rfl
  | [v] => simp [scalarOneOrNone, bind, Except.bind]
  | v :: w :: rest => simp [scalarOneOrNone, bind, Except.bind]

/-- A request that passes the pending lookup has met no pending row for its address. -/
theorem lookup_empty {orgId : UUID} {email : String}
    (allowed : inviteAllowed orgId email s.db s.invites = .ok ()) {u : OrganizationInvite} (hu : u ∈ s.invites) :
    pendingFor orgId email u = false := by
  simp only [inviteAllowed] at allowed
  obtain ⟨user, _, allowed⟩ := of_bind_ok allowed
  cases user with
  | none | some user =>
    obtain ⟨member, _, allowed⟩ := of_bind_ok allowed
    split at allowed
    · cases allowed
    · have empty := (pendingLookup_ok_iff (s.invites.filter (pendingFor orgId email)) _).mp allowed
      exact Bool.eq_false_iff.mpr (List.filter_eq_nil_iff.mp empty u hu)

/-- An open invitation was open before the step, or the step is its request's work. -/
theorem invitation_step (hs : (machine lower calls).step s e = some t) {v : OrganizationInvite}
    (ht : t.phase i = .writing (.invitation v)) :
    s.phase i = .writing (.invitation v) ∧ (∀ draw, e ≠ .work i draw) ∨
      ∃ caller xTenantId email role orgId, calls i = .createInvite caller xTenantId email role ∧
        v.orgId = orgId ∧ v.email = varchar 255 email ∧ t.invites = s.invites ∧
        inviteAllowed orgId email s.db s.invites = .ok () ∧ ∃ draw, e = .work i draw := by
  have other : ∀ {k : Fin n} {q : Phase} {u : World n}, u.phase = s.phase →
      (u.setPhase k q).phase i = .writing (.invitation v) → q ≠ .writing (.invitation v) →
        s.phase i = .writing (.invitation v) ∧ k ≠ i := by
    intro k q u same hi ne
    rcases phase_setPhase hi with ⟨rfl, own⟩ | ⟨apart, old⟩
    · exact absurd own.symm ne
    · exact ⟨same ▸ old, Ne.symm apart⟩
  cases step_cases hs with
  | resolved k caller xTenantId hc =>
    refine Or.inl ⟨(other rfl ht fun own => ?_).1, by simp⟩
    rcases authorized_cases s caller xTenantId with ⟨failure, he⟩ | ⟨m, _, _, _, he⟩
    · rw [he] at own; cases own
    · rw [he] at own; cases own
  | deleted k m r hi => exact Or.inl ⟨(other rfl ht (by simp)).1, by simp⟩
  | committed k q hi =>
    exact Or.inl ⟨(other (u := { s with
      db := (q.apply s.db s.invites).1, invites := (q.apply s.db s.invites).2 }) rfl ht (by simp)).1, by simp⟩
  | aborted k => exact Or.inl ⟨(other rfl ht (by simp)).1, by simp⟩
  | worked k draw p fresh hp =>
    by_cases own : p = .writing (.invitation v)
    · subst own
      cases hp with
      | inviting m caller xTenantId email role hi hc allowed fits =>
        rcases phase_setPhase ht with ⟨rfl, _⟩ | ⟨apart, old⟩
        · exact Or.inr ⟨caller, xTenantId, email, role, m.orgId, hc, rfl, rfl, rfl, allowed, draw, rfl⟩
        · refine Or.inl ⟨old, fun draw' same => apart ?_⟩
          cases same
          rfl
    · obtain ⟨old, apart⟩ := other rfl ht own
      refine Or.inl ⟨old, fun draw' same => apart ?_⟩
      cases same
      rfl

/-- Every pending row was brought in by the run, and those for the address of an open invitation are unseen. -/
structure Traced (lower : String → String) (calls : Fin n → Request) (init : World n) (fs : List (Event n))
    (s : World n) : Prop where
  inv : Inv s
  rows : ∀ u ∈ s.invites, u.status = .pending → ∃ gs, BroughtIn lower calls init fs gs u
  lookups : ∀ i v, s.phase i = .writing (.invitation v) → ∀ u ∈ s.invites,
    pendingFor v.orgId v.email u = true → Unseen lower calls init fs i u

theorem pending_of_pendingFor {orgId : UUID} {email : String} {u : OrganizationInvite}
    (found : pendingFor orgId email u = true) : u.status = .pending := by
  simp only [pendingFor, Bool.and_eq_true, decide_eq_true_eq] at found
  exact found.2

theorem traced_step {init : World n} {fs : List (Event n)} (hr : (machine lower calls).run init fs = some s)
    (h : Traced lower calls init fs s) (hs : (machine lower calls).step s e = some t) :
    Traced lower calls init (fs ++ [e]) t := by
  have rows : ∀ u ∈ t.invites, u.status = .pending → ∃ gs, BroughtIn lower calls init (fs ++ [e]) gs u := by
    intro u hu pending
    rcases pending_step h.inv hs hu pending with old | ⟨k, rfl, writing⟩
    · obtain ⟨gs, broughtIn⟩ := h.rows u old pending
      exact ⟨gs ++ [e], broughtIn.later e⟩
    · exact ⟨[], fs, k, s, rfl, hr, writing⟩
  refine ⟨inv_step h.inv hs, rows, fun i v ht u hu found => ?_⟩
  rcases invitation_step hs ht with ⟨before, notWork⟩ |
    ⟨caller, xTenantId, email, role, orgId, hc, rfl, address, same, allowed, draw, rfl⟩
  · rcases pending_step h.inv hs hu (pending_of_pendingFor found) with old | ⟨k, rfl, writing⟩
    · exact (h.lookups i v before u old found).later notWork
    · exact ⟨[], ⟨fs, k, s, rfl, hr, writing⟩, Or.inl fun draw => List.not_mem_nil⟩
  · -- the lookup has just run, so an address that fits finds every row
    obtain ⟨gs, broughtIn⟩ := rows u hu (pending_of_pendingFor found)
    refine ⟨gs, broughtIn, Or.inr ⟨caller, xTenantId, email, role, hc, ?_⟩⟩
    by_contra short
    rw [address, varchar_of_length_le (by omega)] at found
    rw [lookup_empty allowed (same ▸ hu)] at found
    cases found

theorem traced_run (users : List User) {fs : List (Event n)}
    (hr : (machine lower calls).run (start n users) fs = some s) : Traced lower calls (start n users) fs s := by
  refine Machine.run_prefix (P := fun fs s => Traced lower calls (start n users) fs s) ?_
    (fun fs w e t hw h hs => traced_step hw h hs) hr
  refine ⟨inv_start users, fun u hu => ?_, fun i v hv => ?_⟩
  · cases hu
  · cases hv

theorem surprised_iff (users : List User) {es : List (Event n)} :
    Surprised lower calls (start n users) es ↔ (machine lower calls).Happened LateInvite (start n users) es := by
  constructor
  · rintro ⟨fs, i, gs, s, v, split, hr, writing, u, hu, found, _⟩
    exact ⟨fs, .commit i, gs, s, split, hr, i, v, rfl, writing, u, hu, found⟩
  · rintro ⟨fs, e, gs, s, split, hr, i, v, rfl, writing, u, hu, found⟩
    exact ⟨fs, i, gs, s, v, split, hr, writing, u, hu, found,
      (traced_run users hr).lookups i v writing u hu found⟩

/-- There is at most one pending invitation for each address throughout a run exactly when no invitation is
committed beside one for its address that its request has looked for too early, or under too long a name. -/
theorem one_pending_iff (lower : String → String) (calls : Fin n → Request) (users : List User)
    (es : List (Event n)) :
    (machine lower calls).Throughout OnePending (start n users) es ↔
      ¬ Surprised lower calls (start n users) es := by
  have first : OnePending (start n users) := by
    intro orgId email
    exact Nat.zero_le 1
  have enabled : ∀ s e, LateInvite s e → ∃ t, (machine lower calls).step s e = some t := by
    rintro s e ⟨i, v, rfl, writing, _⟩
    simp only [machine, step, writing]
    exact ⟨_, rfl⟩
  rw [surprised_iff, ← Machine.everyStep_not_iff enabled, Machine.Throughout, and_iff_right first]
  exact Machine.everyStep_congr (I := fun s => Inv s ∧ OnePending s)
    (fun _ _ _ h hs => onePending_step h.1 h.2 hs) (fun _ _ _ h hs one => ⟨inv_step h.1 hs, one⟩)
    ⟨inv_start users, first⟩

namespace Demo

/-- Ann creates an organization and invites Bob twice at the same time. -/
def twice : Fin 3 → Request
  | 0 => .createOrganization "Lab" none 1
  | 1 | 2 => .createInvite 1 none "bob@example.com" .viewer

def overlap (create first second : Fin 3) : List (Event 3) :=
  [.work create (LastAdmin.Demo.draw 10), .commit create, .resolve first, .resolve second,
    .work first (LastAdmin.Demo.draw 12), .work second (LastAdmin.Demo.draw 14), .commit first,
    .commit second]

end Demo

/-- Neither request sees the other's invitation. -/
theorem one_pending_not_twice :
    ¬ (machine LastAdmin.Demo.lower Demo.twice).Throughout OnePending
      (start 3 LastAdmin.Demo.users) (Demo.overlap 0 1 2) := by
  decide +kernel

/-! ## Redemption -/

/-- The invitation that the step redeems. -/
def redeemed (s : World n) : Event n → Option UUID
  | .commit i => match s.phase i with
    | .writing (.acceptance v _) => some v.id
    | _ => none
  | _ => none

/-- An invitation stays as it is, or the step accepts it and brings in its
membership; and what is redeemed was pending. -/
structure Together (s : World n) (e : Event n) (t : World n) : Prop where
  rows : ∀ v ∈ s.invites, v ∈ t.invites ∧ redeemed s e ≠ some v.id ∨
    redeemed s e = some v.id ∧ v.status = .pending ∧ ∃ now m, acceptedAs now v ∈ t.invites ∧
      m ∈ t.db.orgMemberships ∧ m.orgId = v.orgId ∧ m.role = v.role
  pending : ∀ id, redeemed s e = some id → ∃ v ∈ s.invites, v.id = id ∧ v.status = .pending

theorem together_of_none {r : Event n} (kept : ∀ v ∈ s.invites, v ∈ t.invites)
    (nothing : redeemed s r = none) : Together s r t where
  rows v hv := Or.inl ⟨kept v hv, by simp [nothing]⟩
  pending := by
    intro id found
    rw [nothing] at found
    cases found

theorem together_step (inv : Inv s) (hs : (machine lower calls).step s e = some t) :
    Together s e t := by
  cases step_inviteChange hs with
  | quiet e i p notCommit apart =>
    refine together_of_none (fun v hv => hv) ?_
    cases e with
    | commit k => exact absurd rfl (notCommit k)
    | resolve | work | delete | abort => rfl
  | inserted i draw v fresh id pending => exact together_of_none (fun v hv => hv) rfl
  | accepting i draw v m row pending free org role => exact together_of_none (fun v hv => hv) rfl
  | committed i q hi =>
    cases q with
    | creation | removal => exact together_of_none (fun v hv => hv) (by simp [redeemed, hi])
    | invitation v =>
      exact together_of_none (fun v hv => List.mem_append_left _ hv) (by simp [redeemed, hi])
    | acceptance v m =>
      obtain ⟨⟨u, hu, pending, ⟨now, rfl⟩, org, role⟩, -⟩ := inv.accepting i v m hi
      have shown : redeemed s (.commit i) = some u.id := by simp [redeemed, hi, acceptedAs]
      refine ⟨?_, ?_⟩
      · intro x hx
        by_cases same : x.id = u.id
        · have row : x = u := inv.unique x hx u hu same
          subst row
          refine Or.inr ⟨shown, pending, now, m, ?_, ?_, org, role⟩
          · exact (mem_accepted s.invites).mpr (Or.inl ⟨rfl, x, hx, rfl⟩)
          · exact List.mem_append_right _ (List.mem_singleton.mpr rfl)
        · refine Or.inl ⟨(mem_accepted s.invites).mpr (Or.inr ⟨hx, same⟩), ?_⟩
          rw [shown]
          exact fun equal => same (Option.some.inj equal).symm
      · intro id found
        rw [shown] at found
        exact ⟨u, hu, Option.some.inj found, pending⟩

/-- The invitation has been accepted. -/
def Redeemed (s : World n) (id : UUID) : Prop := ∃ v ∈ s.invites, v.id = id ∧ v.status = .accepted

theorem redeemed_stays {id : UUID} (together : Together s e t) (h : Redeemed s id) :
    Redeemed t id := by
  obtain ⟨v, hv, rfl, accepted⟩ := h
  rcases together.rows v hv with ⟨kept, -⟩ | ⟨-, pending, -⟩
  · exact ⟨v, kept, rfl, accepted⟩
  · rw [accepted] at pending
    cases pending

theorem redeemed_marks {id : UUID} (inv : Inv s) (together : Together s e t)
    (found : redeemed s e = some id) : ¬ Redeemed s id ∧ Redeemed t id := by
  obtain ⟨v, hv, rfl, pending⟩ := together.pending id found
  constructor
  · rintro ⟨u, hu, same, accepted⟩
    obtain rfl := inv.unique u hu v hv same
    rw [accepted] at pending
    cases pending
  · rcases together.rows v hv with ⟨-, other⟩ | ⟨-, -, now, m, row, -⟩
    · exact absurd found other
    · exact ⟨acceptedAs now v, row, rfl, rfl⟩

/-- No request gets past the checks of an accepted invitation. -/
theorem accepted_not_acceptable (inv : Inv s) {v : OrganizationInvite} (hv : v ∈ s.invites)
    (accepted : v.status = .accepted) (email : String) (now : Time) :
    ∃ failure, inviteToAccept v.id email now s.invites = .error failure := by
  cases h : inviteToAccept v.id email now s.invites with
  | error failure => exact ⟨failure, rfl⟩
  | ok u =>
    obtain ⟨row, same, -, pending, -⟩ := inviteToAccept_spec h
    obtain rfl := inv.unique u row v hv same
    rw [accepted] at pending
    cases pending

/-- In every run an invitation is redeemed at most once, each step leaves it alone or
accepts it together with its membership, and once accepted it cannot be accepted again. -/
theorem redeemed_once (lower : String → String) (calls : Fin n → Request) (users : List User)
    (es : List (Event n)) :
    ((machine lower calls).observed redeemed (start n users) es).Nodup ∧
      (machine lower calls).EveryStep Together (start n users) es ∧
      (machine lower calls).Throughout (fun s => ∀ v ∈ s.invites, v.status = .accepted →
        ∀ email now, ∃ failure, inviteToAccept v.id email now s.invites = .error failure)
        (start n users) es := by
  have always := Machine.everyStep_true (M := machine lower calls) (start n users) es
  refine ⟨?_, ?_, ?_, ?_⟩
  · exact Machine.observed_nodup Redeemed (fun _ _ _ h hs _ => inv_step h hs)
      (fun _ _ _ _ h hs _ => redeemed_stays (together_step h hs))
      (fun _ _ _ _ h hs _ => redeemed_marks h (together_step h hs)) (inv_start users) always
  · exact Machine.everyStep_mono (fun _ _ _ h hs _ => ⟨inv_step h hs, together_step h hs⟩)
      (inv_start users) always
  · intro v hv
    cases hv
  · refine Machine.everyStep_mono (fun _ _ _ h hs _ => ⟨inv_step h hs, ?_⟩) (inv_start users) always
    intro v hv accepted email now
    exact accepted_not_acceptable (inv_step h hs) hv accepted email now

/-! ## Inviting again -/

/-- No user with the address is a member. -/
def Outside (s : World n) (orgId : UUID) (email : String) : Prop :=
  ∀ u ∈ s.db.users, u.email = email → ∀ r ∈ s.db.orgMemberships, r.orgId = orgId → r.userId ≠ u.id

/-- Every invitation of the address is accepted or past its expiry. -/
def Over (s : World n) (orgId : UUID) (email : String) (now : Time) : Prop :=
  ∀ v ∈ s.invites, v.orgId = orgId → v.email = email → v.status = .accepted ∨ v.expiresAt < now

/-- An invitation of the address is past its expiry and still pending. -/
def Lingering (s : World n) (orgId : UUID) (email : String) (now : Time) : Prop :=
  ∃ v ∈ s.invites, v.orgId = orgId ∧ v.email = email ∧ v.expiresAt < now ∧ v.status = .pending

instance (s : World n) (orgId : UUID) (email : String) : Decidable (Outside s orgId email) :=
  inferInstanceAs (Decidable (∀ u ∈ s.db.users, u.email = email →
    ∀ r ∈ s.db.orgMemberships, r.orgId = orgId → r.userId ≠ u.id))

instance (s : World n) (orgId : UUID) (email : String) (now : Time) :
    Decidable (Over s orgId email now) :=
  inferInstanceAs (Decidable (∀ v ∈ s.invites, v.orgId = orgId → v.email = email →
    v.status = .accepted ∨ v.expiresAt < now))

instance (s : World n) (orgId : UUID) (email : String) (now : Time) :
    Decidable (Lingering s orgId email now) :=
  inferInstanceAs (Decidable (∃ v ∈ s.invites, v.orgId = orgId ∧ v.email = email ∧
    v.expiresAt < now ∧ v.status = .pending))

/-- The request runs from its start to its commit. -/
def Succeeds (lower : String → String) (calls : Fin n → Request) (s : World n) (i : Fin n)
    (draw : Draw) : Prop :=
  ∃ t, (machine lower calls).run s [.resolve i, .work i draw, .commit i] = some t ∧
    t.phase i = .done

/-- Addresses are unique among users, so the lookup of one meets at most one row. -/
theorem userByEmail_ok {users : List User} (unique : (users.map User.email).Nodup) (email : String) :
    ∃ found, scalarOneOrNone (users.filter fun u => u.email = email) = .ok found ∧
      ∀ u ∈ found, u ∈ users ∧ u.email = email := by
  have matching : ∀ u ∈ users.filter fun u => u.email = email, u ∈ users ∧ u.email = email := by
    intro u hu
    simpa using List.mem_filter.mp hu
  have apart : ((users.filter fun u => u.email = email).map User.email).Nodup :=
    unique.sublist (List.filter_sublist.map User.email)
  generalize users.filter (fun u => u.email = email) = rows at matching apart
  match rows with
  | [] => exact ⟨none, rfl, fun u hu => by cases hu⟩
  | [u] =>
    refine ⟨some u, rfl, ?_⟩
    rintro x hx
    cases hx
    exact matching u List.mem_cons_self
  | u :: v :: rest =>
    have first := (matching u (by simp)).2
    have second := (matching v (by simp)).2
    simp [first, second] at apart

/-- For an address outside the organization the checks of `create_invite` come down to
the pending lookup. -/
theorem inviteAllowed_ok_iff {orgId : UUID} {email : String}
    (unique : (s.db.users.map User.email).Nodup) (outside : Outside s orgId email) :
    inviteAllowed orgId email s.db s.invites = .ok () ↔
      ∀ v ∈ s.invites, ¬ pendingFor orgId email v = true := by
  obtain ⟨found, lookup, matching⟩ := userByEmail_ok unique email
  have reduced : inviteAllowed orgId email s.db s.invites =
      (scalarOneOrNone (s.invites.filter (pendingFor orgId email)) >>= fun existing =>
        if existing.isSome then
          .error (.app (.conflictError "A pending invitation already exists for this email."))
        else .ok ()) := by
    unfold inviteAllowed
    rw [lookup]
    cases found with
    | none => rfl
    | some u =>
      obtain ⟨row, address⟩ := matching u rfl
      have empty : (s.db.orgMemberships.filter fun m => m.orgId = orgId && m.userId = u.id) = [] := by
        refine List.filter_eq_nil_iff.mpr fun r hr both => ?_
        simp only [Bool.and_eq_true, decide_eq_true_eq] at both
        exact outside u row address r hr both.1 both.2
      simp only [bind, Except.bind, empty]
      rfl
  rw [reduced, pendingLookup_ok_iff, List.filter_eq_nil_iff]

theorem fresh_resolved {draw : Draw} {m : OrgMembership} (fresh : Fresh s draw)
    (row : m ∈ s.db.orgMemberships) : Fresh (s.setPhase i (.resolved m)) draw := by
  obtain ⟨organizations, memberships, invites, phases⟩ := fresh
  refine ⟨organizations, memberships, invites, ?_⟩
  intro k
  by_cases hk : k = i
  · subst hk
    rw [setPhase_self]
    refine ⟨?_, fun q hq => by cases hq⟩
    intro r hr
    exact List.mem_singleton.mp hr ▸ memberships m row
  · rw [setPhase_of_ne hk]
    exact phases k

theorem step_work {draw : Draw} (fresh : Fresh s draw) (hp : work lower calls s i draw = some p) :
    (machine lower calls).step s (.work i draw) = some (s.setPhase i p) := by
  simp only [machine, step, if_pos fresh, hp, Option.map_some]

theorem step_commit {q : Pending} (hi : s.phase i = .writing q) :
    (machine lower calls).step s (.commit i) = some (afterCommit s i q) := by
  simp only [machine, step, hi]
  rfl

theorem work_invites {caller : UUID} {xTenantId : Option UUID} {email : String} {role : Role}
    {m : OrgMembership} {draw : Draw} (hi : s.phase i = .resolved m)
    (hc : calls i = .createInvite caller xTenantId email role)
    (allowed : inviteAllowed m.orgId email s.db s.invites = .ok ())
    (fits : fitsVarchar 255 email = true) :
    work lower calls s i draw = some (.writing (.invitation
      (newInvite m.orgId email role caller draw.inviteId draw.tokenHash draw.now).row)) := by
  simp only [work, hi, hc, allowed, fits, ↓reduceIte]

/-- An admin's invitation of an outsider whose invitations are all over succeeds
exactly when the address fits its column and none of them is still pending. -/
theorem reinvite_iff {caller : UUID} {xTenantId : Option UUID} {email : String} {role : Role}
    {m : OrgMembership} {draw : Draw} (unique : (s.db.users.map User.email).Nodup)
    (hc : calls i = .createInvite caller xTenantId email role) (hi : s.phase i = .start)
    (admin : authorized s caller xTenantId = .resolved m) (outside : Outside s m.orgId email)
    (over_ : Over s m.orgId email draw.now) (fresh : Fresh s draw) :
    Succeeds lower calls s i draw ↔
      fitsVarchar 255 email = true ∧ ¬ Lingering s m.orgId email draw.now := by
  have row : m ∈ s.db.orgMemberships := by
    rcases authorized_cases s caller xTenantId with ⟨failure, he⟩ | ⟨r, hr, -, -, he⟩
    · rw [admin] at he
      cases he
    · rw [admin] at he
      cases he
      exact hr
  have resolves : (machine lower calls).step s (.resolve i) = some (s.setPhase i (.resolved m)) := by
    simp [machine, step, hi, hc, admin]
  have allowed_iff : inviteAllowed m.orgId email s.db s.invites = .ok () ↔
      ¬ Lingering s m.orgId email draw.now := by
    rw [inviteAllowed_ok_iff unique outside]
    constructor
    · rintro quiet ⟨v, hv, org, address, -, pending⟩
      exact quiet v hv (by simp [pendingFor, org, address, pending])
    · intro none_ v hv found
      simp only [pendingFor, Bool.and_eq_true, decide_eq_true_eq] at found
      obtain ⟨⟨org, address⟩, pending⟩ := found
      rcases over_ v hv org address with accepted | expired
      · rw [accepted] at pending
        cases pending
      · exact none_ ⟨v, hv, org, address, expired, pending⟩
  constructor
  · rintro ⟨t, hr, -⟩
    obtain ⟨s₁, h₁, hr⟩ := Machine.run_cons_iff.mp hr
    obtain rfl : s.setPhase i (.resolved m) = s₁ := Option.some.inj (resolves.symm.trans h₁)
    obtain ⟨s₂, h₂, hr⟩ := Machine.run_cons_iff.mp hr
    obtain ⟨s₃, h₃, -⟩ := Machine.run_cons_iff.mp hr
    cases step_cases h₂ with
    | worked _ _ p _ hp =>
      cases step_cases h₃ with
      | committed _ q hq =>
        rw [setPhase_self] at hq
        subst hq
        cases hp with
        | creating _ _ _ hc' | accepting _ _ _ _ hc' =>
          rw [hc] at hc'
          cases hc'
        | inviting m' caller' xTenantId' email' role' hi' hc' allowed fits =>
          rw [hc] at hc'
          cases hc'
          rw [setPhase_self] at hi'
          cases hi'
          exact ⟨fits, allowed_iff.mp allowed⟩
  · rintro ⟨fits, none_⟩
    have worked : work lower calls (s.setPhase i (.resolved m)) i draw = some (.writing _) :=
      work_invites setPhase_self hc (allowed_iff.mpr none_) fits
    have works := step_work (fresh_resolved fresh row) worked
    refine ⟨_, Machine.run_cons_iff.mpr ⟨_, resolves, Machine.run_cons_iff.mpr ⟨_, works,
      Machine.run_cons_iff.mpr ⟨_, step_commit setPhase_self, rfl⟩⟩⟩, ?_⟩
    exact setPhase_self

namespace Demo

/-- Ann invites Bob, who accepts and is removed, and then Ann invites him again. -/
def again : Fin 5 → Request
  | 0 => .createOrganization "Lab" none 1
  | 1 => .createInvite 1 none "bob@example.com" .viewer
  | 2 => .acceptInvite 12 2 "bob@example.com"
  | 3 => .removeMember 1 none 2
  | 4 => .createInvite 1 none "bob@example.com" .editor

def invited (create invite : Fin 5) : List (Event 5) :=
  [.work create (LastAdmin.Demo.draw 10), .commit create, .resolve invite,
    .work invite (LastAdmin.Demo.draw 12), .commit invite]

def removed (accept remove : Fin 5) : List (Event 5) :=
  [.work accept (LastAdmin.Demo.draw 14), .commit accept, .resolve remove,
    .work remove (LastAdmin.Demo.draw 16), .delete remove, .commit remove]

def world (es : List (Event 5)) : World 5 :=
  ((machine LastAdmin.Demo.lower again).run (start 5 LastAdmin.Demo.users) es).getD
    (start 5 LastAdmin.Demo.users)

/-- More than seven days later. -/
def late : Draw := LastAdmin.Demo.draw 604800000100

/-- Ann's membership in the organization. -/
def ann : OrgMembership := ⟨30, 20, 1, .admin, 10⟩

end Demo

theorem reinvite_after_removal :
    Succeeds LastAdmin.Demo.lower Demo.again (Demo.world (Demo.invited 0 1 ++ Demo.removed 2 3)) 4
      (LastAdmin.Demo.draw 18) :=
  (reinvite_iff (m := Demo.ann) (by decide +kernel) rfl (by decide +kernel) (by decide +kernel)
    (by decide +kernel) (by decide +kernel) (by decide +kernel)).mpr (by decide +kernel)

/-- Bob tries too late; the expired invitation is still pending, and Ann is refused. -/
theorem expired_invite_blocks :
    let es := Demo.invited 0 1 ++ [.work 2 Demo.late]
    (machine LastAdmin.Demo.lower Demo.again).Reachable (start 5 LastAdmin.Demo.users)
        (Demo.world es) ∧
      authorized (Demo.world es) 1 none = .resolved Demo.ann ∧
      Outside (Demo.world es) Demo.ann.orgId "bob@example.com" ∧
      Over (Demo.world es) Demo.ann.orgId "bob@example.com" Demo.late.now ∧
      ((machine LastAdmin.Demo.lower Demo.again).run (Demo.world es)
        [.resolve 4, .work 4 Demo.late]).map (fun t => t.phase 4) =
          some (.failed (.app (.conflictError
            "A pending invitation already exists for this email."))) ∧
      ¬ Succeeds LastAdmin.Demo.lower Demo.again (Demo.world es) 4 Demo.late := by
  intro es
  have enabled : ((machine LastAdmin.Demo.lower Demo.again).run (start 5 LastAdmin.Demo.users)
      es).isSome := by decide +kernel
  have refused : ((machine LastAdmin.Demo.lower Demo.again).run (Demo.world es)
      [.resolve 4, .work 4 Demo.late, .commit 4]).isNone := by decide +kernel
  refine ⟨Machine.reachable_getD _ enabled, by decide +kernel, by decide +kernel,
    by decide +kernel, by decide +kernel, ?_⟩
  rintro ⟨t, hr, -⟩
  rw [hr] at refused
  cases refused

end Changes

end Invitations
