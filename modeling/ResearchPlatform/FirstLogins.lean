import ResearchPlatform.CredentialRuns

/-!
# First logins

A login that finds no account makes one, with an organization of its own. Other logins of
the address may do so at the same time, and only the unique index on the email keeps them
apart.
-/

namespace FirstLogins

open Uuid Schema AuthService Machines Credentials CredentialRuns
open Migration (personalSlug personalSlug_injective)

section Runs
variable {n : Nat} {cfg : Settings} {calls : Fin n → Request} {s t : World n} {e : Event n}
  {i : Fin n} {p : Phase}

/-- The user has a workspace, as its admin. -/
def Personal (data : Database) (u : User) : Prop :=
  ∃ o ∈ data.organizations, o.slug = personalSlug u.id ∧
    ∃ m ∈ data.orgMemberships, m.orgId = o.id ∧ m.userId = u.id ∧ m.role = .admin

/-- Users are told apart by id and by email, and each one has an address and a workspace. -/
structure Accounts (data : Database) : Prop where
  named : ∀ u ∈ data.users, u.email ≠ ""
  ids : (data.users.map User.id).Nodup
  emails : (data.users.map User.email).Nodup
  slugs : (data.organizations.map Organization.slug).Nodup
  personal : ∀ u ∈ data.users, Personal data u

/-- What an open transaction that makes an account may rely on. -/
structure Registering (s : World n) (i : Fin n) (a : Account) : Prop where
  whole : a.user.row = a.user
  named : a.user.email ≠ ""
  ids : ∀ u ∈ s.db.data.users, u.id ≠ a.user.id
  emails : ∀ u ∈ s.db.data.users, u.email ≠ a.user.email
  slugs : ∀ o ∈ s.db.data.organizations, o.slug ≠ a.organization.slug
  slug : a.organization.slug = personalSlug a.user.id
  orgId : a.membership.orgId = a.organization.id
  userId : a.membership.userId = a.user.id
  role : a.membership.role = .admin
  beside : ∀ k ≠ i, ∀ b ∈ (s.phase k).account, b.user.email ≠ a.user.email ∧ b.user.id ≠ a.user.id

structure Inv (s : World n) : Prop where
  accounts : Accounts s.db.data
  registering : ∀ i, ∀ a ∈ (s.phase i).account, Registering s i a

theorem inv_start {data : Database} (accounts : Accounts data) : Inv (start n data) :=
  ⟨accounts, by simp [start, Phase.account, Phase.pending]⟩

/-- A phase that makes no account. -/
theorem Inv.setPhase (h : Inv s) (none_ : p.account = none) : Inv (s.setPhase i p) := by
  have same : ∀ k, ∀ a ∈ ((s.setPhase i p).phase k).account, a ∈ (s.phase k).account := by
    intro k a ha
    by_cases own : k = i
    · subst own
      rw [setPhase_self, none_] at ha
      cases ha
    · rwa [setPhase_of_ne own] at ha
  refine ⟨h.accounts, fun k a ha => ?_⟩
  have r := h.registering k a (same k a ha)
  exact ⟨r.whole, r.named, r.ids, r.emails, r.slugs, r.slug, r.orgId, r.userId, r.role,
    fun l hne b hb => r.beside l hne b (same l b hb)⟩

/-- The account that a record makes. -/
theorem account_writing {r : Record} {a : Account} :
    a ∈ (Phase.writing r).account ↔ ∃ issued, r.write = .login (some a) issued := by
  cases written : r.write with
  | login account issued => simp [Phase.account, Phase.pending, written]
  | rotation _ _ | touch _ | key _ _ | revocation _ _ => simp [Phase.account, Phase.pending, written]

/-- An account that is about to be made has the id of its transaction's draw. -/
theorem user_mark {r : Record} {a : Account} {issued : TokenRotation.RefreshToken}
    (written : r.write = .login (some a) issued) : Mark.user a.user.id ∈ r.marks := by
  simp [Record.marks, written]

/-- Only a login that has found no account makes one. -/
theorem drafted_account {request : Request} {db : Tables} {draw : Draw} {r : Record} {a : Account}
    {issued : TokenRotation.RefreshToken} (drafted : Drafted cfg request db draw p r)
    (written : r.write = .login (some a) issued) :
    p = .missing a.user.email ∧ Registered draw a.user.email db.data a := by
  cases drafted with
  | firstLogin email b made =>
    obtain ⟨same, -⟩ := Write.login.inj written
    obtain rfl := Option.some.inj same
    obtain rfl := register_email made
    exact ⟨rfl, register_registered made⟩
  | login _ =>
    obtain ⟨impossible, -⟩ := Write.login.inj written
    cases impossible
  | rotation _ _ | touch _ _ _ _ _ | key _ _ _ _ _ | revocation _ _ _ _ _ _ _ => cases written

theorem inv_draft (h : Inv s) (told : Told cfg calls s) {draw : Draw} {r : Record} (fresh : Fresh cfg s draw)
    (free : ∀ email, s.phase i = .missing email → ¬ Blocked s i (sameEmail email))
    (drafted : Drafted cfg (calls i) s.db draw (s.phase i) r) : Inv (s.setPhase i (.writing r)) := by
  cases makes : (Phase.writing r).account with
  | none => exact h.setPhase makes
  | some a =>
    obtain ⟨issued, written⟩ := account_writing.mp makes
    obtain ⟨hi, registered⟩ := drafted_account drafted written
    obtain ⟨whole, named⟩ : a.user.row = a.user ∧ a.user.email ≠ "" := by
      have stands := told.base.stands i
      rw [hi] at stands
      cases stands with
      | missing _ _ _ _ vouched named => exact ⟨registered.whole vouched, named⟩
      | silent _ silent => cases silent
    have alone := free a.user.email hi
    have after := told.apart.draft (i := i) fresh (drafted_marks drafted)
    -- another open account has another email, or this one would have waited
    have beside : ∀ k ≠ i, ∀ b ∈ (s.phase k).account, b.user.email ≠ a.user.email ∧ b.user.id ≠ a.user.id := by
      intro k hne b hb
      refine ⟨fun same => alone ⟨k, hne, ?_⟩, fun same => ?_⟩
      · rw [sameEmail, Option.mem_def.mp hb]
        exact decide_eq_true (congrArg (varchar 255) same)
      · cases hk : s.phase k with
        | writing r' =>
          rw [hk] at hb
          obtain ⟨issued', written'⟩ := account_writing.mp hb
          refine after.beside k i r' r hne (by rw [setPhase_of_ne hne, hk]) setPhase_self (user_mark written') ?_
          rw [same]
          exact user_mark written
        | start | missing _ | found _ | exchanging _ _ | expired _ | admitted _ _ | cleaning _ | done | failed _
        | aborted =>
          rw [hk] at hb
          cases hb
    refine ⟨h.accounts, fun k b hb => ?_⟩
    by_cases own : k = i
    · subst own
      rw [setPhase_self, makes] at hb
      obtain rfl := Option.some.inj hb
      have userId : a.user.id = draw.userId := by rw [registered.user]
      refine ⟨whole, named, fun u mem => userId ▸ fresh.1 u mem, whole ▸ registered.unknown, ?_, ?_, ?_, ?_, ?_, ?_⟩
      · rw [registered.slug]
        exact registered.untaken
      · rw [registered.slug, userId]
      · rw [registered.membership, registered.organizationId]
      · rw [registered.membership, userId]
      · rw [registered.membership]
      · intro l hne c hc
        rw [setPhase_of_ne hne] at hc
        exact beside l hne c hc
    · rw [setPhase_of_ne own] at hb
      have r' := h.registering k b hb
      refine ⟨r'.whole, r'.named, r'.ids, r'.emails, r'.slugs, r'.slug, r'.orgId, r'.userId, r'.role, fun l hne c hc => ?_⟩
      by_cases mine : l = i
      · subst mine
        rw [setPhase_self, makes] at hc
        obtain rfl := Option.some.inj hc
        obtain ⟨email, id⟩ := beside k own b hb
        exact ⟨email.symm, id.symm⟩
      · rw [setPhase_of_ne mine] at hc
        exact r'.beside l hne c hc

/-- A commit that makes no account leaves users and organizations as they are. -/
theorem apply_data {w : Write} (db : Tables) (none_ : ∀ a issued, w ≠ .login (some a) issued) :
    (w.apply db).data = db.data := by
  cases w with
  | login account issued =>
    cases account with
    | none => rfl
    | some a => exact absurd rfl (none_ a issued)
  | rotation _ _ | touch _ | key _ _ | revocation _ _ => rfl

theorem Personal.mono {data : Database} {a : Account} {u : User} (h : Personal data u) : Personal (a.insert data) u := by
  obtain ⟨o, mem, slug, m, mem', rest⟩ := h
  exact ⟨o, List.mem_append_left _ mem, slug, m, List.mem_append_left _ mem', rest⟩

/-- A new account keeps users and workspaces apart. -/
theorem accounts_insert (h : Accounts s.db.data) {a : Account} (r : Registering s i a) :
    Accounts (a.insert s.db.data) := by
  have snoc {α β : Type} {f : α → β} {rows : List α} {row : α} (nodup : (rows.map f).Nodup)
      (apart : ∀ x ∈ rows, f x ≠ f row) : ((rows ++ [row]).map f).Nodup := by
    rw [List.map_append]
    refine List.nodup_append.mpr ⟨nodup, List.nodup_singleton _, ?_⟩
    intro x mem y mem' same
    obtain ⟨z, stored, rfl⟩ := List.mem_map.mp mem
    exact apart z stored (same.trans (List.mem_singleton.mp mem'))
  have slug : a.organization.row.slug = a.organization.slug := row_personalSlug r.slug
  have users : (a.insert s.db.data).users = s.db.data.users ++ [a.user] := by rw [Account.insert, r.whole]
  refine ⟨?_, ?_, ?_, snoc h.slugs (slug ▸ r.slugs), fun u mem => ?_⟩
  · rw [users]
    exact List.forall_mem_append.mpr ⟨h.named, List.forall_mem_singleton.mpr r.named⟩
  · exact users ▸ snoc h.ids r.ids
  · exact users ▸ snoc h.emails r.emails
  rcases List.mem_append.mp mem with old | new
  · exact (h.personal u old).mono
  · rw [List.mem_singleton.mp new]
    exact ⟨a.organization.row, List.mem_append_right _ List.mem_cons_self, slug.trans r.slug, a.membership,
      List.mem_append_right _ List.mem_cons_self, r.orgId, r.userId, r.role⟩

theorem inv_commit (h : Inv s) {r : Record} (hi : s.phase i = .writing r) : Inv (afterCommit s i r) := by
  have others : ∀ k, ∀ b ∈ ((afterCommit s i r).phase k).account, k ≠ i ∧ b ∈ (s.phase k).account := by
    intro k b hb
    by_cases own : k = i
    · subst own
      rw [setPhase_self] at hb
      cases hb
    · rw [setPhase_of_ne own] at hb
      exact ⟨own, hb⟩
  by_cases makes : ∃ a issued, r.write = .login (some a) issued
  · obtain ⟨a, issued, written⟩ := makes
    have mine : a ∈ (s.phase i).account := hi ▸ account_writing.mpr ⟨issued, written⟩
    have registering := h.registering i a mine
    have data : (afterCommit s i r).db.data = a.insert s.db.data := by
      show (r.write.apply s.db).data = _
      rw [written]
      rfl
    refine ⟨data ▸ accounts_insert h.accounts registering, fun k b hb => ?_⟩
    obtain ⟨hne, hb⟩ := others k b hb
    have theirs := h.registering k b hb
    obtain ⟨email, id⟩ := theirs.beside i (Ne.symm hne) a mine
    have slug : a.organization.row.slug ≠ b.organization.slug := by
      rw [row_personalSlug registering.slug, registering.slug, theirs.slug]
      exact fun same => id (personalSlug_injective same)
    refine ⟨theirs.whole, theirs.named, ?_, ?_, ?_, theirs.slug, theirs.orgId, theirs.userId, theirs.role, fun l hne c hc => ?_⟩
    · rw [data]
      exact List.forall_mem_append.mpr ⟨theirs.ids, List.forall_mem_singleton.mpr id⟩
    · rw [data]
      exact List.forall_mem_append.mpr ⟨theirs.emails, List.forall_mem_singleton.mpr (registering.whole.symm ▸ email)⟩
    · rw [data]
      exact List.forall_mem_append.mpr ⟨theirs.slugs, List.forall_mem_singleton.mpr slug⟩
    · exact theirs.beside l hne c (others l c hc).2
  · simp only [not_exists] at makes
    have data : (afterCommit s i r).db.data = s.db.data := apply_data s.db makes
    refine ⟨data ▸ h.accounts, fun k b hb => ?_⟩
    obtain ⟨hne, hb⟩ := others k b hb
    have theirs := h.registering k b hb
    exact ⟨theirs.whole, theirs.named, data ▸ theirs.ids, data ▸ theirs.emails, data ▸ theirs.slugs, theirs.slug, theirs.orgId, theirs.userId,
      theirs.role, fun l hne c hc => theirs.beside l hne c (others l c hc).2⟩

theorem readPhase_account (request : Request) (now : Time) (db : Tables) :
    (readPhase cfg request now db).account = none := by
  have idle : ∀ r, readPhase cfg request now db ≠ .writing r := readPhase_idle request now db
  cases hp : readPhase cfg request now db with
  | writing r => exact absurd hp (idle r)
  | start | missing _ | found _ | exchanging _ _ | expired _ | admitted _ _ | cleaning _ | done | failed _ | aborted =>
    rfl

theorem inv_step (told : Told cfg calls s) (h : Inv s) (hs : (machine cfg calls).step s e = some t) : Inv t := by
  cases step_stepped hs with
  | read i now hi => exact h.setPhase (readPhase_account (calls i) now s.db)
  | draft i draw r fresh free drafted => exact inv_draft h told fresh free drafted
  | commit i r hi => exact inv_commit h hi
  | quiet e i p silent running left =>
    refine h.setPhase ?_
    cases silent with
    | failed _ | aborted | cleaning _ => rfl

theorem told_inv_reachable {data : Database} (accounts : Accounts data)
    (reachable : (machine cfg calls).Reachable (start n data) s) : Told cfg calls s ∧ Inv s :=
  Machine.reachable_invariant (I := fun s => Told cfg calls s ∧ Inv s) ⟨told_start data, inv_start accounts⟩
    (fun _ _ _ h hs => ⟨told_step h.1 hs, inv_step h.1 h.2 hs⟩) reachable

/-- However logins overlap, every user keeps an address and a workspace of their own, and a login that
has committed was answered for the one user with the address that Google vouched for. -/
theorem accounts_of_logins (cfg : Settings) (calls : Fin n → Request) (data : Database) (accounts : Accounts data)
    (s : World n) (reachable : (machine cfg calls).Reachable (start n data) s) :
    Accounts s.db.data ∧ ∀ r ∈ s.log, ∀ credential, r.request = .googleLogin credential →
      ∃ now email, cfg.verifyOauth2Token now credential = .ok (some email) ∧
        ∀ u, u ∈ s.db.data.users ∧ u.email = email ↔ u = r.user := by
  obtain ⟨told, inv⟩ := told_inv_reachable accounts reachable
  refine ⟨inv.accounts, fun r mem credential asked => ?_⟩
  obtain ⟨now, vouched⟩ := made_login (told.base.made r mem) asked
  refine ⟨now, r.user.email, vouched, fun u => ⟨?_, ?_⟩⟩
  · rintro ⟨stored, same⟩
    exact List.inj_on_of_nodup_map inv.accounts.emails stored (told.base.users r mem) same
  · rintro rfl
    exact ⟨told.base.users r mem, rfl⟩

end Runs

theorem accounts_empty : Accounts Database.empty where
  named _ mem := absurd mem List.not_mem_nil
  ids := List.nodup_nil
  emails := List.nodup_nil
  slugs := List.nodup_nil
  personal _ mem := absurd mem List.not_mem_nil

theorem accounts_of_logins_demo :
    Accounts Demo.after.db.data ∧ ∀ r ∈ Demo.after.log, ∀ credential, r.request = .googleLogin credential →
      ∃ now email, Demo.settings.verifyOauth2Token now credential = .ok (some email) ∧
        ∀ u, u ∈ Demo.after.db.data.users ∧ u.email = email ↔ u = r.user :=
  accounts_of_logins Demo.settings Demo.calls Database.empty accounts_empty Demo.after Demo.after_reachable

end FirstLogins
