import ResearchPlatform.Credentials

/-!
# What the answers of committed requests account for

The tables of keys and tokens, told by what requests have asked and what they have been
answered: whatever is stored was handed out, and it is gone or inactive exactly if a
committed request has asked for that.
-/

namespace CredentialRuns

open Uuid Schema DocumentService AuthService Machines Credentials
open TokenRotation (RefreshToken hashRefreshToken)
open ApiKeyAuthentication (candidates Verifies)

section Runs
variable {n : Nat} {cfg : Settings} {calls : Fin n → Request} {s t : World n} {e : Event n}
  {i : Fin n} {p : Phase}

@[simp] theorem setPhase_self : (s.setPhase i p).phase i = p := if_pos rfl

theorem setPhase_of_ne {k : Fin n} (h : k ≠ i) : (s.setPhase i p).phase k = s.phase k := if_neg h

@[simp] theorem setPhase_db : (s.setPhase i p).db = s.db := rfl

@[simp] theorem setPhase_log : (s.setPhase i p).log = s.log := rfl

/-- What holds of the phases after a step, if it held before and holds of the new one. -/
theorem setPhase_all {P : Fin n → Phase → Prop} (all : ∀ k, P k (s.phase k)) (new : P i p) (k : Fin n) :
    P k ((s.setPhase i p).phase k) := by
  by_cases hk : k = i
  · subst hk
    rw [setPhase_self]
    exact new
  · rw [setPhase_of_ne hk]
    exact all k

/-! ## Steps -/

/-- How a request comes to write. -/
inductive Drafted (cfg : Settings) (request : Request) (db : Tables) (draw : Draw) : Phase → Record → Prop
  | firstLogin (email : String) (a : Account) (made : register cfg email draw db.data = .ok a) :
      Drafted cfg request db draw (.missing email)
        ⟨request, a.user, .login (some a) (newRefreshToken cfg a.user draw), tokensFor cfg a.user draw⟩
  | login (user : User) : Drafted cfg request db draw (.found user)
      ⟨request, user, .login none (newRefreshToken cfg user draw), tokensFor cfg user draw⟩
  | rotation (stored : RefreshToken) (user : User) : Drafted cfg request db draw (.exchanging stored user)
      ⟨request, user, .rotation stored (newRefreshToken cfg user draw), tokensFor cfg user draw⟩
  | touch (user : User) (used : Option (UUID × Time)) (grant : Grant)
      (asked : ∀ c keyId, request ≠ .bearer c (.revokeApiKey keyId))
      (plain : grant = .nothing ∨ grant = .keys (listUserApiKeys user.id (touched used db.apiKeys))) :
      Drafted cfg request db draw (.admitted user used) ⟨request, user, .touch used, grant⟩
  | key (credentials : Option String) (name : String) (user : User) (used : Option (UUID × Time))
      (asked : request = .bearer credentials (.createApiKey name)) :
      Drafted cfg request db draw (.admitted user used)
        ⟨request, user, .key used (newApiKey cfg user name draw), .key (fullKey draw.random)⟩
  | revocation (credentials : Option String) (key : ApiKey) (user : User) (used : Option (UUID × Time))
      (asked : request = .bearer credentials (.revokeApiKey key.id))
      (stored : key ∈ touched used db.apiKeys) (own : key.userId = user.id) :
      Drafted cfg request db draw (.admitted user used) ⟨request, user, .revocation used key.id, .nothing⟩

/-- A phase in which a request has nothing to commit. -/
inductive Silent : Phase → Prop
  | failed (e : Failure) : Silent (.failed e)
  | aborted : Silent .aborted
  | cleaning (stored : RefreshToken) : Silent (.cleaning stored)

def Ended : Phase → Bool
  | .done | .failed _ | .aborted => true
  | _ => false

inductive Stepped (cfg : Settings) (calls : Fin n → Request) (s : World n) : Event n → World n → Prop
  | read (i : Fin n) (now : Time) (hi : s.phase i = .start) :
      Stepped cfg calls s (.read i now) (s.setPhase i (readPhase cfg (calls i) now s.db))
  | draft (i : Fin n) (draw : Draw) (r : Record) (fresh : Fresh cfg s draw)
      (free : ∀ email, s.phase i = .missing email → ¬ Blocked s i (sameEmail email))
      (drafted : Drafted cfg (calls i) s.db draw (s.phase i) r) :
      Stepped cfg calls s (.write i draw) (s.setPhase i (.writing r))
  | commit (i : Fin n) (r : Record) (hi : s.phase i = .writing r) :
      Stepped cfg calls s (.commit i) ({ s with
        db := r.write.apply s.db, log := s.log ++ [r] }.setPhase i .done)
  | quiet (e : Event n) (i : Fin n) (p : Phase) (silent : Silent p) (running : Ended (s.phase i) = false)
      (left : s.phase i = .start → p = .aborted) : Stepped cfg calls s e (s.setPhase i p)

theorem act_drafted {request : Request} {credentials : Option String} {action : Action} (cfg : Settings)
    (db : Tables) (draw : Draw) (user : User) (used : Option (UUID × Time)) (asked : request = .bearer credentials action) :
    (∃ r, act cfg request user used action draw db = .writing r ∧
        Drafted cfg request db draw (.admitted user used) r) ∨
      ∃ e, act cfg request user used action draw db = .failed e := by
  have other (h : ∀ keyId, action ≠ .revokeApiKey keyId) (c : Option String) (keyId : UUID) :
      request ≠ .bearer c (.revokeApiKey keyId) := by
    rw [asked]
    intro same
    exact h keyId (Request.bearer.inj same).2
  cases action with
  | getMe => exact Or.inl ⟨_, rfl, .touch user used .nothing (other (by simp)) (Or.inl rfl)⟩
  | listApiKeys => exact Or.inl ⟨_, rfl, .touch user used _ (other (by simp)) (Or.inr rfl)⟩
  | createApiKey name =>
    simp only [act]
    split
    · exact Or.inr ⟨_, rfl⟩
    · split
      · exact Or.inl ⟨_, rfl, .key credentials name user used asked⟩
      · exact Or.inr ⟨_, rfl⟩
  | revokeApiKey keyId =>
    simp only [act]
    split
    · exact Or.inr ⟨_, rfl⟩
    · exact Or.inr ⟨_, rfl⟩
    · rename_i key found
      have mem : key ∈ (touched used db.apiKeys).filter fun k => k.id = keyId && k.userId = user.id := by
        rw [scalarOneOrNone_of_eq_some found]
        exact List.mem_cons_self
      simp only [List.mem_filter, Bool.and_eq_true, decide_eq_true_eq] at mem
      obtain ⟨stored, rfl, own⟩ := mem
      exact Or.inl ⟨_, rfl, .revocation credentials key user used asked stored own⟩

theorem work_drafted {draw : Draw} (hw : work cfg calls s i draw = some p) :
    (∃ r, p = .writing r ∧ Drafted cfg (calls i) s.db draw (s.phase i) r ∧
        ∀ email, s.phase i = .missing email → ¬ Blocked s i (sameEmail email)) ∨
      Silent p ∧ Ended (s.phase i) = false ∧ s.phase i ≠ .start := by
  simp only [work] at hw
  split at hw
  · rename_i email hi
    split at hw
    · cases hw
    · rename_i free
      split at hw
      · cases hw
        exact Or.inr ⟨.failed _, by rw [hi]; rfl, by simp [hi]⟩
      · rename_i a made
        cases hw
        refine Or.inl ⟨_, rfl, hi ▸ .firstLogin email a made, fun email' same => ?_⟩
        rw [hi] at same
        exact Phase.missing.inj same ▸ free
  · rename_i user hi
    cases hw
    exact Or.inl ⟨_, rfl, hi ▸ .login user, by simp [hi]⟩
  · rename_i stored user hi
    split at hw
    · cases hw
    · cases hw
      exact Or.inl ⟨_, rfl, hi ▸ .rotation stored user, by simp [hi]⟩
  · rename_i stored hi
    split at hw
    · cases hw
    · cases hw
      exact Or.inr ⟨.cleaning stored, by rw [hi]; rfl, by simp [hi]⟩
  · rename_i user used hi
    split at hw
    · rename_i credentials action asked
      split at hw
      · cases hw
      · cases hw
        rcases act_drafted cfg s.db draw user used asked with ⟨r, made, drafted⟩ | ⟨e, made⟩
        · exact Or.inl ⟨r, made, hi ▸ drafted, by simp [hi]⟩
        · rw [made]
          exact Or.inr ⟨.failed e, by rw [hi]; rfl, by simp [hi]⟩
    · cases hw
  · cases hw

theorem step_stepped (hs : (machine cfg calls).step s e = some t) : Stepped cfg calls s e t := by
  simp only [machine] at hs
  cases e with
  | read i now =>
    simp only [step] at hs
    split at hs
    · rename_i hi
      cases hs
      exact .read i now hi
    · cases hs
  | write i draw =>
    simp only [step] at hs
    split at hs
    · rename_i fresh
      obtain ⟨p, hw, rfl⟩ := Option.map_eq_some_iff.mp hs
      rcases work_drafted hw with ⟨r, rfl, drafted, free⟩ | ⟨silent, running, started⟩
      · exact .draft i draw r fresh free drafted
      · exact .quiet _ i p silent running fun hi => absurd hi started
    · cases hs
  | commit i =>
    simp only [step] at hs
    split at hs
    · rename_i r hi
      cases hs
      exact .commit i r hi
    · cases hs
  | abort i =>
    cases hi : s.phase i with
    | cleaning stored =>
      simp only [step, hi, Option.some.injEq] at hs
      exact hs ▸ .quiet _ i _ (.failed _) (by rw [hi]; rfl) (by simp [hi])
    | start | missing _ | found _ | exchanging _ _ | expired _ | admitted _ _ | writing _ =>
      simp only [step, hi, Option.some.injEq] at hs
      exact hs ▸ .quiet _ i _ .aborted (by rw [hi]; rfl) fun _ => rfl
    | done | failed _ | aborted => simp [step, hi] at hs

/-! ## Records -/

/-- What a record's request, write and answer have to do with each other. -/
inductive Made (cfg : Settings) : Record → Prop
  | firstLogin (credential : String) (now : Time) (a : Account) (draw : Draw) (before : Database)
      (vouched : cfg.verifyOauth2Token now credential = .ok (some a.user.email)) (named : a.user.email ≠ "")
      (made : register cfg a.user.email draw before = .ok a) :
      Made cfg ⟨.googleLogin credential, a.user, .login (some a) (newRefreshToken cfg a.user draw),
        tokensFor cfg a.user draw⟩
  | login (credential : String) (now : Time) (user : User) (draw : Draw)
      (vouched : cfg.verifyOauth2Token now credential = .ok (some user.email)) (named : user.email ≠ "") :
      Made cfg ⟨.googleLogin credential, user, .login none (newRefreshToken cfg user draw), tokensFor cfg user draw⟩
  | rotation (rawToken : String) (stored : RefreshToken) (user : User) (draw : Draw)
      (presented : stored.tokenHash = hashRefreshToken cfg.sha256 rawToken) (own : stored.userId = user.id) :
      Made cfg ⟨.refresh rawToken, user, .rotation stored (newRefreshToken cfg user draw), tokensFor cfg user draw⟩
  | touch (credentials : Option String) (action : Action) (user : User) (used : Option (UUID × Time))
      (grant : Grant) (other : ∀ keyId, action ≠ .revokeApiKey keyId)
      (plain : grant = .nothing ∨ ∃ rows, grant = .keys (listUserApiKeys user.id rows)) :
      Made cfg ⟨.bearer credentials action, user, .touch used, grant⟩
  | key (credentials : Option String) (name : String) (user : User) (used : Option (UUID × Time)) (draw : Draw) :
      Made cfg ⟨.bearer credentials (.createApiKey name), user, .key used (newApiKey cfg user name draw),
        .key (fullKey draw.random)⟩
  | revocation (credentials : Option String) (keyId : UUID) (user : User) (used : Option (UUID × Time)) :
      Made cfg ⟨.bearer credentials (.revokeApiKey keyId), user, .revocation used keyId, .nothing⟩

/-- A row that a committed request has handed out. -/
def Issued (log : List Record) (row : RefreshToken) : Prop := ∃ r ∈ log, r.write.issued = some row

/-- What a request has learned, which no later commit takes back. -/
inductive Stands (cfg : Settings) (s : World n) (request : Request) : Phase → Prop
  | start : Stands cfg s request .start
  | missing (credential : String) (now : Time) (email : String) (asked : request = .googleLogin credential)
      (vouched : cfg.verifyOauth2Token now credential = .ok (some email)) (named : email ≠ "") :
      Stands cfg s request (.missing email)
  | found (credential : String) (now : Time) (user : User) (asked : request = .googleLogin credential)
      (vouched : cfg.verifyOauth2Token now credential = .ok (some user.email)) (named : user.email ≠ "")
      (mem : user ∈ s.db.data.users) : Stands cfg s request (.found user)
  | exchanging (rawToken : String) (stored : RefreshToken) (user : User) (asked : request = .refresh rawToken)
      (presented : stored.tokenHash = hashRefreshToken cfg.sha256 rawToken) (issued : Issued s.log stored)
      (own : stored.userId = user.id) (mem : user ∈ s.db.data.users) :
      Stands cfg s request (.exchanging stored user)
  | expired (stored : RefreshToken) : Stands cfg s request (.expired stored)
  | admitted (credentials : Option String) (action : Action) (user : User) (used : Option (UUID × Time))
      (asked : request = .bearer credentials action) (mem : user ∈ s.db.data.users) :
      Stands cfg s request (.admitted user used)
  | writing (r : Record) (asked : r.request = request) (made : Made cfg r)
      (mem : r.user ∈ s.db.data.users ∨ ∃ a issued, r.write = .login (some a) issued ∧ a.user = r.user)
      (stored : ∀ row issued, r.write = .rotation row issued → Issued s.log row)
      (keys : ∀ used keyId, r.write = .revocation used keyId →
        ∃ key ∈ s.db.apiKeys, key.id = keyId ∧ key.userId = r.user.id) : Stands cfg s request (.writing r)
  | done : Stands cfg s request .done
  | silent (p : Phase) (silent : Silent p) : Stands cfg s request p

/-! ## Reading -/

theorem loginRead_stands {request : Request} {credential : String} {now : Time}
    (asked : request = .googleLogin credential) : Stands cfg s request (loginRead cfg credential now s.db) := by
  simp only [loginRead]
  split
  · exact .silent _ (.failed _)
  · exact .silent _ (.failed _)
  · exact .silent _ (.failed _)
  · rename_i email vouched
    split
    · exact .silent _ (.failed _)
    · rename_i named
      split
      · exact .silent _ (.failed _)
      · split
        · exact .silent _ (.failed _)
        · exact .missing credential now email asked vouched named
        · rename_i user found
          have mem : user ∈ s.db.data.users.filter fun u => u.email = email := by
            rw [scalarOneOrNone_of_eq_some found]
            exact List.mem_cons_self
          simp only [List.mem_filter, decide_eq_true_eq] at mem
          obtain ⟨mem, rfl⟩ := mem
          split
          · exact .found credential now user asked vouched named mem
          · exact .silent _ (.failed _)

theorem refreshRead_stands {request : Request} {rawToken : String} {now : Time}
    (asked : request = .refresh rawToken) (issued : ∀ row ∈ s.db.refreshTokens, Issued s.log row) :
    Stands cfg s request (refreshRead cfg rawToken now s.db) := by
  simp only [refreshRead]
  split
  · exact .silent _ (.failed _)
  · exact .silent _ (.failed _)
  · rename_i stored found
    have mem : stored ∈ s.db.refreshTokens.filter fun r =>
        r.tokenHash = hashRefreshToken cfg.sha256 rawToken := by
      rw [scalarOneOrNone_of_eq_some found]
      exact List.mem_cons_self
    simp only [List.mem_filter, decide_eq_true_eq] at mem
    split
    · exact .expired stored
    · split
      · exact .silent _ (.failed _)
      · rename_i user owner
        split
        · have own : user.id = stored.userId := by simpa using List.find?_some owner
          exact .exchanging rawToken stored user asked mem.2 (issued stored mem.1) own.symm
            (List.mem_of_find?_eq_some owner)
        · exact .silent _ (.failed _)

/-! ## Who is let in -/

/-- How a bearer token lets a user in. -/
inductive Admission (libs : Libraries) (token : String) (now : Time) (db : Tables) (user : User) :
    Option (UUID × Time) → Prop
  | jwt (sub : String) (plain : apiKeyPrefix.toList.isPrefixOf token.toList = false)
      (decoded : decodeAccessToken libs token = .ok sub) (parsed : Uuid.parse sub = some user.id) :
      Admission libs token now db user none
  | key (key : ApiKey) (verifies : Verifies libs db token key) (own : key.userId = user.id) :
      Admission libs token now db user (some (key.id, now))

theorem usedKey_of_key {libs : Libraries} {token : String} {now : Time} {db : Tables}
    (prefixed : apiKeyPrefix.toList.isPrefixOf token.toList = true) : usedKey libs (some token) now db =
      ((candidates db token).find? fun k => verifyApiKey libs token k.keyHash).map fun k => (k.id, now) :=
  if_pos prefixed

theorem usedKey_of_jwt {libs : Libraries} {token : String} {now : Time} {db : Tables}
    (plain : apiKeyPrefix.toList.isPrefixOf token.toList = false) : usedKey libs (some token) now db = none :=
  if_neg (by rw [plain]; exact Bool.false_ne_true)

theorem authenticateJwt_admission {libs : Libraries} {token : String} {now : Time} {db : Tables} {user : User}
    (plain : apiKeyPrefix.toList.isPrefixOf token.toList = false)
    (admitted : authenticateJwt libs token db = .ok user) :
    user ∈ db.data.users ∧ user.isActive = true ∧ Admission libs token now db user none := by
  obtain ⟨sub, decoded, rest⟩ := of_bind_ok admitted
  split at rest
  · cases rest
  · rename_i id parsed
    obtain ⟨row, found, rest⟩ := of_bind_ok rest
    cases row with
    | none => cases rest
    | some u =>
      by_cases active : u.isActive = true
      · simp only [active, if_true, Except.ok.injEq] at rest
        subst rest
        have mem : u ∈ db.data.users.filter fun u => u.id = id := by
          rw [scalarOneOrNone_of_eq_some found]
          exact List.mem_cons_self
        simp only [List.mem_filter, decide_eq_true_eq] at mem
        exact ⟨mem.1, active, .jwt sub plain decoded (mem.2 ▸ parsed)⟩
      · simp [active] at rest

theorem authenticateApiKey_admission {libs : Libraries} {token : String} {now : Time} {db : Tables} {user : User}
    (prefixed : apiKeyPrefix.toList.isPrefixOf token.toList = true)
    (admitted : (authenticateApiKey libs token now db).1 = .ok user) :
    user ∈ db.data.users ∧ user.isActive = true ∧
      Admission libs token now db user (usedKey libs (some token) now db) := by
  simp only [authenticateApiKey] at admitted
  split at admitted
  · cases admitted
  · rw [ApiKeyAuthentication.checkCandidates_eq] at admitted
    split at admitted
    · cases admitted
    · rename_i key found
      split at admitted
      · cases admitted
      · rename_i owner foundOwner
        split at admitted
        · cases admitted
        · rename_i active
          cases admitted
          have own : user.id = key.userId := by simpa using List.find?_some foundOwner
          have first : ((candidates db token).find? fun k => verifyApiKey libs token k.keyHash) = some key :=
            found
          have used : usedKey libs (some token) now db = some (key.id, now) := by
            rw [usedKey_of_key prefixed, first]
            rfl
          rw [used]
          exact ⟨List.mem_of_find?_eq_some foundOwner, by simpa using active,
            .key key (ApiKeyAuthentication.verifies_of_find found) own.symm⟩

/-- Whoever is let in has presented a token of theirs or a key of theirs. -/
theorem getCurrentUser_admission {libs : Libraries} {credentials : Option String} {now : Time} {db : Tables}
    {user : User} (admitted : (getCurrentUser libs credentials now db).1 = .ok user) :
    ∃ token, credentials = some token ∧ user ∈ db.data.users ∧ user.isActive = true ∧
      Admission libs token now db user (usedKey libs credentials now db) := by
  cases credentials with
  | none => cases admitted
  | some token =>
    refine ⟨token, rfl, ?_⟩
    simp only [getCurrentUser] at admitted
    split at admitted
    · rename_i prefixed
      exact authenticateApiKey_admission prefixed admitted
    · rename_i plain
      rw [Bool.not_eq_true] at plain
      rw [usedKey_of_jwt plain]
      exact authenticateJwt_admission plain admitted

theorem readPhase_stands (issued : ∀ row ∈ s.db.refreshTokens, Issued s.log row) (request : Request)
    (now : Time) : Stands cfg s request (readPhase cfg request now s.db) := by
  cases request with
  | googleLogin credential => exact loginRead_stands rfl
  | refresh rawToken => exact refreshRead_stands rfl issued
  | bearer credentials action =>
    simp only [readPhase]
    split
    · exact .silent _ (.failed _)
    · rename_i user admitted
      obtain ⟨_, _, mem, _⟩ := getCurrentUser_admission admitted
      exact .admitted credentials action user _ rfl mem

/-! ## First logins -/

/-- What a first login inserts: the user of the address, and an organization of their own. -/
structure Registered (draw : Draw) (email : String) (db : Database) (a : Account) : Prop where
  user : a.user = ⟨draw.userId, email, true⟩
  fits : fitsVarchar 255 email = true
  unknown : ∀ u ∈ db.users, u.email ≠ a.user.row.email
  organizationId : a.organization.id = draw.orgId
  slug : a.organization.slug = Migration.personalSlug draw.userId
  untaken : ∀ o ∈ db.organizations, o.slug ≠ Migration.personalSlug draw.userId
  membership : a.membership = ⟨draw.membershipId, draw.orgId, draw.userId, .admin, draw.now⟩

theorem personalSlug_ne_empty (userId : UUID) : Migration.personalSlug userId ≠ "" := by
  intro empty
  have length := Migration.length_personalSlug userId
  rw [empty] at length
  cases length

/-- The slug of a workspace fits its column. -/
theorem row_personalSlug {o : Organization} {userId : UUID} (slug : o.slug = Migration.personalSlug userId) :
    o.row.slug = o.slug := by
  refine varchar_of_length_le ?_
  rw [slug, Migration.length_personalSlug]
  decide

theorem newOrganization_slug (lower : String → String) (name : String) {slug : String} {id : UUID} {now : Time}
    (some_ : slug ≠ "") : (TenantService.newOrganization lower name (some slug) id now).slug = slug :=
  if_neg some_

theorem createOrganization_ok {lower : String → String} {name : String} {slug : Option String} {ownerId : UUID}
    {draw : LastAdmin.Draw} {db after : Database} {o : Organization}
    (created : OrganizationCreation.createOrganization lower name slug ownerId draw db = .ok (o, after)) :
    o = TenantService.newOrganization lower name slug draw.orgId draw.now ∧
      ∀ x ∈ db.organizations, x.slug ≠ o.row.slug := by
  simp only [OrganizationCreation.createOrganization, OrganizationCreation.translated] at created
  split at created
  · cases created
  · obtain ⟨flushed, inserted, rest⟩ := of_bind_ok created
    obtain ⟨stored, _, result⟩ := of_bind_ok rest
    cases result
    refine ⟨rfl, fun x mem => ?_⟩
    simp only [OrganizationCreation.insertOrganization] at inserted
    split at inserted
    · cases inserted
    · split at inserted
      · cases inserted
      · split at inserted
        · cases inserted
        · rename_i untaken
          simp only [List.any_eq_true, decide_eq_true_eq, not_exists, not_and] at untaken
          exact untaken x mem

theorem register_registered {email : String} {draw : Draw} {db : Database} {a : Account}
    (made : register cfg email draw db = .ok a) : Registered draw email db a := by
  simp only [register] at made
  split at made
  · cases made
  · split at made
    · cases made
    · rename_i fits unknown
      obtain ⟨⟨o, after⟩, created, result⟩ := of_bind_ok made
      cases result
      obtain ⟨same, untaken⟩ := createOrganization_ok created
      have slug : o.slug = Migration.personalSlug draw.userId := by
        rw [same]
        exact newOrganization_slug _ _ (personalSlug_ne_empty draw.userId)
      have id : o.id = draw.orgId := by rw [same]; rfl
      have kept : o.row.slug = Migration.personalSlug draw.userId := by rw [row_personalSlug slug, slug]
      refine ⟨rfl, by simpa using fits, by simpa using unknown, id, slug, fun x mem => kept ▸ untaken x mem, ?_⟩
      rw [id]
      rfl

theorem register_email {email : String} {draw : Draw} {db : Database} {a : Account}
    (made : register cfg email draw db = .ok a) : a.user.email = email := by
  rw [(register_registered made).user]

/-- An address that Google vouches for is stored whole. -/
theorem Registered.whole {draw : Draw} {email credential : String} {now : Time} {db : Database} {a : Account}
    (h : Registered draw email db a) (vouched : cfg.verifyOauth2Token now credential = .ok (some email)) :
    a.user.row = a.user := by
  rw [h.user, User.row, varchar_of_fits h.fits (cfg.addresses now credential email vouched)]

theorem Made.whole {r : Record} {a : Account} {issued : RefreshToken} (made : Made cfg r)
    (written : r.write = .login (some a) issued) : a.user.row = a.user := by
  cases made with
  | firstLogin credential now b draw before vouched named made =>
    obtain ⟨same, -⟩ := Write.login.inj written
    obtain rfl := Option.some.inj same
    exact (register_registered made).whole vouched
  | login _ _ _ _ _ _ =>
    obtain ⟨impossible, -⟩ := Write.login.inj written
    cases impossible
  | rotation _ _ _ _ _ _ | touch _ _ _ _ _ _ _ | key _ _ _ _ _ | revocation _ _ _ _ => cases written

/-! ## What no commit takes back -/

/-- Users and answers stay, and a key keeps its id and its owner. -/
structure Grows (s t : World n) : Prop where
  users : ∀ u ∈ s.db.data.users, u ∈ t.db.data.users
  log : ∀ r ∈ s.log, r ∈ t.log
  keys : ∀ key ∈ s.db.apiKeys, ∃ key' ∈ t.db.apiKeys, key'.id = key.id ∧ key'.userId = key.userId

theorem Grows.of_same (db : t.db = s.db) (log : t.log = s.log) : Grows s t where
  users _ mem := db ▸ mem
  log _ mem := log ▸ mem
  keys key mem := ⟨key, db ▸ mem, rfl, rfl⟩

theorem Issued.mono {log log' : List Record} (sub : ∀ r ∈ log, r ∈ log') {row : RefreshToken}
    (h : Issued log row) : Issued log' row := by
  obtain ⟨r, mem, issued⟩ := h
  exact ⟨r, sub r mem, issued⟩

theorem Stands.mono {request : Request} (grows : Grows s t) (h : Stands cfg s request p) : Stands cfg t request p := by
  cases h with
  | start => exact .start
  | missing credential now email asked vouched named => exact .missing credential now email asked vouched named
  | found credential now user asked vouched named mem =>
    exact .found credential now user asked vouched named (grows.users user mem)
  | exchanging rawToken stored user asked presented issued own mem =>
    exact .exchanging rawToken stored user asked presented (issued.mono grows.log) own (grows.users user mem)
  | expired stored => exact .expired stored
  | admitted credentials action user used asked mem =>
    exact .admitted credentials action user used asked (grows.users user mem)
  | writing r asked made mem stored keys =>
    refine .writing r asked made (mem.imp_left (grows.users r.user)) ?_ ?_
    · intro row issued rotates
      exact (stored row issued rotates).mono grows.log
    · intro used keyId revokes
      obtain ⟨key, mem, same, own⟩ := keys used keyId revokes
      obtain ⟨key', mem', same', own'⟩ := grows.keys key mem
      exact ⟨key', mem', same'.trans same, own'.trans own⟩
  | done => exact .done
  | silent p silent => exact .silent p silent

/-- The columns of a key that no statement updates. -/
structure SameKey (a b : ApiKey) : Prop where
  id : b.id = a.id
  userId : b.userId = a.userId
  keyPrefix : b.keyPrefix = a.keyPrefix
  keyHash : b.keyHash = a.keyHash
  name : b.name = a.name

theorem SameKey.refl (a : ApiKey) : SameKey a a := ⟨rfl, rfl, rfl, rfl, rfl⟩

/-- Two versions of one row. -/
theorem SameKey.of_common {a b c : ApiKey} (h : SameKey a b) (h' : SameKey a c) : SameKey b c where
  id := h'.id.trans h.id.symm
  userId := h'.userId.trans h.userId.symm
  keyPrefix := h'.keyPrefix.trans h.keyPrefix.symm
  keyHash := h'.keyHash.trans h.keyHash.symm
  name := h'.name.trans h.name.symm

theorem SameKey.trans {a b c : ApiKey} (h : SameKey a b) (h' : SameKey b c) : SameKey a c where
  id := h'.id.trans h.id
  userId := h'.userId.trans h.userId
  keyPrefix := h'.keyPrefix.trans h.keyPrefix
  keyHash := h'.keyHash.trans h.keyHash
  name := h'.name.trans h.name

theorem touched_eq (used : Option (UUID × Time)) (rows : List ApiKey) :
    ∃ f : ApiKey → ApiKey, touched used rows = rows.map f ∧ ∀ k, SameKey k (f k) ∧ (f k).isActive = k.isActive := by
  cases used with
  | none => exact ⟨id, by simp [touched], fun k => ⟨.refl k, rfl⟩⟩
  | some x =>
    refine ⟨_, rfl, fun k => ?_⟩
    split
    · exact ⟨⟨rfl, rfl, rfl, rfl, rfl⟩, rfl⟩
    · exact ⟨.refl k, rfl⟩

theorem revoked_eq (keyId : UUID) (rows : List ApiKey) :
    ∃ f : ApiKey → ApiKey, revoked keyId rows = rows.map f ∧
      ∀ k, SameKey k (f k) ∧ ((f k).isActive = false ↔ k.isActive = false ∨ k.id = keyId) := by
  refine ⟨_, rfl, fun k => ?_⟩
  split
  · rename_i named
    exact ⟨⟨rfl, rfl, rfl, rfl, rfl⟩, by simp [named]⟩
  · rename_i other
    exact ⟨.refl k, by simp [other]⟩

/-- What a commit does to the keys. -/
theorem apply_keys (w : Write) (db : Tables) : ∃ f : ApiKey → ApiKey,
    (w.apply db).apiKeys = db.apiKeys.map f ++ w.created.toList ∧
      ∀ k, SameKey k (f k) ∧ ((f k).isActive = false ↔ k.isActive = false ∨ w.revokes = some k.id) := by
  cases w with
  | login account issued => exact ⟨id, by simp [Write.apply, Write.created], fun k => ⟨.refl k, by simp [Write.revokes]⟩⟩
  | rotation stored issued => exact ⟨id, by simp [Write.apply, Write.created], fun k => ⟨.refl k, by simp [Write.revokes]⟩⟩
  | touch used =>
    obtain ⟨f, rows, keeps⟩ := touched_eq used db.apiKeys
    refine ⟨f, by simp [Write.apply, Write.created, rows], fun k => ⟨(keeps k).1, ?_⟩⟩
    simp [(keeps k).2, Write.revokes]
  | key used created =>
    obtain ⟨f, rows, keeps⟩ := touched_eq used db.apiKeys
    refine ⟨f, by simp [Write.apply, Write.created, rows], fun k => ⟨(keeps k).1, ?_⟩⟩
    simp [(keeps k).2, Write.revokes]
  | revocation used keyId =>
    obtain ⟨f, rows, keeps⟩ := touched_eq used db.apiKeys
    obtain ⟨g, rows', keeps'⟩ := revoked_eq keyId (db.apiKeys.map f)
    refine ⟨fun k => g (f k), ?_, fun k => ⟨(keeps k).1.trans (keeps' (f k)).1, ?_⟩⟩
    · simp [Write.apply, Write.created, rows, rows', Function.comp_def]
    · have same := (keeps k).1.id
      rw [(keeps' (f k)).2, (keeps k).2, same]
      exact or_congr_right ⟨fun named => congrArg some named.symm, fun named => (Option.some.inj named).symm⟩

theorem apply_users (w : Write) (db : Tables) : ∀ u ∈ db.data.users, u ∈ (w.apply db).data.users := by
  intro u mem
  cases w with
  | login account issued =>
    cases account with
    | none => exact mem
    | some a => exact List.mem_append_left _ mem
  | rotation stored issued => exact mem
  | touch used => exact mem
  | key used created => exact mem
  | revocation used keyId => exact mem

/-- The state after a commit. -/
abbrev afterCommit (s : World n) (i : Fin n) (r : Record) : World n :=
  { s with db := r.write.apply s.db, log := s.log ++ [r] }.setPhase i .done

theorem grows_setPhase : Grows s (s.setPhase i p) := .of_same rfl rfl

theorem grows_committed (i : Fin n) (r : Record) : Grows s (afterCommit s i r) where
  users := apply_users r.write s.db
  log r' mem := List.mem_append_left _ mem
  keys key mem := by
    obtain ⟨f, rows, keeps⟩ := apply_keys r.write s.db
    have same := (keeps key).1
    refine ⟨f key, ?_, same.id, same.userId⟩
    show f key ∈ (r.write.apply s.db).apiKeys
    rw [rows]
    exact List.mem_append_left _ (List.mem_map_of_mem mem)

theorem grows_step (hs : (machine cfg calls).step s e = some t) : Grows s t := by
  cases step_stepped hs with
  | read i now hi => exact .of_same rfl rfl
  | draft i draw r fresh free drafted => exact .of_same rfl rfl
  | commit i r hi => exact grows_committed i r
  | quiet e i p silent running left => exact .of_same rfl rfl

/-! ## Records are made as they should be -/

/-- What requests have read and written is what they stand on. -/
structure Base (cfg : Settings) (calls : Fin n → Request) (s : World n) : Prop where
  stands : ∀ i, Stands cfg s (calls i) (s.phase i)
  made : ∀ r ∈ s.log, Made cfg r
  users : ∀ r ∈ s.log, r.user ∈ s.db.data.users
  tokens : ∀ row ∈ s.db.refreshTokens, Issued s.log row
  exchanged : ∀ r ∈ s.log, ∀ row, r.write.exchanges = some row → Issued s.log row
  revoked : ∀ r ∈ s.log, ∀ keyId, r.write.revokes = some keyId →
    ∃ key ∈ s.db.apiKeys, key.id = keyId ∧ key.userId = r.user.id

theorem base_start (data : Database) : Base cfg calls (start n data) where
  stands _ := .start
  made := by simp [start]
  users := by simp [start]
  tokens := by simp [start]
  exchanged := by simp [start]
  revoked := by simp [start]

/-- A step that commits nothing changes one phase. -/
theorem Base.setPhase (h : Base cfg calls s) (new : Stands cfg s (calls i) p) : Base cfg calls (s.setPhase i p) where
  stands := setPhase_all (P := fun k q => Stands cfg (s.setPhase i p) (calls k) q)
    (fun k => (h.stands k).mono grows_setPhase) (new.mono grows_setPhase)
  made := h.made
  users := h.users
  tokens := h.tokens
  exchanged := h.exchanged
  revoked := h.revoked

/-- A record that is about to be committed. -/
structure Ready (cfg : Settings) (calls : Fin n → Request) (s : World n) (i : Fin n) (r : Record) : Prop where
  asked : r.request = calls i
  made : Made cfg r
  mem : r.user ∈ s.db.data.users ∨ ∃ a issued, r.write = .login (some a) issued ∧ a.user = r.user
  stored : ∀ row, r.write.exchanges = some row → Issued s.log row
  keys : ∀ keyId, r.write.revokes = some keyId → ∃ key ∈ s.db.apiKeys, key.id = keyId ∧ key.userId = r.user.id

theorem Base.ready (h : Base cfg calls s) {r : Record} (hi : s.phase i = .writing r) : Ready cfg calls s i r := by
  have stands := h.stands i
  rw [hi] at stands
  cases stands with
  | writing _ asked made mem stored keys =>
    refine ⟨asked, made, mem, fun row exchanges => ?_, fun keyId revokes => ?_⟩
    · cases written : r.write with
      | rotation stored_ issued =>
        rw [written] at exchanges
        exact Option.some.inj exchanges ▸ stored stored_ issued written
      | login _ _ | touch _ | key _ _ | revocation _ _ =>
        rw [written] at exchanges
        cases exchanges
    · cases written : r.write with
      | revocation used id =>
        rw [written] at revokes
        exact Option.some.inj revokes ▸ keys used id written
      | login _ _ | touch _ | key _ _ | rotation _ _ =>
        rw [written] at revokes
        cases revokes
  | silent _ silent => cases silent

/-- The tokens after a commit were stored before, or are issued by it. -/
theorem mem_apply_tokens {w : Write} {db : Tables} {row : RefreshToken} :
    row ∈ (w.apply db).refreshTokens ↔
      (row ∈ db.refreshTokens ∧ ∀ stored, w.exchanges = some stored → row.id ≠ stored.id) ∨ w.issued = some row := by
  cases w with
  | login account issued =>
    simp only [Write.apply, Write.exchanges, Write.issued, List.mem_append, List.mem_singleton,
      Option.some.injEq, reduceCtorEq, false_implies, implies_true, and_true]
    exact or_congr_right ⟨Eq.symm, Eq.symm⟩
  | rotation stored issued =>
    simp only [Write.apply, Write.exchanges, Write.issued, List.mem_append, List.mem_filter,
      List.mem_singleton, decide_eq_true_eq, Option.some.injEq, forall_eq']
    exact or_congr_right ⟨Eq.symm, Eq.symm⟩
  | touch used => simp [Write.apply, Write.exchanges, Write.issued]
  | key used created => simp [Write.apply, Write.exchanges, Write.issued]
  | revocation used keyId => simp [Write.apply, Write.exchanges, Write.issued]

theorem Base.committed (h : Base cfg calls s) {r : Record} (hi : s.phase i = .writing r) :
    Base cfg calls (afterCommit s i r) := by
  have ready := h.ready hi
  have grows := grows_committed (s := s) i r
  have appended : ∀ r' ∈ (afterCommit s i r).log, r' ∈ s.log ∨ r' = r := by
    intro r' mem
    simpa using mem
  refine ⟨?_, ?_, ?_, ?_, ?_, ?_⟩
  · exact setPhase_all (P := fun k q => Stands cfg (afterCommit s i r) (calls k) q)
      (fun k => (h.stands k).mono grows) .done
  · intro r' mem
    rcases appended r' mem with old | rfl
    · exact h.made r' old
    · exact ready.made
  · intro r' mem
    rcases appended r' mem with old | rfl
    · exact grows.users _ (h.users r' old)
    · rcases ready.mem with stored | ⟨a, issued, written, same⟩
      · exact grows.users _ stored
      · show r'.user ∈ (r'.write.apply s.db).data.users
        rw [written, ← same, ← ready.made.whole written]
        exact List.mem_append_right _ List.mem_cons_self
  · intro row mem
    rcases mem_apply_tokens.mp mem with ⟨old, _⟩ | issued
    · exact (h.tokens row old).mono grows.log
    · exact ⟨r, List.mem_append_right _ List.mem_cons_self, issued⟩
  · intro r' mem row exchanges
    rcases appended r' mem with old | rfl
    · exact (h.exchanged r' old row exchanges).mono grows.log
    · exact (ready.stored row exchanges).mono grows.log
  · intro r' mem keyId revokes
    obtain ⟨key, stored, same, own⟩ : ∃ key ∈ s.db.apiKeys, key.id = keyId ∧ key.userId = r'.user.id := by
      rcases appended r' mem with old | rfl
      · exact h.revoked r' old keyId revokes
      · exact ready.keys keyId revokes
    obtain ⟨key', stored', same', own'⟩ := grows.keys key stored
    exact ⟨key', stored', same'.trans same, own'.trans own⟩

/-- A record stands on what its request has read. -/
theorem drafted_stands {draw : Draw} {request : Request} {r : Record} (h : Stands cfg s request p)
    (drafted : Drafted cfg request s.db draw p r) : Stands cfg s request (.writing r) := by
  cases drafted with
  | firstLogin email a made =>
    cases h with
    | missing credential now _ asked vouched named =>
      have same : a.user.email = email := register_email made
      subst same
      subst asked
      exact .writing _ rfl (.firstLogin credential now a draw _ vouched named made)
        (Or.inr ⟨a, _, rfl, rfl⟩) (by simp) (by simp)
    | silent _ silent => cases silent
  | login user =>
    cases h with
    | found credential now _ asked vouched named mem =>
      subst asked
      exact .writing _ rfl (.login credential now user draw vouched named) (Or.inl mem) (by simp) (by simp)
    | silent _ silent => cases silent
  | rotation stored user =>
    cases h with
    | exchanging rawToken _ _ asked presented issued own mem =>
      subst asked
      refine .writing _ rfl (.rotation rawToken stored user draw presented own) (Or.inl mem) ?_ (by simp)
      intro row issued_ rotates
      obtain ⟨rfl, rfl⟩ := Write.rotation.inj rotates
      exact issued
    | silent _ silent => cases silent
  | touch user used grant other plain =>
    cases h with
    | admitted credentials action _ _ asked mem =>
      subst asked
      refine .writing _ rfl (.touch credentials action user used grant ?_ ?_) (Or.inl mem) (by simp) (by simp)
      · rintro keyId rfl
        exact other credentials keyId rfl
      · exact plain.imp_right fun listed => ⟨_, listed⟩
    | silent _ silent => cases silent
  | key credentials name user used asked =>
    cases h with
    | admitted _ _ _ _ _ mem =>
      subst asked
      exact .writing _ rfl (.key credentials name user used draw) (Or.inl mem) (by simp) (by simp)
    | silent _ silent => cases silent
  | revocation credentials key user used asked stored own =>
    cases h with
    | admitted _ _ _ _ _ mem =>
      subst asked
      refine .writing _ rfl (.revocation credentials key.id user used) (Or.inl mem) (by simp) ?_
      intro used' keyId revokes
      obtain ⟨rfl, rfl⟩ := Write.revocation.inj revokes
      obtain ⟨f, rows, keeps⟩ := touched_eq used s.db.apiKeys
      rw [rows] at stored
      obtain ⟨before, mem_, rfl⟩ := List.mem_map.mp stored
      exact ⟨before, mem_, (keeps before).1.id.symm, (keeps before).1.userId.symm.trans own⟩
    | silent _ silent => cases silent

theorem base_step (h : Base cfg calls s) (hs : (machine cfg calls).step s e = some t) : Base cfg calls t := by
  cases step_stepped hs with
  | read i now hi => exact h.setPhase (readPhase_stands h.tokens (calls i) now)
  | draft i draw r fresh free drafted => exact h.setPhase (drafted_stands (h.stands i) drafted)
  | commit i r hi => exact h.committed hi
  | quiet e i p silent running left => exact h.setPhase (.silent p silent)

/-! ## Nothing is drawn twice -/

structure Apart (s : World n) : Prop where
  log : s.log.Pairwise fun r r' => r.marks.Disjoint r'.marks
  behind : ∀ i r, s.phase i = .writing r → ∀ r' ∈ s.log, r'.marks.Disjoint r.marks
  beside : ∀ i k r r', i ≠ k → s.phase i = .writing r → s.phase k = .writing r' → r.marks.Disjoint r'.marks

theorem apart_start (data : Database) : Apart (start n data) :=
  ⟨by simp [start], by simp [start], by simp [start]⟩

/-- A record has only marks of its draw. -/
theorem drafted_marks {request : Request} {db : Tables} {draw : Draw} {r : Record}
    (drafted : Drafted cfg request db draw p r) : ∀ mark ∈ r.marks, mark ∈ draw.marks cfg := by
  cases drafted with
  | firstLogin email a made =>
    have registered := register_registered made
    simp [Record.marks, Write.issued, tokensFor, newRefreshToken, Draw.marks, registered.user,
      registered.organizationId, registered.membership]
  | login user => simp [Record.marks, Write.issued, tokensFor, newRefreshToken, Draw.marks]
  | rotation stored user => simp [Record.marks, Write.issued, tokensFor, newRefreshToken, Draw.marks]
  | touch user used grant other plain =>
    rcases plain with rfl | rfl
    · simp [Record.marks, Write.issued]
    · simp [Record.marks, Write.issued]
  | key credentials name user used asked => simp [Record.marks, Write.issued, newApiKey, Draw.marks]
  | revocation credentials key user used asked stored own => simp [Record.marks, Write.issued]

/-- A phase that is not about to commit has no marks. -/
theorem Apart.setPhase (h : Apart s) (idle : ∀ r, p ≠ .writing r) : Apart (s.setPhase i p) where
  log := h.log
  behind k r hk := by
    by_cases own : k = i
    · subst own
      rw [setPhase_self] at hk
      exact absurd hk (idle r)
    · rw [setPhase_of_ne own] at hk
      exact h.behind k r hk
  beside k l r r' apart hk hl := by
    by_cases own : k = i
    · subst own
      rw [setPhase_self] at hk
      exact absurd hk (idle r)
    · by_cases own' : l = i
      · subst own'
        rw [setPhase_self] at hl
        exact absurd hl (idle r')
      · rw [setPhase_of_ne own] at hk
        rw [setPhase_of_ne own'] at hl
        exact h.beside k l r r' apart hk hl

theorem Apart.draft (h : Apart s) {draw : Draw} {r : Record} (fresh : Fresh cfg s draw)
    (marks : ∀ mark ∈ r.marks, mark ∈ draw.marks cfg) : Apart (s.setPhase i (.writing r)) := by
  have news := fresh.2.2.2
  have open_ : ∀ k r', k ≠ i → s.phase k = .writing r' → r'.marks.Disjoint r.marks := by
    intro k r' _ hk mark old new
    exact (news mark (marks mark new)).2 k r' (by rw [hk]; rfl) old
  refine ⟨h.log, ?_, ?_⟩
  · intro k r' hk
    by_cases own : k = i
    · subst own
      rw [setPhase_self] at hk
      obtain rfl := Phase.writing.inj hk
      intro old mem mark here there
      exact (news mark (marks mark there)).1 old mem here
    · rw [setPhase_of_ne own] at hk
      exact h.behind k r' hk
  · intro k l r₁ r₂ apart hk hl
    by_cases own : k = i
    · subst own
      rw [setPhase_self] at hk
      rw [setPhase_of_ne (Ne.symm apart)] at hl
      obtain rfl := Phase.writing.inj hk
      exact (open_ l r₂ (Ne.symm apart) hl).symm
    · rw [setPhase_of_ne own] at hk
      by_cases own' : l = i
      · subst own'
        rw [setPhase_self] at hl
        obtain rfl := Phase.writing.inj hl
        exact open_ k r₁ own hk
      · rw [setPhase_of_ne own'] at hl
        exact h.beside k l r₁ r₂ apart hk hl

theorem Apart.commit (h : Apart s) {r : Record} (hi : s.phase i = .writing r) : Apart (afterCommit s i r) := by
  have others : ∀ k r', (afterCommit s i r).phase k = .writing r' → k ≠ i ∧ s.phase k = .writing r' := by
    intro k r' hk
    by_cases own : k = i
    · subst own
      rw [setPhase_self] at hk
      cases hk
    · rw [setPhase_of_ne own] at hk
      exact ⟨own, hk⟩
  refine ⟨?_, ?_, ?_⟩
  · show (s.log ++ [r]).Pairwise _
    refine List.pairwise_append.mpr ⟨h.log, List.pairwise_singleton _ _, fun old mem new here => ?_⟩
    rw [List.mem_singleton.mp here]
    exact h.behind i r hi old mem
  · intro k r' hk old mem
    obtain ⟨apart, hk⟩ := others k r' hk
    rcases List.mem_append.mp mem with mem | mem
    · exact h.behind k r' hk old mem
    · rw [List.mem_singleton.mp mem]
      exact h.beside i k r r' (Ne.symm apart) hi hk
  · intro k l r₁ r₂ apart hk hl
    exact h.beside k l r₁ r₂ apart (others k r₁ hk).2 (others l r₂ hl).2

theorem readPhase_idle (request : Request) (now : Time) (db : Tables) (r : Record) :
    readPhase cfg request now db ≠ .writing r := by
  cases request with
  | googleLogin credential =>
    simp only [readPhase, loginRead]
    repeat' split
    all_goals simp
  | refresh rawToken =>
    simp only [readPhase, refreshRead]
    repeat' split
    all_goals simp
  | bearer credentials action =>
    simp only [readPhase]
    split
    · simp
    · simp

theorem apart_step (h : Apart s) (hs : (machine cfg calls).step s e = some t) : Apart t := by
  cases step_stepped hs with
  | read i now hi => exact h.setPhase (readPhase_idle (calls i) now s.db)
  | draft i draw r fresh free drafted => exact h.draft fresh (drafted_marks drafted)
  | commit i r hi => exact h.commit hi
  | quiet e i p silent running left =>
    refine h.setPhase fun r => ?_
    rintro rfl
    cases silent

/-- Two committed records that have drawn the same value are one. -/
theorem Apart.same (h : Apart s) {r r' : Record} (mem : r ∈ s.log) (mem' : r' ∈ s.log) {mark : Mark}
    (here : mark ∈ r.marks) (there : mark ∈ r'.marks) : r = r' := by
  have symmetric : Std.Symm fun r r' : Record => r.marks.Disjoint r'.marks := ⟨fun _ _ disjoint => disjoint.symm⟩
  by_contra other
  exact h.log.forall mem mem' other here there

/-- And they stand at one place of the log. -/
theorem Apart.place (h : Apart s) {j k : Nat} {r r' : Record} (hj : s.log[j]? = some r) (hk : s.log[k]? = some r')
    {mark : Mark} (here : mark ∈ r.marks) (there : mark ∈ r'.marks) : j = k := by
  obtain ⟨inside, rfl⟩ := List.getElem?_eq_some_iff.mp hj
  obtain ⟨inside', rfl⟩ := List.getElem?_eq_some_iff.mp hk
  have apart := List.pairwise_iff_getElem.mp h.log
  rcases Nat.lt_trichotomy j k with before | same | behind
  · exact absurd there (apart j k inside inside' before here)
  · exact same
  · exact absurd here (apart k j inside' inside behind there)

theorem token_mark {r : Record} {row : RefreshToken} (issued : r.write.issued = some row) :
    Mark.token row.id ∈ r.marks ∧ Mark.tokenHash row.tokenHash ∈ r.marks := by
  simp [Record.marks, issued]

theorem key_mark {r : Record} {created : ApiKey} (creates : r.write.created = some created) :
    Mark.key created.id ∈ r.marks := by
  cases written : r.write with
  | key used row =>
    rw [written] at creates
    obtain rfl := Option.some.inj creates
    simp [Record.marks, written]
  | login _ _ | rotation _ _ | touch _ | revocation _ _ =>
    rw [written] at creates
    cases creates

theorem fullKey_mark {r : Record} {text : String} (granted : r.grant = .key text) : Mark.fullKey text ∈ r.marks := by
  simp [Record.marks, granted]

/-- A record creates one key. -/
theorem key_marks_same {r : Record} {a b : UUID} (ha : Mark.key a ∈ r.marks) (hb : Mark.key b ∈ r.marks) : a = b := by
  have only : ∀ id, Mark.key id ∈ r.marks → r.write.created.map ApiKey.id = some id := by
    intro id mem
    rcases List.mem_append.mp mem with inWrite | inGrant
    · rcases List.mem_append.mp inWrite with inKind | inTokens
      · cases written : r.write with
        | login account issued =>
          rw [written] at inKind
          cases account with
          | none => cases inKind
          | some a => simp at inKind
        | key used created =>
          rw [written] at inKind
          simp only [List.mem_singleton, Mark.key.injEq] at inKind
          rw [inKind]
          rfl
        | rotation _ _ | touch _ | revocation _ _ =>
          rw [written] at inKind
          cases inKind
      · obtain ⟨row, _, inRow⟩ := List.mem_flatMap.mp inTokens
        simp at inRow
    · cases granted : r.grant with
      | key text =>
        rw [granted] at inGrant
        simp at inGrant
      | tokens _ _ | keys _ | nothing =>
        rw [granted] at inGrant
        cases inGrant
  exact Option.some.inj ((only a ha).symm.trans (only b hb))

/-! ## Refresh tokens -/

def Exchanged (log : List Record) (row : RefreshToken) : Prop :=
  ∃ r ∈ log, ∃ stored, r.write.exchanges = some stored ∧ stored.id = row.id

/-- The rows of the table are those handed out and not exchanged. -/
def TokensTold (s : World n) : Prop :=
  ∀ row, row ∈ s.db.refreshTokens ↔ Issued s.log row ∧ ¬ Exchanged s.log row

theorem tokens_commit (base : Base cfg calls s) (apart : Apart s) (told : TokensTold s) {r : Record}
    (hi : s.phase i = .writing r) : TokensTold (afterCommit s i r) := by
  have ready := base.ready hi
  -- what the transaction issues has an id of its own
  have new : ∀ row stored, r.write.issued = some row → Issued s.log stored → stored.id ≠ row.id := by
    rintro row stored issued ⟨r', mem, issued'⟩ same
    refine apart.behind i r hi r' mem (token_mark issued').1 ?_
    rw [same]
    exact (token_mark issued).1
  have last : r ∈ (afterCommit s i r).log := List.mem_append_right _ List.mem_cons_self
  have cases_ : ∀ r' ∈ (afterCommit s i r).log, r' ∈ s.log ∨ r' = r := by
    intro r' mem
    simpa using mem
  intro row
  show row ∈ (r.write.apply s.db).refreshTokens ↔ _
  rw [mem_apply_tokens]
  constructor
  · rintro (⟨old, kept⟩ | issued)
    · obtain ⟨issued, unspent⟩ := (told row).mp old
      refine ⟨issued.mono fun _ => List.mem_append_left _, ?_⟩
      rintro ⟨r', mem, stored, exchanges, same⟩
      rcases cases_ r' mem with before | rfl
      · exact unspent ⟨r', before, stored, exchanges, same⟩
      · exact kept stored exchanges same.symm
    · refine ⟨⟨r, last, issued⟩, ?_⟩
      rintro ⟨r', mem, stored, exchanges, same⟩
      rcases cases_ r' mem with before | rfl
      · exact new row stored issued (base.exchanged r' before stored exchanges) same
      · exact new row stored issued (ready.stored stored exchanges) same
  · rintro ⟨⟨r', mem, issued⟩, unspent⟩
    rcases cases_ r' mem with before | rfl
    · refine Or.inl ⟨(told row).mpr ⟨⟨r', before, issued⟩, ?_⟩, fun stored exchanges same => ?_⟩
      · rintro ⟨r'', mem'', exchanges⟩
        exact unspent ⟨r'', List.mem_append_left _ mem'', exchanges⟩
      · exact unspent ⟨r, last, stored, exchanges, same.symm⟩
    · exact Or.inr issued

/-! ## Keys -/

/-- The rows of the table are those created, inactive if they were revoked. -/
structure KeysTold (s : World n) : Prop where
  ids : (s.db.apiKeys.map ApiKey.id).Nodup
  keys : ∀ key ∈ s.db.apiKeys, ∃ r ∈ s.log, ∃ created, r.write.created = some created ∧ SameKey created key ∧
    (key.isActive = false ↔ ∃ r' ∈ s.log, r'.write.revokes = some key.id)
  created : ∀ r ∈ s.log, ∀ created, r.write.created = some created → ∃ key ∈ s.db.apiKeys, SameKey created key

theorem made_created {r : Record} (made : Made cfg r) {created : ApiKey} (creates : r.write.created = some created) :
    ∃ credentials name user used draw, r = ⟨.bearer credentials (.createApiKey name), user,
      .key used (newApiKey cfg user name draw), .key (fullKey draw.random)⟩ ∧
      created = newApiKey cfg user name draw := by
  cases made with
  | key credentials name user used draw =>
    exact ⟨credentials, name, user, used, draw, rfl, (Option.some.inj creates).symm⟩
  | firstLogin _ _ _ _ _ _ _ _ | login _ _ _ _ _ _ | rotation _ _ _ _ _ _ | touch _ _ _ _ _ _ _ | revocation _ _ _ _ =>
    cases creates

theorem keys_commit (base : Base cfg calls s) (apart : Apart s) (told : KeysTold s) {r : Record}
    (hi : s.phase i = .writing r) : KeysTold (afterCommit s i r) := by
  have ready := base.ready hi
  obtain ⟨f, rows, keeps⟩ := apply_keys r.write s.db
  have last : r ∈ (afterCommit s i r).log := List.mem_append_right _ List.mem_cons_self
  have rows_ : (afterCommit s i r).db.apiKeys = s.db.apiKeys.map f ++ r.write.created.toList := rows
  have revoked_iff : ∀ id, (∃ r' ∈ (afterCommit s i r).log, r'.write.revokes = some id) ↔
      (∃ r' ∈ s.log, r'.write.revokes = some id) ∨ r.write.revokes = some id := by
    intro id
    simp
  -- a key that is stored already has another id
  have anew : ∀ created, r.write.created = some created → ∀ key ∈ s.db.apiKeys, key.id ≠ created.id := by
    intro created creates key stored same
    obtain ⟨r', logged, created', creates', same', _⟩ := told.keys key stored
    refine apart.behind i r hi r' logged (key_mark creates') ?_
    rw [← same'.id, same]
    exact key_mark creates
  refine ⟨?_, fun key mem => ?_, fun r' mem created creates => ?_⟩
  · have kept : (s.db.apiKeys.map f).map ApiKey.id = s.db.apiKeys.map ApiKey.id := by
      rw [List.map_map]
      exact List.map_congr_left fun k _ => (keeps k).1.id
    rw [rows_, List.map_append, kept]
    refine List.nodup_append.mpr ⟨told.ids, ?_, ?_⟩
    · cases r.write.created with
      | none => exact List.nodup_nil
      | some created => exact List.nodup_singleton _
    · intro id mem id' mem' same
      obtain ⟨key, stored, rfl⟩ := List.mem_map.mp mem
      obtain ⟨created, creates, rfl⟩ := List.mem_map.mp mem'
      exact anew created (Option.mem_toList.mp creates) key stored same
  · rw [rows_] at mem
    rcases List.mem_append.mp mem with old | new
    · obtain ⟨before, stored, rfl⟩ := List.mem_map.mp old
      obtain ⟨r', logged, created, creates, same, inactive⟩ := told.keys before stored
      refine ⟨r', List.mem_append_left _ logged, created, creates, same.trans (keeps before).1, ?_⟩
      rw [(keeps before).2, inactive, (keeps before).1.id, revoked_iff]
    · have creates : r.write.created = some key := Option.mem_toList.mp new
      refine ⟨r, last, key, creates, .refl key, ?_⟩
      obtain ⟨credentials, name, user, used, draw, made, rfl⟩ := made_created ready.made creates
      refine iff_of_false (by simp [newApiKey]) ?_
      rw [revoked_iff]
      rintro (⟨r', logged, revokes⟩ | revokes)
      · -- a key that was revoked before was created before
        obtain ⟨key', stored, same, _⟩ := base.revoked r' logged _ revokes
        exact anew _ creates key' stored same
      · rw [made] at revokes
        cases revokes
  · rw [rows_]
    rcases List.mem_append.mp mem with logged | new
    · obtain ⟨key, stored, same⟩ := told.created r' logged created creates
      exact ⟨f key, List.mem_append_left _ (List.mem_map_of_mem stored), same.trans (keeps key).1⟩
    · rw [List.mem_singleton.mp new] at creates
      exact ⟨created, List.mem_append_right _ (Option.mem_toList.mpr creates), .refl created⟩

/-! ## Answers -/

theorem made_login {r : Record} (made : Made cfg r) {credential : String} (asked : r.request = .googleLogin credential) :
    ∃ now, cfg.verifyOauth2Token now credential = .ok (some r.user.email) := by
  cases made with
  | firstLogin presented now a _ _ vouched _ _ | login presented now a _ vouched _ =>
    obtain rfl := Request.googleLogin.inj asked
    exact ⟨now, vouched⟩
  | rotation _ _ _ _ _ _ | touch _ _ _ _ _ _ _ | key _ _ _ _ _ | revocation _ _ _ _ => cases asked

theorem made_issued {r : Record} (made : Made cfg r) {row : RefreshToken} (issued : r.write.issued = some row) :
    ∃ access refresh, r.grant = .tokens access refresh ∧
      row.tokenHash = hashRefreshToken cfg.sha256 refresh ∧ row.userId = r.user.id := by
  cases made with
  | firstLogin _ _ _ draw _ _ _ _ | login _ _ _ draw _ _ | rotation _ _ _ draw _ _ =>
    obtain rfl := Option.some.inj issued
    exact ⟨_, _, rfl, rfl, rfl⟩
  | touch _ _ _ _ _ _ _ | key _ _ _ _ _ | revocation _ _ _ _ => cases issued

theorem made_tokens {r : Record} (made : Made cfg r) {access refresh : String}
    (granted : r.grant = .tokens access refresh) : ∃ row, r.write.issued = some row ∧
      row.tokenHash = hashRefreshToken cfg.sha256 refresh ∧ row.userId = r.user.id := by
  cases made with
  | firstLogin _ _ _ draw _ _ _ _ | login _ _ _ draw _ _ | rotation _ _ _ draw _ _ =>
    obtain ⟨-, rfl⟩ := Grant.tokens.inj granted
    exact ⟨_, rfl, rfl, rfl⟩
  | touch _ _ _ _ _ _ plain =>
    rcases plain with rfl | ⟨rows, rfl⟩
    · cases granted
    · cases granted
  | key _ _ _ _ _ | revocation _ _ _ _ => cases granted

theorem made_refresh {r : Record} (made : Made cfg r) {presented : String} (asked : r.request = .refresh presented) :
    ∃ stored, r.write.exchanges = some stored ∧ stored.tokenHash = hashRefreshToken cfg.sha256 presented := by
  cases made with
  | rotation rawToken stored user draw hashed own =>
    obtain rfl := Request.refresh.inj asked
    exact ⟨stored, rfl, hashed⟩
  | firstLogin _ _ _ _ _ _ _ _ | login _ _ _ _ _ _ | touch _ _ _ _ _ _ _ | key _ _ _ _ _ | revocation _ _ _ _ =>
    cases asked

theorem made_exchanges {r : Record} (made : Made cfg r) {stored : RefreshToken}
    (exchanges : r.write.exchanges = some stored) : ∃ presented, r.request = .refresh presented ∧
      stored.tokenHash = hashRefreshToken cfg.sha256 presented := by
  cases made with
  | rotation rawToken row user draw hashed own =>
    obtain rfl := Option.some.inj exchanges
    exact ⟨rawToken, rfl, hashed⟩
  | firstLogin _ _ _ _ _ _ _ _ | login _ _ _ _ _ _ | touch _ _ _ _ _ _ _ | key _ _ _ _ _ | revocation _ _ _ _ =>
    cases exchanges

theorem made_key {r : Record} (made : Made cfg r) {text : String} (granted : r.grant = .key text) :
    ∃ credentials name user used draw, r = ⟨.bearer credentials (.createApiKey name), user,
      .key used (newApiKey cfg user name draw), .key (fullKey draw.random)⟩ ∧ text = fullKey draw.random := by
  cases made with
  | key credentials name user used draw => exact ⟨credentials, name, user, used, draw, rfl, (Grant.key.inj granted).symm⟩
  | touch _ _ _ _ _ _ plain =>
    rcases plain with rfl | ⟨rows, rfl⟩
    · cases granted
    · cases granted
  | firstLogin _ _ _ _ _ _ _ _ | login _ _ _ _ _ _ | rotation _ _ _ _ _ _ | revocation _ _ _ _ => cases granted

theorem made_revokes {r : Record} (made : Made cfg r) {keyId : UUID} (revokes : r.write.revokes = some keyId) :
    ∃ credentials, r.request = .bearer credentials (.revokeApiKey keyId) := by
  cases made with
  | revocation credentials id user used => exact ⟨credentials, Option.some.inj revokes ▸ rfl⟩
  | firstLogin _ _ _ _ _ _ _ _ | login _ _ _ _ _ _ | rotation _ _ _ _ _ _ | touch _ _ _ _ _ _ _ | key _ _ _ _ _ =>
    cases revokes

theorem made_revoke {r : Record} (made : Made cfg r) {credentials : Option String} {keyId : UUID}
    (asked : r.request = .bearer credentials (.revokeApiKey keyId)) : r.write.revokes = some keyId := by
  cases made with
  | revocation credentials id user used => exact congrArg some (Action.revokeApiKey.inj (Request.bearer.inj asked).2)
  | touch _ action _ _ _ other _ => exact absurd (Request.bearer.inj asked).2 (other keyId)
  | key _ _ _ _ _ => cases (Request.bearer.inj asked).2
  | firstLogin _ _ _ _ _ _ _ _ | login _ _ _ _ _ _ | rotation _ _ _ _ _ _ => cases asked

/-! ## Every run -/

structure Told (cfg : Settings) (calls : Fin n → Request) (s : World n) : Prop where
  base : Base cfg calls s
  apart : Apart s
  tokens : TokensTold s
  keys : KeysTold s

theorem told_start (data : Database) : Told cfg calls (start n data) where
  base := base_start data
  apart := apart_start data
  tokens row := by simp [start, Issued]
  keys := ⟨by simp [start], by simp [start], by simp [start]⟩

theorem told_step (h : Told cfg calls s) (hs : (machine cfg calls).step s e = some t) : Told cfg calls t := by
  have base := base_step h.base hs
  have apart := apart_step h.apart hs
  cases step_stepped hs with
  | read i now hi => exact ⟨base, apart, h.tokens, ⟨h.keys.ids, h.keys.keys, h.keys.created⟩⟩
  | draft i draw r fresh free drafted => exact ⟨base, apart, h.tokens, ⟨h.keys.ids, h.keys.keys, h.keys.created⟩⟩
  | commit i r hi =>
    exact ⟨base, apart, tokens_commit h.base h.apart h.tokens hi, keys_commit h.base h.apart h.keys hi⟩
  | quiet e i p silent running left => exact ⟨base, apart, h.tokens, ⟨h.keys.ids, h.keys.keys, h.keys.created⟩⟩

theorem told_reachable {data : Database} (reachable : (machine cfg calls).Reachable (start n data) s) :
    Told cfg calls s :=
  Machine.reachable_invariant (told_start data) (fun _ _ _ h hs => told_step h hs) reachable

/-- Rows with one id are one row. -/
theorem Told.key_unique (h : Told cfg calls s) {a b : ApiKey} (ha : a ∈ s.db.apiKeys) (hb : b ∈ s.db.apiKeys)
    (same : a.id = b.id) : a = b :=
  List.inj_on_of_nodup_map h.keys.ids ha hb same

/-- A refresh token is stored for a user exactly if a committed login or refresh of this user has
answered with it, and no committed refresh has presented it. -/
theorem refresh_token_stored_iff (cfg : Settings) (calls : Fin n → Request) (data : Database) (s : World n)
    (reachable : (machine cfg calls).Reachable (start n data) s) (rawToken : String) (userId : UUID) :
    (∃ row ∈ s.db.refreshTokens, row.tokenHash = hashRefreshToken cfg.sha256 rawToken ∧ row.userId = userId) ↔
      (∃ r ∈ s.log, r.user.id = userId ∧ ∃ access refresh, r.grant = .tokens access refresh ∧
        hashRefreshToken cfg.sha256 refresh = hashRefreshToken cfg.sha256 rawToken) ∧
      ¬ ∃ r ∈ s.log, ∃ presented, r.request = .refresh presented ∧
        hashRefreshToken cfg.sha256 presented = hashRefreshToken cfg.sha256 rawToken := by
  have told := told_reachable reachable
  constructor
  · rintro ⟨row, stored, hash, rfl⟩
    obtain ⟨⟨r, mem, issued⟩, unspent⟩ := (told.tokens row).mp stored
    obtain ⟨access, refresh, granted, hashed, owner⟩ := made_issued (told.base.made r mem) issued
    refine ⟨⟨r, mem, owner.symm, access, refresh, granted, hashed.symm.trans hash⟩, ?_⟩
    rintro ⟨r', mem', presented, asked, same⟩
    obtain ⟨spent, exchanges, spentHash⟩ := made_refresh (told.base.made r' mem') asked
    obtain ⟨r'', mem'', issued''⟩ := told.base.exchanged r' mem' spent exchanges
    have hashes : spent.tokenHash = row.tokenHash := spentHash.trans (same.trans hash.symm)
    obtain rfl : r'' = r :=
      told.apart.same mem'' mem (hashes ▸ (token_mark issued'').2) (token_mark issued).2
    obtain rfl : spent = row := Option.some.inj (issued''.symm.trans issued)
    exact unspent ⟨r', mem', spent, exchanges, rfl⟩
  · rintro ⟨⟨r, mem, rfl, access, refresh, granted, hash⟩, unspent⟩
    obtain ⟨row, issued, hashed, owner⟩ := made_tokens (told.base.made r mem) granted
    refine ⟨row, (told.tokens row).mpr ⟨⟨r, mem, issued⟩, ?_⟩, hashed.trans hash, owner⟩
    rintro ⟨r', mem', spent, exchanges, same⟩
    obtain ⟨r'', mem'', issued''⟩ := told.base.exchanged r' mem' spent exchanges
    obtain rfl : r'' = r := told.apart.same mem'' mem (same ▸ (token_mark issued'').1) (token_mark issued).1
    obtain rfl : spent = row := Option.some.inj (issued''.symm.trans issued)
    obtain ⟨presented, asked, spentHash⟩ := made_exchanges (told.base.made r' mem') exchanges
    exact unspent ⟨r', mem', presented, asked, spentHash.symm.trans (hashed.trans hash)⟩

/-- The request inserted this row, and its answer is the text that the row keeps the
prefix and the hash of. -/
structure Handed (cfg : Settings) (key : ApiKey) (r : Record) : Prop where
  row : r.write.created.map ApiKey.id = some key.id
  asked : ∃ credentials, r.request = .bearer credentials (.createApiKey key.name)
  owner : r.user.id = key.userId
  text : ∃ text salt, r.grant = .key text ∧ key.keyPrefix = keyPrefixOf text ∧
    key.keyHash = cfg.hashpw text.toUTF8.data.toList salt

/-- What the committed requests say about the keys of all users. -/
structure KeyLedger (cfg : Settings) (s : World n) : Prop where
  created : ∀ key ∈ s.db.apiKeys, ∃! j : Nat, ∃ r, s.log[j]? = some r ∧ Handed cfg key r
  stored : ∀ r ∈ s.log, ∀ text, r.grant = .key text → ∃! key, key ∈ s.db.apiKeys ∧ Handed cfg key r
  once : ∀ (j k : Nat) r r' text, s.log[j]? = some r → s.log[k]? = some r' → r.grant = .key text →
    r'.grant = .key text → j = k
  inactive : ∀ key ∈ s.db.apiKeys, key.isActive = false ↔ ∃ r ∈ s.log, r.user.id = key.userId ∧
    ∃ credentials, r.request = .bearer credentials (.revokeApiKey key.id)

theorem handed_of_created {r : Record} (made : Made cfg r) {created key : ApiKey}
    (creates : r.write.created = some created) (same : SameKey created key) : Handed cfg key r := by
  obtain ⟨credentials, name, user, used, draw, rfl, rfl⟩ := made_created made creates
  refine ⟨congrArg some same.id.symm, ⟨credentials, ?_⟩, same.userId.symm, fullKey draw.random, draw.salt, rfl,
    same.keyPrefix, same.keyHash⟩
  rw [same.name]
  rfl

theorem Handed.mark {key : ApiKey} {r : Record} (h : Handed cfg key r) : Mark.key key.id ∈ r.marks := by
  obtain ⟨created, creates, same⟩ := Option.map_eq_some_iff.mp h.row
  exact same ▸ key_mark creates

/-- Every key was handed out once, to its owner, and is inactive exactly if its owner has revoked it. -/
theorem key_ledger (cfg : Settings) (calls : Fin n → Request) (data : Database) (s : World n)
    (reachable : (machine cfg calls).Reachable (start n data) s) : KeyLedger cfg s := by
  have told := told_reachable reachable
  refine ⟨fun key stored => ?_, fun r mem text granted => ?_, ?_, fun key stored => ?_⟩
  · obtain ⟨r, mem, created, creates, same, _⟩ := told.keys.keys key stored
    obtain ⟨j, hj⟩ := List.mem_iff_getElem?.mp mem
    have handed := handed_of_created (told.base.made r mem) creates same
    refine ⟨j, ⟨r, hj, handed⟩, ?_⟩
    rintro k ⟨r', hk, handed'⟩
    exact told.apart.place hk hj handed'.mark handed.mark
  · obtain ⟨credentials, name, user, used, draw, rfl, rfl⟩ := made_key (told.base.made r mem) granted
    obtain ⟨key, stored, same⟩ := told.keys.created _ mem _ rfl
    refine ⟨key, ⟨stored, handed_of_created (told.base.made _ mem) rfl same⟩, ?_⟩
    rintro key' ⟨stored', handed'⟩
    exact told.key_unique stored' stored ((Option.some.inj handed'.row).symm.trans same.id.symm)
  · intro j k r r' text hj hk granted granted'
    exact told.apart.place hj hk (fullKey_mark granted) (fullKey_mark granted')
  · obtain ⟨_, _, _, _, _, inactive⟩ := told.keys.keys key stored
    rw [inactive]
    constructor
    · rintro ⟨r, mem, revokes⟩
      obtain ⟨key', stored', same, own⟩ := told.base.revoked r mem key.id revokes
      obtain rfl : key' = key := told.key_unique stored' stored same
      obtain ⟨credentials, asked⟩ := made_revokes (told.base.made r mem) revokes
      exact ⟨r, mem, own.symm, credentials, asked⟩
    · rintro ⟨r, mem, _, credentials, asked⟩
      exact ⟨r, mem, made_revoke (told.base.made r mem) asked⟩

end Runs

theorem refresh_token_stored_demo :
    (∃ row ∈ Demo.after.db.refreshTokens,
        row.tokenHash = hashRefreshToken Demo.settings.sha256 Demo.refreshDraw.random.text ∧ row.userId = 1) ↔
      (∃ r ∈ Demo.after.log, r.user.id = 1 ∧ ∃ access refresh, r.grant = .tokens access refresh ∧
        hashRefreshToken Demo.settings.sha256 refresh =
          hashRefreshToken Demo.settings.sha256 Demo.refreshDraw.random.text) ∧
      ¬ ∃ r ∈ Demo.after.log, ∃ presented, r.request = .refresh presented ∧
        hashRefreshToken Demo.settings.sha256 presented =
          hashRefreshToken Demo.settings.sha256 Demo.refreshDraw.random.text :=
  refresh_token_stored_iff Demo.settings Demo.calls Database.empty Demo.after Demo.after_reachable
    Demo.refreshDraw.random.text 1

theorem key_ledger_demo : KeyLedger Demo.settings Demo.after :=
  key_ledger Demo.settings Demo.calls Database.empty Demo.after Demo.after_reachable

end CredentialRuns
