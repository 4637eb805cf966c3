import ResearchPlatform.FirstLogins

/-!
# Where a credential comes from, and how long it serves

An access token is checked by its signature and its expiry alone, a key against the rows
of its table, and a refresh token by its hash. Under what the libraries promise, each of
them acts for the user to whom it was handed out, and that user has once logged in.
-/

namespace CredentialChains

open Uuid Schema AuthService Machines Credentials CredentialRuns FirstLogins
open TokenRotation (RefreshToken hashRefreshToken)
open ApiKeyAuthentication (candidates Verifies)

/-- What bcrypt and PyJWT promise for the values that the code makes. -/
structure Laws (cfg : Settings) : Prop where
  /-- a hash verifies the key that it was made from, and nothing else -/
  bcrypt : ∀ password random salt, cfg.checkpw password
    (cfg.hashpw (fullKey random).toUTF8.data.toList salt).toUTF8.data.toList = some true ↔
      password = (fullKey random).toUTF8.data.toList
  jwt : ∀ claims now, cfg.jwtDecode now (cfg.jwtEncode claims) =
    if now < claims.iat * 1000000 then .error .invalidToken
    else if claims.exp * 1000000 ≤ now then .error .expiredSignature
    else .ok claims.payload
  header : ∀ claims, apiKeyPrefix.toList.isPrefixOf (cfg.jwtEncode claims).toList = false

section Runs
variable {n : Nat} {cfg : Settings} {calls : Fin n → Request} {s t : World n} {e : Event n}
  {i : Fin n} {p : Phase}

/-! ## Keys -/

theorem toUTF8_injective {a b : String} (h : a.toUTF8.data.toList = b.toUTF8.data.toList) : a = b := by
  rw [String.toUTF8_eq_toByteArray, String.toUTF8_eq_toByteArray] at h
  exact String.toByteArray_inj.mp (ByteArray.ext (Array.toList_inj.mp h))

theorem checkpw_of_verified {text hash : String} {now : Time}
    (verified : verifyApiKey (cfg.libraries now) text hash = true) :
    cfg.checkpw text.toUTF8.data.toList hash.toUTF8.data.toList = some true := by
  change (cfg.checkpw text.toUTF8.data.toList hash.toUTF8.data.toList).getD false = true at verified
  cases answer : cfg.checkpw text.toUTF8.data.toList hash.toUTF8.data.toList with
  | none =>
    rw [answer] at verified
    cases verified
  | some b =>
    rw [answer] at verified
    exact congrArg some verified

/-- A row verifies only the text that its creation has handed out. -/
theorem text_of_verified (laws : Laws cfg) (told : Told cfg calls s) {key : ApiKey} (stored : key ∈ s.db.apiKeys)
    {text : String} {now : Time} (verified : verifyApiKey (cfg.libraries now) text key.keyHash = true) :
    ∃ r ∈ s.log, r.grant = .key text ∧ r.user.id = key.userId ∧ Mark.key key.id ∈ r.marks ∧
      sendable (keyPrefixOf text) = true := by
  obtain ⟨r, mem, created, creates, same, _⟩ := told.keys.keys key stored
  obtain ⟨credentials, name, user, used, draw, rfl, rfl⟩ := made_created (told.base.made r mem) creates
  have checked := checkpw_of_verified verified
  rw [same.keyHash] at checked
  obtain rfl := toUTF8_injective ((laws.bcrypt _ draw.random draw.salt).mp checked)
  refine ⟨_, mem, rfl, same.userId.symm, ?_, sendable_fullKey draw.random⟩
  rw [same.id]
  exact key_mark creates

/-- Rows that verify one text are one row. -/
theorem key_of_text (laws : Laws cfg) (told : Told cfg calls s) {a b : ApiKey} (ha : a ∈ s.db.apiKeys)
    (hb : b ∈ s.db.apiKeys) {text : String} {now now' : Time}
    (va : verifyApiKey (cfg.libraries now) text a.keyHash = true)
    (vb : verifyApiKey (cfg.libraries now') text b.keyHash = true) : a = b := by
  obtain ⟨r, mem, granted, _, mark, _⟩ := text_of_verified laws told ha va
  obtain ⟨r', mem', granted', _, mark', _⟩ := text_of_verified laws told hb vb
  obtain rfl : r = r' := told.apart.same mem mem' (fullKey_mark granted) (fullKey_mark granted')
  exact told.key_unique ha hb (key_marks_same mark mark')

/-! ## Revocation -/

/-- A key that is inactive stays so. -/
theorem inactive_later (told : Told cfg calls s) (later : Told cfg calls t) (grows : Grows s t) {key : ApiKey}
    (stored : key ∈ s.db.apiKeys) (inactive : key.isActive = false) :
    ∃ key' ∈ t.db.apiKeys, SameKey key key' ∧ key'.isActive = false := by
  obtain ⟨r, mem, created, creates, same, iff_⟩ := told.keys.keys key stored
  obtain ⟨key', stored', same'⟩ := later.keys.created r (grows.log r mem) created creates
  have kept : SameKey key key' := same.of_common same'
  refine ⟨key', stored', kept, ?_⟩
  obtain ⟨_, _, _, _, _, iff_'⟩ := later.keys.keys key' stored'
  obtain ⟨r', mem', revokes⟩ := iff_.mp inactive
  refine iff_'.mpr ⟨r', grows.log r' mem', ?_⟩
  rw [kept.id]
  exact revokes

/-- The text of a key is looked up among the candidates. -/
theorem getCurrentUser_fullKey (libs : Libraries) (random : Secret) (now : Time) (db : Tables) :
    getCurrentUser libs (some (fullKey random)) now db =
      checkCandidates libs (fullKey random) now db (candidates db (fullKey random)) := by
  have sent := sendable_fullKey random
  have asKey : getCurrentUser libs (some (fullKey random)) now db = authenticateApiKey libs (fullKey random) now db :=
    ApiKeyAuthentication.current_user_eq random.text
  rw [asKey, authenticateApiKey, sent]
  rfl

/-- Nobody is let in with the text of an inactive key. -/
theorem readPhase_inactive (laws : Laws cfg) (told : Told cfg calls s) {key : ApiKey} (stored : key ∈ s.db.apiKeys)
    (inactive : key.isActive = false) {text : String} {before : Time}
    (verified : verifyApiKey (cfg.libraries before) text key.keyHash = true) (action : Action) (now : Time) :
    readPhase cfg (.bearer (some text) action) now s.db = .failed (authenticationError "Invalid API key.") := by
  obtain ⟨r, mem, granted, _, _, sent⟩ := text_of_verified laws told stored verified
  obtain ⟨_, _, _, _, draw, rfl, rfl⟩ := made_key (told.base.made r mem) granted
  have none_ : (candidates s.db (fullKey draw.random)).find? (fun k =>
      verifyApiKey (cfg.libraries now) (fullKey draw.random) k.keyHash) = none := by
    refine List.find?_eq_none.mpr fun k candidate checks => ?_
    obtain ⟨mem, _, active⟩ := ApiKeyAuthentication.mem_candidates.mp candidate
    obtain rfl := key_of_text laws told mem stored checks verified
    rw [inactive] at active
    cases active
  have refused : (getCurrentUser (cfg.libraries now) (some (fullKey draw.random)) now s.db).1 =
      .error (authenticationError "Invalid API key.") := by
    rw [getCurrentUser_fullKey, ApiKeyAuthentication.checkCandidates_eq, none_]
  simp only [readPhase, refused]

/-- What a request that starts after the revocation can come to. -/
def Refused (p : Phase) : Prop :=
  p = .start ∨ p = .failed (authenticationError "Invalid API key.") ∨ p = .aborted

theorem refused_step (laws : Laws cfg) (told : Told cfg calls s) {key : ApiKey} (stored : key ∈ s.db.apiKeys)
    (inactive : key.isActive = false) {text : String} {before : Time}
    (verified : verifyApiKey (cfg.libraries before) text key.keyHash = true) {action : Action}
    (asked : calls i = .bearer (some text) action) (refused : Refused (s.phase i))
    (hs : (machine cfg calls).step s e = some t) : Refused (t.phase i) := by
  cases step_stepped hs with
  | read k now hk =>
    by_cases own : i = k
    · subst own
      rw [setPhase_self, asked, readPhase_inactive laws told stored inactive verified action now]
      exact Or.inr (Or.inl rfl)
    · rwa [setPhase_of_ne own]
  | draft k draw r fresh free drafted =>
    by_cases own : i = k
    · subst own
      rcases refused with hi | hi | hi
      all_goals
        rw [hi] at drafted
        cases drafted
    · rwa [setPhase_of_ne own]
  | commit k r hk =>
    by_cases own : i = k
    · subst own
      rcases refused with hi | hi | hi
      all_goals
        rw [hi] at hk
        cases hk
    · rwa [setPhase_of_ne own]
  | quiet _ k p silent running left =>
    by_cases own : i = k
    · subst own
      rw [setPhase_self]
      rcases refused with hi | hi | hi
      · exact Or.inr (Or.inr (left hi))
      all_goals
        rw [hi] at running
        cases running
    · rwa [setPhase_of_ne own]

/-- Once the revocation of a key has committed, no request that has not read yet is ever let in with
its text, however it overlaps with others. -/
theorem revoked_key_refused (cfg : Settings) (laws : Laws cfg) (calls : Fin n → Request) (data : Database)
    (s t : World n) (reachable : (machine cfg calls).Reachable (start n data) s) (key : ApiKey)
    (stored : key ∈ s.db.apiKeys) (inactive : key.isActive = false) (text : String)
    (verified : cfg.checkpw text.toUTF8.data.toList key.keyHash.toUTF8.data.toList = some true)
    (i : Fin n) (action : Action) (asked : calls i = .bearer (some text) action) (waiting : s.phase i = .start)
    (es : List (Event n)) (run : (machine cfg calls).run s es = some t) :
    Refused (t.phase i) ∧ ∃ key' ∈ t.db.apiKeys, key'.id = key.id ∧ key'.isActive = false := by
  have told := told_reachable reachable
  have checks : ∀ hash, hash = key.keyHash → verifyApiKey (cfg.libraries 0) text hash = true := by
    rintro _ rfl
    change (cfg.checkpw text.toUTF8.data.toList key.keyHash.toUTF8.data.toList).getD false = true
    rw [verified]
    rfl
  obtain ⟨_, refused, key', stored', same, inactive'⟩ : Told cfg calls t ∧ Refused (t.phase i) ∧
      ∃ key' ∈ t.db.apiKeys, SameKey key key' ∧ key'.isActive = false := by
    refine Machine.run_keeps (M := machine cfg calls) (G := fun _ _ _ => True)
      (I := fun u => Told cfg calls u ∧ Refused (u.phase i) ∧
        ∃ key' ∈ u.db.apiKeys, SameKey key key' ∧ key'.isActive = false)
      (fun u e v inv hs _ => ?_) ⟨told, Or.inl waiting, key, stored, .refl key, inactive⟩
      (Machine.everyStep_true s es) run
    obtain ⟨told, refused, key', stored', same, inactive'⟩ := inv
    have later := told_step told hs
    obtain ⟨key'', stored'', same', inactive''⟩ := inactive_later told later (grows_step hs) stored' inactive'
    exact ⟨later, refused_step laws told stored' inactive' (checks _ same.keyHash) asked refused hs, key'', stored'',
      same.trans same', inactive''⟩
  exact ⟨refused, key', stored', same.id, inactive'⟩

/-! ## Access tokens -/

/-- What becomes of a request with an access token of the user, issued at `issuedAt` and read at `now`. -/
def window (cfg : Settings) (user : User) (issuedAt now : Time) : Phase :=
  if now < issuedAt / 1000000 * 1000000 then .failed (authenticationError "Invalid access token.")
  else if (issuedAt + cfg.accessTokenExpire) / 1000000 * 1000000 ≤ now then
    .failed (authenticationError "Access token has expired.")
  else if user.isActive then .admitted user none
  else .failed (authenticationError "Account is deactivated.")

theorem decodeAccessToken_issued (laws : Laws cfg) {user : User} (named : user.email ≠ "") (issuedAt now : Time) :
    decodeAccessToken (cfg.libraries now) (createAccessToken cfg (str user.id) user.email issuedAt) =
      if now < issuedAt / 1000000 * 1000000 then .error (authenticationError "Invalid access token.")
      else if (issuedAt + cfg.accessTokenExpire) / 1000000 * 1000000 ≤ now then
        .error (authenticationError "Access token has expired.")
      else .ok (str user.id) := by
  have decoded : (cfg.libraries now).jwtDecode (createAccessToken cfg (str user.id) user.email issuedAt) = _ :=
    laws.jwt _ now
  rw [decodeAccessToken, decoded]
  by_cases early : now < issuedAt / 1000000 * 1000000
  · simp only [early, if_true]
  · by_cases late : (issuedAt + cfg.accessTokenExpire) / 1000000 * 1000000 ≤ now
    · simp only [early, late, if_true, if_false]
    · simp [early, late, AccessClaims.payload, str_ne_empty, named]

theorem authenticateJwt_refused {libs : Libraries} {token : String} {db : Tables} {e : Failure}
    (refused : decodeAccessToken libs token = .error e) : authenticateJwt libs token db = .error e := by
  rw [authenticateJwt, refused]
  rfl

theorem authenticateJwt_decoded {libs : Libraries} {token : String} {db : Tables} {user : User}
    (decoded : decodeAccessToken libs token = .ok (str user.id))
    (found : scalarOneOrNone (db.data.users.filter fun u => u.id = user.id) = .ok (some user)) :
    authenticateJwt libs token db =
      if user.isActive then .ok user else .error (authenticationError "Account is deactivated.") := by
  have parsed := parse_str user.id
  -- the text of an id is not to be computed
  generalize str user.id = text at decoded parsed
  rw [authenticateJwt, decoded]
  simp only [bind, Except.bind, parsed, found]

theorem readPhase_access (laws : Laws cfg) {db : Tables} (ids : (db.data.users.map User.id).Nodup) {user : User}
    (stored : user ∈ db.data.users) (named : user.email ≠ "") (issuedAt now : Time) (action : Action) :
    readPhase cfg (.bearer (some (createAccessToken cfg (str user.id) user.email issuedAt)) action) now db =
      window cfg user issuedAt now := by
  have plain : apiKeyPrefix.toList.isPrefixOf (createAccessToken cfg (str user.id) user.email issuedAt).toList = false :=
    laws.header _
  have found : scalarOneOrNone (db.data.users.filter fun u => u.id = user.id) = .ok (some user) := by
    have only : (db.data.users.filter fun u => u.id = user.id) = [user] :=
      RowVersions.filter_eq_singleton (List.Nodup.of_map _ ids) stored fun u mem => by
        rw [decide_eq_true_eq]
        exact ⟨fun same => List.inj_on_of_nodup_map ids mem stored same, fun same => congrArg User.id same⟩
    rw [only]
    rfl
  have asToken : getCurrentUser (cfg.libraries now)
      (some (createAccessToken cfg (str user.id) user.email issuedAt)) now db =
      (authenticateJwt (cfg.libraries now) (createAccessToken cfg (str user.id) user.email issuedAt) db, db) :=
    if_neg (by rw [plain]; exact Bool.false_ne_true)
  have decoded := decodeAccessToken_issued laws named issuedAt now
  by_cases early : now < issuedAt / 1000000 * 1000000
  · rw [if_pos early] at decoded
    simp only [readPhase, asToken, authenticateJwt_refused decoded, window, early, if_true]
  · rw [if_neg early] at decoded
    by_cases late : (issuedAt + cfg.accessTokenExpire) / 1000000 * 1000000 ≤ now
    · rw [if_pos late] at decoded
      simp only [readPhase, asToken, authenticateJwt_refused decoded, window, early, late, if_true, if_false]
    · rw [if_neg late] at decoded
      have known := authenticateJwt_decoded decoded found
      cases active : user.isActive with
      | true =>
        simp only [active, if_true] at known
        simp only [readPhase, asToken, known, usedKey_of_jwt plain, window, early, late, active, if_true, if_false]
      | false =>
        simp only [active, Bool.false_eq_true, if_false] at known
        simp only [readPhase, asToken, known, window, early, late, active, if_false, Bool.false_eq_true]

theorem made_access {r : Record} (made : Made cfg r) {access refresh : String}
    (granted : r.grant = .tokens access refresh) : ∃ issuedAt row,
      access = createAccessToken cfg (str r.user.id) r.user.email issuedAt ∧ r.write.issued = some row ∧
        row.tokenHash = hashRefreshToken cfg.sha256 refresh ∧ row.expiresAt = issuedAt + cfg.refreshTokenExpire := by
  cases made with
  | firstLogin _ _ _ draw _ _ _ _ | login _ _ _ draw _ _ | rotation _ _ _ draw _ _ =>
    obtain ⟨rfl, rfl⟩ := Grant.tokens.inj granted
    exact ⟨draw.now, _, rfl, rfl, rfl, rfl⟩
  | touch _ _ _ _ _ _ plain =>
    rcases plain with rfl | ⟨rows, rfl⟩
    · cases granted
    · cases granted
  | key _ _ _ _ _ | revocation _ _ _ _ => cases granted

/-- An access token serves its user from its second on for its lifetime, whatever commits in the
meantime, the refresh that rotates its refresh token included. -/
theorem access_token_window (cfg : Settings) (laws : Laws cfg) (calls : Fin n → Request) (data : Database)
    (accounts : Accounts data) (s : World n) (reachable : (machine cfg calls).Reachable (start n data) s) :
    ∀ r ∈ s.log, ∀ access refresh, r.grant = .tokens access refresh →
      ∃ issuedAt row, r.write.issued = some row ∧ row.tokenHash = hashRefreshToken cfg.sha256 refresh ∧
        row.expiresAt = issuedAt + cfg.refreshTokenExpire ∧
        ∀ es t, (machine cfg calls).run s es = some t → ∀ action now,
          readPhase cfg (.bearer (some access) action) now t.db = window cfg r.user issuedAt now := by
  intro r answered access refresh granted
  obtain ⟨told, inv⟩ := told_inv_reachable accounts reachable
  obtain ⟨issuedAt, row, rfl, issued, hash, expires⟩ := made_access (told.base.made r answered) granted
  refine ⟨issuedAt, row, issued, hash, expires, fun es t run action now => ?_⟩
  obtain ⟨told', inv', kept⟩ : Told cfg calls t ∧ Inv t ∧ r.user ∈ t.db.data.users := by
    refine Machine.run_keeps (M := machine cfg calls) (G := fun _ _ _ => True)
      (I := fun u => Told cfg calls u ∧ Inv u ∧ r.user ∈ u.db.data.users) (fun u e v h hs _ => ?_)
      ⟨told, inv, told.base.users r answered⟩ (Machine.everyStep_true s es) run
    exact ⟨told_step h.1 hs, inv_step h.1 h.2.1 hs, (grows_step hs).users r.user h.2.2⟩
  exact readPhase_access laws inv'.accounts.ids kept (inv'.accounts.named r.user kept) issuedAt now action

/-! ## Chains -/

/-- What a request presents has been handed out in the answer. -/
inductive Presents (cfg : Settings) : Grant → Request → Prop
  | access (access refresh : String) (action : Action) :
      Presents cfg (.tokens access refresh) (.bearer (some access) action)
  | refresh (access refresh rawToken : String)
      (same : hashRefreshToken cfg.sha256 refresh = hashRefreshToken cfg.sha256 rawToken) :
      Presents cfg (.tokens access refresh) (.refresh rawToken)
  | key (text : String) (action : Action) : Presents cfg (.key text) (.bearer (some text) action)

/-- An earlier answer to the user lets the request in. -/
def Backing (cfg : Settings) (log : List Record) (user : User) (request : Request) : Prop :=
  ∃ d ∈ log, d.user = user ∧ Presents cfg d.grant request

/-- A record at the end of a chain of records for one user, of which the first is a login. -/
inductive Descends (cfg : Settings) (log : List Record) : Record → Prop
  | login (r : Record) (mem : r ∈ log) (credential : String) (now : Time) (asked : r.request = .googleLogin credential)
      (vouched : cfg.verifyOauth2Token now credential = .ok (some r.user.email)) : Descends cfg log r
  | next (d r : Record) (earlier : Descends cfg log d) (mem : r ∈ log) (own : d.user = r.user)
      (presents : Presents cfg d.grant r.request) : Descends cfg log r

/-- PyJWT accepts only what it has signed: an access token that decodes was handed out before. -/
def signed (cfg : Settings) (calls : Fin n → Request) (s : World n) : Event n → Bool
  | .read i now => match calls i with
    | .bearer (some token) _ =>
      !(decodeAccessToken (cfg.libraries now) token).isOk || s.log.any fun r => match r.grant with
        | .tokens access _ => access = token
        | _ => false
    | _ => true
  | _ => true

theorem granted_of_signed {now : Time} {token : String} {action : Action} {sub : String}
    (signed_ : signed cfg calls s (.read i now) = true) (asked : calls i = .bearer (some token) action)
    (decoded : decodeAccessToken (cfg.libraries now) token = .ok sub) :
    ∃ r ∈ s.log, ∃ refresh, r.grant = .tokens token refresh := by
  simp only [signed, asked, decoded, Except.isOk, Except.toBool, Bool.not_true, Bool.false_or, List.any_eq_true]
    at signed_
  obtain ⟨r, mem, matches_⟩ := signed_
  refine ⟨r, mem, ?_⟩
  cases granted : r.grant with
  | tokens access refresh =>
    simp only [granted, decide_eq_true_eq] at matches_
    exact ⟨refresh, matches_ ▸ rfl⟩
  | key _ | keys _ | nothing => simp [granted] at matches_

theorem Descends.mono {log log' : List Record} (sub : ∀ r ∈ log, r ∈ log') {r : Record} (h : Descends cfg log r) :
    Descends cfg log' r := by
  induction h with
  | login r mem credential now asked vouched => exact .login r (sub r mem) credential now asked vouched
  | next d r earlier mem own presents ih => exact .next d r ih (sub r mem) own presents

theorem Backing.mono {log log' : List Record} (sub : ∀ r ∈ log, r ∈ log') {user : User} {request : Request}
    (h : Backing cfg log user request) : Backing cfg log' user request := by
  obtain ⟨d, mem, own, presents⟩ := h
  exact ⟨d, sub d mem, own, presents⟩

/-- The first record of a chain. -/
theorem Descends.root {log : List Record} {r : Record} (h : Descends cfg log r) :
    ∃ l ∈ log, ∃ credential now, l.request = .googleLogin credential ∧
      cfg.verifyOauth2Token now credential = .ok (some r.user.email) := by
  induction h with
  | login r mem credential now asked vouched => exact ⟨r, mem, credential, now, asked, vouched⟩
  | next d r earlier mem own presents ih => exact own ▸ ih

/-- Who is let in, and what is about to be committed, is backed by what has been handed out. -/
structure Backed (cfg : Settings) (calls : Fin n → Request) (s : World n) : Prop where
  admitted : ∀ i user used, s.phase i = .admitted user used → Backing cfg s.log user (calls i)
  writing : ∀ i r, s.phase i = .writing r →
    (∃ credential, r.request = .googleLogin credential) ∨ Backing cfg s.log r.user r.request
  descends : ∀ r ∈ s.log, Descends cfg s.log r

theorem backed_start (data : Database) : Backed cfg calls (start n data) :=
  ⟨by simp [start], by simp [start], by simp [start]⟩

/-- Users with one id are one user. -/
theorem user_unique (inv : Inv s) {a b : User} (ha : a ∈ s.db.data.users) (hb : b ∈ s.db.data.users)
    (same : a.id = b.id) : a = b :=
  List.inj_on_of_nodup_map inv.accounts.ids ha hb same

/-- Whoever is let in presents what has been handed out. -/
theorem backing_of_admitted (laws : Laws cfg) (told : Told cfg calls s) (inv : Inv s) {now : Time}
    {credentials : Option String} {action : Action} (asked : calls i = .bearer credentials action) {user : User}
    (admitted : (getCurrentUser (cfg.libraries now) credentials now s.db).1 = .ok user)
    (signed_ : signed cfg calls s (.read i now) = true) : Backing cfg s.log user (calls i) := by
  obtain ⟨token, rfl, stored, _, admission⟩ := getCurrentUser_admission admitted
  rw [asked]
  generalize usedKey (cfg.libraries now) (some token) now s.db = used at admission
  cases admission with
  | jwt sub plain decoded parsed =>
    obtain ⟨r, mem, refresh, granted⟩ := granted_of_signed signed_ asked decoded
    obtain ⟨issuedAt, _, rfl, _, _, _⟩ := made_access (told.base.made r mem) granted
    have stored' := told.base.users r mem
    have sub_ : sub = str r.user.id := by
      rw [decodeAccessToken_issued laws (inv.accounts.named _ stored')] at decoded
      split at decoded
      · cases decoded
      · split at decoded
        · cases decoded
        · exact (Except.ok.inj decoded).symm
    rw [sub_, parse_str] at parsed
    exact ⟨r, mem, user_unique inv stored' stored (Option.some.inj parsed), granted ▸ .access _ refresh action⟩
  | key key verifies own =>
    obtain ⟨r, mem, granted, same, _, _⟩ := text_of_verified laws told verifies.stored verifies.verified
    exact ⟨r, mem, user_unique inv (told.base.users r mem) stored (same.trans own), granted ▸ .key token action⟩

/-- What is drafted is backed as the phase before it was. -/
theorem backing_of_drafted (told : Told cfg calls s) (inv : Inv s) (backed : Backed cfg calls s) {draw : Draw}
    {r : Record} (drafted : Drafted cfg (calls i) s.db draw (s.phase i) r) :
    (∃ credential, r.request = .googleLogin credential) ∨ Backing cfg s.log r.user r.request := by
  have stands := told.base.stands i
  generalize hi : s.phase i = before at drafted stands
  cases drafted with
  | firstLogin email a made =>
    cases stands with
    | missing credential _ _ asked _ _ => exact Or.inl ⟨credential, asked⟩
    | silent _ silent => cases silent
  | login user =>
    cases stands with
    | found credential _ _ asked _ _ _ => exact Or.inl ⟨credential, asked⟩
    | silent _ silent => cases silent
  | rotation stored user =>
    cases stands with
    | exchanging rawToken _ _ asked presented issued own mem =>
      obtain ⟨d, logged, issued⟩ := issued
      obtain ⟨access, refresh, granted, hash, owner⟩ := made_issued (told.base.made d logged) issued
      have same : d.user = user := user_unique inv (told.base.users d logged) mem (owner.symm.trans own)
      have presents : Presents cfg d.grant (.refresh rawToken) :=
        granted ▸ .refresh access refresh rawToken (hash.symm.trans presented)
      exact Or.inr ⟨d, logged, same, asked ▸ presents⟩
    | silent _ silent => cases silent
  | touch user used grant asked plain => exact Or.inr (backed.admitted i user used hi)
  | key credentials name user used asked => exact Or.inr (backed.admitted i user used hi)
  | revocation credentials key user used asked stored own => exact Or.inr (backed.admitted i user used hi)

/-- A step that commits nothing. -/
theorem Backed.setPhase (h : Backed cfg calls s)
    (admitted : ∀ user used, p = .admitted user used → Backing cfg s.log user (calls i))
    (writing : ∀ r, p = .writing r →
      (∃ credential, r.request = .googleLogin credential) ∨ Backing cfg s.log r.user r.request) :
    Backed cfg calls (s.setPhase i p) where
  admitted := setPhase_all (P := fun k q => ∀ user used, q = .admitted user used → Backing cfg s.log user (calls k))
    h.admitted admitted
  writing := setPhase_all (P := fun _ q => ∀ r, q = .writing r →
    (∃ credential, r.request = .googleLogin credential) ∨ Backing cfg s.log r.user r.request) h.writing writing
  descends := h.descends

theorem backed_commit (told : Told cfg calls s) (h : Backed cfg calls s) {r : Record} (hi : s.phase i = .writing r) :
    Backed cfg calls (afterCommit s i r) := by
  have grows := (grows_committed (s := s) i r).log
  have last : r ∈ (afterCommit s i r).log := List.mem_append_right _ List.mem_cons_self
  have before : ∀ k q, (afterCommit s i r).phase k = q → q ≠ .done → s.phase k = q := by
    intro k q hk running
    by_cases own : k = i
    · subst own
      rw [setPhase_self] at hk
      exact absurd hk.symm running
    · rwa [setPhase_of_ne own] at hk
  refine ⟨fun k user used hk => ?_, fun k r' hk => ?_, fun r' mem => ?_⟩
  · exact (h.admitted k user used (before k _ hk (by simp))).mono grows
  · exact (h.writing k r' (before k _ hk (by simp))).imp_right fun backing => backing.mono grows
  · rcases List.mem_append.mp mem with old | new
    · exact (h.descends r' old).mono grows
    · rw [List.mem_singleton.mp new]
      rcases h.writing i r hi with ⟨credential, asked⟩ | ⟨d, logged, own, presents⟩
      · obtain ⟨now, vouched⟩ := made_login (told.base.ready hi).made asked
        exact .login r last credential now asked vouched
      · exact .next d r ((h.descends d logged).mono grows) last own presents

theorem backed_step (laws : Laws cfg) (told : Told cfg calls s) (inv : Inv s) (h : Backed cfg calls s)
    (hs : (machine cfg calls).step s e = some t) (signed_ : signed cfg calls s e = true) : Backed cfg calls t := by
  cases step_stepped hs with
  | read i now hi =>
    refine h.setPhase (fun user used entered => ?_) fun r writes => ?_
    · cases asked : calls i with
      | googleLogin credential =>
        have stands : Stands cfg s (calls i) (.admitted user used) :=
          entered ▸ readPhase_stands told.base.tokens (calls i) now
        cases stands with
        | admitted _ _ _ _ asked' _ => rw [asked] at asked'; cases asked'
        | silent _ silent => cases silent
      | refresh rawToken =>
        have stands : Stands cfg s (calls i) (.admitted user used) :=
          entered ▸ readPhase_stands told.base.tokens (calls i) now
        cases stands with
        | admitted _ _ _ _ asked' _ => rw [asked] at asked'; cases asked'
        | silent _ silent => cases silent
      | bearer credentials action =>
        simp only [asked, readPhase] at entered
        split at entered
        · cases entered
        · rename_i admitted
          cases entered
          exact asked ▸ backing_of_admitted laws told inv asked admitted signed_
    · exact absurd writes (readPhase_idle (calls i) now s.db r)
  | draft i draw r fresh free drafted =>
    refine h.setPhase (fun _ _ impossible => by cases impossible) fun r' same => ?_
    cases same
    exact backing_of_drafted told inv h drafted
  | commit i r hi => exact backed_commit told h hi
  | quiet e i p silent running left =>
    refine h.setPhase (fun _ _ same => ?_) fun _ same => ?_
    all_goals
      subst same
      cases silent

/-- If nobody forges a signature, every committed request ends a chain of committed requests of its user,
each of which presents what the one before it was answered, back to a login that Google vouched for. -/
theorem committed_descends (cfg : Settings) (laws : Laws cfg) (calls : Fin n → Request) (data : Database)
    (accounts : Accounts data) (es : List (Event n)) (s : World n)
    (run : (machine cfg calls).run (start n data) es = some s)
    (unforged : (machine cfg calls).EveryStep (fun s e _ => signed cfg calls s e = true) (start n data) es) :
    ∀ r ∈ s.log, Descends cfg s.log r ∧ ∃ l ∈ s.log, ∃ credential now, l.request = .googleLogin credential ∧
      cfg.verifyOauth2Token now credential = .ok (some r.user.email) := by
  obtain ⟨_, _, backed⟩ : Told cfg calls s ∧ Inv s ∧ Backed cfg calls s := by
    refine Machine.run_keeps (M := machine cfg calls) (G := fun s e _ => signed cfg calls s e = true)
      (I := fun u => Told cfg calls u ∧ Inv u ∧ Backed cfg calls u) (fun u e v h hs signed_ => ?_)
      ⟨told_start data, inv_start accounts, backed_start data⟩ unforged run
    exact ⟨told_step h.1 hs, inv_step h.1 h.2.1 hs, backed_step laws h.1 h.2.1 h.2.2 hs signed_⟩
  intro r answered
  have descends := backed.descends r answered
  exact ⟨descends, descends.root⟩

end Runs

/-! ## The small deployment keeps the promises -/

theorem countStrokes_strokes (k : Nat) (rest : List Char) : Demo.countStrokes (Demo.strokes k rest) = (k, rest) := by
  have only : ∀ c ∈ List.replicate k 'e', decide (c = 'e') = true := fun c mem =>
    decide_eq_true (List.eq_of_mem_replicate mem)
  simp [Demo.countStrokes, Demo.strokes, List.takeWhile_append_of_pos only, List.dropWhile_append_of_pos only]

theorem parseClaims_jwtEncode (claims : AccessClaims) : Demo.parseClaims (Demo.jwtEncode claims) = claims := by
  cases claims with
  | mk sub email exp iat type =>
    simp [Demo.parseClaims, Demo.jwtEncode, countStrokes_strokes, ← String.length_toList]

theorem toNat_byte (b : UInt8) : (Char.ofNat b.toNat).toNat = b.toNat := by
  have small := b.toNat_lt
  have valid : Nat.isValidChar b.toNat := Or.inl (by omega)
  rw [Char.ofNat, dif_pos valid]
  rfl

theorem hashpw_injective {a b : Bytes}
    (same : (String.ofList (a.map fun x => Char.ofNat x.toNat)) = String.ofList (b.map fun x => Char.ofNat x.toNat)) :
    a = b := by
  refine List.map_injective_iff.mpr (fun x y hxy => ?_) (String.ofList_injective same)
  have values := congrArg Char.toNat hxy
  rw [toNat_byte, toNat_byte] at values
  exact UInt8.toNat.inj values

theorem checkpw_demo (password bytes : Bytes) (salt : Bytes) : Demo.settings.checkpw password
    (Demo.settings.hashpw bytes salt).toUTF8.data.toList = some true ↔ password = bytes := by
  change some (decide (_ = _)) = some true ↔ _
  rw [Option.some.injEq, decide_eq_true_eq]
  exact ⟨fun same => (hashpw_injective (toUTF8_injective same)).symm, fun same => same ▸ rfl⟩

theorem header_demo (claims : AccessClaims) :
    apiKeyPrefix.toList.isPrefixOf (Demo.jwtEncode claims).toList = false := by
  rw [Demo.jwtEncode, String.toList_ofList]
  cases claims.sub.length with
  | zero => rfl
  | succ k => rfl

theorem jwtDecode_demo (claims : AccessClaims) (now : Time) :
    Demo.settings.jwtDecode now (Demo.settings.jwtEncode claims) =
      if now < claims.iat * 1000000 then .error .invalidToken
      else if claims.exp * 1000000 ≤ now then .error .expiredSignature
      else .ok claims.payload := by
  simp only [Demo.settings]
  rw [Demo.jwtDecode, parseClaims_jwtEncode]

theorem laws_demo : Laws Demo.settings where
  bcrypt password _ salt := checkpw_demo password _ salt
  jwt := jwtDecode_demo
  header := header_demo

section Late
variable {n : Nat}

/-- The four requests, and one that comes with the revoked key. -/
def lateCalls (i : Fin n) : Request :=
  (Demo.requests ++ [Request.bearer (some (fullKey Demo.keyDraw.random)) .getMe]).getD i.val (.refresh "")

/-- All but the refresh. -/
def lateEvents (login create revoke : Fin n) : List (Event n) :=
  Demo.serves login 0 Demo.loginDraw ++ Demo.serves create 2000000 Demo.keyDraw ++
    Demo.serves revoke 4000000 Demo.refreshDraw

def beforeLate (login create revoke : Fin n) : World n :=
  ((machine Demo.settings lateCalls).run (Demo.initial n) (lateEvents login create revoke)).getD (Demo.initial n)

def afterLate (login create revoke late : Fin n) : World n :=
  ((machine Demo.settings lateCalls).run (beforeLate login create revoke) [.read late 5000000]).getD
    (beforeLate login create revoke)

end Late

def revokedKey : ApiKey :=
  { newApiKey Demo.settings ⟨Demo.loginDraw.userId, "a@example.com", true⟩ "ci" Demo.keyDraw with
    isActive := false, lastUsedAt := some 4000000 }

theorem revoked_key_refused_demo : Refused ((afterLate 0 1 3 4 : World 5).phase 4) ∧
    ∃ key' ∈ (afterLate 0 1 3 4 : World 5).db.apiKeys, key'.id = revokedKey.id ∧ key'.isActive = false := by
  -- one evaluation of the run serves all of these
  obtain ⟨enabled, stored, waiting, late⟩ :
      ((machine Demo.settings lateCalls).run (Demo.initial 5) (lateEvents 0 1 3)).isSome = true ∧
      revokedKey ∈ (beforeLate 0 1 3 : World 5).db.apiKeys ∧ (beforeLate 0 1 3 : World 5).phase 4 = .start ∧
      ((machine Demo.settings lateCalls).run (beforeLate 0 1 3 : World 5) [.read 4 5000000]).isSome = true := by
    decide +kernel
  exact revoked_key_refused Demo.settings laws_demo lateCalls Database.empty (beforeLate 0 1 3) (afterLate 0 1 3 4)
    (Machine.reachable_getD (Demo.initial 5) enabled) revokedKey stored rfl (fullKey Demo.keyDraw.random)
    ((checkpw_demo _ _ Demo.keyDraw.salt).mpr rfl) 4 .getMe rfl waiting [.read 4 5000000]
    (Machine.run_getD (beforeLate 0 1 3) late)

theorem access_token_window_demo : Demo.after.log.length = 4 ∧
    ∀ r ∈ Demo.after.log, ∀ access refresh, r.grant = .tokens access refresh →
      ∃ issuedAt row, r.write.issued = some row ∧ row.tokenHash = hashRefreshToken Demo.settings.sha256 refresh ∧
        row.expiresAt = issuedAt + Demo.settings.refreshTokenExpire ∧
        ∀ es t, (machine Demo.settings Demo.calls).run Demo.after es = some t → ∀ action now,
          readPhase Demo.settings (.bearer (some access) action) now t.db = window Demo.settings r.user issuedAt now :=
  ⟨Demo.events_enabled.2,
    access_token_window Demo.settings laws_demo Demo.calls Database.empty accounts_empty Demo.after Demo.after_reachable⟩

theorem committed_descends_demo : Demo.after.log.length = 4 ∧
    ∀ r ∈ Demo.after.log, Descends Demo.settings Demo.after.log r ∧
      ∃ l ∈ Demo.after.log, ∃ credential now, l.request = .googleLogin credential ∧
        Demo.settings.verifyOauth2Token now credential = .ok (some r.user.email) := by
  have unforged : (machine Demo.settings Demo.calls).EveryStep
      (fun s e _ => signed Demo.settings Demo.calls s e = true) (Demo.initial 4) (Demo.events 0 1 2 3) := by
    decide +kernel
  exact ⟨Demo.events_enabled.2, committed_descends Demo.settings laws_demo Demo.calls Database.empty accounts_empty
    (Demo.events 0 1 2 3) Demo.after (Machine.run_getD (Demo.initial 4) Demo.events_enabled.1) unforged⟩

end CredentialChains
