import ResearchPlatform.ApiKeyAuthentication
import ResearchPlatform.OrganizationCreation
import ResearchPlatform.Migration

/-!
# Logins, tokens and keys that overlap

`auth/service.py` behind its routes, and what it takes from `core/security.py`, for any
number of requests at once at READ COMMITTED. A request reads the account, the stored
token or the user of its bearer token, then it writes, then it commits; by the time it
writes, what it has read may have changed. An INSERT waits for an uncommitted equal email,
an UPDATE and a DELETE for the row. The log is what the committed requests have
answered; no table holds it.
-/

namespace Credentials

open Uuid Schema DocumentService AuthService Machines
open TokenRotation (RefreshToken hashRefreshToken)
open ApiKeyAuthentication (candidates)
open Migration (splitPart personalSlug)

/-! ## Secrets -/

def isUrlSafe (c : Char) : Bool :=
  ('A' ≤ c && c ≤ 'Z') || ('a' ≤ c && c ≤ 'z') || ('0' ≤ c && c ≤ '9') || c = '-' || c = '_'

/-- `secrets.token_urlsafe(32)`. -/
structure Secret where
  text : String
  length : text.length = 43
  urlSafe : text.toList.all isUrlSafe = true
  deriving DecidableEq, Repr

/-- The claims of an access token, with both times in whole seconds. -/
structure AccessClaims where
  sub : String
  email : String
  exp : Nat
  iat : Nat
  type : String
  deriving DecidableEq, Repr

def AccessClaims.payload (claims : AccessClaims) : Payload :=
  ⟨some claims.type, some claims.sub, some claims.email, some claims.exp⟩

/-- Lifetimes, and the functions of bcrypt, PyJWT and google-auth. -/
structure Settings where
  sha256 : Sha256
  lower : String → String
  accessTokenExpire : Time
  refreshTokenExpire : Time
  hashpw : Bytes → Bytes → String
  checkpw : Bytes → Bytes → Option Bool
  jwtEncode : AccessClaims → String
  jwtDecode : Time → String → Except JwtError Payload
  /-- the email claim -/
  verifyOauth2Token : Time → String → Except Failure (Option String)
  /-- what Google vouches for is an address, and so ends in no blank -/
  addresses : ∀ now credential email, verifyOauth2Token now credential = .ok (some email) →
    email.toList.getLast? ≠ some ' '

section Functions
variable (cfg : Settings)

def Settings.libraries (now : Time) : Libraries := ⟨cfg.checkpw, cfg.jwtDecode now⟩

/-- `create_access_token`. -/
def createAccessToken (userId email : String) (now : Time) : String :=
  cfg.jwtEncode ⟨userId, email, (now + cfg.accessTokenExpire) / 1000000, now / 1000000, "access"⟩

/-- What a request draws from outside. -/
structure Draw where
  userId : UUID
  orgId : UUID
  membershipId : UUID
  tokenId : UUID
  keyId : UUID
  random : Secret
  salt : Bytes
  now : Time
  deriving DecidableEq, Repr

/-- The row of `generate_refresh_token`. -/
def newRefreshToken (user : User) (draw : Draw) : RefreshToken :=
  ⟨draw.tokenId, user.id, hashRefreshToken cfg.sha256 draw.random.text, draw.now + cfg.refreshTokenExpire⟩

/-- The key of `generate_api_key`. -/
def fullKey (random : Secret) : String := apiKeyPrefix ++ random.text

theorem sendable_fullKey (random : Secret) : sendable (keyPrefixOf (fullKey random)) = true := by
  have clear : '\x00' ∉ (fullKey random).toList := by
    intro mem
    rw [fullKey, String.toList_append] at mem
    rcases List.mem_append.mp mem with inPrefix | inRandom
    · exact absurd inPrefix (by decide)
    · exact absurd (List.all_eq_true.mp random.urlSafe _ inRandom) (by decide)
  have short : '\x00' ∉ (keyPrefixOf (fullKey random)).toList := by
    rw [keyPrefixOf, String.toList_ofList]
    exact fun mem => clear (List.mem_of_mem_take mem)
  simpa [sendable] using short

/-- The row of `create_user_api_key`. -/
def newApiKey (user : User) (name : String) (draw : Draw) : ApiKey where
  id := draw.keyId
  userId := user.id
  keyPrefix := keyPrefixOf (fullKey draw.random)
  keyHash := cfg.hashpw (fullKey draw.random).toUTF8.data.toList draw.salt
  name := name
  isActive := true
  expiresAt := none
  lastUsedAt := none
  createdAt := draw.now

/-- `list_user_api_keys`. -/
def listUserApiKeys (userId : UUID) (rows : List ApiKey) : List ApiKey :=
  orderByDesc ApiKey.createdAt (rows.filter fun k => k.userId = userId)

/-- `create_personal_organization`. -/
def createPersonalOrganization (user : User) (draw : Draw) (db : Database) :
    Except Failure (Organization × Database) :=
  OrganizationCreation.createOrganization cfg.lower (splitPart user.email '@' ++ "'s Workspace")
    (some (personalSlug user.id)) user.id ⟨draw.orgId, draw.membershipId, 0, "", draw.now⟩ db

end Functions

/-! ## Requests -/

inductive Action where
  | getMe
  | createApiKey (name : String)
  | listApiKeys
  | revokeApiKey (keyId : UUID)
  deriving DecidableEq, Repr

inductive Request where
  | googleLogin (credential : String)
  | refresh (rawToken : String)
  | bearer (credentials : Option String) (action : Action)
  deriving DecidableEq, Repr

/-- The user of a first login, with the default tenant. -/
structure Account where
  user : User
  organization : Organization
  membership : OrgMembership
  deriving DecidableEq, Repr

/-- What a transaction writes; `used` is the key that let its request in. -/
inductive Write where
  | login (account : Option Account) (issued : RefreshToken)
  | rotation (stored issued : RefreshToken)
  | touch (used : Option (UUID × Time))
  | key (used : Option (UUID × Time)) (created : ApiKey)
  | revocation (used : Option (UUID × Time)) (keyId : UUID)
  deriving DecidableEq, Repr

/-- The secrets and rows in the answer of a request. -/
inductive Grant where
  | tokens (access refresh : String)
  | key (fullKey : String)
  | keys (rows : List ApiKey)
  | nothing
  deriving DecidableEq, Repr

structure Record where
  request : Request
  user : User
  write : Write
  grant : Grant
  deriving DecidableEq, Repr

/-- A value that no two transactions draw. -/
inductive Mark where
  | user (id : UUID)
  | organization (id : UUID)
  | membership (id : UUID)
  | token (id : UUID)
  | tokenHash (hash : String)
  | key (id : UUID)
  | fullKey (text : String)
  deriving DecidableEq, Repr

def Draw.marks (cfg : Settings) (draw : Draw) : List Mark :=
  [.user draw.userId, .organization draw.orgId, .membership draw.membershipId, .token draw.tokenId,
    .tokenHash (hashRefreshToken cfg.sha256 draw.random.text), .key draw.keyId,
    .fullKey (Credentials.fullKey draw.random)]

def Write.issued : Write → Option RefreshToken
  | .login _ issued | .rotation _ issued => some issued
  | .touch _ | .key _ _ | .revocation _ _ => none

/-- The key that the write creates. -/
def Write.created : Write → Option ApiKey
  | .key _ created => some created
  | .login _ _ | .rotation _ _ | .touch _ | .revocation _ _ => none

/-- The key that the write revokes. -/
def Write.revokes : Write → Option UUID
  | .revocation _ keyId => some keyId
  | .login _ _ | .rotation _ _ | .touch _ | .key _ _ => none

/-- The token that the write exchanges. -/
def Write.exchanges : Write → Option RefreshToken
  | .rotation stored _ => some stored
  | .login _ _ | .touch _ | .key _ _ | .revocation _ _ => none

/-- What the transaction has drawn. -/
def Record.marks (r : Record) : List Mark :=
  (match r.write with
    | .login (some a) _ => [.user a.user.id, .organization a.organization.id, .membership a.membership.id]
    | .key _ created => [.key created.id]
    | .login none _ | .rotation _ _ | .touch _ | .revocation _ _ => []) ++
  (r.write.issued.toList.flatMap fun issued => [.token issued.id, .tokenHash issued.tokenHash]) ++
  match r.grant with
    | .key text => [.fullKey text]
    | .tokens _ _ | .keys _ | .nothing => []

/-- `key.last_used_at = now`. -/
def touched (used : Option (UUID × Time)) (rows : List ApiKey) : List ApiKey :=
  match used with
  | none => rows
  | some (id, now) => rows.map fun k => if k.id = id then { k with lastUsedAt := some now } else k

def revoked (keyId : UUID) (rows : List ApiKey) : List ApiKey :=
  rows.map fun k => if k.id = keyId then { k with isActive := false } else k

def Account.insert (a : Account) (data : Database) : Database :=
  { data with
    users := data.users ++ [a.user.row]
    organizations := data.organizations ++ [a.organization.row]
    orgMemberships := data.orgMemberships ++ [a.membership] }

/-- The tables after the commit. -/
def Write.apply (w : Write) (db : Tables) : Tables :=
  match w with
  | .login account issued => { db with
      data := account.elim db.data fun a => a.insert db.data
      refreshTokens := db.refreshTokens ++ [issued] }
  | .rotation stored issued => { db with
      refreshTokens := (db.refreshTokens.filter fun r => r.id ≠ stored.id) ++ [issued] }
  | .touch used => { db with apiKeys := touched used db.apiKeys }
  | .key used created => { db with apiKeys := touched used db.apiKeys ++ [created] }
  | .revocation used keyId => { db with apiKeys := revoked keyId (touched used db.apiKeys) }

/-- Where one request stands. -/
inductive Phase where
  | start
  /-- a login without an account -/
  | missing (email : String)
  | found (user : User)
  | exchanging (stored : RefreshToken) (user : User)
  | expired (stored : RefreshToken)
  | admitted (user : User) (used : Option (UUID × Time))
  | writing (r : Record)
  /-- the expired row is deleted and not yet rolled back -/
  | cleaning (stored : RefreshToken)
  | done
  | failed (e : Failure)
  | aborted
  deriving DecidableEq, Repr

namespace Phase

def pending : Phase → Option Record
  | writing r => some r
  | _ => none

/-- The account that the open transaction has inserted. -/
def account (p : Phase) : Option Account :=
  match p.pending.map Record.write with
  | some (.login account _) => account
  | _ => none

/-- The token that the open transaction has deleted. -/
def deleting : Phase → Option UUID
  | cleaning stored => some stored.id
  | writing r => match r.write with
    | .rotation stored _ => some stored.id
    | _ => none
  | _ => none

/-- The keys that the open transaction has updated. -/
def updating (p : Phase) : List UUID :=
  match p.pending.map Record.write with
  | some (.touch used) | some (.key used _) => used.toList.map Prod.fst
  | some (.revocation used keyId) => keyId :: used.toList.map Prod.fst
  | _ => []

end Phase

structure World (n : Nat) where
  db : Tables
  phase : Fin n → Phase
  log : List Record
  deriving DecidableEq

inductive Event (n : Nat) where
  | read (i : Fin n) (now : Time)
  | write (i : Fin n) (draw : Draw)
  | commit (i : Fin n)
  | abort (i : Fin n)
  deriving DecidableEq

section Step
variable {n : Nat} (cfg : Settings) (calls : Fin n → Request)

def World.setPhase (s : World n) (i : Fin n) (p : Phase) : World n :=
  { s with phase := fun k => if k = i then p else s.phase k }

/-! ## Reading -/

/-- The head of `google_login`: whom Google vouches for, and the account of that address. -/
def loginRead (credential : String) (now : Time) (db : Tables) : Phase :=
  match cfg.verifyOauth2Token now credential with
  | .error (.valueError _) => .failed (authenticationError "Invalid Google token.")
  | .error e => .failed e
  | .ok none => .failed (authenticationError "Google token missing email.")
  | .ok (some email) =>
    if email = "" then .failed (authenticationError "Google token missing email.")
    else if !sendable email then .failed (.dataError "email")
    else match scalarOneOrNone (db.data.users.filter fun u => u.email = email) with
      | .error e => .failed e
      | .ok none => .missing email
      | .ok (some user) =>
        if user.isActive then .found user else .failed (authenticationError "Account is deactivated.")

/-- The head of `refresh_access_token`. -/
def refreshRead (rawToken : String) (now : Time) (db : Tables) : Phase :=
  match scalarOneOrNone (db.refreshTokens.filter fun r =>
      r.tokenHash = hashRefreshToken cfg.sha256 rawToken) with
  | .error e => .failed e
  | .ok none => .failed (authenticationError "Invalid refresh token.")
  | .ok (some stored) =>
    if stored.expiresAt < now then .expired stored
    else match db.data.users.find? fun u => u.id = stored.userId with
      | none => .failed (.valueError "'NoneType' object has no attribute 'is_active'")
      | some user =>
        if user.isActive then .exchanging stored user
        else .failed (authenticationError "Account is deactivated.")

/-- The row that `_authenticate_api_key` marks as used. -/
def usedKey (libs : Libraries) (credentials : Option String) (now : Time) (db : Tables) :
    Option (UUID × Time) :=
  credentials.bind fun token =>
    if apiKeyPrefix.toList.isPrefixOf token.toList then
      ((candidates db token).find? fun k => verifyApiKey libs token k.keyHash).map fun k => (k.id, now)
    else none

def readPhase (request : Request) (now : Time) (db : Tables) : Phase :=
  match request with
  | .googleLogin credential => loginRead cfg credential now db
  | .refresh rawToken => refreshRead cfg rawToken now db
  | .bearer credentials _ =>
    match (getCurrentUser (cfg.libraries now) credentials now db).1 with
    | .error e => .failed e
    | .ok user => .admitted user (usedKey (cfg.libraries now) credentials now db)

/-! ## Writing -/

/-- Another open transaction has written something that makes this one wait. -/
def Blocked (s : World n) (i : Fin n) (waits : Phase → Bool) : Prop :=
  ∃ k, k ≠ i ∧ waits (s.phase k) = true

instance (s : World n) (i : Fin n) (waits : Phase → Bool) : Decidable (Blocked s i waits) :=
  inferInstanceAs (Decidable (∃ k, k ≠ i ∧ waits (s.phase k) = true))

def sameEmail (email : String) (p : Phase) : Bool := p.account.any fun a => a.user.row.email = varchar 255 email

def sameToken (rows : List RefreshToken) (stored : RefreshToken) (p : Phase) : Bool :=
  p.deleting = some stored.id && rows.any fun r => r.id = stored.id

def sameKey (used : Option (UUID × Time)) (action : Action) (p : Phase) : Bool :=
  (used.toList.map Prod.fst ++ match action with
    | .revokeApiKey keyId => [keyId]
    | _ => []).any p.updating.contains

/-- The first login of an address, up to its refresh token. -/
def register (email : String) (draw : Draw) (db : Database) : Except Failure Account :=
  let user : User := ⟨draw.userId, email, true⟩
  if !fitsVarchar 255 email then .error (.dataError "users")
  else if db.users.any fun u => u.email = user.row.email then
    .error (.app (.conflictError ("User with email '" ++ email ++ "' already exists.")))
  else do
    let (organization, _) ← createPersonalOrganization cfg user draw { db with users := db.users ++ [user.row] }
    return ⟨user, organization,
      TenantService.ownerMembership draw.membershipId organization.id user.id draw.now⟩

/-- The tokens that a login and a refresh answer with. -/
def tokensFor (user : User) (draw : Draw) : Grant :=
  .tokens (createAccessToken cfg (str user.id) user.email draw.now) draw.random.text

/-- The bounds that the schema of the request sets to the name of a key. -/
def nameError (name : String) : Option String :=
  if name.length < 1 then some "String should have at least 1 character"
  else if 100 < name.length then some "String should have at most 100 characters"
  else none

/-- The service function of a request that has been let in. -/
def act (request : Request) (user : User) (used : Option (UUID × Time)) (action : Action) (draw : Draw)
    (db : Tables) : Phase :=
  match action with
  | .getMe => .writing ⟨request, user, .touch used, .nothing⟩
  | .createApiKey name =>
    match nameError name with
    | some e => .failed (.app (.validationError e))
    | none =>
      if sendable name then
        .writing ⟨request, user, .key used (newApiKey cfg user name draw), .key (fullKey draw.random)⟩
      else .failed (.dataError "api_keys")
  | .listApiKeys =>
    .writing ⟨request, user, .touch used, .keys (listUserApiKeys user.id (touched used db.apiKeys))⟩
  | .revokeApiKey keyId =>
    match scalarOneOrNone ((touched used db.apiKeys).filter fun k => k.id = keyId && k.userId = user.id) with
    | .error e => .failed e
    | .ok none => .failed (.app (.notFoundError "API key" (str keyId)))
    | .ok (some key) => .writing ⟨request, user, .revocation used key.id, .nothing⟩

/-- The statements up to the commit: `none` while one of them waits. -/
def work (s : World n) (i : Fin n) (draw : Draw) : Option Phase :=
  match s.phase i with
  | .missing email =>
    if Blocked s i (sameEmail email) then none
    else match register cfg email draw s.db.data with
      | .error e => some (.failed e)
      | .ok a => some (.writing ⟨calls i, a.user, .login (some a) (newRefreshToken cfg a.user draw),
          tokensFor cfg a.user draw⟩)
  | .found user =>
    some (.writing ⟨calls i, user, .login none (newRefreshToken cfg user draw), tokensFor cfg user draw⟩)
  | .exchanging stored user =>
    if Blocked s i (sameToken s.db.refreshTokens stored) then none
    else some (.writing ⟨calls i, user, .rotation stored (newRefreshToken cfg user draw),
      tokensFor cfg user draw⟩)
  | .expired stored =>
    if Blocked s i (sameToken s.db.refreshTokens stored) then none else some (.cleaning stored)
  | .admitted user used => match calls i with
    | .bearer _ action =>
      if Blocked s i (sameKey used action) then none else some (act cfg (calls i) user used action draw s.db)
    | _ => none
  | _ => none

/-- The ids and the secrets that a request draws are new. -/
def Fresh (s : World n) (draw : Draw) : Prop :=
  (∀ u ∈ s.db.data.users, u.id ≠ draw.userId) ∧ (∀ o ∈ s.db.data.organizations, o.id ≠ draw.orgId) ∧
    (∀ m ∈ s.db.data.orgMemberships, m.id ≠ draw.membershipId) ∧
    ∀ mark ∈ draw.marks cfg, (∀ r ∈ s.log, mark ∉ r.marks) ∧ ∀ k, ∀ r ∈ (s.phase k).pending, mark ∉ r.marks

instance (s : World n) (draw : Draw) : Decidable (Fresh cfg s draw) :=
  inferInstanceAs (Decidable (_ ∧ _))

def step (s : World n) : Event n → Option (World n)
  | .read i now => match s.phase i with
    | .start => some (s.setPhase i (readPhase cfg (calls i) now s.db))
    | _ => none
  | .write i draw =>
    if Fresh cfg s draw then (work cfg calls s i draw).map fun p => s.setPhase i p else none
  | .commit i => match s.phase i with
    | .writing r => some ({ s with db := r.write.apply s.db, log := s.log ++ [r] }.setPhase i .done)
    | _ => none
  | .abort i => match s.phase i with
    | .cleaning _ => some (s.setPhase i (.failed (authenticationError "Refresh token has expired.")))
    | .done | .failed _ | .aborted => none
    | _ => some (s.setPhase i .aborted)

def machine : Machine (World n) (Event n) := ⟨step cfg calls⟩

/-- There are users and organizations, and no keys and tokens yet. -/
def start (n : Nat) (data : Database) : World n := ⟨⟨data, [], []⟩, fun _ => .start, []⟩

end Step

/-! ## A small deployment -/

namespace Demo

/-- A number as so many strokes before a stop. -/
def strokes (k : Nat) (rest : List Char) : List Char := List.replicate k 'e' ++ '.' :: rest

def countStrokes (cs : List Char) : Nat × List Char :=
  ((cs.takeWhile fun c => c = 'e').length, (cs.dropWhile fun c => c = 'e').tail)

def jwtEncode (claims : AccessClaims) : String :=
  String.ofList (strokes claims.sub.length (claims.sub.toList ++
    strokes claims.email.length (claims.email.toList ++
      strokes claims.exp (strokes claims.iat claims.type.toList))))

def parseClaims (token : String) : AccessClaims :=
  let (subLength, rest) := countStrokes token.toList
  let (emailLength, rest') := countStrokes (rest.drop subLength)
  let (exp, rest'') := countStrokes (rest'.drop emailLength)
  let (iat, type) := countStrokes rest''
  ⟨String.ofList (rest.take subLength), String.ofList (rest'.take emailLength), exp, iat, String.ofList type⟩

def jwtDecode (now : Time) (token : String) : Except JwtError Payload :=
  let claims := parseClaims token
  if now < claims.iat * 1000000 then .error .invalidToken
  else if claims.exp * 1000000 ≤ now then .error .expiredSignature
  else .ok claims.payload

/-- A key's hash is its text; a Google credential is the address that it vouches for. -/
def settings : Settings where
  sha256 content := BitVec.ofNat 256 (content.foldl (fun acc b => 256 * acc + b.toNat) 0)
  lower := id
  accessTokenExpire := 60000000
  refreshTokenExpire := 600000000
  hashpw password _ := String.ofList (password.map fun b => Char.ofNat b.toNat)
  checkpw password hashed :=
    some (hashed = (String.ofList (password.map fun b => Char.ofNat b.toNat)).toUTF8.data.toList)
  jwtEncode := jwtEncode
  jwtDecode := jwtDecode
  verifyOauth2Token _ credential :=
    if credential.toList.getLast? = some ' ' then .error (.valueError "Invalid token") else .ok (some credential)
  addresses _ credential email vouched := by
    split at vouched
    · cases vouched
    · cases vouched
      assumption

/-- Forty-two hyphens and a letter. -/
def secret (last : Char) (safe : isUrlSafe last = true) : Secret where
  text := String.ofList (List.replicate 42 '-' ++ [last])
  length := by rw [String.length_ofList, List.length_append, List.length_replicate, List.length_singleton]
  urlSafe := by
    rw [String.toList_ofList, List.all_append, List.all_replicate, List.all_cons, List.all_nil, safe]
    rfl

def draw (id : Nat) (random : Secret) : Draw :=
  ⟨BitVec.ofNat 128 id, BitVec.ofNat 128 id, BitVec.ofNat 128 id, BitVec.ofNat 128 id, BitVec.ofNat 128 id,
    random, [], 1000000 * id⟩

def loginDraw : Draw := draw 1 (secret 'a' (by decide))
def keyDraw : Draw := draw 2 (secret 'b' (by decide))
def refreshDraw : Draw := draw 3 (secret 'c' (by decide))

/-- A first login, a key created with its access token, its refresh token exchanged, and the key revoking itself. -/
def requests : List Request := [
  .googleLogin "a@example.com",
  .bearer (some (createAccessToken settings (str loginDraw.userId) "a@example.com" loginDraw.now))
    (.createApiKey "ci"),
  .refresh loginDraw.random.text,
  .bearer (some (fullKey keyDraw.random)) (.revokeApiKey keyDraw.keyId)]

section Run
variable {n : Nat}

def calls (i : Fin n) : Request := requests.getD i.val (.refresh "")

def serves (i : Fin n) (now : Time) (draw : Draw) : List (Event n) := [.read i now, .write i draw, .commit i]

def events (login create refresh revoke : Fin n) : List (Event n) :=
  serves login 0 loginDraw ++ serves create 2000000 keyDraw ++ serves refresh 3000000 refreshDraw ++
    serves revoke 4000000 (draw 4 (secret 'd' (by decide)))

def initial (n : Nat) : World n := start n Database.empty

end Run

def after : World 4 := ((machine settings calls).run (initial 4) (events 0 1 2 3)).getD (initial 4)

theorem events_enabled : ((machine settings calls).run (initial 4) (events 0 1 2 3)).isSome = true ∧
    after.log.length = 4 := by
  decide +kernel

theorem after_reachable : (machine settings calls).Reachable (initial 4) after :=
  Machine.reachable_getD (initial 4) events_enabled.1

end Demo

end Credentials
