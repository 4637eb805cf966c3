import ResearchPlatform.TokenRotation

/-!
# Authentication of requests

`auth/dependencies.py`, and the refresh of a token as one request, each with the
tables as it leaves them. What a request has done is committed or rolled back
outside of it, by the session's dependency.
-/

namespace AuthService

open Uuid Schema DocumentService TokenRotation

structure ApiKey where
  id : UUID
  userId : UUID
  keyPrefix : String
  keyHash : String
  name : String
  isActive : Bool
  expiresAt : Option Time
  lastUsedAt : Option Time
  createdAt : Time
  deriving DecidableEq, Repr

/-- The tables of `auth/models.py` beside the others. -/
structure Tables where
  data : Database
  apiKeys : List ApiKey
  refreshTokens : List RefreshToken
  deriving DecidableEq, Repr

/-- What the constraints of the three tables promise. -/
structure Consistent (db : Tables) : Prop where
  userIds : (db.data.users.map User.id).Nodup
  keyIds : (db.apiKeys.map ApiKey.id).Nodup
  keyOwners : ∀ key ∈ db.apiKeys, ∃ user ∈ db.data.users, user.id = key.userId
  tokenIds : (db.refreshTokens.map RefreshToken.id).Nodup
  tokenHashes : (db.refreshTokens.map RefreshToken.tokenHash).Nodup
  tokenOwners : ∀ token ∈ db.refreshTokens, ∃ user ∈ db.data.users, user.id = token.userId

/-- `get_db_session` around a request. -/
def getDbSession {α : Type} (request : Tables → Except Failure α × Tables) (db : Tables) :
    Except Failure α × Tables :=
  match request db with
  | (.ok result, session) => (.ok result, session)
  | (.error e, _) => (.error e, db)

/-! ## Credentials -/

inductive JwtError where
  | expiredSignature
  | invalidToken
  deriving DecidableEq, Repr

/-- What `payload.get` finds. -/
structure Payload where
  type : Option String
  sub : Option String
  email : Option String
  exp : Option Rat
  deriving DecidableEq, Repr

/-- `bcrypt.checkpw`, which may raise, and `jwt.decode` with the key and the algorithm of the
settings. -/
structure Libraries where
  checkpw : Bytes → Bytes → Option Bool
  jwtDecode : String → Except JwtError Payload

def apiKeyPrefix : String := "sk-"

def authenticationError (message : String) : Failure := .app (.authenticationError message)

/-- `verify_api_key`. -/
def verifyApiKey (libs : Libraries) (rawKey storedHash : String) : Bool :=
  (libs.checkpw rawKey.toUTF8.data.toList storedHash.toUTF8.data.toList).getD false

/-- `decode_access_token`; of the payload only the user's id is used. -/
def decodeAccessToken (libs : Libraries) (token : String) : Except Failure String :=
  match libs.jwtDecode token with
  | .error .expiredSignature => .error (authenticationError "Access token has expired.")
  | .error .invalidToken => .error (authenticationError "Invalid access token.")
  | .ok payload =>
    if payload.type ≠ some "access" then .error (authenticationError "Invalid token type.")
    else match payload.sub, payload.email, payload.exp with
      | some sub, some email, some _ =>
        if sub = "" ∨ email = "" then .error (authenticationError "Malformed token payload.")
        else .ok sub
      | _, _, _ => .error (authenticationError "Malformed token payload.")

/-- `_authenticate_jwt`. -/
def authenticateJwt (libs : Libraries) (token : String) (db : Tables) : Except Failure User := do
  let userId ← decodeAccessToken libs token
  match Uuid.parse userId with
  | none => .error (.valueError "badly formed hexadecimal UUID string")
  | some id =>
    match ← scalarOneOrNone (db.data.users.filter fun u => u.id = id) with
    | none => .error (authenticationError "User not found.")
    | some user =>
      if user.isActive then .ok user else .error (authenticationError "Account is deactivated.")

/-- The loop over the candidates. -/
def checkCandidates (libs : Libraries) (rawKey : String) (now : Time) (db : Tables) :
    List ApiKey → Except Failure User × Tables
  | [] => (.error (authenticationError "Invalid API key."), db)
  | key :: rest =>
    if verifyApiKey libs rawKey key.keyHash then
      match db.data.users.find? fun u => u.id = key.userId with
      | none => (.error (.valueError "'NoneType' object has no attribute 'is_active'"), db)
      | some user =>
        if !user.isActive then (.error (authenticationError "Account is deactivated."), db)
        else (.ok user, { db with apiKeys := db.apiKeys.map fun k =>
          if k.id = key.id then { k with lastUsedAt := some now } else k })
    else checkCandidates libs rawKey now db rest

/-- `raw_key[:12]`. -/
def keyPrefixOf (rawKey : String) : String := String.ofList (rawKey.toList.take 12)

/-- `_authenticate_api_key`. -/
def authenticateApiKey (libs : Libraries) (rawKey : String) (now : Time) (db : Tables) :
    Except Failure User × Tables :=
  if !sendable (keyPrefixOf rawKey) then (.error (.dataError "key_prefix"), db)
  else checkCandidates libs rawKey now db (db.apiKeys.filter fun k =>
    k.keyPrefix = keyPrefixOf rawKey && k.isActive)

/-- `get_current_user`. -/
def getCurrentUser (libs : Libraries) (credentials : Option String) (now : Time) (db : Tables) :
    Except Failure User × Tables :=
  match credentials with
  | none => (.error (authenticationError "Missing authorization header."), db)
  | some token =>
    if apiKeyPrefix.toList.isPrefixOf token.toList then authenticateApiKey libs token now db
    else (authenticateJwt libs token db, db)

/-! ## Refresh -/

/-- What the request draws for the new token: its id, the raw token, and the time. -/
structure Draws where
  newId : UUID
  newRaw : String
  issuedAt : Time
  deriving DecidableEq, Repr

/-- The rows of the table with a new one, under its two unique constraints. -/
def insertToken (token : RefreshToken) (rows : List RefreshToken) : Except Failure (List RefreshToken) :=
  if rows.any fun r => r.id = token.id then .error (.integrityError "pk_refresh_tokens")
  else if rows.any fun r => r.tokenHash = token.tokenHash then
    .error (.integrityError "uq_refresh_tokens_token_hash")
  else .ok (rows ++ [token])

/-- The second half of `refresh_access_token`, for a row and its user that have passed the
checks. The flush inserts before it deletes. -/
def rotate (cfg : Settings) (draws : Draws) (db : Tables) (stored : RefreshToken) (user : User) :
    Except Failure (String × String) × Tables :=
  let issued : RefreshToken := ⟨draws.newId, user.id, hashRefreshToken cfg.sha256 draws.newRaw,
    draws.issuedAt + cfg.refreshTokenExpire⟩
  match insertToken issued db.refreshTokens with
  | .error e => (.error e, db)
  | .ok rows =>
    (.ok (cfg.createAccessToken (str user.id) user.email draws.issuedAt, draws.newRaw),
      { db with refreshTokens := rows.filter fun r => r.id ≠ stored.id })

/-- `refresh_access_token`. -/
def refreshAccessToken (cfg : Settings) (rawToken : String) (now : Time) (draws : Draws) (db : Tables) :
    Except Failure (String × String) × Tables :=
  match scalarOneOrNone (db.refreshTokens.filter fun r =>
      r.tokenHash = hashRefreshToken cfg.sha256 rawToken) with
  | .error e => (.error e, db)
  | .ok none => (.error (authenticationError "Invalid refresh token."), db)
  | .ok (some stored) =>
    if stored.expiresAt < now then
      (.error (authenticationError "Refresh token has expired."),
        { db with refreshTokens := db.refreshTokens.filter fun r => r.id ≠ stored.id })
    else match db.data.users.find? fun u => u.id = stored.userId with
      | none => (.error (.valueError "'NoneType' object has no attribute 'is_active'"), db)
      | some user =>
        if !user.isActive then (.error (authenticationError "Account is deactivated."), db)
        else rotate cfg draws db stored user

/-- `POST /refresh`. -/
def refresh (cfg : Settings) (rawToken : String) (now : Time) (draws : Draws) :
    Tables → Except Failure (String × String) × Tables :=
  getDbSession (refreshAccessToken cfg rawToken now draws)

/-! ## Commit and rollback -/

section Session
variable {α : Type} {request : Tables → Except Failure α × Tables} {db : Tables}

theorem getDbSession_fst : (getDbSession request db).1 = (request db).1 := by
  rw [getDbSession]
  split <;> rename_i h <;> rw [h]

/-- A request that raises leaves the tables as they were. -/
theorem getDbSession_error {e : Failure} (h : (request db).1 = .error e) :
    getDbSession request db = (.error e, db) := by
  rw [getDbSession]
  split
  · rename_i result
    rw [result] at h
    cases h
  · rename_i result
    rw [result] at h
    cases h
    rfl

end Session

end AuthService
