import ResearchPlatform.AuthService

/-!
# Authentication by an API key

Which rows of the key table let a token in, and what the search for one does: it asks
for the prefix, the flag and the hash, and takes the first row that has them.
-/

namespace ApiKeyAuthentication

open Uuid Schema TokenRotation AuthService

/-! ## What is promised -/

section Promise
variable (libs : Libraries) (now : Time) (db : Tables) (token : String)

/-- An active row with the token's prefix whose hash verifies the token. -/
structure Verifies (key : ApiKey) : Prop where
  stored : key ∈ db.apiKeys
  keyPrefix : key.keyPrefix = keyPrefixOf token
  active : key.isActive = true
  verified : verifyApiKey libs token key.keyHash = true

def Unexpired (key : ApiKey) : Prop := ∀ expiresAt ∈ key.expiresAt, ¬ expiresAt < now

instance (key : ApiKey) : Decidable (Unexpired now key) :=
  inferInstanceAs (Decidable (∀ expiresAt ∈ key.expiresAt, ¬ expiresAt < now))

/-- The key lets its active owner in. -/
structure Admits (key : ApiKey) (user : User) : Prop where
  verifies : Verifies libs db token key
  unexpired : Unexpired now key
  stored : user ∈ db.data.users
  owner : user.id = key.userId
  active : user.isActive = true

structure Exact (outcome : Except Failure User × Tables) : Prop where
  returns : (∃ key user, Admits libs now db token key user) →
    ∃ key user, Admits libs now db token key user ∧ outcome.1 = .ok user
  refuses : (¬ ∃ key user, Admits libs now db token key user) →
    (∃ message, outcome.1 = .error (authenticationError message)) ∧ outcome.2 = db

/-- The rows that the loop looks at. -/
def candidates : List ApiKey :=
  db.apiKeys.filter fun k => k.keyPrefix = keyPrefixOf token && k.isActive

/-- The first row that verifies the token tells what all of them do: if its owner is active,
some row of this owner has not expired; if not, none that has not expired has an active one. -/
def Conclusive : Prop :=
  ∀ first ∈ (candidates db token).find? fun k => verifyApiKey libs token k.keyHash,
    ∀ owner ∈ db.data.users, owner.id = first.userId →
      (owner.isActive = true →
        ∃ key, Verifies libs db token key ∧ key.userId = first.userId ∧ Unexpired now key) ∧
      (owner.isActive = false → ∀ key, Verifies libs db token key → Unexpired now key →
        ∀ user ∈ db.data.users, user.id = key.userId → user.isActive = false)

end Promise

section Search
variable {libs : Libraries} {now : Time} {db : Tables} {token : String}

theorem mem_candidates {key : ApiKey} : key ∈ candidates db token ↔
    key ∈ db.apiKeys ∧ key.keyPrefix = keyPrefixOf token ∧ key.isActive = true := by
  rw [candidates, List.mem_filter, Bool.and_eq_true, decide_eq_true_eq]

/-- The loop stops at the first row that verifies the token. -/
theorem checkCandidates_eq (keys : List ApiKey) : checkCandidates libs token now db keys =
    match keys.find? fun k => verifyApiKey libs token k.keyHash with
    | none => (.error (authenticationError "Invalid API key."), db)
    | some key => match db.data.users.find? fun u => u.id = key.userId with
      | none => (.error (.valueError "'NoneType' object has no attribute 'is_active'"), db)
      | some user =>
        if !user.isActive then (.error (authenticationError "Account is deactivated."), db)
        else (.ok user, { db with apiKeys := db.apiKeys.map fun k =>
          if k.id = key.id then { k with lastUsedAt := some now } else k }) := by
  induction keys with
  | nil => rfl
  | cons key rest ih =>
    rw [checkCandidates, List.find?_cons]
    cases verifyApiKey libs token key.keyHash with
    | true => rfl
    | false => exact ih

/-- A user is found by id. -/
theorem find_owner (consistent : Consistent db) {owner : User} (stored : owner ∈ db.data.users)
    {userId : UUID} (same : owner.id = userId) : db.data.users.find? (fun u => u.id = userId) = some owner := by
  cases found : db.data.users.find? fun u => u.id = userId with
  | none =>
    have other := List.find?_eq_none.mp found owner stored
    exact absurd same (by simpa using other)
  | some other =>
    have id : other.id = userId := by simpa using List.find?_some found
    rw [List.inj_on_of_nodup_map consistent.userIds (List.mem_of_find?_eq_some found) stored
      (id.trans same.symm)]

/-- A token with the prefix of the keys is taken for one. -/
theorem current_user_eq (rest : String) : getCurrentUser libs (some ("sk-" ++ rest)) now db =
    authenticateApiKey libs ("sk-" ++ rest) now db := by
  refine if_pos ?_
  rw [List.isPrefixOf_iff_prefix, String.toList_append]
  exact List.prefix_append _ _

/-- The row that the loop stops at verifies the token. -/
theorem verifies_of_find {first : ApiKey}
    (found : (candidates db token).find? (fun k => verifyApiKey libs token k.keyHash) = some first) :
    Verifies libs db token first := by
  obtain ⟨stored, keyPrefix, active⟩ := mem_candidates.mp (List.mem_of_find?_eq_some found)
  have verified := List.find?_some (p := fun k : ApiKey => verifyApiKey libs token k.keyHash) found
  exact ⟨stored, keyPrefix, active, verified⟩

theorem not_verifies_of_find
    (found : (candidates db token).find? (fun k => verifyApiKey libs token k.keyHash) = none)
    (key : ApiKey) : ¬ Verifies libs db token key := by
  intro verifies
  have mem := mem_candidates.mpr ⟨verifies.stored, verifies.keyPrefix, verifies.active⟩
  exact List.find?_eq_none.mp found key mem verifies.verified

/-- With an active owner behind the first row, the answer is right if this owner is let in. -/
theorem exact_returned_iff {first : ApiKey} {owner : User} {after : Tables}
    (stored : owner ∈ db.data.users) (same : owner.id = first.userId) (active : owner.isActive = true) :
    Exact libs now db token (.ok owner, after) ↔
      ∃ key, Verifies libs db token key ∧ key.userId = first.userId ∧ Unexpired now key := by
  constructor
  · intro exact_
    by_cases admitted : ∃ key user, Admits libs now db token key user
    · obtain ⟨key, user, admits, returned⟩ := exact_.returns admitted
      obtain rfl := Except.ok.inj returned
      exact ⟨key, admits.verifies, admits.owner.symm.trans same, admits.unexpired⟩
    · obtain ⟨message, refused⟩ := (exact_.refuses admitted).1
      cases refused
  · rintro ⟨key, verifies, own, unexpired⟩
    have admits : Admits libs now db token key owner := ⟨verifies, unexpired, stored, same.trans own.symm, active⟩
    constructor
    · intro _
      exact ⟨key, owner, admits, rfl⟩
    · intro none_
      exact absurd ⟨key, owner, admits⟩ none_

/-- A refusal is right if no row lets anyone in. -/
theorem exact_refused_iff {message : String} :
    Exact libs now db token (.error (authenticationError message), db) ↔
      ∀ key, Verifies libs db token key → Unexpired now key →
        ∀ user ∈ db.data.users, user.id = key.userId → user.isActive = false := by
  constructor
  · intro exact_ key verifies unexpired user stored owner
    by_contra active
    rw [Bool.not_eq_false] at active
    obtain ⟨_, _, _, returned⟩ := exact_.returns ⟨key, user, verifies, unexpired, stored, owner, active⟩
    cases returned
  · intro none_
    constructor
    · rintro ⟨key, user, admits⟩
      have inactive := none_ key admits.verifies admits.unexpired user admits.stored admits.owner
      rw [admits.active] at inactive
      cases inactive
    · intro _
      exact ⟨⟨message, rfl⟩, rfl⟩

end Search

/-- For a token that can be sent to the database at all, authentication is exact where its
first row is conclusive. -/
theorem api_key_exact_iff (libs : Libraries) (now : Time) (db : Tables) (consistent : Consistent db)
    (rest : String) :
    Exact libs now db ("sk-" ++ rest) (getDbSession (getCurrentUser libs (some ("sk-" ++ rest)) now) db) ↔
      sendable (keyPrefixOf ("sk-" ++ rest)) = true ∧ Conclusive libs now db ("sk-" ++ rest) := by
  cases sent : sendable (keyPrefixOf ("sk-" ++ rest)) with
  | false =>
    -- the statement fails, and not as an authentication does
    have raised : (getDbSession (getCurrentUser libs (some ("sk-" ++ rest)) now) db).1 =
        .error (.dataError "key_prefix") := by
      rw [getDbSession_fst, current_user_eq, authenticateApiKey, sent]
      rfl
    constructor
    · intro exact_
      by_cases admitted : ∃ key user, Admits libs now db ("sk-" ++ rest) key user
      · obtain ⟨_, _, _, returned⟩ := exact_.returns admitted
        rw [raised] at returned
        cases returned
      · obtain ⟨⟨_, refused⟩, -⟩ := exact_.refuses admitted
        rw [raised] at refused
        cases refused
    · rintro ⟨impossible, -⟩
      cases impossible
  | true =>
    have outcome : getDbSession (getCurrentUser libs (some ("sk-" ++ rest)) now) db =
        getDbSession (fun db => checkCandidates libs ("sk-" ++ rest) now db
          (candidates db ("sk-" ++ rest))) db := by
      rw [getDbSession, getDbSession, current_user_eq, authenticateApiKey, sent]
      rfl
    cases found : (candidates db ("sk-" ++ rest)).find? fun k =>
        verifyApiKey libs ("sk-" ++ rest) k.keyHash with
    | none =>
      have refused : getDbSession (getCurrentUser libs (some ("sk-" ++ rest)) now) db =
          (.error (authenticationError "Invalid API key."), db) := by
        rw [outcome, getDbSession, checkCandidates_eq, found]
      rw [refused, exact_refused_iff, Conclusive, found]
      refine iff_of_true (fun key verifies => ?_) ⟨rfl, fun first none_ => ?_⟩
      · exact absurd verifies (not_verifies_of_find found key)
      · cases none_
    | some first =>
      obtain ⟨owner, stored, same⟩ := consistent.keyOwners first (verifies_of_find found).stored
      have only (other : User) (h : other ∈ db.data.users) (id : other.id = first.userId) : other = owner :=
        List.inj_on_of_nodup_map consistent.userIds h stored (id.trans same.symm)
      rw [Conclusive, found]
      cases active : owner.isActive with
      | false =>
        have refused : getDbSession (getCurrentUser libs (some ("sk-" ++ rest)) now) db =
            (.error (authenticationError "Account is deactivated."), db) := by
          rw [outcome, getDbSession, checkCandidates_eq, found]
          simp only [find_owner consistent stored same, active]
          rfl
        rw [refused, exact_refused_iff]
        constructor
        · intro none_
          refine ⟨rfl, ?_⟩
          rintro _ ⟨⟩ other h id
          rw [only other h id, active]
          exact ⟨fun impossible => absurd impossible (by decide), fun _ => none_⟩
        · rintro ⟨-, conclusive⟩
          exact (conclusive first rfl owner stored same).2 active
      | true =>
        obtain ⟨after, returned⟩ : ∃ after, getDbSession (getCurrentUser libs (some ("sk-" ++ rest)) now) db =
            (.ok owner, after) := by
          rw [outcome, getDbSession, checkCandidates_eq, found]
          simp only [find_owner consistent stored same, active]
          exact ⟨_, rfl⟩
        rw [returned, exact_returned_iff stored same active]
        constructor
        · intro some_
          refine ⟨rfl, ?_⟩
          rintro _ ⟨⟩ other h id
          rw [only other h id, active]
          exact ⟨fun _ => some_, fun impossible => absurd impossible (by decide)⟩
        · rintro ⟨-, conclusive⟩
          exact (conclusive first rfl owner stored same).1 active

namespace Demo

/-- A key's hash is its text behind a dollar sign. -/
def libs : Libraries where
  checkpw password hashed := some (hashed = 36 :: password)
  jwtDecode _ := .error .invalidToken

/-- One user with one key. -/
def db (expiresAt : Option Time) : Tables where
  data := { Database.empty with users := [⟨1, "a@example.com", true⟩] }
  apiKeys := [⟨2, 1, "sk-012345678", "$sk-0123456789", "ci", true, expiresAt, none, 0⟩]
  refreshTokens := []

theorem consistent (expiresAt : Option Time) : Consistent (db expiresAt) where
  userIds := List.nodup_singleton _
  keyIds := List.nodup_singleton _
  keyOwners := by
    intro key mem
    rw [List.mem_singleton.mp mem]
    exact ⟨_, List.mem_cons_self, rfl⟩
  tokenIds := List.nodup_nil
  tokenHashes := List.nodup_nil
  tokenOwners := nofun

end Demo

theorem api_key_exact_unlimited :
    Exact Demo.libs 10 (Demo.db none) ("sk-" ++ "0123456789")
        (getDbSession (getCurrentUser Demo.libs (some ("sk-" ++ "0123456789")) 10) (Demo.db none)) ↔
      sendable (keyPrefixOf ("sk-" ++ "0123456789")) = true ∧
        Conclusive Demo.libs 10 (Demo.db none) ("sk-" ++ "0123456789") :=
  api_key_exact_iff Demo.libs 10 (Demo.db none) (Demo.consistent none) "0123456789"

/-- A key that has expired at 5 is taken at 10. -/
theorem expired_key_returns_owner :
    (getDbSession (getCurrentUser Demo.libs (some "sk-0123456789") 10) (Demo.db (some 5))).1 =
        .ok ⟨1, "a@example.com", true⟩ ∧
      ¬ Exact Demo.libs 10 (Demo.db (some 5)) "sk-0123456789"
        (getDbSession (getCurrentUser Demo.libs (some "sk-0123456789") 10) (Demo.db (some 5))) := by
  have returned : (getDbSession (getCurrentUser Demo.libs (some "sk-0123456789") 10)
      (Demo.db (some 5))).1 = .ok ⟨1, "a@example.com", true⟩ := by decide +kernel
  refine ⟨returned, fun exact_ => ?_⟩
  have none_ : ¬ ∃ key user, Admits Demo.libs 10 (Demo.db (some 5)) "sk-0123456789" key user := by
    rintro ⟨key, user, admits⟩
    have unexpired := admits.unexpired
    rw [List.mem_singleton.mp admits.verifies.stored] at unexpired
    exact unexpired 5 rfl (by decide)
  obtain ⟨⟨message, refused⟩, -⟩ := exact_.refuses none_
  rw [returned] at refused
  cases refused

end ApiKeyAuthentication
