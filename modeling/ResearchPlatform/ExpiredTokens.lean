import ResearchPlatform.AuthService

/-!
# Expired refresh tokens

The service deletes an expired token and raises, and the session's dependency takes the
deletion back with everything else.
-/

namespace ExpiredTokens

open Uuid Schema Machines TokenRotation AuthService

/-! ## One request -/

section Request
variable {cfg : Settings} {rawToken : String} {now : Time} {draws : Draws} {db : Tables}

/-- A request refused for its credentials leaves the tables without the token, and else as they were. -/
def CleansUp (cfg : Settings) (rawToken : String) (db : Tables)
    (outcome : Except Failure (String × String) × Tables) : Prop :=
  (∃ message, outcome.1 = .error (authenticationError message)) →
    outcome.2 = { db with refreshTokens := db.refreshTokens.filter fun r =>
      r.tokenHash ≠ hashRefreshToken cfg.sha256 rawToken }

/-- A token that is still there has not been cleaned up. -/
theorem not_cleansUp {outcome : Except Failure (String × String) × Tables} {stored : RefreshToken}
    (refused : ∃ message, outcome.1 = .error (authenticationError message))
    (stays : stored ∈ outcome.2.refreshTokens)
    (own : stored.tokenHash = hashRefreshToken cfg.sha256 rawToken) : ¬ CleansUp cfg rawToken db outcome := by
  intro cleans
  rw [cleans refused] at stays
  exact of_decide_eq_true (List.mem_filter.mp stays).2 own

/-- The token is looked up by its hash. -/
theorem lookup_token (consistent : Consistent db) {stored : RefreshToken}
    (mem : stored ∈ db.refreshTokens) (own : stored.tokenHash = hashRefreshToken cfg.sha256 rawToken) :
    db.refreshTokens.filter (fun r => r.tokenHash = hashRefreshToken cfg.sha256 rawToken) = [stored] := by
  refine RowVersions.filter_eq_singleton (List.Nodup.of_map _ consistent.tokenHashes) mem fun r hr => ?_
  rw [decide_eq_true_eq]
  constructor
  · intro same
    exact List.inj_on_of_nodup_map consistent.tokenHashes hr mem (same.trans own.symm)
  · rintro rfl
    exact own

/-- What one request does is what the select of its phase says. -/
theorem refreshAccessToken_selected : refreshAccessToken cfg rawToken now draws db =
    match selected cfg (fun _ : Fin 1 => rawToken) (start 1 db.data.users db.refreshTokens) 0 now with
    | .found stored user => rotate cfg draws db stored user
    | .expired stored => (.error (authenticationError "Refresh token has expired."),
        { db with refreshTokens := db.refreshTokens.filter fun r => r.id ≠ stored.id })
    | .failed e => (.error e, db)
    -- no select ends in another phase
    | _ => (.error .indexError, db) := by
  rw [refreshAccessToken, selected, start]
  cases scalarOneOrNone (db.refreshTokens.filter fun r =>
      r.tokenHash = hashRefreshToken cfg.sha256 rawToken) with
  | error e => rfl
  | ok row =>
    cases row with
    | none => rfl
    | some stored =>
      by_cases old : stored.expiresAt < now
      · simp only [old, if_true]
      · simp only [old, if_false]
        cases db.data.users.find? fun u => u.id = stored.userId with
        | none => rfl
        | some user => cases active : user.isActive <;> simp [active, authenticationError]

/-- The function on its own does delete the row. -/
theorem refreshAccessToken_expired (consistent : Consistent db) {stored : RefreshToken}
    (mem : stored ∈ db.refreshTokens) (own : stored.tokenHash = hashRefreshToken cfg.sha256 rawToken)
    (expired : stored.expiresAt < now) : refreshAccessToken cfg rawToken now draws db =
      (.error (authenticationError "Refresh token has expired."),
        { db with refreshTokens := db.refreshTokens.filter fun r => r.id ≠ stored.id }) := by
  have found : selected cfg (fun _ : Fin 1 => rawToken) (start 1 db.data.users db.refreshTokens) 0 now =
      .expired stored := by
    simp only [selected, start, lookup_token consistent mem own, scalarOneOrNone, expired, if_true]
  rw [refreshAccessToken_selected, found]

end Request

/-- What is deleted before the error is rolled back with it: no expired token is ever cleaned up. -/
theorem expired_never_cleaned_up (cfg : Settings) (rawToken : String) (now : Time) (draws : Draws)
    (db : Tables) (consistent : Consistent db) {stored : RefreshToken} (mem : stored ∈ db.refreshTokens)
    (own : stored.tokenHash = hashRefreshToken cfg.sha256 rawToken) (expired : stored.expiresAt < now) :
    refresh cfg rawToken now draws db = (.error (authenticationError "Refresh token has expired."), db) ∧
      ¬ CleansUp cfg rawToken db (refresh cfg rawToken now draws db) := by
  have raised : refresh cfg rawToken now draws db =
      (.error (authenticationError "Refresh token has expired."), db) := by
    apply getDbSession_error
    rw [refreshAccessToken_expired consistent mem own expired]
  refine ⟨raised, ?_⟩
  rw [raised]
  exact not_cleansUp ⟨_, rfl⟩ mem own

namespace Demo

/-- A user whose only token has expired at 1000. -/
def db : Tables where
  data := { Database.empty with users := TokenRotation.Demo.users }
  apiKeys := []
  refreshTokens := [TokenRotation.Demo.stored]

theorem consistent : Consistent db where
  userIds := List.nodup_singleton _
  keyIds := List.nodup_nil
  keyOwners := nofun
  tokenIds := List.nodup_singleton _
  tokenHashes := List.nodup_singleton _
  tokenOwners := by
    intro token mem
    rw [List.mem_singleton.mp mem]
    exact ⟨_, List.mem_cons_self, rfl⟩

def draws : Draws := ⟨3, "t1", 2000⟩

end Demo

theorem expired_never_cleaned_up_demo :
    refresh TokenRotation.Demo.settings "t0" 2000 Demo.draws Demo.db =
        (.error (authenticationError "Refresh token has expired."), Demo.db) ∧
      ¬ CleansUp TokenRotation.Demo.settings "t0" Demo.db
        (refresh TokenRotation.Demo.settings "t0" 2000 Demo.draws Demo.db) :=
  expired_never_cleaned_up TokenRotation.Demo.settings "t0" 2000 Demo.draws Demo.db Demo.consistent
    List.mem_cons_self rfl (by decide)

theorem expired_token_stays :
    (refresh TokenRotation.Demo.settings "t0" 2000 Demo.draws Demo.db).1 =
        .error (authenticationError "Refresh token has expired.") ∧
      (refresh TokenRotation.Demo.settings "t0" 2000 Demo.draws Demo.db).2.refreshTokens =
        [TokenRotation.Demo.stored] ∧
      ¬ CleansUp TokenRotation.Demo.settings "t0" Demo.db
        (refresh TokenRotation.Demo.settings "t0" 2000 Demo.draws Demo.db) := by
  have raised : refresh TokenRotation.Demo.settings "t0" 2000 Demo.draws Demo.db =
      (.error (authenticationError "Refresh token has expired."), Demo.db) := by decide +kernel
  rw [raised]
  refine ⟨rfl, rfl, ?_⟩
  exact not_cleansUp ⟨_, rfl⟩ List.mem_cons_self rfl

end ExpiredTokens
