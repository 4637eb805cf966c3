import ResearchPlatform.DocumentService
import ResearchPlatform.Library.Machines
import Mathlib.Data.Fintype.Basic

/-!
# Rotation of refresh tokens

`refresh_access_token` cut at its statements, for any number of requests at once
at READ COMMITTED: the SELECT of the stored token with the checks on it, the
flush (INSERT of the new token, DELETE of the old one by id), and the commit of
the request. A DELETE waits for another one of the same row, and when it finds
the row gone it only warns. An expired token is deleted and the request raises,
so that the deletion is rolled back.
-/

namespace TokenRotation

open Uuid Schema RowVersions DocumentService Machines

structure RefreshToken where
  id : UUID
  userId : UUID
  tokenHash : String
  expiresAt : Time
  deriving DecidableEq, Repr

/-- `jwt.encode` of the access token's payload, the digest, and the lifetime. -/
structure Settings where
  createAccessToken : String → String → Time → String
  sha256 : Sha256
  refreshTokenExpire : Time

def hashRefreshToken (sha256 : Sha256) (rawToken : String) : String :=
  hexdigest (sha256 rawToken.toUTF8.data.toList)

/-- Where one request stands. -/
inductive Phase where
  | start
  | found (stored : RefreshToken) (user : User)
  | expired (stored : RefreshToken)
  /-- the expired row is deleted and not yet rolled back -/
  | cleaning (stored : RefreshToken)
  | flushed (stored issued : RefreshToken) (tokens : String × String)
  | succeeded (stored : RefreshToken) (tokens : String × String)
  | failed (e : Failure)
  | aborted

namespace Phase

/-- The row that the request has read. -/
def stored : Phase → Option RefreshToken
  | found r _ | expired r | cleaning r | flushed r _ _ | succeeded r _ => some r
  | start | failed _ | aborted => none

/-- The row that the open transaction has deleted. -/
def deleted : Phase → Option RefreshToken
  | cleaning r | flushed r _ _ => some r
  | _ => none

/-- The row that the open transaction has inserted. -/
def issued : Phase → Option RefreshToken
  | flushed _ r _ => some r
  | _ => none

/-- The token that a committed request has exchanged. -/
def exchanged : Phase → Option RefreshToken
  | succeeded r _ => some r
  | _ => none

end Phase

structure World (n : Nat) where
  users : List User
  refreshTokens : List RefreshToken
  phase : Fin n → Phase

inductive Event (n : Nat) where
  | select (i : Fin n) (now : Time)
  | flush (i : Fin n) (newId : UUID) (newRaw : String) (now : Time)
  | commit (i : Fin n)
  | abort (i : Fin n)

section Step
variable {n : Nat} (cfg : Settings) (raw : Fin n → String)

def World.setPhase (s : World n) (i : Fin n) (p : Phase) : World n :=
  { s with phase := fun k => if k = i then p else s.phase k }

/-- Every row that is stored, was read, or is about to be stored. -/
def Known (s : World n) (r : RefreshToken) : Prop :=
  r ∈ s.refreshTokens ∨ ∃ k, r ∈ (s.phase k).stored ∨ r ∈ (s.phase k).issued

/-- `gen_random_uuid()` and `secrets.token_urlsafe(32)`: the id and the hash are new. -/
def Fresh (s : World n) (newId : UUID) (newHash : String) : Prop :=
  (∀ r ∈ s.refreshTokens, r.id ≠ newId ∧ r.tokenHash ≠ newHash) ∧
    ∀ k, (∀ r ∈ (s.phase k).stored, r.id ≠ newId ∧ r.tokenHash ≠ newHash) ∧
      ∀ r ∈ (s.phase k).issued, r.id ≠ newId ∧ r.tokenHash ≠ newHash

instance (s : World n) (newId : UUID) (newHash : String) : Decidable (Fresh s newId newHash) :=
  inferInstanceAs (Decidable (_ ∧ _))

/-- Another open transaction has deleted the row, which is still committed. -/
def Blocked (s : World n) (i : Fin n) (id : UUID) : Prop :=
  (∃ r ∈ s.refreshTokens, r.id = id) ∧ ∃ k, k ≠ i ∧ ∃ r ∈ (s.phase k).deleted, r.id = id

instance (s : World n) (i : Fin n) (id : UUID) : Decidable (Blocked s i id) :=
  inferInstanceAs (Decidable (_ ∧ _))

/-- The SELECT and the checks up to `db.delete(stored)`. -/
def selected (s : World n) (i : Fin n) (now : Time) : Phase :=
  match scalarOneOrNone (s.refreshTokens.filter fun r =>
      r.tokenHash = hashRefreshToken cfg.sha256 (raw i)) with
  | .error e => .failed e
  | .ok none => .failed (.app (.authenticationError "Invalid refresh token."))
  | .ok (some stored) =>
    if stored.expiresAt < now then .expired stored
    else match s.users.find? fun u => u.id = stored.userId with
      | none => .failed (.valueError "'NoneType' object has no attribute 'is_active'")
      | some user =>
        if user.isActive then .found stored user
        else .failed (.app (.authenticationError "Account is deactivated."))

def step (s : World n) : Event n → Option (World n)
  | .select i now => match s.phase i with
    | .start => some (s.setPhase i (selected cfg raw s i now))
    | _ => none
  | .flush i newId newRaw now => match s.phase i with
    | .found stored user =>
      let newHash := hashRefreshToken cfg.sha256 newRaw
      if Fresh s newId newHash ∧ ¬ Blocked s i stored.id then
        some (s.setPhase i (.flushed stored
          ⟨newId, user.id, newHash, now + cfg.refreshTokenExpire⟩
          (cfg.createAccessToken (str user.id) user.email now, newRaw)))
      else none
    | .expired stored =>
      if Blocked s i stored.id then none else some (s.setPhase i (.cleaning stored))
    | _ => none
  | .commit i => match s.phase i with
    | .flushed stored issued tokens =>
      some ({ s with refreshTokens :=
        (s.refreshTokens.filter fun r : RefreshToken => r.id ≠ stored.id) ++ [issued] }.setPhase i
          (.succeeded stored tokens))
    | _ => none
  | .abort i => match s.phase i with
    | .cleaning _ => some (s.setPhase i
        (.failed (.app (.authenticationError "Refresh token has expired."))))
    | .start | .found _ _ | .expired _ | .flushed _ _ _ => some (s.setPhase i .aborted)
    | _ => none

def machine : Machine (World n) (Event n) := ⟨step cfg raw⟩

def start (n : Nat) (users : List User) (refreshTokens : List RefreshToken) : World n :=
  ⟨users, refreshTokens, fun _ => .start⟩

end Step

section Runs
variable {n : Nat} {cfg : Settings} {raw : Fin n → String} {s t : World n} {e : Event n}
  {i : Fin n} {p : Phase}

/-- Committed requests have exchanged different stored tokens and presented
different raw tokens. -/
def SingleUse (raw : Fin n → String) (s : World n) : Prop :=
  ∀ i k, ∀ a ∈ (s.phase i).exchanged, ∀ b ∈ (s.phase k).exchanged,
    a.id = b.id ∨ raw i = raw k → i = k

instance (raw : Fin n → String) (s : World n) : Decidable (SingleUse raw s) :=
  inferInstanceAs (Decidable (∀ i k, ∀ a ∈ (s.phase i).exchanged, ∀ b ∈ (s.phase k).exchanged,
    a.id = b.id ∨ raw i = raw k → i = k))

/-- The step commits a request whose token is no longer stored. -/
def Replays (s : World n) (e : Event n) : Prop :=
  ∃ i stored issued tokens, e = .commit i ∧ s.phase i = .flushed stored issued tokens ∧
    ∀ r ∈ s.refreshTokens, r.id ≠ stored.id

@[simp] theorem setPhase_self : (s.setPhase i p).phase i = p := if_pos rfl

theorem setPhase_of_ne {k : Fin n} (h : k ≠ i) : (s.setPhase i p).phase k = s.phase k := if_neg h

/-- What the new phase of a request has in common with the old one, all requests have. -/
theorem setPhase_same {β : Type} (f : Phase → β) (same : f p = f (s.phase i)) (k : Fin n) :
    f ((s.setPhase i p).phase k) = f (s.phase k) := by
  by_cases hk : k = i
  · subst hk
    rw [setPhase_self, same]
  · rw [setPhase_of_ne hk]

/-- A row that a request holds after the step is of its new phase, or was held before. -/
theorem setPhase_cases (f : Phase → Option RefreshToken) {k : Fin n} {a : RefreshToken}
    (ha : a ∈ f ((s.setPhase i p).phase k)) : (k = i ∧ a ∈ f p) ∨ (k ≠ i ∧ a ∈ f (s.phase k)) := by
  by_cases hk : k = i
  · subst hk
    rw [setPhase_self] at ha
    exact Or.inl ⟨rfl, ha⟩
  · rw [setPhase_of_ne hk] at ha
    exact Or.inr ⟨hk, ha⟩

/-- A request that has exchanged nothing keeps what the others have exchanged. -/
theorem exchanged_setPhase (hi : (s.phase i).exchanged = none) {k : Fin n} {a : RefreshToken}
    (ha : a ∈ (s.phase k).exchanged) : a ∈ ((s.setPhase i p).phase k).exchanged := by
  have other : k ≠ i := by
    rintro rfl
    rw [hi] at ha
    cases ha
  rwa [setPhase_of_ne other]

/-- Everything that one step can do. -/
inductive Change (cfg : Settings) (raw : Fin n → String) (s : World n) : Event n → World n → Prop
  | quiet (e : Event n) (i : Fin n) (p : Phase) (notCommit : ∀ k, e ≠ .commit k)
      (hi : (s.phase i).exchanged = none) (hp : p.issued = none ∧ p.exchanged = none)
      (rows : ∀ a ∈ p.stored, (a ∈ s.refreshTokens ∨ a ∈ (s.phase i).stored) ∧
        a.tokenHash = hashRefreshToken cfg.sha256 (raw i)) :
      Change cfg raw s e (s.setPhase i p)
  | flushed (i : Fin n) (now : Time) (newRaw : String) (stored issued : RefreshToken) (user : User)
      (tokens : String × String) (hi : s.phase i = .found stored user)
      (fresh : Fresh s issued.id issued.tokenHash) :
      Change cfg raw s (.flush i issued.id newRaw now) (s.setPhase i (.flushed stored issued tokens))
  | committed (i : Fin n) (stored issued : RefreshToken) (tokens : String × String)
      (hi : s.phase i = .flushed stored issued tokens) :
      Change cfg raw s (.commit i) ({ s with refreshTokens :=
        (s.refreshTokens.filter fun r : RefreshToken => r.id ≠ stored.id) ++ [issued] }.setPhase i
          (.succeeded stored tokens))

/-- Ids and hashes tell all known rows apart, every request has read the row of
its own token, an exchanged row is gone, and a row that is gone was exchanged. -/
structure Inv (cfg : Settings) (raw : Fin n → String) (s : World n) : Prop where
  unique : ∀ a b, Known s a → Known s b → a.id = b.id ∨ a.tokenHash = b.tokenHash → a = b
  read : ∀ i, ∀ a ∈ (s.phase i).stored, a.tokenHash = hashRefreshToken cfg.sha256 (raw i)
  gone : ∀ i, ∀ a ∈ (s.phase i).exchanged, a ∉ s.refreshTokens
  removed : ∀ i, ∀ a ∈ (s.phase i).stored, a ∉ s.refreshTokens → ∃ k, a ∈ (s.phase k).exchanged
  storedApart : ∀ i k, ∀ a ∈ (s.phase i).stored, a ∉ (s.phase k).issued
  tokensApart : ∀ k, ∀ a ∈ s.refreshTokens, a ∉ (s.phase k).issued
  issuedApart : ∀ i k, i ≠ k → ∀ a ∈ (s.phase i).issued, a ∉ (s.phase k).issued

theorem exchanged_stored {p : Phase} {a : RefreshToken} (h : a ∈ p.exchanged) : a ∈ p.stored := by
  cases p with
  | succeeded r tokens => exact h
  | _ => cases h

/-- What the SELECT of a request leaves it with: an error, or the row of its own token. -/
inductive Selection (cfg : Settings) (raw : Fin n → String) (s : World n) (i : Fin n) (now : Time) :
    Phase → Prop
  | failed (e : Failure) : Selection cfg raw s i now (.failed e)
  | expired (stored : RefreshToken) (mem : stored ∈ s.refreshTokens)
      (own : stored.tokenHash = hashRefreshToken cfg.sha256 (raw i)) (old : stored.expiresAt < now) :
      Selection cfg raw s i now (.expired stored)
  | found (stored : RefreshToken) (user : User) (mem : stored ∈ s.refreshTokens)
      (own : stored.tokenHash = hashRefreshToken cfg.sha256 (raw i)) (fresh : ¬ stored.expiresAt < now) :
      Selection cfg raw s i now (.found stored user)

theorem selected_selection (cfg : Settings) (raw : Fin n → String) (s : World n) (i : Fin n) (now : Time) :
    Selection cfg raw s i now (selected cfg raw s i now) := by
  rw [selected]
  cases hr : scalarOneOrNone (s.refreshTokens.filter fun r =>
      r.tokenHash = hashRefreshToken cfg.sha256 (raw i)) with
  | error e => exact .failed e
  | ok row =>
    cases row with
    | none => exact .failed _
    | some stored =>
      have hm : stored ∈ s.refreshTokens.filter fun r =>
          r.tokenHash = hashRefreshToken cfg.sha256 (raw i) := by
        simp [scalarOneOrNone_of_eq_some hr]
      simp only [List.mem_filter, decide_eq_true_eq] at hm
      by_cases old : stored.expiresAt < now
      · simp only [old, if_true]
        exact .expired stored hm.1 hm.2 old
      · simp only [old, if_false]
        split
        · exact .failed _
        · split
          · exact .found stored _ hm.1 hm.2 old
          · exact .failed _

/-- The statements of the requests. -/
inductive Stepped (cfg : Settings) (raw : Fin n → String) (s : World n) : Event n → World n → Prop
  | select (i : Fin n) (now : Time) (hi : s.phase i = .start) :
      Stepped cfg raw s (.select i now) (s.setPhase i (selected cfg raw s i now))
  | flush (i : Fin n) (newId : UUID) (newRaw : String) (now : Time) (stored : RefreshToken) (user : User)
      (hi : s.phase i = .found stored user)
      (fresh : Fresh s newId (hashRefreshToken cfg.sha256 newRaw)) :
      Stepped cfg raw s (.flush i newId newRaw now) (s.setPhase i (.flushed stored
        ⟨newId, user.id, hashRefreshToken cfg.sha256 newRaw, now + cfg.refreshTokenExpire⟩
        (cfg.createAccessToken (str user.id) user.email now, newRaw)))
  | clean (i : Fin n) (newId : UUID) (newRaw : String) (now : Time) (stored : RefreshToken)
      (hi : s.phase i = .expired stored) :
      Stepped cfg raw s (.flush i newId newRaw now) (s.setPhase i (.cleaning stored))
  | commit (i : Fin n) (stored issued : RefreshToken) (tokens : String × String)
      (hi : s.phase i = .flushed stored issued tokens) :
      Stepped cfg raw s (.commit i) ({ s with refreshTokens :=
        (s.refreshTokens.filter fun r : RefreshToken => r.id ≠ stored.id) ++ [issued] }.setPhase i
          (.succeeded stored tokens))
  | abort (i : Fin n) (p : Phase) (hi : (s.phase i).exchanged = none)
      (hp : (∃ e, p = .failed e) ∨ p = .aborted) : Stepped cfg raw s (.abort i) (s.setPhase i p)

theorem step_stepped (hs : (machine cfg raw).step s e = some t) : Stepped cfg raw s e t := by
  simp only [machine] at hs
  cases e with
  | select i now =>
    simp only [step] at hs
    split at hs
    · rename_i hi
      cases hs
      exact .select i now hi
    · cases hs
  | flush i newId newRaw now =>
    simp only [step] at hs
    split at hs
    · rename_i stored user hi
      split at hs
      · rename_i free
        cases hs
        exact .flush i newId newRaw now stored user hi free.1
      · cases hs
    · rename_i stored hi
      split at hs
      · cases hs
      · cases hs
        exact .clean i newId newRaw now stored hi
    · cases hs
  | commit i =>
    simp only [step] at hs
    split at hs
    · rename_i stored issued tokens hi
      cases hs
      exact .commit i stored issued tokens hi
    · cases hs
  | abort i =>
    cases hi : s.phase i with
    | cleaning stored =>
      simp only [step, hi, Option.some.injEq] at hs
      exact hs ▸ .abort i _ (by rw [hi]; rfl) (Or.inl ⟨_, rfl⟩)
    | start | found _ _ | expired _ | flushed _ _ _ =>
      simp only [step, hi, Option.some.injEq] at hs
      exact hs ▸ .abort i _ (by rw [hi]; rfl) (Or.inr rfl)
    | succeeded _ _ | failed _ | aborted => simp [step, hi] at hs

theorem step_change (h : Inv cfg raw s) (hs : (machine cfg raw).step s e = some t) :
    Change cfg raw s e t := by
  cases step_stepped hs with
  | select i now hi =>
    have quiet : (s.phase i).exchanged = none := by rw [hi]; rfl
    have only {stored : RefreshToken} (mem : stored ∈ s.refreshTokens)
        (own : stored.tokenHash = hashRefreshToken cfg.sha256 (raw i)) : ∀ a ∈ some stored,
        (a ∈ s.refreshTokens ∨ a ∈ (s.phase i).stored) ∧
          a.tokenHash = hashRefreshToken cfg.sha256 (raw i) := by
      intro a ha
      obtain rfl : stored = a := Option.some.inj ha
      exact ⟨Or.inl mem, own⟩
    have selection := selected_selection cfg raw s i now
    generalize selected cfg raw s i now = p at selection
    cases selection with
    | failed e => exact .quiet _ i _ (by simp) quiet ⟨rfl, rfl⟩ fun a ha => by cases ha
    | expired stored mem own _ => exact .quiet _ i _ (by simp) quiet ⟨rfl, rfl⟩ (only mem own)
    | found stored user mem own _ => exact .quiet _ i _ (by simp) quiet ⟨rfl, rfl⟩ (only mem own)
  | flush i newId newRaw now stored user hi fresh =>
    exact .flushed i now newRaw stored ⟨newId, user.id, _, _⟩ user _ hi fresh
  | clean i newId newRaw now stored hi =>
    refine .quiet _ i _ (by simp) (by rw [hi]; rfl) ⟨rfl, rfl⟩ ?_
    intro a ha
    have mine : a ∈ (s.phase i).stored := by rw [hi]; exact ha
    exact ⟨Or.inr mine, h.read i a mine⟩
  | commit i stored issued tokens hi => exact .committed i stored issued tokens hi
  | abort i p hi hp =>
    rcases hp with ⟨e, rfl⟩ | rfl
    · exact .quiet _ i _ (by simp) hi ⟨rfl, rfl⟩ fun a ha => by cases ha
    · exact .quiet _ i _ (by simp) hi ⟨rfl, rfl⟩ fun a ha => by cases ha

/-- A step that issues and exchanges nothing, and reads only what it may. -/
theorem inv_quiet (h : Inv cfg raw s) (hi : (s.phase i).exchanged = none)
    (hp : p.issued = none ∧ p.exchanged = none)
    (rows : ∀ a ∈ p.stored, (a ∈ s.refreshTokens ∨ a ∈ (s.phase i).stored) ∧
      a.tokenHash = hashRefreshToken cfg.sha256 (raw i)) : Inv cfg raw (s.setPhase i p) := by
  have stored : ∀ k, ∀ a ∈ ((s.setPhase i p).phase k).stored,
      a ∈ s.refreshTokens ∨ a ∈ (s.phase k).stored := by
    intro k a ha
    rcases setPhase_cases Phase.stored ha with ⟨rfl, own⟩ | ⟨-, ha⟩
    · exact (rows a own).1
    · exact Or.inr ha
  have issued : ∀ k, ∀ a ∈ ((s.setPhase i p).phase k).issued, a ∈ (s.phase k).issued := by
    intro k a ha
    rcases setPhase_cases Phase.issued ha with ⟨-, ha⟩ | ⟨-, ha⟩
    · rw [hp.1] at ha
      cases ha
    · exact ha
  have exchanged : ∀ k, ∀ a ∈ ((s.setPhase i p).phase k).exchanged, a ∈ (s.phase k).exchanged := by
    intro k a ha
    rcases setPhase_cases Phase.exchanged ha with ⟨-, ha⟩ | ⟨-, ha⟩
    · rw [hp.2] at ha
      cases ha
    · exact ha
  have known : ∀ a, Known (s.setPhase i p) a → Known s a := by
    rintro a (ha | ⟨k, ha | ha⟩)
    · exact Or.inl ha
    · rcases stored k a ha with ha | ha
      · exact Or.inl ha
      · exact Or.inr ⟨k, Or.inl ha⟩
    · exact Or.inr ⟨k, Or.inr (issued k a ha)⟩
  refine ⟨fun a b ha hb => h.unique a b (known a ha) (known b hb), ?_,
    fun k a ha => h.gone k a (exchanged k a ha), ?_, ?_,
    fun k a ha hk => h.tokensApart k a ha (issued k a hk),
    fun j k hne a ha hk => h.issuedApart j k hne a (issued j a ha) (issued k a hk)⟩
  · intro k a ha
    rcases setPhase_cases Phase.stored ha with ⟨rfl, own⟩ | ⟨-, ha⟩
    · exact (rows a own).2
    · exact h.read k a ha
  · intro k a ha missing
    obtain ⟨l, hl⟩ := h.removed k a ((stored k a ha).resolve_left missing) missing
    exact ⟨l, exchanged_setPhase hi hl⟩
  · intro j k a ha hk
    rcases stored j a ha with row | old
    · exact h.tokensApart k a row (issued k a hk)
    · exact h.storedApart j k a old (issued k a hk)

/-- A flush adds one row whose id and hash no known row has. -/
theorem inv_flushed (h : Inv cfg raw s) {stored issued : RefreshToken} {user : User}
    (tokens : String × String) (hi : s.phase i = .found stored user)
    (fresh : Fresh s issued.id issued.tokenHash) :
    Inv cfg raw (s.setPhase i (.flushed stored issued tokens)) := by
  have new : ∀ a, Known s a → a.id ≠ issued.id ∧ a.tokenHash ≠ issued.tokenHash := by
    rintro a (ha | ⟨k, ha | ha⟩)
    · exact fresh.1 a ha
    · exact (fresh.2 k).1 a ha
    · exact (fresh.2 k).2 a ha
  have mine : stored ∈ (s.phase i).stored := by rw [hi]; rfl
  have storedSame : ∀ k, ((s.setPhase i (.flushed stored issued tokens)).phase k).stored =
      (s.phase k).stored := setPhase_same Phase.stored (by rw [hi]; rfl)
  have exchangedSame : ∀ k, ((s.setPhase i (.flushed stored issued tokens)).phase k).exchanged =
      (s.phase k).exchanged := setPhase_same Phase.exchanged (by rw [hi]; rfl)
  have issuedCases : ∀ k, ∀ a ∈ ((s.setPhase i (.flushed stored issued tokens)).phase k).issued,
      (k = i ∧ a = issued) ∨ a ∈ (s.phase k).issued := by
    intro k a ha
    rcases setPhase_cases Phase.issued ha with ⟨rfl, own⟩ | ⟨-, ha⟩
    · exact Or.inl ⟨rfl, (Option.some.inj own).symm⟩
    · exact Or.inr ha
  have known : ∀ a, Known (s.setPhase i (.flushed stored issued tokens)) a →
      a = issued ∨ Known s a := by
    rintro a (ha | ⟨k, ha | ha⟩)
    · exact Or.inr (Or.inl ha)
    · exact Or.inr (Or.inr ⟨k, Or.inl (storedSame k ▸ ha)⟩)
    · rcases issuedCases k a ha with ⟨_, rfl⟩ | ha
      · exact Or.inl rfl
      · exact Or.inr (Or.inr ⟨k, Or.inr ha⟩)
  refine ⟨?_, ?_, ?_, ?_, ?_, ?_, ?_⟩
  · intro a b ha hb same
    rcases known a ha with rfl | oldA
    · rcases known b hb with rfl | oldB
      · rfl
      · rcases same with same | same
        · exact absurd same.symm (new b oldB).1
        · exact absurd same.symm (new b oldB).2
    · rcases known b hb with rfl | oldB
      · rcases same with same | same
        · exact absurd same (new a oldA).1
        · exact absurd same (new a oldA).2
      · exact h.unique a b oldA oldB same
  · intro k a ha
    exact h.read k a (storedSame k ▸ ha)
  · intro k a ha
    exact h.gone k a (exchangedSame k ▸ ha)
  · intro k a ha missing
    obtain ⟨l, hl⟩ := h.removed k a (storedSame k ▸ ha) missing
    exact ⟨l, exchangedSame l ▸ hl⟩
  · intro j k a ha hk
    have old : a ∈ (s.phase j).stored := storedSame j ▸ ha
    rcases issuedCases k a hk with ⟨_, rfl⟩ | hk
    · exact absurd rfl (new a (Or.inr ⟨j, Or.inl old⟩)).1
    · exact h.storedApart j k a old hk
  · intro k a ha hk
    rcases issuedCases k a hk with ⟨_, rfl⟩ | hk
    · exact absurd rfl (new a (Or.inl ha)).1
    · exact h.tokensApart k a ha hk
  · intro j k hne a ha hk
    rcases issuedCases j a ha with ⟨rfl, rfl⟩ | oldJ
    · rcases issuedCases k a hk with ⟨rfl, _⟩ | oldK
      · exact hne rfl
      · exact absurd rfl (new a (Or.inr ⟨k, Or.inr oldK⟩)).1
    · rcases issuedCases k a hk with ⟨rfl, rfl⟩ | oldK
      · exact absurd rfl (new a (Or.inr ⟨j, Or.inr oldJ⟩)).1
      · exact h.issuedApart j k hne a oldJ oldK

/-- A commit removes the exchanged row, if it is still there, and adds the new one. -/
theorem inv_committed (h : Inv cfg raw s) {stored issued : RefreshToken}
    {tokens : String × String} (hi : s.phase i = .flushed stored issued tokens) :
    Inv cfg raw ({ s with refreshTokens :=
      (s.refreshTokens.filter fun r : RefreshToken => r.id ≠ stored.id) ++ [issued] }.setPhase i
        (.succeeded stored tokens)) := by
  have mine : stored ∈ (s.phase i).stored := by rw [hi]; rfl
  have mineIssued : issued ∈ (s.phase i).issued := by rw [hi]; rfl
  set t := { s with refreshTokens :=
    (s.refreshTokens.filter fun r : RefreshToken => r.id ≠ stored.id) ++ [issued] }.setPhase i
      (.succeeded stored tokens) with ht
  have rows : ∀ a, a ∈ t.refreshTokens ↔ (a ∈ s.refreshTokens ∧ a.id ≠ stored.id) ∨ a = issued := by
    intro a
    simp [ht, World.setPhase]
  have storedSame : ∀ k, (t.phase k).stored = (s.phase k).stored :=
    setPhase_same Phase.stored (show (Phase.succeeded stored tokens).stored = (s.phase i).stored by rw [hi]; rfl)
  have issuedCases : ∀ k, ∀ a ∈ (t.phase k).issued, k ≠ i ∧ a ∈ (s.phase k).issued := by
    intro k a ha
    rcases setPhase_cases Phase.issued ha with ⟨-, ha⟩ | other
    · cases ha
    · exact other
  have exchangedCases : ∀ k, ∀ a ∈ (t.phase k).exchanged, a = stored ∨ a ∈ (s.phase k).exchanged := by
    intro k a ha
    rcases setPhase_cases Phase.exchanged ha with ⟨-, ha⟩ | ⟨-, ha⟩
    · exact Or.inl (Option.some.inj ha).symm
    · exact Or.inr ha
  have exchangedKept : ∀ k, ∀ a ∈ (s.phase k).exchanged, a ∈ (t.phase k).exchanged := by
    intro k a ha
    refine exchanged_setPhase ?_ ha
    show (s.phase i).exchanged = none
    rw [hi]
    rfl
  have exchangedNow : stored ∈ (t.phase i).exchanged := by
    rw [ht, setPhase_self]
    rfl
  have known : ∀ a, Known t a → Known s a := by
    rintro a (ha | ⟨k, ha | ha⟩)
    · rcases (rows a).mp ha with ⟨ha, _⟩ | rfl
      · exact Or.inl ha
      · exact Or.inr ⟨i, Or.inr mineIssued⟩
    · exact Or.inr ⟨k, Or.inl (storedSame k ▸ ha)⟩
    · exact Or.inr ⟨k, Or.inr (issuedCases k a ha).2⟩
  refine ⟨fun a b ha hb => h.unique a b (known a ha) (known b hb),
    fun k a ha => h.read k a (storedSame k ▸ ha), ?_, ?_, ?_, ?_,
    fun j k hne a ha hk => h.issuedApart j k hne a (issuedCases j a ha).2 (issuedCases k a hk).2⟩
  · intro k a ha hm
    rcases (rows a).mp hm with ⟨hm, other⟩ | rfl
    · rcases exchangedCases k a ha with rfl | old
      · exact other rfl
      · exact h.gone k a old hm
    · rcases exchangedCases k a ha with rfl | old
      · exact h.storedApart i i a mine mineIssued
      · exact h.storedApart k i a (exchanged_stored old) mineIssued
  · intro k a ha missing
    have old : a ∈ (s.phase k).stored := storedSame k ▸ ha
    by_cases hm : a ∈ s.refreshTokens
    · have same : a.id = stored.id := by
        by_contra other
        exact missing ((rows a).mpr (Or.inl ⟨hm, other⟩))
      have he : a = stored := h.unique a stored (Or.inl hm) (Or.inr ⟨i, Or.inl mine⟩) (Or.inl same)
      exact ⟨i, he ▸ exchangedNow⟩
    · obtain ⟨l, hl⟩ := h.removed k a old hm
      exact ⟨l, exchangedKept l a hl⟩
  · intro j k a ha hk
    exact h.storedApart j k a (storedSame j ▸ ha) (issuedCases k a hk).2
  · intro k a ha hk
    obtain ⟨hne, oldK⟩ := issuedCases k a hk
    rcases (rows a).mp ha with ⟨row, _⟩ | rfl
    · exact h.tokensApart k a row oldK
    · exact h.issuedApart i k (Ne.symm hne) a mineIssued oldK

theorem inv_change (h : Inv cfg raw s) (change : Change cfg raw s e t) : Inv cfg raw t := by
  cases change with
  | quiet _ i p notCommit hi hp rows => exact inv_quiet h hi hp rows
  | flushed i now newRaw stored issued user tokens hi fresh => exact inv_flushed h tokens hi fresh
  | committed i stored issued tokens hi => exact inv_committed h hi

/-- The database when the requests start: the unique constraints hold. -/
def TokensUnique (refreshTokens : List RefreshToken) : Prop :=
  ∀ a ∈ refreshTokens, ∀ b ∈ refreshTokens, a.id = b.id ∨ a.tokenHash = b.tokenHash → a = b

theorem inv_start {users : List User} {refreshTokens : List RefreshToken}
    (unique : TokensUnique refreshTokens) : Inv cfg raw (start n users refreshTokens) where
  unique a b ha hb same := by
    simp only [Known, start, Phase.stored, Phase.issued, Option.mem_def, reduceCtorEq, or_self,
      exists_false, or_false] at ha hb
    exact unique a ha b hb same
  read := by simp [start, Phase.stored]
  gone := by simp [start, Phase.exchanged]
  removed := by simp [start, Phase.stored]
  storedApart := by simp [start, Phase.stored]
  tokensApart := by simp [start, Phase.issued]
  issuedApart := by simp [start, Phase.issued]

/-! ## Single use -/

/-- Two requests that have exchanged one token, by its row or by its text, have
exchanged one row. -/
theorem exchanged_same (h : Inv cfg raw s) {k : Fin n} {a b : RefreshToken}
    (ha : a ∈ (s.phase i).exchanged) (hb : b ∈ (s.phase k).exchanged)
    (same : a.id = b.id ∨ raw i = raw k) : a = b := by
  refine h.unique a b (Or.inr ⟨i, Or.inl (exchanged_stored ha)⟩)
    (Or.inr ⟨k, Or.inl (exchanged_stored hb)⟩) ?_
  rcases same with same | same
  · exact Or.inl same
  · exact Or.inr (by rw [h.read i a (exchanged_stored ha), h.read k b (exchanged_stored hb), same])

/-- Only a commit exchanges a token. -/
theorem exchanged_change (change : Change cfg raw s e t) {k : Fin n} {a : RefreshToken}
    (ha : a ∈ (t.phase k).exchanged) : a ∈ (s.phase k).exchanged ∨
      e = .commit k ∧ ∃ issued tokens, s.phase k = .flushed a issued tokens := by
  cases change with
  | quiet _ i p notCommit hi hp rows =>
    by_cases hk : k = i
    · subst hk
      rw [setPhase_self, hp.2] at ha
      cases ha
    · rw [setPhase_of_ne hk] at ha
      exact Or.inl ha
  | flushed i now newRaw stored issued user tokens hi fresh =>
    by_cases hk : k = i
    · subst hk
      rw [setPhase_self] at ha
      cases ha
    · rw [setPhase_of_ne hk] at ha
      exact Or.inl ha
  | committed i stored issued tokens hi =>
    by_cases hk : k = i
    · subst hk
      rw [setPhase_self] at ha
      obtain rfl : stored = a := Option.some.inj ha
      exact Or.inr ⟨rfl, issued, tokens, hi⟩
    · rw [setPhase_of_ne hk] at ha
      exact Or.inl ha

theorem exchanged_kept (change : Change cfg raw s e t) {k : Fin n} {a : RefreshToken}
    (ha : a ∈ (s.phase k).exchanged) : a ∈ (t.phase k).exchanged := by
  have other : ∀ i, (s.phase i).exchanged = none → k ≠ i := by
    rintro i hi rfl
    rw [hi] at ha
    cases ha
  cases change with
  | quiet _ i p notCommit hi hp rows => rwa [setPhase_of_ne (other i hi)]
  | flushed i now newRaw stored issued user tokens hi fresh =>
    rwa [setPhase_of_ne (other i (by rw [hi]; rfl))]
  | committed i stored issued tokens hi =>
    rwa [setPhase_of_ne (other i (by rw [hi]; rfl))]

/-- A request that commits on a stored token exchanges what nobody has exchanged. -/
theorem commit_first (h : Inv cfg raw s)
    (keeps : ¬ Replays s e) {k : Fin n} {a b : RefreshToken} {issued : RefreshToken}
    {tokens : String × String} (he : e = .commit i) (hi : s.phase i = .flushed a issued tokens)
    (hb : b ∈ (s.phase k).exchanged) : a ≠ b := by
  rintro rfl
  refine keeps ⟨i, a, issued, tokens, he, hi, fun r hr same => ?_⟩
  have row : r = a := h.unique r a (Or.inl hr)
    (Or.inr ⟨k, Or.inl (exchanged_stored hb)⟩) (Or.inl same)
  exact h.gone k a hb (row ▸ hr)

theorem singleUse_iff (h : Inv cfg raw s) (single : SingleUse raw s)
    (hs : (machine cfg raw).step s e = some t) : SingleUse raw t ↔ ¬ Replays s e := by
  have change := step_change h hs
  have h' := inv_change h change
  constructor
  · rintro ok ⟨i, stored, issued, tokens, rfl, hi, gone⟩
    have mine : stored ∈ (s.phase i).stored := by rw [hi]; rfl
    obtain ⟨k, hk⟩ := h.removed i stored mine fun row => gone stored row rfl
    have hne : k ≠ i := by
      rintro rfl
      rw [hi] at hk
      cases hk
    have now : stored ∈ (t.phase i).exchanged := by
      simp only [machine, step, hi, Option.some.injEq] at hs
      rw [← hs, setPhase_self]
      rfl
    exact hne (ok k i stored (exchanged_kept change hk) stored now (Or.inl rfl))
  · intro keeps i k a ha b hb same
    have row := exchanged_same h' ha hb same
    subst row
    rcases exchanged_change change ha with oldI | ⟨he, issued, tokens, hi⟩
    · rcases exchanged_change change hb with oldK | ⟨he, issued, tokens, hk⟩
      · exact single i k a oldI a oldK (Or.inl rfl)
      · exact absurd rfl (commit_first h keeps he hk oldI)
    · rcases exchanged_change change hb with oldK | ⟨he', _, _, _⟩
      · exact absurd rfl (commit_first h keeps he hi oldK)
      · rw [he] at he'
        exact Event.commit.inj he'

/-- Refresh tokens are single-use in exactly those runs in which every request
that commits still finds the stored token that it has read. -/
theorem single_use_iff (cfg : Settings) (raw : Fin n → String) (users : List User)
    (refreshTokens : List RefreshToken) (unique : TokensUnique refreshTokens) (es : List (Event n)) :
    (machine cfg raw).Throughout (SingleUse raw) (start n users refreshTokens) es ↔
      (machine cfg raw).EveryStep (fun s e _ => ¬ Replays s e) (start n users refreshTokens) es := by
  have first : SingleUse raw (start n users refreshTokens) := by
    intro i k a ha
    cases ha
  rw [Machine.Throughout, and_iff_right first]
  exact Machine.everyStep_congr (I := fun s => Inv cfg raw s ∧ SingleUse raw s)
    (fun _ _ _ i hs => singleUse_iff i.1 i.2 hs)
    (fun _ _ _ i hs ok => ⟨inv_change i.1 (step_change i.1 hs), ok⟩)
    ⟨inv_start unique, first⟩

end Runs

namespace Demo

def settings : Settings where
  createAccessToken userId email _ := userId ++ email
  sha256 content :=
    if content = [116, 48] then 0x512f26ada3c3d634ac3c6b12b7b33cb50bb0963c3f6d9924241619c84ec78ff2
    else if content = [116, 49] then 0x628b49d96dcde97a430dd4f597705899e09a968f793491e4b704cae33a40dc02
    else 0xc44474038d459e40e4714afefa7bf8dae9f9834b22f5e8ec1dd434ecb62b512e
  refreshTokenExpire := 604800

def stored : RefreshToken := ⟨1, 2, hashRefreshToken settings.sha256 "t0", 1000⟩

def users : List User := [⟨2, "a@example.com", true⟩]

/-- Two requests that present the same token. -/
def raw : Fin 2 → String := fun _ => "t0"

/-- Both requests read the token before either of them deletes it. -/
def overlap : List (Event 2) :=
  [.select 0 10, .select 1 10, .flush 0 3 "t1" 11, .commit 0, .flush 1 4 "t2" 12, .commit 1]

end Demo

theorem single_use_iff_demo :
    (machine Demo.settings Demo.raw).Throughout (SingleUse Demo.raw)
        (start 2 Demo.users [Demo.stored]) Demo.overlap ↔
      (machine Demo.settings Demo.raw).EveryStep (fun s e _ => ¬ Replays s e)
        (start 2 Demo.users [Demo.stored]) Demo.overlap :=
  single_use_iff Demo.settings Demo.raw Demo.users [Demo.stored]
    (fun a ha b hb _ => by rw [List.mem_singleton.mp ha, List.mem_singleton.mp hb]) Demo.overlap

theorem overlap_exchanges_twice :
    TokensUnique [Demo.stored] ∧
      ¬ (machine Demo.settings Demo.raw).Throughout (SingleUse Demo.raw)
        (start 2 Demo.users [Demo.stored]) Demo.overlap := by
  refine ⟨fun a ha b hb _ => by rw [List.mem_singleton.mp ha, List.mem_singleton.mp hb], ?_⟩
  decide +kernel

end TokenRotation
