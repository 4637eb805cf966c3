import ResearchPlatform.LlmGateway
import Mathlib.Algebra.Order.BigOperators.Group.Finset

/-!
# Tokens, permits and provider calls of the gateway

What overlapping requests hold, added up over all of them: tokens against the
provider calls started, and permits against the threads that run.
-/

namespace LlmGateway

open Schema Machines

def Phase.isCalling : Phase → Bool
  | calling _ _ => true
  | _ => false

namespace Request

def tokens (r : Request) : Nat := if r.token then 1 else 0

def permits (r : Request) : Nat := if r.phase.inside then 1 else 0

def callings (r : Request) : Nat := if r.phase.isCalling then 1 else 0

/-- The request holds a permit while none of its calls is going on. -/
def idle (r : Request) : Nat := if r.phase.inside && !r.phase.isCalling then 1 else 0

end Request

/-- Whether a request that stands here has its token, where that is certain. -/
def Phase.paid : Phase → Option Bool
  | start | admitted => some false
  | queued | ready _ _ | calling _ _ | returned _ | raised _ | recorded _ => some true
  | finished _ | cancelled => none

/-- The request has a token where its phase says so, and calls only with one. -/
structure Request.Paid (r : Request) : Prop where
  token : ∀ b, r.phase.paid = some b → r.token = b
  calls : r.token = false → r.calls = 0

section Accounts
variable {n : Nat} {limiter : AsyncLimiter} {settings : Settings} {g g' : Gateway n} {e : Event n}

def Gateway.total (g : Gateway n) (f : Request → Nat) : Nat := ∑ i, f (g.requests i)

theorem total_setRequest (f : Request → Nat) (i : Fin n) (r : Request) :
    (g.setRequest i r).total f + f (g.requests i) = g.total f + f r := by
  have changed : (fun k => f ((g.setRequest i r).requests k)) =
      Function.update (fun k => f (g.requests k)) i (f r) := by
    funext k
    by_cases hk : k = i
    · subst hk
      simp
    · rw [setRequest_of_ne r hk, Function.update_of_ne hk]
  have others := Finset.add_sum_erase Finset.univ (fun k => f (g.requests k)) (Finset.mem_univ i)
  unfold Gateway.total
  rw [changed, Finset.sum_update_of_mem (Finset.mem_univ i), Finset.sdiff_singleton_eq_erase]
  omega

theorem total_setRequest_same {f : Request → Nat} {i : Fin n} {r : Request}
    (same : f r = f (g.requests i)) : (g.setRequest i r).total f = g.total f := by
  have moved := total_setRequest (g := g) f i r
  omega

theorem Request.permits_of {r : Request} {p : Phase} (h : r.phase = p) :
    r.permits = if p.inside then 1 else 0 := by
  rw [Request.permits, h]

theorem total_permits_setPhase {i : Fin n} {q : Phase} (from_ : g.phase i = q) (p : Phase) :
    (g.setPhase i p).total Request.permits + (if q.inside then 1 else 0) =
      g.total Request.permits + if p.inside then 1 else 0 := by
  have moved := total_setRequest (g := g) Request.permits i { g.requests i with phase := p }
  rwa [Request.permits_of from_, Request.permits_of rfl] at moved

theorem permits_setPhase {i : Fin n} {p q : Phase} (from_ : g.phase i = q)
    (same : p.inside = q.inside) :
    (g.setPhase i p).total Request.permits = g.total Request.permits := by
  have moved := total_permits_setPhase from_ p
  rw [same] at moved
  omega

theorem AfterAttempt.inside {a : Nat} {p : Phase} (h : AfterAttempt a p) : p.inside = true := by
  cases h <;> rfl

/-- Permits move between the semaphore and the requests; none is made or lost. -/
theorem permits_step (h : step limiter settings g e = some g') :
    g'.permits + g'.total Request.permits = g.permits + g.total Request.permits := by
  cases step_change h with
  | tick now later => rfl
  | finish t running left => rfl
  | admitted i at_start ok =>
    exact congrArg (g.permits + ·) (permits_setPhase (g := g) at_start rfl)
  | refused i failure at_start raised =>
    exact congrArg (g.permits + ·) (permits_setPhase (g := g) at_start rfl)
  | token i waiting granted =>
    refine congrArg (g.permits + ·) (total_setRequest_same (g := g) ?_)
    rw [Request.permits_of waiting, Request.permits_of rfl]
    rfl
  | enter i permits waiting available =>
    have moved := total_permits_setPhase waiting (.ready 1 g.clock)
    simp only [Phase.inside, Bool.false_eq_true, ↓reduceIte] at moved
    change permits + (g.setPhase i (.ready 1 g.clock)).total Request.permits = _
    omega
  | attempt i k notBefore ready due =>
    refine congrArg (g.permits + ·) (total_setRequest_same (g := g) ?_)
    rw [Request.permits_of ready, Request.permits_of rfl]
    rfl
  | clientFails i k notBefore message p ready left =>
    exact congrArg (g.permits + ·) (permits_setPhase ready left.inside)
  | answer i k since response p calling left =>
    exact congrArg (g.permits + ·) (permits_setPhase (g := g) calling left.inside)
  | timeout i k since p calling late left =>
    exact congrArg (g.permits + ·) (permits_setPhase calling left.inside)
  | succeeded i text returned =>
    exact congrArg (g.permits + ·) (permits_setPhase (g := g) returned rfl)
  | failed i message raised =>
    exact congrArg (g.permits + ·) (permits_setPhase (g := g) raised rfl)
  | release i result recorded =>
    have moved := total_permits_setPhase recorded (.finished result)
    simp only [Phase.inside, Bool.false_eq_true, ↓reduceIte] at moved
    change g.permits + 1 + (g.setPhase i (.finished result)).total Request.permits = _
    omega
  | withdrawn i waiting =>
    simp only [List.mem_cons, List.not_mem_nil, or_false] at waiting
    rcases waiting with hp | hp | hp <;>
      exact congrArg (g.permits + ·) (permits_setPhase hp rfl)
  | abandoned i waiting =>
    have inside : (g.phase i).inside = true := by
      rcases waiting with ⟨k, notBefore, hp⟩ | ⟨k, since, hp⟩ <;> rw [hp] <;> rfl
    have moved := total_permits_setPhase (g := g) (i := i) rfl .cancelled
    rw [inside] at moved
    simp only [Phase.inside, Bool.false_eq_true, ↓reduceIte] at moved
    change g.permits + 1 + (g.setPhase i .cancelled).total Request.permits = _
    omega

/-! ## Tokens and calls -/

theorem AfterAttempt.paid {a : Nat} {p : Phase} (h : AfterAttempt a p) : p.paid = some true := by
  cases h <;> rfl

theorem paid_setRequest {i : Fin n} {r : Request} (others : ∀ k, (g.requests k).Paid) (own : r.Paid)
    (k : Fin n) : ((g.setRequest i r).requests k).Paid := by
  by_cases hk : k = i
  · subst hk
    simpa using own
  · rw [setRequest_of_ne r hk]
    exact others k

theorem paid_setPhase {i : Fin n} {p q : Phase} (h : ∀ k, (g.requests k).Paid)
    (from_ : g.phase i = q) (same : p.paid = q.paid ∨ p.paid = none) (k : Fin n) :
    ((g.setPhase i p).requests k).Paid := by
  refine paid_setRequest (r := { g.requests i with phase := p }) h ⟨?_, (h i).calls⟩ k
  intro b hb
  rcases same with same | lost
  · have before : (g.phase i).paid = some b := by rw [from_, ← same, hb]
    exact (h i).token b before
  · rw [lost] at hb
    cases hb

theorem paid_step (h : step limiter settings g e = some g') (hs : ∀ k, (g.requests k).Paid) :
    ∀ k, (g'.requests k).Paid := by
  cases step_change h with
  | tick now later => exact hs
  | finish t running left => exact hs
  | admitted i at_start ok => exact paid_setPhase (g := g) hs at_start (Or.inl rfl)
  | refused i failure at_start raised => exact paid_setPhase (g := g) hs at_start (Or.inr rfl)
  | token i waiting granted =>
    refine paid_setRequest (g := g) hs ⟨?_, by simp⟩
    intro b hb
    exact Option.some.inj hb
  | enter i permits waiting available => exact paid_setPhase (g := g) hs waiting (Or.inl rfl)
  | attempt i k notBefore ready due =>
    have paid : (g.requests i).token = true := by
      apply (hs i).token
      rw [show (g.requests i).phase = .ready k notBefore from ready]
      rfl
    refine paid_setRequest (g := g) hs ⟨?_, by simp [paid]⟩
    intro b hb
    exact paid.trans (Option.some.inj hb)
  | clientFails i k notBefore message p ready left =>
    exact paid_setPhase hs ready (Or.inl left.paid)
  | answer i k since response p calling left =>
    exact paid_setPhase (g := g) hs calling (Or.inl left.paid)
  | timeout i k since p calling late left => exact paid_setPhase hs calling (Or.inl left.paid)
  | succeeded i text returned => exact paid_setPhase (g := g) hs returned (Or.inl rfl)
  | failed i message raised => exact paid_setPhase (g := g) hs raised (Or.inl rfl)
  | release i result recorded => exact paid_setPhase (g := g) hs recorded (Or.inr rfl)
  | withdrawn i waiting => exact paid_setPhase hs rfl (Or.inr rfl)
  | abandoned i waiting => exact paid_setPhase (g := g) hs rfl (Or.inr rfl)

theorem total_setPhase_same {f : Request → Nat} (i : Fin n) (p : Phase)
    (phaseless : ∀ r : Request, f { r with phase := p } = f r) :
    (g.setPhase i p).total f = g.total f :=
  total_setRequest_same (phaseless _)

/-- Every token that the limiter gave out is with a request. -/
theorem tokens_step (h : step limiter settings g e = some g') (hs : ∀ k, (g.requests k).Paid)
    (counted : g.tokens.length = g.total Request.tokens) :
    g'.tokens.length = g'.total Request.tokens := by
  cases step_change h with
  | token i waiting granted =>
    have unpaid : (g.requests i).token = false := by
      apply (hs i).token
      rw [show (g.requests i).phase = .admitted from waiting]
      rfl
    have moved := total_setRequest (g := g) Request.tokens i
      { g.requests i with phase := .queued, token := true }
    simp only [Request.tokens, unpaid, Bool.false_eq_true, ↓reduceIte] at moved
    change (g.tokens ++ [g.clock]).length = (g.setRequest i _).total Request.tokens
    rw [List.length_append, counted]
    simp only [List.length_singleton]
    exact moved.symm
  | tick | finish => exact counted
  | attempt i k notBefore ready due =>
    refine counted.trans (Eq.symm ?_)
    exact total_setRequest_same (g := g) (f := Request.tokens)
      (r := { g.requests i with phase := .calling k g.clock, calls := (g.requests i).calls + 1 }) rfl
  | admitted | refused | enter | clientFails | answer | timeout | succeeded | failed | release
  | withdrawn | abandoned =>
    exact counted.trans (total_setPhase_same (g := g) (f := Request.tokens) _ _ fun _ => rfl).symm

@[simp] theorem setPhase_calls (i k : Fin n) (p : Phase) :
    ((g.setPhase i p).requests k).calls = (g.requests k).calls := by
  by_cases hk : k = i
  · subst hk
    simp [Gateway.setPhase]
  · rw [Gateway.setPhase, setRequest_of_ne _ hk]

/-- What a step leaves of the calls of each request: one more for the request whose
attempt starts, and the same for all others. -/
theorem calls_step (h : step limiter settings g e = some g') (k : Fin n) :
    (g'.requests k).calls = (g.requests k).calls + if e = .attempt k then 1 else 0 := by
  cases step_change h with
  | attempt i a notBefore ready due =>
    by_cases hk : k = i
    · subst hk
      simp
    · rw [setRequest_of_ne _ hk]
      simp [Ne.symm hk]
  | token i waiting granted =>
    by_cases hk : k = i
    · subst hk
      simp
    · rw [setRequest_of_ne _ hk]
      simp
  | tick | finish => rfl
  | admitted | refused | enter | clientFails | answer | timeout | succeeded | failed | release
  | withdrawn | abandoned => simp

/-- The calls of a request are covered by its own token. -/
def Request.Covered (r : Request) : Prop := r.calls ≤ r.tokens

theorem covered_iff {r : Request} (paid : r.Paid) : r.Covered ↔ r.calls ≤ 1 := by
  unfold Request.Covered Request.tokens
  cases ht : r.token with
  | false => simp [paid.calls ht]
  | true => simp

/-- Every request has its calls covered throughout a run exactly when none of them
starts a call after its first. -/
theorem own_token_iff (es : List (Event n)) :
    (gateway limiter settings).Throughout (fun g => ∀ k, (g.requests k).Covered)
        (.new settings n) es ↔
      (gateway limiter settings).EveryStep (fun g e _ =>
        ∀ i, e = .attempt i → (g.requests i).calls = 0) (.new settings n) es := by
  have paid : ∀ k, ((Gateway.new settings n).requests k).Paid := fun k =>
    ⟨fun b hb => Option.some.inj hb, fun _ => rfl⟩
  have covered : ∀ k, ((Gateway.new settings n).requests k).Covered := fun k => Nat.zero_le _
  refine (and_iff_right covered).trans ?_
  refine Machine.everyStep_congr (I := fun g => (∀ k, (g.requests k).Paid) ∧
    ∀ k, (g.requests k).Covered) ?_ ?_ ⟨paid, covered⟩
  · rintro g e g' ⟨paid, covered⟩ h
    change step limiter settings g e = some g' at h
    have paid' := paid_step h paid
    constructor
    · rintro covered' i rfl
      have once := (covered_iff (paid' i)).mp (covered' i)
      rw [calls_step h, if_pos rfl] at once
      omega
    · intro first k
      rw [covered_iff (paid' k), calls_step h]
      have before := (covered_iff (paid k)).mp (covered k)
      split
      · rename_i start
        have fresh := first k start
        omega
      · omega
  · rintro g e g' ⟨paid, covered⟩ h covered'
    exact ⟨paid_step h paid, covered'⟩

/-- The provider calls started are covered by the tokens acquired throughout every
run in which no request starts a call after its first. -/
theorem rate_budget_of_first_calls (es : List (Event n))
    (first : (gateway limiter settings).EveryStep (fun g e _ =>
      ∀ i, e = .attempt i → (g.requests i).calls = 0) (.new settings n) es) :
    (gateway limiter settings).Throughout (fun g => g.total Request.calls ≤ g.tokens.length)
      (.new settings n) es := by
  have paid : ∀ k, ((Gateway.new settings n).requests k).Paid := fun k =>
    ⟨fun b hb => Option.some.inj hb, fun _ => rfl⟩
  have counted : (Gateway.new settings n).tokens.length =
      (Gateway.new settings n).total Request.tokens := by
    simp [Gateway.new, Gateway.total, Request.tokens]
  obtain ⟨start, every⟩ := (own_token_iff es).mpr first
  have summed {g : Gateway n} (counted : g.tokens.length = g.total Request.tokens)
      (covered : ∀ k, (g.requests k).Covered) : g.total Request.calls ≤ g.tokens.length := by
    rw [counted]
    exact Finset.sum_le_sum fun k _ => covered k
  refine ⟨summed counted start, ?_⟩
  refine Machine.everyStep_mono (I := fun g => (∀ k, (g.requests k).Paid) ∧
    g.tokens.length = g.total Request.tokens) ?_ ⟨paid, counted⟩ every
  rintro g e g' ⟨paid, counted⟩ h covered
  have counted' := tokens_step h paid counted
  exact ⟨⟨paid_step h paid, counted'⟩, summed counted' covered⟩

/-- Two overlapping requests, one of which fails without a retry. -/
theorem rate_budget_of_first_calls_demo :
    (gateway leakyBucket ⟨15, 5, 30, 1⟩).Throughout
      (fun g => g.total Request.calls ≤ g.tokens.length) (.new ⟨15, 5, 30, 1⟩ 2)
      [.check 0, .check 1, .token 0, .enter 0, .attempt 0, .token 1, .enter 1, .attempt 1,
        .answer 0 (.error "503"), .answer 1 (.ok "YES"), .record 0, .record 1] :=
  rate_budget_of_first_calls _ (by decide +kernel)

/-- The retry of a failed first attempt takes no token. -/
theorem rate_budget_not_retried :
    ¬ (gateway leakyBucket .default).Throughout
      (fun g => g.total Request.calls ≤ g.tokens.length) (.new .default 1)
      [.check 0, .token 0, .enter 0, .attempt 0, .answer 0 (.error "503"), .tick 1, .attempt 0] := by
  decide +kernel

/-! ## Permits and threads -/

/-- An attempt with this number may have been begun by a request that stands here. -/
def Phase.begun (attempt : Nat) : Phase → Prop
  | start | admitted | queued => False
  | ready next _ => attempt < next
  | calling current _ => attempt ≤ current
  | returned _ | raised _ | recorded _ | finished _ | cancelled => True

theorem begun_moves {k : Fin n} {p q : Phase} (h : Moves k e p q) {a : Nat} (hp : p.begun a) :
    q.begun a := by
  cases h with
  | admitted | refused | token | enter => cases hp
  | attempt next notBefore now => exact Nat.le_of_lt hp
  | clientFails current notBefore message p left =>
    cases left with
    | returned | raised => trivial
    | ready notBefore' => exact Nat.lt_succ_of_lt hp
  | answer current since response p left =>
    cases left with
    | returned | raised => trivial
    | ready notBefore' => exact Nat.lt_succ_of_le hp
  | timeout current since p left =>
    cases left with
    | returned | raised => trivial
    | ready notBefore' => exact Nat.lt_succ_of_le hp
  | succeeded | failed | release | cancel => trivial

theorem begun_step (h : step limiter settings g e = some g') {k : Fin n} {a : Nat}
    (hs : (g.phase k).begun a) : (g'.phase k).begun a := by
  rcases step_moves h k with same | moves
  · rwa [same]
  · exact begun_moves moves hs

theorem AfterAttempt.not_calling {a : Nat} {p : Phase} (h : AfterAttempt a p) (b : Nat) (since : Rat) :
    p ≠ .calling b since := by
  cases h <;> simp

/-- The threads that run: each for an attempt that was begun, and one for every
attempt that is still waited for. -/
structure Threads (g : Gateway n) : Prop where
  nodup : g.threads.Nodup
  begun : ∀ t ∈ g.threads, (g.phase t.request).begun t.attempt
  running : ∀ i a since, g.phase i = .calling a since → ⟨i, a⟩ ∈ g.threads

theorem threads_same (hs : Threads g) (h : step limiter settings g e = some g')
    (same : g'.threads = g.threads) (other : ∀ i, e ≠ .attempt i) : Threads g' where
  nodup := same ▸ hs.nodup
  begun t ht := begun_step h (hs.begun t (same ▸ ht))
  running := by
    intro i a since calling
    rw [same]
    rcases step_moves h i with unmoved | moves
    · exact hs.running i a since (unmoved ▸ calling)
    · rw [calling] at moves
      generalize g.phase i = p at moves
      cases moves with
      | attempt => exact absurd rfl (other i)
      | clientFails _ _ _ _ left => exact absurd rfl (left.not_calling a since)
      | answer _ _ _ _ left => exact absurd rfl (left.not_calling a since)
      | timeout _ _ _ left => exact absurd rfl (left.not_calling a since)

theorem threads_step (hs : Threads g) (h : step limiter settings g e = some g') : Threads g' := by
  have later : ∀ t ∈ g.threads, (g'.phase t.request).begun t.attempt :=
    fun t ht => begun_step h (hs.begun t ht)
  cases step_change h with
  | attempt i k notBefore ready due =>
    refine ⟨List.nodup_cons.mpr ⟨?_, hs.nodup⟩, ?_, ?_⟩
    · intro old
      have before := hs.begun _ old
      rw [show g.phase i = .ready k notBefore from ready] at before
      exact Nat.lt_irrefl k before
    · intro t ht
      rcases List.mem_cons.mp ht with rfl | ht
      · simp [Gateway.phase, Phase.begun]
      · exact later t ht
    · intro j a since calling
      by_cases hj : j = i
      · subst hj
        simp only [Gateway.phase, setRequest_self, Phase.calling.injEq] at calling
        exact calling.1 ▸ List.mem_cons_self
      · rw [Gateway.phase, setRequest_of_ne _ hj] at calling
        exact List.mem_cons_of_mem _ (hs.running j a since calling)
  | answer i k since response p calling left =>
    refine ⟨hs.nodup.erase _, fun t ht => later t (List.mem_of_mem_erase ht), ?_⟩
    intro j a since' hj
    by_cases hi : j = i
    · subst hi
      rw [setPhase_phase] at hj
      exact absurd hj (left.not_calling a since')
    · rw [setPhase_phase_of_ne p hi] at hj
      refine (List.mem_erase_of_ne ?_).mpr (hs.running j a since' hj)
      simp [hi]
  | finish t running left =>
    refine ⟨hs.nodup.erase _, fun t ht => later t (List.mem_of_mem_erase ht), ?_⟩
    intro j a since hj
    refine (List.mem_erase_of_ne ?_).mpr (hs.running j a since hj)
    rintro rfl
    simp [Gateway.awaited, show g.phase j = .calling a since from hj] at left
  | tick | admitted | refused | token | enter | clientFails | timeout | succeeded | failed | release
  | withdrawn | abandoned => exact threads_same hs h rfl (by simp)

/-- The threads that nobody waits for any more. -/
def Gateway.leftOver (g : Gateway n) : Nat := g.threads.countP fun t => !g.awaited t

theorem awaited_iff (t : Thread n) :
    g.awaited t = true ↔ ∃ since, g.phase t.request = .calling t.attempt since := by
  unfold Gateway.awaited
  cases g.phase t.request <;> simp

theorem awaited_eq_callings (hs : Threads g) :
    g.threads.countP g.awaited = g.total Request.callings := by
  have one : ((g.threads.filter g.awaited).map Thread.request).Nodup := by
    refine List.Nodup.map_on ?_ (hs.nodup.filter _)
    rintro ⟨i, a⟩ ha ⟨j, b⟩ hb same
    cases same
    obtain ⟨since, hi⟩ := (awaited_iff _).mp (List.mem_filter.mp ha).2
    obtain ⟨since', hi'⟩ := (awaited_iff _).mp (List.mem_filter.mp hb).2
    rw [hi] at hi'
    cases hi'
    rfl
  have callers : ((g.threads.filter g.awaited).map Thread.request).toFinset =
      Finset.univ.filter fun i => (g.phase i).isCalling = true := by
    ext i
    simp only [List.mem_toFinset, List.mem_map, List.mem_filter, Finset.mem_filter,
      Finset.mem_univ, true_and]
    constructor
    · rintro ⟨t, ⟨-, ht⟩, rfl⟩
      obtain ⟨since, hi⟩ := (awaited_iff t).mp ht
      rw [hi]
      rfl
    · intro calling
      cases hp : g.phase i with
      | calling a since =>
        exact ⟨⟨i, a⟩, ⟨hs.running i a since hp, (awaited_iff _).mpr ⟨since, hp⟩⟩, rfl⟩
      | start | admitted | queued | ready | returned | raised | recorded | finished | cancelled =>
        rw [hp] at calling
        cases calling
  calc g.threads.countP g.awaited
      = ((g.threads.filter g.awaited).map Thread.request).length := by
        rw [List.length_map, List.countP_eq_length_filter]
    _ = (Finset.univ.filter fun i => (g.phase i).isCalling = true).card := by
        rw [← List.toFinset_card_of_nodup one, callers]
    _ = g.total Request.callings := Finset.card_filter _ _

theorem permits_balance :
    g.total Request.permits = g.total Request.callings + g.total Request.idle := by
  unfold Gateway.total
  rw [← Finset.sum_add_distrib]
  refine Finset.sum_congr rfl fun i _ => ?_
  unfold Request.permits Request.callings Request.idle
  cases (g.requests i).phase <;> rfl

/-- Running threads and permits differ by what is left over and what is unused. -/
theorem threads_balance (hs : Threads g) :
    g.threads.length + g.total Request.idle = g.leftOver + g.total Request.permits := by
  have awaited := awaited_eq_callings hs
  have split := List.length_eq_countP_add_countP g.awaited (l := g.threads)
  have permits := permits_balance (g := g)
  have left : g.threads.countP (fun t => decide ¬ g.awaited t = true) = g.leftOver :=
    List.countP_congr fun t _ => by simp
  omega

theorem threads_length_step (h : step limiter settings g e = some g') :
    (∃ i, e = .attempt i ∧ g'.threads.length = g.threads.length + 1) ∨
      (∀ i, e ≠ .attempt i) ∧ g'.threads.length ≤ g.threads.length := by
  cases step_change h with
  | attempt i k notBefore ready due => exact Or.inl ⟨i, rfl, rfl⟩
  | answer i k since response p calling left => exact Or.inr ⟨by simp, List.length_erase_le⟩
  | finish t running left => exact Or.inr ⟨by simp, List.length_erase_le⟩
  | tick | admitted | refused | token | enter | clientFails | timeout | succeeded | failed | release
  | withdrawn | abandoned => exact Or.inr ⟨by simp, Nat.le_refl _⟩

/-- The request whose attempt starts has a permit that no call of it uses. -/
theorem idle_pos {i : Fin n} (h : step limiter settings g (.attempt i) = some g') :
    0 < g.total Request.idle := by
  cases step_change h with
  | attempt _ k notBefore ready due =>
    have idle : (g.requests i).idle = 1 := by
      rw [Request.idle, show (g.requests i).phase = .ready k notBefore from ready]
      rfl
    exact Finset.sum_pos' (fun _ _ => Nat.zero_le _) ⟨i, Finset.mem_univ i, by omega⟩

/-- No more provider calls run than there are permits, in every run whose calls start
while no thread runs on that nobody waits for. -/
theorem concurrency_bound_of_awaited (es : List (Event n))
    (awaited : (gateway limiter settings).EveryStep (fun g e _ =>
      ∀ i, e = .attempt i → ∀ t ∈ g.threads, g.awaited t) (.new settings n) es) :
    (gateway limiter settings).Throughout
      (fun g => g.threads.length ≤ settings.llmConcurrencyLimit) (.new settings n) es := by
  have threads : Threads (Gateway.new settings n) :=
    ⟨List.nodup_nil, by simp [Gateway.new], by simp [Gateway.new, Gateway.phase]⟩
  have permits : (Gateway.new settings n).permits + (Gateway.new settings n).total Request.permits =
      settings.llmConcurrencyLimit := by
    simp [Gateway.new, Gateway.total, Request.permits, Phase.inside]
  refine ⟨Nat.zero_le _, Machine.everyStep_mono (I := fun g => Threads g ∧
    g.permits + g.total Request.permits = settings.llmConcurrencyLimit ∧
    g.threads.length ≤ settings.llmConcurrencyLimit) ?_ ⟨threads, permits, Nat.zero_le _⟩ awaited⟩
  rintro g e g' ⟨threads, permits, bounded⟩ h awaited
  change step limiter settings g e = some g' at h
  have bounded' : g'.threads.length ≤ settings.llmConcurrencyLimit := by
    rcases threads_length_step h with ⟨i, rfl, more⟩ | ⟨-, fewer⟩
    · have none_left : g.leftOver = 0 := by
        rw [Gateway.leftOver, List.countP_eq_zero]
        intro t ht
        simp [awaited i rfl t ht]
      have balance := threads_balance threads
      have idle := idle_pos h
      omega
    · omega
  exact ⟨⟨threads_step threads h, (permits_step h).trans permits, bounded'⟩, bounded'⟩

namespace Demo

def together (is : List (Fin n)) : List (Event n) :=
  is.flatMap fun i => [.check i, .token i, .enter i, .attempt i]

/-- Two attempts of each request time out and a third starts, while all threads run on. -/
def hanging (is : List (Fin n)) : List (Event n) :=
  together is ++ [Event.tick 30] ++ is.map Event.timeout ++ [Event.tick 31] ++ is.map Event.attempt ++
    [Event.tick 61] ++ is.map Event.timeout ++ [Event.tick 63] ++ is.map Event.attempt

end Demo

/-- Six requests with five permits: the sixth starts its call once one has come back. -/
theorem concurrency_bound_of_awaited_demo :
    (gateway leakyBucket .default).Throughout
      (fun g => g.threads.length ≤ Settings.default.llmConcurrencyLimit) (.new .default 6)
      (Demo.together [0, 1, 2, 3, 4] ++ [.check 5, .token 5, .answer 0 (.ok "YES"), .record 0,
        .release 0, .enter 5, .attempt 5]) :=
  concurrency_bound_of_awaited _ (by decide +kernel)

/-- Two requests whose calls hang hold two of five permits and run six threads. -/
theorem concurrency_bound_not_timed_out :
    ¬ (gateway leakyBucket .default).Throughout
      (fun g => g.threads.length ≤ Settings.default.llmConcurrencyLimit) (.new .default 2)
      (Demo.hanging [0, 1]) := by
  decide +kernel

end Accounts

end LlmGateway
