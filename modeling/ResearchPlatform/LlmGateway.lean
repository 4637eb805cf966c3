import ResearchPlatform.CircuitBreaker
import ResearchPlatform.Library.Machines
import Mathlib.Algebra.BigOperators.Fin
import Mathlib.Data.Fintype.BigOperators

/-!
# The LLM gateway under concurrent requests

The machine of `n` overlapping calls of `LLMGateway.complete` on one gateway. A
step is what one request does between two points where it may wait, a reading of
the clock, or the return of a thread that nobody waits for any more. The rate
limiter is a parameter; the provider answers as the event says.
-/

namespace LlmGateway

open Schema Machines

/-- `AsyncLimiter(max_rate, time_period)`: whether a token may be taken at a
reading, given the readings at which tokens were taken before. -/
abbrev AsyncLimiter := Nat → Rat → List Rat → Rat → Bool

/-- The level of the bucket at a reading: every token adds one, and `max_rate` of
them leak away evenly over `time_period`. -/
def bucketLevel (maxRate : Nat) (timePeriod : Rat) (taken : List Rat) (now : Rat) : Rat :=
  let leak (level elapsed : Rat) := max 0 (level - elapsed * (maxRate / timePeriod))
  let last := taken.foldl (fun (level, at_) t => (leak level (t - at_) + 1, t)) (0, now)
  leak last.1 (now - last.2)

/-- The bucket that `aiolimiter` documents. -/
def leakyBucket : AsyncLimiter := fun maxRate timePeriod taken now =>
  bucketLevel maxRate timePeriod taken now + 1 ≤ maxRate

structure Settings where
  llmRateLimitRpm : Nat
  llmConcurrencyLimit : Nat
  llmTimeoutSeconds : Nat
  llmMaxRetries : Nat

/-- The default values of the application's settings. -/
def Settings.default : Settings := ⟨15, 5, 30, 3⟩

/-- Where a call of `complete` stands. -/
inductive Phase where
  | start
  | admitted
  | queued
  | ready (attempt : Nat) (notBefore : Rat)
  | calling (attempt : Nat) (since : Rat)
  | returned (text : String)
  | raised (message : String)
  | recorded (result : Except Failure String)
  | finished (result : Except Failure String)
  | cancelled
  deriving DecidableEq

/-- The request holds a permit of the semaphore. -/
def Phase.inside : Phase → Bool
  | ready _ _ | calling _ _ | returned _ | raised _ | recorded _ => true
  | _ => false

/-- One call of `complete`, with whether it got a token and how many provider
calls it has started. -/
structure Request where
  phase : Phase
  token : Bool
  calls : Nat
  deriving DecidableEq

/-- A thread that runs `generate_content` for one attempt of a request. -/
structure Thread (n : Nat) where
  request : Fin n
  attempt : Nat
  deriving DecidableEq

structure Gateway (n : Nat) where
  clock : Rat
  circuit : CircuitBreaker
  tokens : List Rat
  permits : Nat
  client : Bool
  threads : List (Thread n)
  requests : Fin n → Request

inductive Event (n : Nat) where
  | tick (now : Rat)
  | check (i : Fin n)
  | token (i : Fin n)
  | enter (i : Fin n)
  | attempt (i : Fin n)
  | clientFails (i : Fin n) (message : String)
  | answer (i : Fin n) (response : Except String String)
  | timeout (i : Fin n)
  | finish (thread : Thread n)
  | record (i : Fin n)
  | release (i : Fin n)
  | cancel (i : Fin n)
  deriving DecidableEq

/-- `LLMGateway(settings)`, with `n` calls of `complete` ahead. -/
def Gateway.new (settings : Settings) (n : Nat) : Gateway n where
  clock := 0
  circuit := .new 5 60
  tokens := []
  permits := settings.llmConcurrencyLimit
  client := false
  threads := []
  requests _ := ⟨.start, false, 0⟩

namespace Gateway
variable {n : Nat}

def phase (g : Gateway n) (i : Fin n) : Phase := (g.requests i).phase

def setRequest (g : Gateway n) (i : Fin n) (r : Request) : Gateway n :=
  { g with requests := Function.update g.requests i r }

def setPhase (g : Gateway n) (i : Fin n) (p : Phase) : Gateway n :=
  g.setRequest i { g.requests i with phase := p }

/-- The attempt of the request that waits for this thread is still going on. -/
def awaited (g : Gateway n) (t : Thread n) : Bool :=
  match g.phase t.request with
  | .calling attempt _ => attempt = t.attempt
  | _ => false

end Gateway

/-- `wait_exponential(multiplier=1, min=1, max=10)` after a failed attempt. -/
def waitExponential (attempt : Nat) : Rat := max 1 (min (2 ^ (attempt - 1)) 10)

/-- What tenacity does after an attempt raised: `stop_after_attempt`, or the next
attempt after the wait. -/
def afterFailure (settings : Settings) (now : Rat) (attempt : Nat) (message : String) : Phase :=
  if settings.llmMaxRetries ≤ attempt then .raised message
  else .ready (attempt + 1) (now + waitExponential attempt)

/-- The rest of `_inner` once `generate_content` has come back. -/
def afterResponse (settings : Settings) (now : Rat) (attempt : Nat) :
    Except String String → Phase
  | .error message => afterFailure settings now attempt message
  | .ok text =>
    if text = "" then afterFailure settings now attempt
      (AppError.externalServiceError "LLM" "Empty response from model.").message
    else .returned text

def step {n : Nat} (limiter : AsyncLimiter) (settings : Settings) (g : Gateway n) :
    Event n → Option (Gateway n)
  | .tick now => if g.clock ≤ now then some { g with clock := now } else none
  | .check i => match g.phase i with
    | .start => match g.circuit.check g.clock with
      | (.ok (), circuit) => some ({ g with circuit := circuit }.setPhase i .admitted)
      | (.error e, circuit) =>
        some ({ g with circuit := circuit }.setPhase i (.finished (.error e)))
    | _ => none
  | .token i => match g.phase i with
    | .admitted =>
      if limiter settings.llmRateLimitRpm 60 g.tokens g.clock then
        some ({ g with tokens := g.tokens ++ [g.clock] }.setRequest i
          { g.requests i with phase := .queued, token := true })
      else none
    | _ => none
  | .enter i => match g.phase i, g.permits with
    | .queued, permits + 1 => some ({ g with permits := permits }.setPhase i (.ready 1 g.clock))
    | _, _ => none
  | .attempt i => match g.phase i with
    | .ready attempt notBefore =>
      if notBefore ≤ g.clock then
        some ({ g with client := true, threads := ⟨i, attempt⟩ :: g.threads }.setRequest i
          { g.requests i with
            phase := .calling attempt g.clock, calls := (g.requests i).calls + 1 })
      else none
    | _ => none
  -- `_get_client` raised, which it can only do while it has no client to return
  | .clientFails i message => match g.phase i with
    | .ready attempt notBefore =>
      if notBefore ≤ g.clock && !g.client then
        some (g.setPhase i (afterFailure settings g.clock attempt message))
      else none
    | _ => none
  | .answer i response => match g.phase i with
    | .calling attempt _ => some ({ g with threads := g.threads.erase ⟨i, attempt⟩ }.setPhase i
        (afterResponse settings g.clock attempt response))
    | _ => none
  -- `wait_for` raises a `TimeoutError`, which prints nothing; the thread runs on
  | .timeout i => match g.phase i with
    | .calling attempt since =>
      if since + settings.llmTimeoutSeconds ≤ g.clock then
        some (g.setPhase i (afterFailure settings g.clock attempt ""))
      else none
    | _ => none
  | .finish thread =>
    if thread ∈ g.threads && !g.awaited thread then
      some { g with threads := g.threads.erase thread }
    else none
  | .record i => match g.phase i with
    | .returned text =>
      some ({ g with circuit := g.circuit.recordSuccess }.setPhase i (.recorded (.ok text)))
    | .raised message =>
      some ({ g with circuit := g.circuit.recordFailure g.clock }.setPhase i
        (.recorded (.error (.app (.externalServiceError "LLM" message)))))
    | _ => none
  | .release i => match g.phase i with
    | .recorded result => some ({ g with permits := g.permits + 1 }.setPhase i (.finished result))
    | _ => none
  -- the caller's task is cancelled while the request waits; no outcome is recorded
  | .cancel i => match g.phase i with
    | .start | .admitted | .queued => some (g.setPhase i .cancelled)
    | .ready _ _ | .calling _ _ => some ({ g with permits := g.permits + 1 }.setPhase i .cancelled)
    | _ => none

def gateway {n : Nat} (limiter : AsyncLimiter) (settings : Settings) :
    Machine (Gateway n) (Event n) := ⟨step limiter settings⟩

/-! ## What one step can do -/

section Steps
variable {n : Nat} {limiter : AsyncLimiter} {settings : Settings} {g g' : Gateway n} {e : Event n}

@[simp] theorem setRequest_self (i : Fin n) (r : Request) : (g.setRequest i r).requests i = r := by
  simp [Gateway.setRequest]

theorem setRequest_of_ne {i k : Fin n} (r : Request) (h : k ≠ i) :
    (g.setRequest i r).requests k = g.requests k := by
  simp [Gateway.setRequest, h]

@[simp] theorem setPhase_phase (i : Fin n) (p : Phase) : (g.setPhase i p).phase i = p := by
  simp [Gateway.setPhase, Gateway.phase]

theorem setPhase_phase_of_ne {i k : Fin n} (p : Phase) (h : k ≠ i) :
    (g.setPhase i p).phase k = g.phase k := by
  rw [Gateway.phase, Gateway.setPhase, setRequest_of_ne _ h, Gateway.phase]

@[simp] theorem setRequest_circuit (i : Fin n) (r : Request) :
    (g.setRequest i r).circuit = g.circuit := rfl

@[simp] theorem setPhase_circuit (i : Fin n) (p : Phase) :
    (g.setPhase i p).circuit = g.circuit := rfl

@[simp] theorem setRequest_clock (i : Fin n) (r : Request) :
    (g.setRequest i r).clock = g.clock := rfl

@[simp] theorem setPhase_clock (i : Fin n) (p : Phase) : (g.setPhase i p).clock = g.clock := rfl

/-- Where an attempt may leave its request: done, given up, or due again. -/
inductive AfterAttempt (attempt : Nat) : Phase → Prop
  | returned (text : String) : AfterAttempt attempt (.returned text)
  | raised (message : String) : AfterAttempt attempt (.raised message)
  | ready (notBefore : Rat) : AfterAttempt attempt (.ready (attempt + 1) notBefore)

theorem afterFailure_cases (settings : Settings) (now : Rat) (attempt : Nat) (message : String) :
    AfterAttempt attempt (afterFailure settings now attempt message) := by
  unfold afterFailure
  split
  · exact .raised message
  · exact .ready _

theorem afterResponse_cases (settings : Settings) (now : Rat) (attempt : Nat)
    (response : Except String String) :
    AfterAttempt attempt (afterResponse settings now attempt response) := by
  unfold afterResponse
  split
  · exact afterFailure_cases settings now attempt _
  · split
    · exact afterFailure_cases settings now attempt _
    · exact .returned _

inductive Change (limiter : AsyncLimiter) (settings : Settings) (g : Gateway n) :
    Event n → Gateway n → Prop
  | tick (now : Rat) (later : g.clock ≤ now) :
      Change limiter settings g (.tick now) { g with clock := now }
  | admitted (i : Fin n) (at_start : g.phase i = .start)
      (ok : (g.circuit.check g.clock).1 = .ok ()) :
      Change limiter settings g (.check i)
        ({ g with circuit := (g.circuit.check g.clock).2 }.setPhase i .admitted)
  | refused (i : Fin n) (failure : Failure) (at_start : g.phase i = .start)
      (raised : (g.circuit.check g.clock).1 = .error failure) :
      Change limiter settings g (.check i)
        ({ g with circuit := (g.circuit.check g.clock).2 }.setPhase i (.finished (.error failure)))
  | token (i : Fin n) (waiting : g.phase i = .admitted)
      (granted : limiter settings.llmRateLimitRpm 60 g.tokens g.clock) :
      Change limiter settings g (.token i)
        ({ g with tokens := g.tokens ++ [g.clock] }.setRequest i
          { g.requests i with phase := .queued, token := true })
  | enter (i : Fin n) (permits : Nat) (waiting : g.phase i = .queued)
      (available : g.permits = permits + 1) :
      Change limiter settings g (.enter i)
        ({ g with permits := permits }.setPhase i (.ready 1 g.clock))
  | attempt (i : Fin n) (k : Nat) (notBefore : Rat) (ready : g.phase i = .ready k notBefore)
      (due : notBefore ≤ g.clock) :
      Change limiter settings g (.attempt i)
        ({ g with client := true, threads := ⟨i, k⟩ :: g.threads }.setRequest i
          { g.requests i with phase := .calling k g.clock, calls := (g.requests i).calls + 1 })
  | clientFails (i : Fin n) (k : Nat) (notBefore : Rat) (message : String) (p : Phase)
      (ready : g.phase i = .ready k notBefore) (left : AfterAttempt k p) :
      Change limiter settings g (.clientFails i message) (g.setPhase i p)
  | answer (i : Fin n) (k : Nat) (since : Rat) (response : Except String String) (p : Phase)
      (calling : g.phase i = .calling k since) (left : AfterAttempt k p) :
      Change limiter settings g (.answer i response)
        ({ g with threads := g.threads.erase ⟨i, k⟩ }.setPhase i p)
  | timeout (i : Fin n) (k : Nat) (since : Rat) (p : Phase) (calling : g.phase i = .calling k since)
      (late : since + settings.llmTimeoutSeconds ≤ g.clock) (left : AfterAttempt k p) :
      Change limiter settings g (.timeout i) (g.setPhase i p)
  | finish (t : Thread n) (running : t ∈ g.threads) (left : g.awaited t = false) :
      Change limiter settings g (.finish t) { g with threads := g.threads.erase t }
  | succeeded (i : Fin n) (text : String) (returned : g.phase i = .returned text) :
      Change limiter settings g (.record i)
        ({ g with circuit := g.circuit.recordSuccess }.setPhase i (.recorded (.ok text)))
  | failed (i : Fin n) (message : String) (raised : g.phase i = .raised message) :
      Change limiter settings g (.record i)
        ({ g with circuit := g.circuit.recordFailure g.clock }.setPhase i
          (.recorded (.error (.app (.externalServiceError "LLM" message)))))
  | release (i : Fin n) (result : Except Failure String) (recorded : g.phase i = .recorded result) :
      Change limiter settings g (.release i)
        ({ g with permits := g.permits + 1 }.setPhase i (.finished result))
  | withdrawn (i : Fin n) (waiting : g.phase i ∈ [.start, .admitted, .queued]) :
      Change limiter settings g (.cancel i) (g.setPhase i .cancelled)
  | abandoned (i : Fin n)
      (waiting : (∃ k notBefore, g.phase i = .ready k notBefore) ∨
        ∃ k since, g.phase i = .calling k since) :
      Change limiter settings g (.cancel i)
        ({ g with permits := g.permits + 1 }.setPhase i .cancelled)

theorem tick_change {now : Rat} (h : step limiter settings g (.tick now) = some g') :
    Change limiter settings g (.tick now) g' := by
  simp only [step, Option.ite_none_right_eq_some, Option.some.injEq] at h
  obtain ⟨later, rfl⟩ := h
  exact .tick now later

theorem check_change {i : Fin n} (h : step limiter settings g (.check i) = some g') :
    Change limiter settings g (.check i) g' := by
  simp only [step] at h
  split at h
  · rename_i at_start
    split at h
    · rename_i circuit hc
      cases h
      rw [show circuit = (g.circuit.check g.clock).2 by rw [hc]]
      exact .admitted i at_start (by rw [hc])
    · rename_i failure circuit hc
      cases h
      rw [show circuit = (g.circuit.check g.clock).2 by rw [hc]]
      exact .refused i failure at_start (by rw [hc])
  · cases h

theorem token_change {i : Fin n} (h : step limiter settings g (.token i) = some g') :
    Change limiter settings g (.token i) g' := by
  simp only [step] at h
  split at h
  · rename_i waiting
    simp only [Option.ite_none_right_eq_some, Option.some.injEq] at h
    obtain ⟨granted, rfl⟩ := h
    exact .token i waiting granted
  · cases h

theorem enter_change {i : Fin n} (h : step limiter settings g (.enter i) = some g') :
    Change limiter settings g (.enter i) g' := by
  simp only [step] at h
  split at h
  · rename_i permits waiting available
    cases h
    exact .enter i permits waiting available
  · cases h

theorem attempt_change {i : Fin n} (h : step limiter settings g (.attempt i) = some g') :
    Change limiter settings g (.attempt i) g' := by
  simp only [step] at h
  split at h
  · rename_i k notBefore ready
    simp only [Option.ite_none_right_eq_some, Option.some.injEq] at h
    obtain ⟨due, rfl⟩ := h
    exact .attempt i k notBefore ready due
  · cases h

theorem clientFails_change {i : Fin n} {message : String}
    (h : step limiter settings g (.clientFails i message) = some g') :
    Change limiter settings g (.clientFails i message) g' := by
  simp only [step] at h
  split at h
  · rename_i k notBefore ready
    simp only [Option.ite_none_right_eq_some, Option.some.injEq] at h
    obtain ⟨_, rfl⟩ := h
    exact .clientFails i k notBefore message _ ready (afterFailure_cases settings g.clock k message)
  · cases h

theorem answer_change {i : Fin n} {response : Except String String}
    (h : step limiter settings g (.answer i response) = some g') :
    Change limiter settings g (.answer i response) g' := by
  simp only [step] at h
  split at h
  · rename_i k since calling
    cases h
    exact .answer i k since response _ calling (afterResponse_cases settings g.clock k response)
  · cases h

theorem timeout_change {i : Fin n} (h : step limiter settings g (.timeout i) = some g') :
    Change limiter settings g (.timeout i) g' := by
  simp only [step] at h
  split at h
  · rename_i k since calling
    simp only [Option.ite_none_right_eq_some, Option.some.injEq] at h
    obtain ⟨late, rfl⟩ := h
    exact .timeout i k since _ calling late (afterFailure_cases settings g.clock k "")
  · cases h

theorem finish_change {t : Thread n} (h : step limiter settings g (.finish t) = some g') :
    Change limiter settings g (.finish t) g' := by
  simp only [step, Option.ite_none_right_eq_some, Option.some.injEq] at h
  obtain ⟨both, rfl⟩ := h
  obtain ⟨running, left⟩ := by simpa using both
  exact .finish t running left

theorem record_change {i : Fin n} (h : step limiter settings g (.record i) = some g') :
    Change limiter settings g (.record i) g' := by
  simp only [step] at h
  split at h
  · rename_i text returned
    cases h
    exact .succeeded i text returned
  · rename_i message raised
    cases h
    exact .failed i message raised
  · cases h

theorem release_change {i : Fin n} (h : step limiter settings g (.release i) = some g') :
    Change limiter settings g (.release i) g' := by
  simp only [step] at h
  split at h
  · rename_i result recorded
    cases h
    exact .release i result recorded
  · cases h

theorem cancel_change {i : Fin n} (h : step limiter settings g (.cancel i) = some g') :
    Change limiter settings g (.cancel i) g' := by
  simp only [step] at h
  split at h
  · rename_i waiting
    cases h
    exact .withdrawn i (by simp [waiting])
  · rename_i waiting
    cases h
    exact .withdrawn i (by simp [waiting])
  · rename_i waiting
    cases h
    exact .withdrawn i (by simp [waiting])
  · rename_i k notBefore waiting
    cases h
    exact .abandoned i (Or.inl ⟨k, notBefore, waiting⟩)
  · rename_i k since waiting
    cases h
    exact .abandoned i (Or.inr ⟨k, since, waiting⟩)
  · cases h

theorem step_change (h : step limiter settings g e = some g') : Change limiter settings g e g' := by
  cases e with
  | tick => exact tick_change h
  | check => exact check_change h
  | token => exact token_change h
  | enter => exact enter_change h
  | attempt => exact attempt_change h
  | clientFails => exact clientFails_change h
  | answer => exact answer_change h
  | timeout => exact timeout_change h
  | finish => exact finish_change h
  | record => exact record_change h
  | release => exact release_change h
  | cancel => exact cancel_change h

/-! ## The way of one request -/

/-- The request waits at a point where its task may be cancelled. -/
def Phase.waits : Phase → Bool
  | start | admitted | queued | ready _ _ | calling _ _ => true
  | _ => false

/-- How an event moves the request it is about. -/
inductive Moves (k : Fin n) : Event n → Phase → Phase → Prop
  | admitted : Moves k (.check k) .start .admitted
  | refused (failure : Failure) : Moves k (.check k) .start (.finished (.error failure))
  | token : Moves k (.token k) .admitted .queued
  | enter (now : Rat) : Moves k (.enter k) .queued (.ready 1 now)
  | attempt (a : Nat) (notBefore now : Rat) :
      Moves k (.attempt k) (.ready a notBefore) (.calling a now)
  | clientFails (a : Nat) (notBefore : Rat) (message : String) (p : Phase) (left : AfterAttempt a p) :
      Moves k (.clientFails k message) (.ready a notBefore) p
  | answer (a : Nat) (since : Rat) (response : Except String String) (p : Phase)
      (left : AfterAttempt a p) : Moves k (.answer k response) (.calling a since) p
  | timeout (a : Nat) (since : Rat) (p : Phase) (left : AfterAttempt a p) :
      Moves k (.timeout k) (.calling a since) p
  | succeeded (text : String) : Moves k (.record k) (.returned text) (.recorded (.ok text))
  | failed (message : String) : Moves k (.record k) (.raised message)
      (.recorded (.error (.app (.externalServiceError "LLM" message))))
  | release (result : Except Failure String) :
      Moves k (.release k) (.recorded result) (.finished result)
  | cancel (p : Phase) (waiting : p.waits) : Moves k (.cancel k) p .cancelled

theorem setRequest_moves {i : Fin n} {r : Request} (h : Moves i e (g.phase i) r.phase) (k : Fin n) :
    (g.setRequest i r).phase k = g.phase k ∨
      Moves k e (g.phase k) ((g.setRequest i r).phase k) := by
  by_cases hk : k = i
  · subst hk
    right
    rw [show (g.setRequest k r).phase k = r.phase by simp [Gateway.phase]]
    exact h
  · left
    rw [Gateway.phase, setRequest_of_ne r hk, Gateway.phase]

theorem setPhase_moves {i : Fin n} {p : Phase} (h : Moves i e (g.phase i) p) (k : Fin n) :
    (g.setPhase i p).phase k = g.phase k ∨ Moves k e (g.phase k) ((g.setPhase i p).phase k) :=
  setRequest_moves (r := { g.requests i with phase := p }) h k

theorem step_moves (h : step limiter settings g e = some g') (k : Fin n) :
    g'.phase k = g.phase k ∨ Moves k e (g.phase k) (g'.phase k) := by
  cases step_change h with
  | tick now later => exact Or.inl rfl
  | admitted i at_start ok =>
    exact setPhase_moves (g := { g with circuit := _ }) (at_start ▸ .admitted) k
  | refused i failure at_start raised =>
    exact setPhase_moves (g := { g with circuit := _ }) (at_start ▸ .refused failure) k
  | token i waiting granted =>
    exact setRequest_moves (g := { g with tokens := _ }) (waiting ▸ .token) k
  | enter i permits waiting available =>
    exact setPhase_moves (g := { g with permits := _ }) (waiting ▸ .enter _) k
  | attempt i a notBefore ready due =>
    exact setRequest_moves (g := { g with client := _, threads := _ }) (ready ▸ .attempt a notBefore _) k
  | clientFails i a notBefore message p ready left =>
    exact setPhase_moves (ready ▸ .clientFails a notBefore message p left) k
  | answer i a since response p calling left =>
    exact setPhase_moves (g := { g with threads := _ }) (calling ▸ .answer a since response p left) k
  | timeout i a since p calling late left =>
    exact setPhase_moves (calling ▸ .timeout a since p left) k
  | finish t running left => exact Or.inl rfl
  | succeeded i text returned =>
    exact setPhase_moves (g := { g with circuit := _ }) (returned ▸ .succeeded text) k
  | failed i message raised =>
    exact setPhase_moves (g := { g with circuit := _ }) (raised ▸ .failed message) k
  | release i result recorded =>
    exact setPhase_moves (g := { g with permits := _ }) (recorded ▸ .release result) k
  | withdrawn i waiting =>
    refine setPhase_moves (.cancel _ ?_) k
    simp only [List.mem_cons, List.not_mem_nil, or_false] at waiting
    rcases waiting with hp | hp | hp <;> rw [hp] <;> rfl
  | abandoned i waiting =>
    refine setPhase_moves (g := { g with permits := _ }) (.cancel _ ?_) k
    rcases waiting with ⟨a, notBefore, hp⟩ | ⟨a, since, hp⟩
    · exact hp ▸ rfl
    · exact hp ▸ rfl

end Steps

end LlmGateway
