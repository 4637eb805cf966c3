import ResearchPlatform.Schema
import ResearchPlatform.Library.Numerals
import Mathlib.Algebra.Order.Ring.Unbundled.Rat
import Mathlib.Data.List.Induction
import Mathlib.Tactic.Linarith

/-!
# The circuit breaker of the LLM gateway

`CircuitBreaker` with the readings of `time.monotonic` as exact rationals. Its
three methods run under one lock and wait for nothing inside it, so a history
of the breaker is a list of calls with their readings.
-/

namespace LlmGateway

open Schema

inductive CircuitState where
  | closed | opened | halfOpen
  deriving DecidableEq, Repr

structure CircuitBreaker where
  failureThreshold : Nat
  recoveryTimeout : Rat
  state : CircuitState
  failureCount : Nat
  lastFailureTime : Rat
  deriving DecidableEq

def circuitOpenError (remaining : Rat) : Failure :=
  .app (.externalServiceError "LLM"
    ("Circuit breaker is OPEN. Retry after " ++ toString (Numerals.roundHalfEven remaining) ++ "s."))

namespace CircuitBreaker

/-- `CircuitBreaker(failure_threshold, recovery_timeout)`. -/
def new (failureThreshold : Nat) (recoveryTimeout : Rat) : CircuitBreaker :=
  ⟨failureThreshold, recoveryTimeout, .closed, 0, 0⟩

def check (b : CircuitBreaker) (now : Rat) : Except Failure Unit × CircuitBreaker :=
  match b.state with
  | .closed => (.ok (), b)
  | .opened =>
    if b.recoveryTimeout ≤ now - b.lastFailureTime then (.ok (), { b with state := .halfOpen })
    else (.error (circuitOpenError (b.recoveryTimeout - (now - b.lastFailureTime))), b)
  | .halfOpen => (.ok (), b)

def recordSuccess (b : CircuitBreaker) : CircuitBreaker :=
  { b with failureCount := 0, state := .closed }

def recordFailure (b : CircuitBreaker) (now : Rat) : CircuitBreaker :=
  let failed := { b with failureCount := b.failureCount + 1, lastFailureTime := now }
  match b.state with
  | .halfOpen => { failed with state := .opened }
  | _ => if b.failureThreshold ≤ failed.failureCount then { failed with state := .opened } else failed

end CircuitBreaker

/-- Everything that a check can do. -/
inductive CircuitBreaker.Checked (b : CircuitBreaker) (now : Rat) :
    Except Failure Unit × CircuitBreaker → Prop
  | closed (state : b.state = .closed) : Checked b now (.ok (), b)
  | probing (state : b.state = .opened) (elapsed : b.recoveryTimeout ≤ now - b.lastFailureTime) :
      Checked b now (.ok (), { b with state := .halfOpen })
  | refused (state : b.state = .opened) (recent : now - b.lastFailureTime < b.recoveryTimeout) :
      Checked b now
        (.error (circuitOpenError (b.recoveryTimeout - (now - b.lastFailureTime))), b)
  | halfOpen (state : b.state = .halfOpen) : Checked b now (.ok (), b)

theorem check_cases (b : CircuitBreaker) (now : Rat) : b.Checked now (b.check now) := by
  unfold CircuitBreaker.check
  cases hs : b.state with
  | closed => exact .closed hs
  | opened =>
    dsimp only
    split
    · rename_i elapsed
      exact .probing hs elapsed
    · rename_i recent
      exact .refused hs (not_le.mp recent)
  | halfOpen => exact .halfOpen hs

/-- A recorded failure opens the circuit, or leaves a closed one closed. -/
theorem recordFailure_state (b : CircuitBreaker) (now : Rat) :
    (b.recordFailure now).state = .opened ∨
      (b.recordFailure now).state = b.state ∧ b.state ≠ .halfOpen := by
  unfold CircuitBreaker.recordFailure
  split
  · exact Or.inl rfl
  · rename_i notHalfOpen
    dsimp only
    split
    · exact Or.inl rfl
    · exact Or.inr ⟨rfl, notHalfOpen⟩

/-! ## Histories -/

inductive Call where
  | check | recordSuccess | recordFailure
  deriving DecidableEq, Repr

/-- The calls that one breaker has answered, with the readings they took. -/
abbrev History := List (Call × Rat)

def CircuitBreaker.respond (b : CircuitBreaker) : Call × Rat → CircuitBreaker
  | (.check, now) => (b.check now).2
  | (.recordSuccess, _) => b.recordSuccess
  | (.recordFailure, now) => b.recordFailure now

def CircuitBreaker.replay (b : CircuitBreaker) (history : History) : CircuitBreaker :=
  history.foldl CircuitBreaker.respond b

def readings (history : History) : List Rat := history.map Prod.snd

/-- The failures recorded since the last recorded success, or ever. -/
def failuresSinceSuccess (history : History) : Nat :=
  (history.reverse.takeWhile fun call => call.1 ≠ .recordSuccess).countP fun call =>
    call.1 = .recordFailure

/-- The reading of the last recorded failure. -/
def lastFailure (history : History) : Option Rat :=
  (history.reverse.find? fun call => call.1 = .recordFailure).map Prod.snd

@[simp] theorem replay_snoc (b : CircuitBreaker) (history : History) (call : Call × Rat) :
    b.replay (history ++ [call]) = (b.replay history).respond call := by
  simp [CircuitBreaker.replay]

section Snoc
variable (history : History) (now : Rat)

@[simp] theorem failuresSinceSuccess_check :
    failuresSinceSuccess (history ++ [(.check, now)]) = failuresSinceSuccess history := by
  simp [failuresSinceSuccess]

@[simp] theorem failuresSinceSuccess_success :
    failuresSinceSuccess (history ++ [(.recordSuccess, now)]) = 0 := by
  simp [failuresSinceSuccess]

@[simp] theorem failuresSinceSuccess_failure :
    failuresSinceSuccess (history ++ [(.recordFailure, now)]) = failuresSinceSuccess history + 1 := by
  simp [failuresSinceSuccess]

@[simp] theorem lastFailure_check :
    lastFailure (history ++ [(.check, now)]) = lastFailure history := by
  simp [lastFailure]

@[simp] theorem lastFailure_success :
    lastFailure (history ++ [(.recordSuccess, now)]) = lastFailure history := by
  simp [lastFailure]

@[simp] theorem lastFailure_failure :
    lastFailure (history ++ [(.recordFailure, now)]) = some now := by
  simp [lastFailure]

end Snoc

section Settings
variable (b : CircuitBreaker) (now : Rat) (call : Call × Rat)

theorem check_settings : (b.check now).2.failureThreshold = b.failureThreshold ∧
    (b.check now).2.recoveryTimeout = b.recoveryTimeout := by
  have cases := check_cases b now
  generalize b.check now = answer at cases
  cases cases with
  | closed | probing | refused | halfOpen => exact ⟨rfl, rfl⟩

theorem recordFailure_settings : (b.recordFailure now).failureThreshold = b.failureThreshold ∧
    (b.recordFailure now).recoveryTimeout = b.recoveryTimeout := by
  unfold CircuitBreaker.recordFailure
  split
  · exact ⟨rfl, rfl⟩
  · dsimp only
    split <;> exact ⟨rfl, rfl⟩

theorem respond_settings : (b.respond call).failureThreshold = b.failureThreshold ∧
    (b.respond call).recoveryTimeout = b.recoveryTimeout := by
  obtain ⟨call, now⟩ := call
  cases call with
  | check => exact check_settings b now
  | recordSuccess => exact ⟨rfl, rfl⟩
  | recordFailure => exact recordFailure_settings b now

theorem replay_settings (history : History) :
    (b.replay history).failureThreshold = b.failureThreshold ∧
      (b.replay history).recoveryTimeout = b.recoveryTimeout := by
  induction history using List.reverseRecOn with
  | nil => exact ⟨rfl, rfl⟩
  | append_singleton history call ih =>
    rw [replay_snoc]
    obtain ⟨threshold, timeout⟩ := respond_settings (b.replay history) call
    exact ⟨threshold.trans ih.1, timeout.trans ih.2⟩

end Settings

/-! ## The closed form -/

/-- What a history of calls, none of them later than `now`, has made of a breaker. -/
structure Explains (history : History) (now : Rat) (b : CircuitBreaker) : Prop where
  counted : b.failureCount = failuresSinceSuccess history
  closed : b.state = .closed ↔ b.failureCount < b.failureThreshold
  dated : 0 < b.failureCount → lastFailure history = some b.lastFailureTime
  probing : b.state = .halfOpen → b.recoveryTimeout ≤ now - b.lastFailureTime

namespace Explains
variable {history : History} {before now : Rat} {b : CircuitBreaker}

theorem new {failureThreshold : Nat} (positive : 1 ≤ failureThreshold) (recoveryTimeout : Rat) :
    Explains [] now (.new failureThreshold recoveryTimeout) where
  counted := rfl
  closed := iff_of_true rfl positive
  dated := by simp [CircuitBreaker.new]
  probing := by simp [CircuitBreaker.new]

theorem later (h : Explains history before b) (le : before ≤ now) : Explains history now b where
  counted := h.counted
  closed := h.closed
  dated := h.dated
  probing := by
    intro halfOpen
    have since := h.probing halfOpen
    linarith

theorem check (h : Explains history now b) :
    Explains (history ++ [(.check, now)]) now (b.check now).2 := by
  obtain ⟨counted, closed, dated, probing⟩ := h
  have cases := check_cases b now
  generalize b.check now = answer at cases
  cases cases with
  | probing state elapsed =>
    refine ⟨by simp [counted], ?_, by simpa using dated, fun _ => elapsed⟩
    simpa [state] using closed
  | closed | refused | halfOpen =>
    exact ⟨by simp [counted], closed, by simpa using dated, probing⟩

theorem recordSuccess (positive : 1 ≤ b.failureThreshold) :
    Explains (history ++ [(.recordSuccess, now)]) now b.recordSuccess where
  counted := by simp [CircuitBreaker.recordSuccess]
  closed := iff_of_true rfl positive
  dated := by simp [CircuitBreaker.recordSuccess]
  probing := by simp [CircuitBreaker.recordSuccess]

/-- A late failure finds the circuit open already, or past the threshold. -/
theorem recordFailure (h : Explains history now b) :
    Explains (history ++ [(.recordFailure, now)]) now (b.recordFailure now) := by
  obtain ⟨counted, closed, dated, probing⟩ := h
  unfold CircuitBreaker.recordFailure
  cases hs : b.state with
  | halfOpen =>
    have reached : ¬ b.failureCount < b.failureThreshold := by simp [← closed, hs]
    refine ⟨by simp [counted], ?_, by simp, by simp⟩
    simp only [reduceCtorEq, false_iff]
    omega
  | closed =>
    dsimp only
    split
    · refine ⟨by simp [counted], ?_, by simp, by simp⟩
      simp only [reduceCtorEq, false_iff]
      omega
    · refine ⟨by simp [counted], ?_, by simp, by simp⟩
      simp only [true_iff]
      omega
  | opened =>
    have reached : ¬ b.failureCount < b.failureThreshold := by simp [← closed, hs]
    dsimp only
    split
    · refine ⟨by simp [counted], ?_, by simp, by simp⟩
      simp only [reduceCtorEq, false_iff]
      omega
    · omega

theorem respond (h : Explains history now b) (positive : 1 ≤ b.failureThreshold) (call : Call) :
    Explains (history ++ [(call, now)]) now (b.respond (call, now)) := by
  cases call with
  | check => exact h.check
  | recordSuccess => exact .recordSuccess positive
  | recordFailure => exact h.recordFailure

/-- A request is refused exactly when the circuit has failed often enough, and
last failed not long enough ago. -/
theorem check_error_iff (h : Explains history now b) (positive : 1 ≤ b.failureThreshold) :
    (∃ e, (b.check now).1 = .error e) ↔ b.failureThreshold ≤ failuresSinceSuccess history ∧
      ∃ last, lastFailure history = some last ∧ now - last < b.recoveryTimeout := by
  obtain ⟨counted, closed, dated, probing⟩ := h
  rw [← counted]
  constructor
  · rintro ⟨e, raised⟩
    have opened : b.state = .opened := by
      cases hs : b.state with
      | closed => simp [CircuitBreaker.check, hs] at raised
      | opened => rfl
      | halfOpen => simp [CircuitBreaker.check, hs] at raised
    have reached : ¬ b.failureCount < b.failureThreshold := by simp [← closed, opened]
    refine ⟨by omega, b.lastFailureTime, dated (by omega), ?_⟩
    by_contra elapsed
    simp [CircuitBreaker.check, opened, not_lt.mp elapsed] at raised
  · rintro ⟨reached, last, atLast, recent⟩
    rw [dated (by omega), Option.some.injEq] at atLast
    subst atLast
    have opened : b.state = .opened := by
      cases hs : b.state with
      | closed =>
        have below := closed.mp hs
        omega
      | opened => rfl
      | halfOpen => exact absurd (probing hs) (not_le.mpr recent)
    refine ⟨circuitOpenError (b.recoveryTimeout - (now - b.lastFailureTime)), ?_⟩
    simp [CircuitBreaker.check, opened, not_le.mpr recent]

end Explains

theorem explains_replay {failureThreshold : Nat} {recoveryTimeout now : Rat} {history : History}
    (positive : 1 ≤ failureThreshold) (ordered : (readings history ++ [now]).Pairwise (· ≤ ·)) :
    Explains history now ((CircuitBreaker.new failureThreshold recoveryTimeout).replay history) := by
  induction history using List.reverseRecOn generalizing now with
  | nil => exact .new positive recoveryTimeout
  | append_singleton history call ih =>
    obtain ⟨call, reading⟩ := call
    simp only [readings, List.map_append, List.map_cons, List.map_nil] at ordered
    obtain ⟨earlier, -, last⟩ := List.pairwise_append.mp ordered
    rw [replay_snoc]
    refine ((ih earlier).respond ?_ call).later (last reading (by simp) now (by simp))
    rw [(replay_settings _ history).1]
    exact positive

/-- The breaker in closed form: after any history of calls, a check is refused
exactly when at least the threshold of failures was recorded since the last
success and the last of them is less than the timeout old, and the circuit is
closed exactly below the threshold. -/
theorem circuit_closed_form {failureThreshold : Nat} {recoveryTimeout now : Rat} {history : History}
    (positive : 1 ≤ failureThreshold)
    (ordered : (readings history ++ [now]).Pairwise (· ≤ ·)) :
    ((∃ e, (((CircuitBreaker.new failureThreshold recoveryTimeout).replay history).check now).1 =
        .error e) ↔
      failureThreshold ≤ failuresSinceSuccess history ∧
        ∃ last, lastFailure history = some last ∧ now - last < recoveryTimeout) ∧
    (((CircuitBreaker.new failureThreshold recoveryTimeout).replay history).state = .closed ↔
      failuresSinceSuccess history < failureThreshold) := by
  have explains : Explains history now
      ((CircuitBreaker.new failureThreshold recoveryTimeout).replay history) :=
    explains_replay positive ordered
  obtain ⟨threshold, timeout⟩ := replay_settings (.new failureThreshold recoveryTimeout) history
  have refused := explains.check_error_iff (by rw [threshold]; exact positive)
  have closed := explains.closed
  rw [explains.counted] at closed
  rw [threshold, timeout] at refused
  rw [threshold] at closed
  exact ⟨refused, closed⟩

theorem circuit_closed_form_late_failure :
    let history : History := [(.recordFailure, 1), (.recordFailure, 2), (.check, 12), (.recordFailure, 13)]
    ((∃ e, (((CircuitBreaker.new 2 10).replay history).check 14).1 = .error e) ↔
      2 ≤ failuresSinceSuccess history ∧ ∃ last, lastFailure history = some last ∧ 14 - last < 10) ∧
    (((CircuitBreaker.new 2 10).replay history).state = .closed ↔ failuresSinceSuccess history < 2) :=
  circuit_closed_form (by decide) (by decide)

end LlmGateway
