import ResearchPlatform.LlmGateway

/-!
# The circuit over whole runs of the gateway

What overlapping requests make of the breaker: how many of them a half-open
circuit lets through, which transitions it makes, and in which state it can be
when a provider call starts.
-/

namespace LlmGateway

open Schema Machines

section Runs
variable {n : Nat} {limiter : AsyncLimiter} {settings : Settings} {g g' : Gateway n} {e : Event n}

/-- What a run shows of the circuit: the answers of the checks, a check that
turned the circuit half-open apart, and the outcomes recorded. -/
inductive Seen (n : Nat) where
  | probing (i : Fin n)
  | admitted (i : Fin n)
  | refused (i : Fin n)
  | outcome (i : Fin n)
  deriving DecidableEq

def Seen.admits : Seen n → Bool
  | probing _ | admitted _ => true
  | refused _ | outcome _ => false

def seen (g : Gateway n) : Event n → Option (Seen n)
  | .check i => match (g.circuit.check g.clock).1 with
    | .ok () => if g.circuit.state = .opened then some (.probing i) else some (.admitted i)
    | .error _ => some (.refused i)
  | .record i => some (.outcome i)
  | _ => none

/-- From the check that turns the circuit half-open until an outcome is recorded,
no other check lets a request through. -/
def OneProbe (past : List (Seen n)) : Prop :=
  ∀ before i during x after, past = before ++ .probing i :: (during ++ x :: after) →
    x.admits → ∃ k, .outcome k ∈ during

/-- A probe has been let through and nothing was recorded since. -/
def ProbeOut (past : List (Seen n)) : Prop :=
  ∃ before i during, past = before ++ .probing i :: during ∧ ∀ k, .outcome k ∉ during

theorem probeOut_snoc (past : List (Seen n)) (x : Seen n) :
    ProbeOut (past ++ [x]) ↔ (∃ i, x = .probing i) ∨ ProbeOut past ∧ ∀ k, x ≠ .outcome k := by
  constructor
  · rintro ⟨before, i, during, whole, quiet⟩
    rcases List.eq_nil_or_concat during with rfl | ⟨during, y, rfl⟩
    · obtain ⟨-, last⟩ := List.append_inj' whole rfl
      exact Or.inl ⟨i, List.singleton_inj.mp last⟩
    · rw [List.concat_eq_append, ← List.cons_append, ← List.append_assoc] at whole
      obtain ⟨rfl, last⟩ := List.append_inj' whole rfl
      cases last
      refine Or.inr ⟨⟨before, i, during, rfl, ?_⟩, ?_⟩
      · intro k hk
        exact quiet k (by simp [hk])
      · rintro k rfl
        exact quiet k (by simp)
  · rintro (⟨i, rfl⟩ | ⟨⟨before, i, during, rfl, quiet⟩, notOutcome⟩)
    · exact ⟨past, i, [], rfl, by simp⟩
    · refine ⟨before, i, during ++ [x], by simp, ?_⟩
      intro k hk
      rcases List.mem_append.mp hk with hk | hk
      · exact quiet k hk
      · exact notOutcome k (List.mem_singleton.mp hk).symm

theorem oneProbe_prefix (past more : List (Seen n)) (h : OneProbe (past ++ more)) :
    OneProbe past := by
  rintro before i during x after rfl admits
  exact h before i during x (after ++ more) (by simp) admits

theorem oneProbe_snoc {past : List (Seen n)} (x : Seen n) (h : OneProbe past) :
    OneProbe (past ++ [x]) ↔ (x.admits → ¬ ProbeOut past) := by
  constructor
  · rintro one admits ⟨before, i, during, rfl, quiet⟩
    obtain ⟨k, hk⟩ := one before i during x [] (by simp) admits
    exact quiet k hk
  · intro free before i during y after whole admits
    rcases List.eq_nil_or_concat after with rfl | ⟨after, z, rfl⟩
    · have split : past ++ [x] = (before ++ .probing i :: during) ++ [y] := by simp [whole]
      obtain ⟨rfl, last⟩ := List.append_inj' split rfl
      cases last
      by_contra quiet
      exact free admits ⟨before, i, during, rfl, fun k hk => quiet ⟨k, hk⟩⟩
    · have split : past ++ [x] = (before ++ .probing i :: (during ++ y :: after)) ++ [z] := by
        simp [whole]
      obtain ⟨rfl, -⟩ := List.append_inj' split rfl
      exact h before i during y after rfl admits

/-- What a step shows, and what it makes of the circuit. -/
inductive Told (g : Gateway n) : Event n → CircuitBreaker → Option (Seen n) → Prop
  | silent (e : Event n) (check : ∀ i, e ≠ .check i) : Told g e g.circuit none
  | probing (i : Fin n) (b : CircuitBreaker) (before : g.circuit.state = .opened)
      (after : b.state = .halfOpen) : Told g (.check i) b (some (.probing i))
  | admitted (i : Fin n) (state : g.circuit.state ≠ .opened) :
      Told g (.check i) g.circuit (some (.admitted i))
  | refused (i : Fin n) (state : g.circuit.state = .opened) :
      Told g (.check i) g.circuit (some (.refused i))
  | outcome (i : Fin n) (b : CircuitBreaker) (after : b.state ≠ .halfOpen) :
      Told g (.record i) b (some (.outcome i))

theorem told_check (i : Fin n) :
    Told g (.check i) (g.circuit.check g.clock).2 (seen g (.check i)) := by
  have cases := check_cases g.circuit g.clock
  generalize ha : g.circuit.check g.clock = answer at cases
  cases cases with
  | closed state =>
    simpa [seen, ha, state] using Told.admitted (g := g) i (by simp [state])
  | probing state elapsed =>
    simpa [seen, ha, state] using Told.probing (g := g) i _ state rfl
  | refused state recent =>
    simpa [seen, ha] using Told.refused (g := g) i state
  | halfOpen state =>
    simpa [seen, ha, state] using Told.admitted (g := g) i (by simp [state])

theorem step_told (h : step limiter settings g e = some g') : Told g e g'.circuit (seen g e) := by
  cases step_change h with
  | admitted i at_start ok => exact told_check i
  | refused i failure at_start raised => exact told_check i
  | succeeded i text returned => exact .outcome i _ (by simp [CircuitBreaker.recordSuccess])
  | failed i message raised =>
    refine .outcome i _ ?_
    rcases recordFailure_state g.circuit g.clock with opened | ⟨same, notHalfOpen⟩
    · simp [opened]
    · simpa [same] using notHalfOpen
  | tick | token | enter | attempt | clientFails | answer | timeout | finish | release | withdrawn
  | abandoned => exact .silent _ (by simp)

/-- The circuit is half-open while a probe is out, and only then. -/
theorem probeOut_step {past : List (Seen n)}
    (hs : g.circuit.state = .halfOpen ↔ ProbeOut past)
    (h : step limiter settings g e = some g') :
    g'.circuit.state = .halfOpen ↔ ProbeOut (past ++ (seen g e).toList) := by
  have told := step_told h
  generalize g'.circuit = b at told
  generalize seen g e = x at told
  cases told with
  | silent check => simpa using hs
  | probing i _ before after => simp [probeOut_snoc, after]
  | admitted i state => simpa [probeOut_snoc] using hs
  | refused i state => simpa [probeOut_snoc] using hs
  | outcome i _ after => simp [probeOut_snoc, after]

namespace Demo

/-- The way of a request to its first provider call. -/
def toFirstCall (i : Fin n) : List (Event n) := [.check i, .token i, .enter i, .attempt i]

/-- Three attempts fail, with the waits between them, and the failure is recorded. -/
def failing (i : Fin n) (now : Rat) : List (Event n) :=
  [.answer i (.error "503"), .tick (now + 1), .attempt i, .answer i (.error "503"),
    .tick (now + 3), .attempt i, .answer i (.error "503"), .record i, .release i]

/-- One request after the other fails. -/
def outage : List (Fin n) → Rat → List (Event n)
  | [], _ => []
  | i :: is, now => toFirstCall i ++ failing i now ++ outage is (now + 3)

/-- After four failures five requests take all permits and `waiting` queues; then
the first of the five fails too. -/
def backlog (failed inside : List (Fin n)) (first waiting : Fin n) : List (Event n) :=
  outage failed 0 ++ toFirstCall first ++ inside.flatMap toFirstCall ++
    [.check waiting, .token waiting] ++ failing first 12

end Demo

/-- No more than one request is let through for each probe exactly in the runs
in which nobody asks a half-open circuit. -/
theorem one_probe_iff (es : List (Event n)) :
    OneProbe ((gateway limiter settings).observed seen (.new settings n) es) ↔
      (gateway limiter settings).EveryStep (fun g e _ =>
        ∀ i, e = .check i → g.circuit.state ≠ .halfOpen) (.new settings n) es := by
  have start : (Gateway.new settings n).circuit.state = .halfOpen ↔ ProbeOut ([] : List (Seen n)) := by
    simp [Gateway.new, CircuitBreaker.new, ProbeOut]
  have empty : OneProbe ([] : List (Seen n)) := by simp [OneProbe]
  refine Machine.observed_iff (J := fun g past => g.circuit.state = .halfOpen ↔ ProbeOut past)
    (fun g e g' past hs h => probeOut_step hs h) ?_ oneProbe_prefix start empty
  intro g e g' past hs one h
  have told := step_told h
  generalize g'.circuit = b at told
  generalize seen g e = x at told
  cases told with
  | silent _ check => simp [one, check]
  | probing i _ before after => simp [oneProbe_snoc _ one, Seen.admits, ← hs, before]
  | admitted i state => simp [oneProbe_snoc _ one, Seen.admits, ← hs]
  | refused i state => simp [oneProbe_snoc _ one, Seen.admits, state]
  | outcome i _ after => simp [oneProbe_snoc _ one, Seen.admits]

/-- A minute after an outage two requests probe the provider at the same time. -/
theorem one_probe_not_two :
    ¬ OneProbe ((gateway leakyBucket .default).observed seen (.new .default 7)
      (Demo.outage [0, 1, 2, 3, 4] 0 ++ [.tick 75, .check 5, .check 6])) := by
  have shown : ∃ before, (gateway leakyBucket .default).observed seen (.new .default 7)
      (Demo.outage [0, 1, 2, 3, 4] 0 ++ [.tick 75, .check 5, .check 6]) =
      before ++ .probing 5 :: ([] ++ .admitted 6 :: []) :=
    ⟨[.admitted 0, .outcome 0, .admitted 1, .outcome 1, .admitted 2, .outcome 2, .admitted 3,
      .outcome 3, .admitted 4, .outcome 4], by decide +kernel⟩
  obtain ⟨before, shown⟩ := shown
  intro one
  obtain ⟨k, hk⟩ := one before 5 [] (.admitted 6) [] shown rfl
  cases hk

/-! ## Transitions -/

/-- The transitions that the state machine in the documentation has. -/
def Documented : CircuitState → CircuitState → Prop
  | .closed, .opened | .opened, .halfOpen | .halfOpen, .closed | .halfOpen, .opened => True
  | _, _ => False

instance : ∀ s t, Decidable (Documented s t)
  | .closed, .opened | .opened, .halfOpen | .halfOpen, .closed | .halfOpen, .opened => isTrue trivial
  | .closed, .closed | .closed, .halfOpen | .opened, .closed | .opened, .opened
  | .halfOpen, .halfOpen => isFalse id

/-- The step records the success of a request while the circuit is open. -/
def LateSuccess (g : Gateway n) (e : Event n) : Prop :=
  ∃ i text, e = .record i ∧ g.phase i = .returned text ∧ g.circuit.state = .opened

theorem check_documented (b : CircuitBreaker) (now : Rat) :
    (b.check now).2.state ≠ b.state → Documented b.state (b.check now).2.state := by
  have cases := check_cases b now
  generalize b.check now = answer at cases
  cases cases with
  | closed state => exact fun changed => absurd rfl changed
  | probing state elapsed =>
    rw [state]
    exact fun _ => trivial
  | refused state recent => exact fun changed => absurd rfl changed
  | halfOpen state => exact fun changed => absurd rfl changed

theorem recordFailure_documented (b : CircuitBreaker) (now : Rat) :
    (b.recordFailure now).state ≠ b.state → Documented b.state (b.recordFailure now).state := by
  intro changed
  rcases recordFailure_state b now with opened | ⟨same, -⟩
  · rw [opened] at changed ⊢
    cases hs : b.state with
    | closed => trivial
    | opened => exact absurd hs.symm changed
    | halfOpen => trivial
  · exact absurd same changed

/-- The circuit changes as documented, but for a success that comes late. -/
theorem step_documented_iff (h : step limiter settings g e = some g') :
    (g'.circuit.state ≠ g.circuit.state → Documented g.circuit.state g'.circuit.state) ↔
      ¬ LateSuccess g e := by
  cases step_change h with
  | admitted i at_start ok =>
    simp only [setPhase_circuit, LateSuccess, reduceCtorEq, false_and, exists_false,
      not_false_eq_true, iff_true]
    exact check_documented g.circuit g.clock
  | refused i failure at_start raised =>
    simp only [setPhase_circuit, LateSuccess, reduceCtorEq, false_and, exists_false,
      not_false_eq_true, iff_true]
    exact check_documented g.circuit g.clock
  | succeeded i text returned =>
    cases hs : g.circuit.state with
    | closed => simp [CircuitBreaker.recordSuccess, LateSuccess, hs]
    | opened =>
      refine iff_of_false ?_ (fun no => no ⟨i, text, rfl, returned, hs⟩)
      simp [CircuitBreaker.recordSuccess, Documented]
    | halfOpen => simp [CircuitBreaker.recordSuccess, LateSuccess, hs, Documented]
  | failed i message raised =>
    refine iff_of_true (recordFailure_documented g.circuit g.clock) ?_
    rintro ⟨k, text, same, returned, -⟩
    cases same
    rw [raised] at returned
    cases returned
  | tick | token | enter | attempt | clientFails | answer | timeout | finish | release | withdrawn
  | abandoned => simp [LateSuccess]

/-- A run makes only documented transitions exactly when no success is recorded
while the circuit is open. -/
theorem documented_transitions_iff (es : List (Event n)) :
    (gateway limiter settings).EveryStep (fun g _ g' =>
        g'.circuit.state ≠ g.circuit.state → Documented g.circuit.state g'.circuit.state)
        (.new settings n) es ↔
      (gateway limiter settings).EveryStep (fun g e _ => ¬ LateSuccess g e) (.new settings n) es :=
  Machine.everyStep_congr (I := fun _ => True) (fun _ _ _ _ h => step_documented_iff h)
    (fun _ _ _ _ _ _ => trivial) trivial

/-- A request let through before the outage succeeds while the circuit is open. -/
theorem documented_transitions_not_late :
    ¬ (gateway leakyBucket .default).EveryStep (fun g _ g' =>
        g'.circuit.state ≠ g.circuit.state → Documented g.circuit.state g'.circuit.state)
      (.new .default 6) (Demo.toFirstCall (n := 6) 5 ++ Demo.outage [0, 1, 2, 3, 4] 0 ++
        [.answer 5 (.ok "relevant|ok"), .record 5]) := by
  decide +kernel

/-! ## The circuit when a provider call starts -/

/-- The request has been let through and has not come to its end. -/
def Phase.live : Phase → Bool
  | admitted | queued | ready _ _ | calling _ _ | returned _ | raised _ | recorded _ => true
  | start | finished _ | cancelled => false

/-- The outcome of the request has been recorded. -/
def Phase.settled : Phase → Bool
  | recorded _ | finished _ => true
  | _ => false

theorem step_lets_through {k : Fin n} (h : step limiter settings g e = some g')
    (before : (g.phase k).live = false) (after : (g'.phase k).live = true) :
    e = .check k ∧ g'.phase k = .admitted := by
  rcases step_moves h k with same | moves
  · rw [same, before] at after
    cases after
  · generalize g.phase k = p at moves before
    generalize g'.phase k = q at moves after ⊢
    cases moves with
    | admitted => exact ⟨rfl, rfl⟩
    | refused | cancel => cases after
    | token | enter | attempt | clientFails | answer | timeout | succeeded | failed | release =>
      cases before

theorem step_settled {k : Fin n} (h : step limiter settings g e = some g')
    (before : (g.phase k).settled = true) : (g'.phase k).settled = true := by
  rcases step_moves h k with same | moves
  · rwa [same]
  · generalize g.phase k = p at moves before
    generalize g'.phase k = q at moves ⊢
    cases moves with
    | release => rfl
    | cancel p waiting => cases p <;> simp [Phase.settled, Phase.waits] at before waiting
    | admitted | refused | token | enter | attempt | clientFails | answer | timeout | succeeded
    | failed => cases before

theorem run_settled {k : Fin n} {es : List (Event n)}
    (hr : (gateway limiter settings).run g es = some g') (before : (g.phase k).settled = true) :
    (g'.phase k).settled = true :=
  Machine.reachable_invariant (I := fun g => (g.phase k).settled = true) before
    (fun _ _ _ hs h => step_settled h hs) ⟨es, hr⟩

/-- A check that lets its request through leaves the circuit closed or half-open. -/
theorem admission_not_opened {k : Fin n} (h : step limiter settings g (.check k) = some g')
    (hk : g'.phase k = .admitted) : g'.circuit.state ≠ .opened := by
  cases step_change h with
  | admitted i at_start ok =>
    have cases := check_cases g.circuit g.clock
    generalize g.circuit.check g.clock = answer at cases ok ⊢
    cases cases with
    | closed state => simp [state]
    | probing state elapsed => simp
    | refused state recent => cases ok
    | halfOpen state => simp [state]
  | refused i failure at_start raised => simp at hk

theorem check_not_opened {b : CircuitBreaker} (now : Rat) (before : b.state ≠ .opened) :
    (b.check now).2.state ≠ .opened := by
  have cases := check_cases b now
  generalize b.check now = answer at cases
  cases cases with
  | closed state => exact before
  | probing state elapsed => exact absurd state before
  | refused state recent => exact before
  | halfOpen state => exact before

/-- Only a recorded failure opens the circuit. -/
theorem step_opens (h : step limiter settings g e = some g') (before : g.circuit.state ≠ .opened)
    (after : g'.circuit.state = .opened) :
    ∃ j message, e = .record j ∧ g.phase j = .raised message := by
  cases step_change h with
  | admitted i at_start ok => exact absurd after (check_not_opened g.clock before)
  | refused i failure at_start raised => exact absurd after (check_not_opened g.clock before)
  | succeeded i text returned => cases after
  | failed i message raised => exact ⟨i, message, rfl, raised⟩
  | tick | token | enter | attempt | clientFails | answer | timeout | finish | release | withdrawn
  | abandoned => exact absurd after before

/-- In the run a check let the request through, with the circuit not open right
after it; and if the circuit is open at the end, then the failure of another
request has opened it since. -/
def LetThrough (limiter : AsyncLimiter) (settings : Settings) (es : List (Event n)) (i : Fin n) :
    Prop :=
  ∃ fs gs m m' g, es = fs ++ .check i :: gs ∧
    (gateway limiter settings).run (.new settings n) fs = some m ∧
    step limiter settings m (.check i) = some m' ∧ m'.phase i = .admitted ∧
    m'.circuit.state ≠ .opened ∧ (gateway limiter settings).run m' gs = some g ∧
    (g.circuit.state = .opened → ∃ gs₁ j gs₂ k k' message, gs = gs₁ ++ .record j :: gs₂ ∧ j ≠ i ∧
      (gateway limiter settings).run m' gs₁ = some k ∧
      k.phase j = .raised message ∧ k.circuit.state ≠ .opened ∧
      step limiter settings k (.record j) = some k' ∧ k'.circuit.state = .opened)

/-- Every provider call starts for a request that the circuit let through. -/
theorem attempt_let_through {es : List (Event n)} {i : Fin n}
    (enabled : ((gateway limiter settings).run (.new settings n) (es ++ [.attempt i])).isSome) :
    LetThrough limiter settings es i := by
  obtain ⟨last, whole⟩ := Option.isSome_iff_exists.mp enabled
  obtain ⟨g, hr, hlast⟩ := Machine.run_append_iff.mp whole
  obtain ⟨g', hs, -⟩ := Machine.run_cons_iff.mp hlast
  have starts : step limiter settings g (.attempt i) = some g' := hs
  have ready : ∃ a notBefore, g.phase i = .ready a notBefore := by
    cases step_change starts with
    | attempt _ a notBefore ready due => exact ⟨a, notBefore, ready⟩
  obtain ⟨a, notBefore, ready⟩ := ready
  obtain ⟨fs, e, gs, m, m', rfl, hm, he, hg, before, after⟩ :=
    Machine.run_crosses (P := fun g => (g.phase i).live = true) hr (by simp [Gateway.new, Gateway.phase, Phase.live])
      (by simp [ready, Phase.live])
  obtain ⟨rfl, admitted⟩ := step_lets_through he (by simpa using before) after
  have checked : step limiter settings m (.check i) = some m' := he
  have notOpened := admission_not_opened checked admitted
  refine ⟨fs, gs, m, m', g, rfl, hm, checked, admitted, notOpened, hg, ?_⟩
  intro opened
  obtain ⟨gs₁, f, gs₂, k, k', rfl, hk, hf, hk', closed, opens⟩ :=
    Machine.run_crosses (P := fun g => g.circuit.state = .opened) hg notOpened opened
  obtain ⟨j, message, rfl, raised⟩ := step_opens hf closed opens
  have records : step limiter settings k (.record j) = some k' := hf
  refine ⟨gs₁, j, gs₂, k, k', message, rfl, ?_, hk, raised, closed, records, opens⟩
  -- a request whose outcome is recorded starts no call any more
  rintro rfl
  have settled : (k'.phase j).settled = true := by
    cases step_change records with
    | succeeded _ text returned => simp [Phase.settled]
    | failed _ _ _ => simp [Phase.settled]
  have atEnd := run_settled hk' settled
  rw [ready] at atEnd
  cases atEnd

/-- The request that waits for a permit calls the provider with the circuit open. -/
theorem attempt_not_opened_queued :
    ¬ (gateway leakyBucket .default).EveryStep (fun g e _ =>
        ∀ i, e = .attempt i → g.circuit.state ≠ .opened)
      (.new .default 10) (Demo.backlog [0, 1, 2, 3] [5, 6, 7, 8] 4 9 ++ [.enter 9, .attempt 9]) := by
  decide +kernel

theorem attempt_let_through_queued :
    LetThrough leakyBucket .default
      (Demo.backlog [0, 1, 2, 3] [5, 6, 7, 8] 4 9 ++ [.enter 9]) (9 : Fin 10) :=
  attempt_let_through (by decide +kernel)

end Runs

end LlmGateway
