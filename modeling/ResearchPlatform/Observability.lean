import ResearchPlatform.Library.Machines
import Mathlib.Algebra.BigOperators.Fin
import Mathlib.Algebra.Order.Field.Rat
import Mathlib.Algebra.Order.BigOperators.Group.Finset

/-!
# Request metrics

`PrometheusMiddleware` of `observability/middleware.py` with any number of requests under
way. Requests meet only in the registry, and nothing is awaited between two of its
updates, so the part of `dispatch` before `call_next` is one step, and the part behind
it another one.
-/

namespace Observability

open Machines

/-! ## The middleware -/

/-- The labels of `http_requests_total`; the histogram has the first two. -/
structure Labels where
  method : String
  routeTemplate : String
  status : Nat
  deriving DecidableEq, Repr

structure Metrics where
  activeRequests : Int
  httpRequestsTotal : Labels → Nat
  httpRequestDurationSeconds : String → String → List Rat

structure Request where
  method : String
  path : String
  deriving DecidableEq, Repr

/-- What `call_next` comes to; a cancellation is no `Exception`. -/
inductive Outcome where
  | response (statusCode : Nat)
  | exception
  | cancelled
  deriving DecidableEq, Repr

inductive Phase where
  | waiting
  | active (startTime : Rat)
  /-- with the labels under which the request was counted -/
  | finished (labels : Option Labels)
  deriving DecidableEq, Repr

/-- `status_code`, which is not bound when the call is cancelled. -/
def statusCode : Outcome → Option Nat
  | .response code => some code
  | .exception => some 500
  | .cancelled => none

/-- `_get_route_template`, of the path of the route that the router has put into the scope. -/
def getRouteTemplate (route : Option String) : String := route.getD "unhandled_path"

def Metrics.started (m : Metrics) : Metrics := { m with activeRequests := m.activeRequests + 1 }

/-- The `finally` clause. Without a status code the labels raise, behind the gauge and before the counter. -/
def Metrics.settled (m : Metrics) (method : String) (outcome : Outcome) (route : Option String) (duration : Rat) :
    Metrics × Option Labels :=
  let m := { m with activeRequests := m.activeRequests - 1 }
  match statusCode outcome with
  | none => (m, none)
  | some status =>
    let labels := ⟨method, getRouteTemplate route, status⟩
    let observed := m.httpRequestDurationSeconds method labels.routeTemplate ++ [duration]
    ({ m with
      httpRequestsTotal := Function.update m.httpRequestsTotal labels (m.httpRequestsTotal labels + 1)
      httpRequestDurationSeconds := Function.update m.httpRequestDurationSeconds method
        (Function.update (m.httpRequestDurationSeconds method) labels.routeTemplate observed) }, some labels)

/-! ## Requests under way -/

structure World (n : Nat) where
  metrics : Metrics
  clock : Rat
  phase : Fin n → Phase

inductive Event (n : Nat) where
  | dispatch (i : Fin n) (now : Rat)
  /-- `call_next` is over, with the route that was matched by then -/
  | returned (i : Fin n) (outcome : Outcome) (route : Option String) (now : Rat)
  deriving DecidableEq, Repr

section Step
variable {n : Nat} (templates : List String) (calls : Fin n → Request)

def step (s : World n) : Event n → Option (World n)
  | .dispatch i now =>
    if s.phase i = .waiting ∧ s.clock ≤ now then
      -- the fast path passes on what `call_next` comes to
      if (calls i).path = "/metrics" then some { s with clock := now, phase := Function.update s.phase i (.finished none) }
      else some ⟨s.metrics.started, now, Function.update s.phase i (.active now)⟩
    else none
  | .returned i outcome route now =>
    match s.phase i with
    | .active startTime =>
      if s.clock ≤ now ∧ route.all (fun r => r ∈ templates) = true then
        let (metrics, labels) := s.metrics.settled (calls i).method outcome route (now - startTime)
        some ⟨metrics, now, Function.update s.phase i (.finished labels)⟩
      else none
    | _ => none

def machine : Machine (World n) (Event n) := ⟨step templates calls⟩

def start (n : Nat) (now : Rat) : World n := ⟨⟨0, fun _ => 0, fun _ _ => []⟩, now, fun _ => .waiting⟩

end Step

/-! ## Counting requests -/

section Counting
variable {n : Nat} (p : Phase → Bool)

/-- The number of requests in such a phase. -/
def tally (phase : Fin n → Phase) : Nat := ∑ i, (p (phase i)).toNat

theorem tally_update (phase : Fin n → Phase) (i : Fin n) (next : Phase) :
    tally p (Function.update phase i next) + (p (phase i)).toNat = tally p phase + (p next).toNat := by
  have changed : (fun k => (p (Function.update phase i next k)).toNat) =
      Function.update (fun k => (p (phase k)).toNat) i (p next).toNat := by
    funext k
    by_cases hk : k = i
    · subst hk
      simp
    · rw [Function.update_of_ne hk, Function.update_of_ne hk]
  have others := Finset.add_sum_erase Finset.univ (fun k => (p (phase k)).toNat) (Finset.mem_univ i)
  rw [tally, tally, changed, Finset.sum_update_of_mem (Finset.mem_univ i), Finset.sdiff_singleton_eq_erase]
  omega

theorem tally_zero {phase : Fin n → Phase} (h : ∀ i, p (phase i) = false) : tally p phase = 0 :=
  Finset.sum_eq_zero fun i _ => by simp [h i]

theorem exists_of_tally {phase : Fin n → Phase} (h : tally p phase ≠ 0) : ∃ i, p (phase i) = true := by
  by_contra none_
  exact h (tally_zero p fun i => Bool.eq_false_iff.mpr fun yes => none_ ⟨i, yes⟩)

end Counting

def Phase.isActive : Phase → Bool
  | .active _ => true
  | _ => false

def Phase.countedAs (labels : Labels) (p : Phase) : Bool := p = .finished (some labels)

/-- Counted under any status. -/
def Phase.observedAs (method routeTemplate : String) : Phase → Bool
  | .finished (some l) => l.method = method && l.routeTemplate = routeTemplate
  | _ => false

/-! ## The invariant -/

/-- The labels are the request's own and one of the templates of the application. -/
structure Bounded (templates : List String) (call : Request) (l : Labels) : Prop where
  method : l.method = call.method
  path : call.path ≠ "/metrics"
  routeTemplate : l.routeTemplate ∈ "unhandled_path" :: templates

section Runs
variable {n : Nat} {templates : List String} {calls : Fin n → Request} {s t : World n}

structure Inv (templates : List String) (calls : Fin n → Request) (s : World n) : Prop where
  gauge : s.metrics.activeRequests = tally Phase.isActive s.phase
  counter : ∀ l, s.metrics.httpRequestsTotal l = tally (Phase.countedAs l) s.phase
  histogram : ∀ method template, (s.metrics.httpRequestDurationSeconds method template).length =
    tally (Phase.observedAs method template) s.phase
  labelled : ∀ i l, s.phase i = .finished (some l) → Bounded templates (calls i) l
  started : ∀ i startTime, s.phase i = .active startTime → startTime ≤ s.clock ∧ (calls i).path ≠ "/metrics"
  durations : ∀ method template, ∀ d ∈ s.metrics.httpRequestDurationSeconds method template, 0 ≤ d

theorem inv_start (now : Rat) : Inv templates calls (start n now) where
  gauge := by rw [tally_zero Phase.isActive fun _ => rfl]; rfl
  counter l := (tally_zero (Phase.countedAs l) fun _ => rfl).symm
  histogram method template := (tally_zero (Phase.observedAs method template) fun _ => rfl).symm
  labelled _ _ h := by cases h
  started _ _ h := by cases h
  durations _ _ _ h := by cases h

/-- What a step does to the registry and to the phases. -/
inductive Stepped (templates : List String) (calls : Fin n → Request) (s : World n) : World n → Prop
  | skip (i : Fin n) (now : Rat) (waiting : s.phase i = .waiting) (later : s.clock ≤ now) :
      Stepped templates calls s { s with clock := now, phase := Function.update s.phase i (.finished none) }
  | dispatch (i : Fin n) (now : Rat) (waiting : s.phase i = .waiting) (later : s.clock ≤ now)
      (path : (calls i).path ≠ "/metrics") :
      Stepped templates calls s ⟨s.metrics.started, now, Function.update s.phase i (.active now)⟩
  | returned (i : Fin n) (startTime now : Rat) (outcome : Outcome) (route : Option String)
      (active : s.phase i = .active startTime) (later : s.clock ≤ now) (known : ∀ r, route = some r → r ∈ templates) :
      Stepped templates calls s ⟨(s.metrics.settled (calls i).method outcome route (now - startTime)).1, now,
        Function.update s.phase i (.finished (s.metrics.settled (calls i).method outcome route (now - startTime)).2)⟩

theorem stepped {e : Event n} (h : (machine templates calls).step s e = some t) : Stepped templates calls s t := by
  cases e with
  | dispatch i now =>
    simp only [machine, step] at h
    split at h
    · rename_i enabled
      split at h
      · cases h
        exact .skip i now enabled.1 enabled.2
      · cases h
        exact .dispatch i now enabled.1 enabled.2 ‹_›
    · cases h
  | returned i outcome route now =>
    simp only [machine, step] at h
    split at h
    · rename_i startTime active
      split at h
      · rename_i enabled
        cases h
        refine .returned i startTime now outcome route active enabled.1 ?_
        rintro r rfl
        simpa using enabled.2
      · cases h
    · cases h

theorem tally_same {p : Phase → Bool} {phase : Fin n → Phase} {i : Fin n} {next : Phase}
    (same : p next = p (phase i)) : tally p (Function.update phase i next) = tally p phase := by
  have moved := tally_update p phase i next
  rw [same] at moved
  omega

theorem of_update {phase : Fin n → Phase} {i k : Fin n} {next p : Phase} (h : Function.update phase i next k = p) :
    k = i ∧ next = p ∨ phase k = p := by
  by_cases same : k = i
  · subst same
    exact Or.inl ⟨rfl, by simpa using h⟩
  · exact Or.inr (by rwa [Function.update_of_ne same] at h)

theorem Inv.skip (h : Inv templates calls s) {i : Fin n} {now : Rat} (waiting : s.phase i = .waiting)
    (later : s.clock ≤ now) :
    Inv templates calls { s with clock := now, phase := Function.update s.phase i (.finished none) } where
  gauge := h.gauge.trans (congrArg _ (tally_same (by rw [waiting]; rfl)).symm)
  counter l := (h.counter l).trans (tally_same (by rw [waiting]; rfl)).symm
  histogram method template := (h.histogram method template).trans (tally_same (by rw [waiting]; rfl)).symm
  labelled k l hk := by
    rcases of_update hk with ⟨_, impossible⟩ | before
    · cases impossible
    · exact h.labelled k l before
  started k startTime hk := by
    rcases of_update hk with ⟨_, impossible⟩ | before
    · cases impossible
    · exact ⟨(h.started k startTime before).1.trans later, (h.started k startTime before).2⟩
  durations := h.durations

theorem Inv.dispatch (h : Inv templates calls s) {i : Fin n} {now : Rat} (waiting : s.phase i = .waiting)
    (later : s.clock ≤ now) (path : (calls i).path ≠ "/metrics") :
    Inv templates calls ⟨s.metrics.started, now, Function.update s.phase i (.active now)⟩ where
  gauge := by
    have moved := tally_update Phase.isActive s.phase i (.active now)
    simp only [waiting, Phase.isActive, Bool.toNat_false, Bool.toNat_true] at moved
    simp only [Metrics.started, h.gauge]
    omega
  counter l := (h.counter l).trans (tally_same (by rw [waiting]; rfl)).symm
  histogram method template := (h.histogram method template).trans (tally_same (by rw [waiting]; rfl)).symm
  labelled k l hk := by
    rcases of_update hk with ⟨_, impossible⟩ | before
    · cases impossible
    · exact h.labelled k l before
  started k startTime hk := by
    rcases of_update hk with ⟨rfl, same⟩ | before
    · cases same
      exact ⟨le_rfl, path⟩
    · exact ⟨(h.started k startTime before).1.trans later, (h.started k startTime before).2⟩
  durations := h.durations

/-- A cancelled request leaves the gauge and is counted nowhere. -/
theorem Inv.cancelled (h : Inv templates calls s) {i : Fin n} {startTime now : Rat}
    (active : s.phase i = .active startTime) (later : s.clock ≤ now) :
    Inv templates calls ⟨{ s.metrics with activeRequests := s.metrics.activeRequests - 1 }, now,
      Function.update s.phase i (.finished none)⟩ where
  gauge := by
    have moved := tally_update Phase.isActive s.phase i (.finished none)
    simp only [active, Phase.isActive, Bool.toNat_false, Bool.toNat_true] at moved
    simp only [h.gauge]
    omega
  counter l := (h.counter l).trans (tally_same (by rw [active]; rfl)).symm
  histogram method template := (h.histogram method template).trans (tally_same (by rw [active]; rfl)).symm
  labelled k l hk := by
    rcases of_update hk with ⟨_, impossible⟩ | before
    · cases impossible
    · exact h.labelled k l before
  started k startTime hk := by
    rcases of_update hk with ⟨_, impossible⟩ | before
    · cases impossible
    · exact ⟨(h.started k startTime before).1.trans later, (h.started k startTime before).2⟩
  durations := h.durations

/-- Any other request is counted once, under its own labels. -/
theorem Inv.counted (h : Inv templates calls s) {i : Fin n} {startTime now : Rat}
    (active : s.phase i = .active startTime) (later : s.clock ≤ now) {route : Option String}
    (known : ∀ r, route = some r → r ∈ templates) (status : Nat) {outcome : Outcome}
    (code : statusCode outcome = some status) :
    Inv templates calls ⟨(s.metrics.settled (calls i).method outcome route (now - startTime)).1, now,
      Function.update s.phase i (.finished (some ⟨(calls i).method, getRouteTemplate route, status⟩))⟩ where
  gauge := by
    have moved := tally_update Phase.isActive s.phase i
      (.finished (some ⟨(calls i).method, getRouteTemplate route, status⟩))
    simp only [active, Phase.isActive, Bool.toNat_false, Bool.toNat_true] at moved
    simp only [Metrics.settled, code, h.gauge]
    omega
  counter l := by
    have moved := tally_update (Phase.countedAs l) s.phase i
      (.finished (some ⟨(calls i).method, getRouteTemplate route, status⟩))
    simp only [active, Phase.countedAs] at moved
    simp only [Metrics.settled, code]
    by_cases same : l = ⟨(calls i).method, getRouteTemplate route, status⟩
    · subst same
      rw [Function.update_self, h.counter]
      simpa using moved.symm
    · rw [Function.update_of_ne same, h.counter]
      simpa [Ne.symm same] using moved.symm
  histogram method template := by
    have moved := tally_update (Phase.observedAs method template) s.phase i
      (.finished (some ⟨(calls i).method, getRouteTemplate route, status⟩))
    simp only [active, Phase.observedAs, Bool.toNat_false, Nat.add_zero] at moved
    rw [moved, ← h.histogram]
    simp only [Metrics.settled, code]
    by_cases sameMethod : method = (calls i).method
    · subst sameMethod
      rw [Function.update_self]
      by_cases same : template = getRouteTemplate route
      · subst same
        simp
      · rw [Function.update_of_ne same]
        simp [Ne.symm same]
    · rw [Function.update_of_ne sameMethod]
      simp [Ne.symm sameMethod]
  labelled k l hk := by
    rcases of_update hk with ⟨rfl, same⟩ | before
    · cases same
      refine ⟨rfl, (h.started k startTime active).2, ?_⟩
      cases route with
      | none => exact List.mem_cons_self
      | some r => exact List.mem_cons_of_mem _ (known r rfl)
    · exact h.labelled k l before
  started k startTime hk := by
    rcases of_update hk with ⟨_, impossible⟩ | before
    · cases impossible
    · exact ⟨(h.started k startTime before).1.trans later, (h.started k startTime before).2⟩
  durations method template d hd := by
    simp only [Metrics.settled, code] at hd
    have nonneg : 0 ≤ now - startTime := sub_nonneg.mpr ((h.started i startTime active).1.trans later)
    by_cases sameMethod : method = (calls i).method
    · subst sameMethod
      rw [Function.update_self] at hd
      by_cases same : template = getRouteTemplate route
      · subst same
        rw [Function.update_self, List.mem_append] at hd
        rcases hd with before | last
        · exact h.durations _ _ d before
        · exact List.mem_singleton.mp last ▸ nonneg
      · rw [Function.update_of_ne same] at hd
        exact h.durations _ _ d hd
    · rw [Function.update_of_ne sameMethod] at hd
      exact h.durations _ _ d hd

theorem inv_step {e : Event n} (h : Inv templates calls s) (hs : (machine templates calls).step s e = some t) :
    Inv templates calls t := by
  cases stepped hs with
  | skip i now waiting later => exact h.skip waiting later
  | dispatch i now waiting later path => exact h.dispatch waiting later path
  | returned i startTime now outcome route active later known =>
    cases code : statusCode outcome with
    | none =>
      have settled_ : s.metrics.settled (calls i).method outcome route (now - startTime) =
          ({ s.metrics with activeRequests := s.metrics.activeRequests - 1 }, none) := by
        simp only [Metrics.settled, code]
      rw [settled_]
      exact h.cancelled active later
    | some status =>
      have labels : (s.metrics.settled (calls i).method outcome route (now - startTime)).2 =
          some ⟨(calls i).method, getRouteTemplate route, status⟩ := by
        simp only [Metrics.settled, code]
      rw [labels]
      exact h.counted active later known status code

end Runs

/-! ## Reachable registries -/

/-- What the registry says of the requests. -/
structure Accounts {n : Nat} (templates : List String) (calls : Fin n → Request) (s : World n) : Prop where
  gauge : s.metrics.activeRequests = tally Phase.isActive s.phase
  counter : ∀ l, s.metrics.httpRequestsTotal l = tally (Phase.countedAs l) s.phase
  histogram : ∀ method template, (s.metrics.httpRequestDurationSeconds method template).length =
    tally (Phase.observedAs method template) s.phase
  durations : ∀ method template, ∀ d ∈ s.metrics.httpRequestDurationSeconds method template, 0 ≤ d
  series : ∀ l, s.metrics.httpRequestsTotal l ≠ 0 → ∃ i, Bounded templates (calls i) l

/-- However requests overlap, fail or are cancelled, the gauge is the number of requests under way, every series
has the requests that ended with its labels, in the counter and in the histogram, and whatever paths clients ask
for, the templates are those of the application and one more. -/
theorem metrics_account {n : Nat} (templates : List String) (calls : Fin n → Request) (now : Rat) {s : World n}
    (reached : (machine templates calls).Reachable (start n now) s) : Accounts templates calls s := by
  have h : Inv templates calls s := Machine.reachable_invariant (inv_start now) (fun _ _ _ => inv_step) reached
  refine ⟨h.gauge, h.counter, h.histogram, h.durations, fun l some_ => ?_⟩
  rw [h.counter] at some_
  obtain ⟨i, counted⟩ := exists_of_tally (Phase.countedAs l) some_
  exact ⟨i, h.labelled i l (by simpa [Phase.countedAs] using counted)⟩

namespace Demo

/-- Two requests that overlap and a scrape. -/
def calls (i : Fin 3) : Request :=
  if i.val = 0 then ⟨"GET", "/api/v1/jobs/7"⟩ else if i.val = 1 then ⟨"GET", "/etc/passwd"⟩ else ⟨"GET", "/metrics"⟩

def events (first second scrape : Fin 3) : List (Event 3) :=
  [.dispatch first 1, .dispatch second 2, .dispatch scrape 3, .returned second (.response 404) none 4,
    .returned first .cancelled (some "/api/v1/jobs/{job_id}") 5]

def templates : List String := ["/api/v1/jobs/{job_id}"]

def endState (first second scrape : Fin 3) : World 3 :=
  ((machine templates calls).run (start 3 0) (events first second scrape)).getD (start 3 0)

end Demo

/-- The cancelled request is counted nowhere, and the gauge is back at zero. -/
theorem metrics_account_demo : Accounts Demo.templates Demo.calls (Demo.endState 0 1 2) ∧
    (Demo.endState 0 1 2).metrics.activeRequests = 0 ∧
    (Demo.endState 0 1 2).metrics.httpRequestsTotal ⟨"GET", "unhandled_path", 404⟩ = 1 := by
  obtain ⟨enabled, gauge, counter⟩ :
      ((machine Demo.templates Demo.calls).run (start 3 0) (Demo.events 0 1 2)).isSome = true ∧
      (Demo.endState 0 1 2).metrics.activeRequests = 0 ∧
      (Demo.endState 0 1 2).metrics.httpRequestsTotal ⟨"GET", "unhandled_path", 404⟩ = 1 := by
    decide +kernel
  exact ⟨metrics_account Demo.templates Demo.calls 0 (Machine.reachable_getD (start 3 0) enabled), gauge, counter⟩

end Observability
