import ResearchPlatform.Library.Backlogs
import ResearchPlatform.RateLimit
import ResearchPlatform.SearchFrontEnds

/-!
# Tenant access: the memberships and the budget of each tenant

`get_current_tenant` with the limiter it asks. A request brings the database that it
reads, so that any writes may come between two requests, and the API instances share
one Redis, which may not be reachable.
-/

namespace TenantAccess

open Uuid Schema TenantService FrontEnds RateLimit FixedWindows Backlogs

/-! ## Requests -/

/-- `rate_limit_requests` and `rate_limit_window_seconds`. -/
structure Limits where
  requests : Int
  windowSeconds : Int

/-- What `get_current_tenant` is called with, and the clock of Redis. -/
structure Arrival where
  userId : UUID
  xTenantId : Option String
  db : Database
  now : Rat
  reachable : Bool
  deriving DecidableEq

structure Answered where
  arrival : Arrival
  outcome : Except Failure OrgMembership
  deriving DecidableEq

structure Log where
  redis : Redis
  answers : List Answered

/-- `list_memberships`. -/
def listMemberships (userId : UUID) (db : Database) : List OrgMembership :=
  orderByAsc OrgMembership.createdAt (db.orgMemberships.filter fun m => m.userId = userId)

/-- `get_current_tenant` up to the limiter. -/
def membership (a : Arrival) : Except Failure OrgMembership := do
  let requestedOrgId ←
    requestedId a.xTenantId (.app (.validationError "X-Tenant-ID must be a valid UUID."))
  resolveMembership a.userId requestedOrgId a.db

def limitKey (orgId : UUID) : String := "ratelimit:tenant:" ++ str orgId

/-- `get_current_tenant`, which asks the limiter for the budget of the membership's
organization. -/
def currentTenant (limits : Limits) (a : Arrival) (redis : Redis) : Except Failure OrgMembership × Redis :=
  match membership a with
  | .error e => (.error e, redis)
  | .ok m =>
    let (redis, allowed) := isAllowed a.reachable a.now (limitKey m.orgId) limits.requests limits.windowSeconds redis
    if allowed then (.ok m, redis)
    else (.error (.app (.rateLimitError "Rate limit exceeded. Try again later.")), redis)

def Log.arrive (limits : Limits) (log : Log) (a : Arrival) : Log :=
  let (outcome, redis) := currentTenant limits a log.redis
  ⟨redis, log.answers ++ [⟨a, outcome⟩]⟩

/-- The requests in the order in which Redis serves them, from one without keys. -/
def serve (limits : Limits) (arrivals : List Arrival) : Log :=
  arrivals.foldl (Log.arrive limits) ⟨fun _ => none, []⟩

/-- The request is one of the organization's. -/
def ofTenant (orgId : UUID) (a : Arrival) : Bool :=
  match membership a with
  | .ok m => m.orgId = orgId
  | .error _ => false

/-- It is counted against the organization's budget. -/
def counted (orgId : UUID) (a : Arrival) : Bool := a.reachable && ofTenant orgId a

def Answered.admitted (x : Answered) : Bool := x.outcome.toBool

theorem limitKey_injective : Function.Injective limitKey := by
  intro a b same
  have chars := congrArg String.toList same
  simp only [limitKey, String.toList_append] at chars
  exact str_injective (String.toList_injective (List.append_cancel_left chars))

theorem serve_snoc (limits : Limits) (arrivals : List Arrival) (a : Arrival) :
    serve limits (arrivals ++ [a]) = (serve limits arrivals).arrive limits a := by
  rw [serve, List.foldl_append]
  rfl

/-! ## One request -/

section Requests
variable {limits : Limits} {a : Arrival} {o : UUID} {redis redis' : Redis}

theorem ofTenant_iff : ofTenant o a = true ↔ ∃ m, membership a = .ok m ∧ m.orgId = o := by
  rw [ofTenant]
  cases membership a with
  | error e => simp
  | ok m => simp

/-- The script looks at no other key. -/
theorem isAllowed_congr (now : Rat) {key : String} (most window : Int) (same : redis key = redis' key) :
    (isAllowed true now key most window redis).1 key = (isAllowed true now key most window redis').1 key ∧
      (isAllowed true now key most window redis).2 = (isAllowed true now key most window redis').2 := by
  have existing_ : existing redis now key = existing redis' now key := by rw [existing, existing, same]
  have incr_ : (incr now key redis).1 key = (incr now key redis').1 key ∧
      (incr now key redis).2 = (incr now key redis').2 := by
    simp only [incr, existing_]
    split <;> simp
  have expire_ : ∀ r r' : Redis, r key = r' key → expire now key window r key = expire now key window r' key := by
    intro r r' same
    have existing_ : existing r now key = existing r' now key := by rw [existing, existing, same]
    simp only [expire, existing_]
    cases existing r' now key with
    | none => exact same
    | some e => by_cases short : window ≤ 0 <;> simp [short]
  simp only [isAllowed, if_true, rateLimitLua, incr_.2]
  constructor
  · split <;> split <;> simp [incr_.1, expire_ _ _ incr_.1]
  · split <;> rfl

theorem currentTenant_error {e : Failure} (h : membership a = .error e) :
    currentTenant limits a redis = (.error e, redis) := by
  rw [currentTenant, h]

theorem currentTenant_of_ok {m : OrgMembership} (h : membership a = .ok m) :
    currentTenant limits a redis =
      (if (isAllowed a.reachable a.now (limitKey m.orgId) limits.requests limits.windowSeconds redis).2 then .ok m
        else .error (.app (.rateLimitError "Rate limit exceeded. Try again later.")),
      (isAllowed a.reachable a.now (limitKey m.orgId) limits.requests limits.windowSeconds redis).1) := by
  rw [currentTenant, h]
  cases allowed : (isAllowed a.reachable a.now (limitKey m.orgId) limits.requests limits.windowSeconds redis).2 with
  | false => simp [allowed]
  | true => simp [allowed]

/-- The limiter's answer is the draw of the front ends. -/
theorem currentTenant_getCurrentTenant :
    ∃ allowed, (currentTenant limits a redis).1 = getCurrentTenant a.xTenantId a.userId allowed a.db := by
  cases h : membership a with
  | error e =>
    refine ⟨true, ?_⟩
    rw [currentTenant_error h]
    rw [membership] at h
    rw [getCurrentTenant]
    cases requested : requestedId a.xTenantId (.app (.validationError "X-Tenant-ID must be a valid UUID.")) with
    | error e' => simpa [requested, bind, Except.bind] using h.symm
    | ok x =>
      have failed : resolveMembership a.userId x a.db = .error e := by simpa [requested, bind, Except.bind] using h
      simp [failed, bind, Except.bind]
  | ok m =>
    refine ⟨(isAllowed a.reachable a.now (limitKey m.orgId) limits.requests limits.windowSeconds redis).2, ?_⟩
    rw [currentTenant_of_ok h]
    obtain ⟨x, requested, resolved⟩ := of_bind_ok h
    simp [getCurrentTenant, requested, resolved, bind, Except.bind]

/-- A request that is not counted against the organization leaves its budget alone. -/
theorem currentTenant_other (h : counted o a = false) :
    (currentTenant limits a redis).2 (limitKey o) = redis (limitKey o) := by
  cases resolved : membership a with
  | error e => rw [currentTenant_error resolved]
  | ok m =>
    rw [currentTenant_of_ok resolved]
    cases reachable : a.reachable with
    | false => rfl
    | true =>
      have other : m.orgId ≠ o := by
        rintro rfl
        simp [counted, reachable, ofTenant_iff.mpr ⟨m, resolved, rfl⟩] at h
      exact isAllowed_other fun same => other (limitKey_injective same).symm

/-- Without Redis every member is let in. -/
theorem currentTenant_unreachable {m : OrgMembership} (resolved : membership a = .ok m)
    (unreachable : a.reachable = false) : currentTenant limits a redis = (.ok m, redis) := by
  rw [currentTenant_of_ok resolved, unreachable]
  rfl

/-- A request of the organization looks at its budget only. -/
theorem currentTenant_congr (limits : Limits) (own : ofTenant o a = true) (same : redis (limitKey o) = redis' (limitKey o)) :
    (currentTenant limits a redis).1 = (currentTenant limits a redis').1 ∧
      (currentTenant limits a redis).2 (limitKey o) = (currentTenant limits a redis').2 (limitKey o) := by
  obtain ⟨m, resolved, rfl⟩ := ofTenant_iff.mp own
  cases reachable : a.reachable with
  | false =>
    rw [currentTenant_unreachable resolved reachable, currentTenant_unreachable resolved reachable]
    exact ⟨rfl, same⟩
  | true =>
    obtain ⟨entry, allowed⟩ := isAllowed_congr a.now limits.requests limits.windowSeconds same
    rw [currentTenant_of_ok resolved, currentTenant_of_ok resolved, reachable, allowed]
    exact ⟨rfl, entry⟩

end Requests

/-! ## Runs -/

section Runs
variable (limits : Limits) (o : UUID)

theorem serve_arrivals (arrivals : List Arrival) : (serve limits arrivals).answers.map (·.arrival) = arrivals := by
  induction arrivals using List.reverseRecOn with
  | nil => rfl
  | append_singleton arrivals a ih =>
    rw [serve_snoc, Log.arrive, List.map_append, ih]
    rfl

/-- The organization's requests among any others are answered as if they came alone. -/
theorem serve_own (arrivals : List Arrival) :
    (serve limits arrivals).redis (limitKey o) =
        (serve limits (arrivals.filter (ofTenant o))).redis (limitKey o) ∧
      (serve limits arrivals).answers.filter (fun x => ofTenant o x.arrival) =
        (serve limits (arrivals.filter (ofTenant o))).answers := by
  induction arrivals using List.reverseRecOn with
  | nil => exact ⟨rfl, rfl⟩
  | append_singleton arrivals a ih =>
    rw [serve_snoc, List.filter_append, Log.arrive]
    by_cases own : ofTenant o a = true
    · obtain ⟨outcome, entry⟩ := currentTenant_congr limits own ih.1
      rw [List.filter_singleton, own, cond_true, serve_snoc, Log.arrive]
      refine ⟨entry, ?_⟩
      simp only [List.filter_append, ih.2, List.filter_singleton, own, cond_true, outcome]
    · have other : counted o a = false := by simp [counted, own]
      rw [List.filter_singleton, Bool.eq_false_iff.mpr own, cond_false, List.append_nil]
      refine ⟨(currentTenant_other other).trans ih.1, ?_⟩
      simp only [List.filter_append, ih.2, List.filter_singleton, Bool.eq_false_iff.mpr own, cond_false,
        List.append_nil]

theorem toBool_ite (b : Bool) {m : OrgMembership} {e : Failure} :
    (if b then Except.ok m else .error e).toBool = b := by
  cases b <;> rfl

/-- The calls of the limiter for the organization. -/
def calls (arrivals : List Arrival) : List Call :=
  (arrivals.filter (counted o)).map fun a => ⟨a.now, limitKey o⟩

/-- The limiter's history of the organization's key is that of these calls. -/
theorem serve_history (arrivals : List Arrival) :
    (serve limits arrivals).redis (limitKey o) =
        (history limits.requests limits.windowSeconds (calls o arrivals)).redis (limitKey o) ∧
      ((serve limits arrivals).answers.filter fun x => counted o x.arrival).map
          (fun x => (x.arrival.now, x.admitted)) =
        ((history limits.requests limits.windowSeconds (calls o arrivals)).recordsOf (limitKey o)).map
          fun r => (r.call.now, r.admitted) := by
  induction arrivals using List.reverseRecOn with
  | nil => exact ⟨rfl, rfl⟩
  | append_singleton arrivals a ih =>
    rw [serve_snoc, calls, List.filter_append, Log.arrive]
    by_cases own : counted o a = true
    · obtain ⟨reachable, of⟩ := Bool.and_eq_true_iff.mp own
      obtain ⟨m, resolved, rfl⟩ := ofTenant_iff.mp of
      obtain ⟨entry, allowed⟩ := isAllowed_congr a.now limits.requests limits.windowSeconds ih.1
      rw [List.filter_singleton, own, cond_true, List.map_append, List.map_singleton, history_snoc,
        recordsOf_call (c := ⟨a.now, limitKey m.orgId⟩), currentTenant_of_ok resolved, reachable]
      refine ⟨entry, ?_⟩
      rw [List.filter_append, List.map_append, ih.2, List.map_append, List.filter_singleton, own, cond_true]
      refine congrArg _ ?_
      rw [List.map_singleton, List.map_singleton, Answered.admitted, toBool_ite, allowed]
      rfl
    · have other : counted o a = false := Bool.eq_false_iff.mpr own
      rw [List.filter_singleton, other, cond_false, List.append_nil]
      refine ⟨(currentTenant_other other).trans ih.1, ?_⟩
      rw [List.filter_append, List.filter_singleton, other, cond_false, List.append_nil]
      exact ih.2

end Runs

/-! ## Budgets -/

section Budgets
variable (limits : Limits) (o : UUID) {arrivals : List Arrival}

/-- The requests that the limiter counted and let through. While Redis is not reachable it lets
every request through uncounted. -/
def passed (x : Answered) : Bool := counted o x.arrival && x.admitted

theorem ordered_calls (ordered : arrivals.Pairwise fun a b => a.now ≤ b.now) :
    ((calls o arrivals).filter (·.key = limitKey o)).Pairwise fun c c' => c.now ≤ c'.now := by
  refine List.Pairwise.filter _ ?_
  exact List.pairwise_map.mpr (ordered.filter _)

/-- An interval of a window's length holds at most twice the limit. -/
theorem passed_le (nonneg : 0 ≤ limits.requests) (positive : 0 < limits.windowSeconds)
    (ordered : arrivals.Pairwise fun a b => a.now ≤ b.now) (t : Rat) :
    (hits (fun x : Answered => x.arrival.now) (passed o) t (t + limits.windowSeconds)
      (serve limits arrivals).answers : Int) ≤ 2 * limits.requests := by
  obtain ⟨⟨spans, served⟩, _⟩ := served_history limits.requests positive (ordered_calls o ordered)
  have most := served.tiled.hits_le (p := (·.admitted))
    (fun s mem => (served.counted s mem).countP_le nonneg) t
  rw [← served.records] at most
  -- both sides count the same pairs of a time and an answer
  have pairs := congrArg (List.countP fun p : Rat × Bool =>
    p.2 && decide (t ≤ p.1) && decide (p.1 ≤ t + limits.windowSeconds)) (serve_history limits o arrivals).2
  rw [List.countP_map, List.countP_map, List.countP_filter] at pairs
  have same : hits (fun x : Answered => x.arrival.now) (passed o) t (t + limits.windowSeconds)
      (serve limits arrivals).answers =
      hits (fun r : Record => r.call.now) (·.admitted) t (t + limits.windowSeconds)
        ((history limits.requests limits.windowSeconds (calls o arrivals)).recordsOf (limitKey o)) := by
    rw [hits, hits]
    refine Eq.trans (List.countP_congr fun x _ => ?_) pairs
    simp only [passed, Function.comp_apply, Bool.and_eq_true, decide_eq_true_eq]
    tauto
  omega

/-- In a window of the limiter all calls lie within its length, so a refused call follows at least as many
of them as the limit allows. -/
theorem refused_after {most window : Int} (nonneg : 0 ≤ most) (positive : 0 < window) {key : String}
    {past : List Call} {c : Call} (ofKey : c.key = key)
    (ordered : ((past ++ [c]).filter (·.key = key)).Pairwise fun c c' => c.now ≤ c'.now)
    (refused : (isAllowed true c.now c.key most window (history most window past).redis).2 = false) :
    most ≤ (((history most window past).recordsOf key).countP fun r => decide (c.now - window < r.call.now) : Nat) := by
  subst ofKey
  obtain ⟨⟨spans, served⟩, decided⟩ := served_history most positive ordered
  have whole : (history most window (past ++ [c])).recordsOf c.key =
      (history most window past).recordsOf c.key ++ [(history most window past).record most window c] := by
    rw [history_snoc, recordsOf_call, History.record]
  have many : most < ((sinceCreation ((history most window (past ++ [c])).recordsOf c.key)).length : Int) := by
    have last := (decided _ _ [] whole).2
    rw [whole]
    by_contra few
    have admitted := last.mpr (not_lt.mp few)
    simp [History.record, refused] at admitted
  rw [served.since] at many
  rcases List.eq_nil_or_concat spans with rfl | ⟨init, s, rfl⟩
  · simp at many
    omega
  · rw [List.concat_eq_append] at served
    rw [List.concat_eq_append, List.getLast?_concat, Option.map_some, Option.getD_some] at many
    -- the last window ends with the refused call
    have parts := served.records
    rw [whole, List.flatMap_append, List.flatMap_singleton] at parts
    rcases List.eq_nil_or_concat s.2 with none_ | ⟨own, r, ending⟩
    · simp [none_] at many
      omega
    · rw [ending, List.concat_eq_append, ← List.append_assoc] at parts
      obtain ⟨before, same⟩ := List.append_inj' parts rfl
      have inside : ∀ x ∈ s.2, s.1 ≤ x.call.now ∧ x.call.now < s.1 + window :=
        served.tiled.inside s (by simp)
      have now_ : c.now < s.1 + window := by
        have mem : (history most window past).record most window c ∈ s.2 := by
          rw [ending, List.concat_eq_append, ← same]
          simp
        exact (inside _ mem).2
      have recent : own.countP (fun r => decide (c.now - window < r.call.now)) = own.length := by
        refine List.countP_eq_length.mpr fun x hx => decide_eq_true ?_
        have start := (inside x (by rw [ending, List.concat_eq_append]; exact List.mem_append_left _ hx)).1
        linarith
      rw [before, List.countP_append, recent]
      have length : s.2.length = own.length + 1 := by rw [ending, List.concat_eq_append, List.length_append]; rfl
      omega

/-- A refused member finds the limit used up by the organization's own requests of the last window. -/
theorem refused_earned (nonneg : 0 ≤ limits.requests) (positive : 0 < limits.windowSeconds) {a : Arrival}
    (ordered : (arrivals ++ [a]).Pairwise fun a b => a.now ≤ b.now) (own : ofTenant o a = true) {e : Failure}
    (refused : (currentTenant limits a (serve limits arrivals).redis).1 = .error e) :
    e = .app (.rateLimitError "Rate limit exceeded. Try again later.") ∧ a.reachable = true ∧
      limits.requests ≤
        (arrivals.countP fun b => counted o b && decide (a.now - limits.windowSeconds < b.now) : Nat) := by
  obtain ⟨m, resolved, rfl⟩ := ofTenant_iff.mp own
  have reachable : a.reachable = true := by
    by_contra unreachable
    rw [currentTenant_unreachable resolved (Bool.eq_false_iff.mpr unreachable)] at refused
    cases refused
  obtain ⟨entry, pairs⟩ := serve_history limits m.orgId arrivals
  rw [currentTenant_of_ok resolved, reachable, (isAllowed_congr a.now limits.requests limits.windowSeconds entry).2]
    at refused
  split at refused
  · cases refused
  · rename_i over_
    cases refused
    refine ⟨rfl, reachable, ?_⟩
    have counted_ : counted m.orgId a = true := by rw [counted, reachable, own, Bool.and_self]
    have calls_ : calls m.orgId (arrivals ++ [a]) = calls m.orgId arrivals ++ [⟨a.now, limitKey m.orgId⟩] := by
      rw [calls, List.filter_append, List.filter_singleton, counted_, cond_true, List.map_append]
      rfl
    have inOrder := ordered_calls m.orgId ordered
    rw [calls_] at inOrder
    have most := refused_after nonneg positive (c := ⟨a.now, limitKey m.orgId⟩) rfl inOrder (Bool.eq_false_iff.mpr over_)
    -- both sides count the times of the organization's requests
    have times := congrArg (List.countP fun p : Rat × Bool => decide (a.now - limits.windowSeconds < p.1)) pairs
    rw [List.countP_map, List.countP_map, List.countP_filter] at times
    have same : ((serve limits arrivals).answers.countP fun x =>
          decide (a.now - limits.windowSeconds < x.arrival.now) && counted m.orgId x.arrival) =
        arrivals.countP fun b => counted m.orgId b && decide (a.now - limits.windowSeconds < b.now) := by
      conv_rhs => rw [← serve_arrivals limits arrivals, List.countP_map]
      exact List.countP_congr fun x _ => by simp [and_comm]
    exact most.trans_eq (congrArg _ (times.symm.trans same))

/-- The first of the listed memberships, or the requested one of them. -/
def Listed (a : Arrival) (m : OrgMembership) : Prop :=
  ∃ requested, (requestedId a.xTenantId (.app (.validationError "X-Tenant-ID must be a valid UUID."))).toOption =
      some requested ∧
    (listMemberships a.userId a.db).find? (fun m => requested.all fun o => m.orgId = o) = some m

/-- What the requests of an organization are answered. -/
structure Budget (arrivals : List Arrival) : Prop where
  own : (serve limits arrivals).answers.filter (fun x => ofTenant o x.arrival) =
    (serve limits (arrivals.filter (ofTenant o))).answers
  atMost : ∀ t : Rat, (hits (fun x : Answered => x.arrival.now) (passed o) t (t + limits.windowSeconds)
    (serve limits arrivals).answers : Int) ≤ 2 * limits.requests
  failOpen : ∀ x ∈ (serve limits arrivals).answers, ofTenant o x.arrival = true →
    x.arrival.reachable = false → x.admitted = true
  earned : ∀ before a after, arrivals = before ++ a :: after → ofTenant o a = true →
    ∀ e, (currentTenant limits a (serve limits before).redis).1 = .error e →
      e = .app (.rateLimitError "Rate limit exceeded. Try again later.") ∧ a.reachable = true ∧
        limits.requests ≤
          (before.countP fun b => counted o b && decide (a.now - limits.windowSeconds < b.now) : Nat)

theorem listed_of_membership {a : Arrival} {m : OrgMembership} (h : membership a = .ok m) : Listed a m := by
  obtain ⟨requested, parsed, resolved⟩ := of_bind_ok h
  refine ⟨requested, by rw [parsed]; rfl, ?_⟩
  have first : (orderByAsc OrgMembership.createdAt (a.db.orgMemberships.filter fun m =>
      m.userId = a.userId && requested.all fun o => m.orgId = o)).head? = some m := by
    simp only [resolveMembership] at resolved
    split at resolved
    · rename_i found hf
      cases resolved
      exact hf
    · split at resolved <;> cases resolved
  rw [listMemberships, orderByAsc, ← head?_insertionSort_filter, List.filter_filter, ← first, orderByAsc]
  exact congrArg (fun p => ((a.db.orgMemberships.filter p).insertionSort _).head?)
    (funext fun m => Bool.and_comm _ _)

/-- An answer is that of its own request, at the Redis that it met. -/
theorem outcome_of_answer {limits : Limits} {arrivals : List Arrival} {x : Answered}
    (answered : x ∈ (serve limits arrivals).answers) :
    ∃ redis, x.outcome = (currentTenant limits x.arrival redis).1 := by
  induction arrivals using List.reverseRecOn with
  | nil => cases answered
  | append_singleton arrivals a ih =>
    rw [serve_snoc, Log.arrive] at answered
    rcases List.mem_append.mp answered with earlier | last
    · exact ih earlier
    · cases List.mem_singleton.mp last
      exact ⟨_, rfl⟩

theorem outcome_membership {limits : Limits} {arrivals : List Arrival} {x : Answered}
    (answered : x ∈ (serve limits arrivals).answers) {m : OrgMembership} (ok_ : x.outcome = .ok m) :
    membership x.arrival = .ok m := by
  obtain ⟨redis, outcome⟩ := outcome_of_answer answered
  rw [outcome] at ok_
  cases resolved : membership x.arrival with
  | error e =>
    rw [currentTenant_error resolved] at ok_
    cases ok_
  | ok m' =>
    rw [currentTenant_of_ok resolved] at ok_
    split at ok_ <;> cases ok_
    rfl

theorem admitted_unreachable {limits : Limits} {o : UUID} {arrivals : List Arrival} {x : Answered}
    (answered : x ∈ (serve limits arrivals).answers) (own : ofTenant o x.arrival = true)
    (unreachable : x.arrival.reachable = false) : x.admitted = true := by
  obtain ⟨redis, outcome⟩ := outcome_of_answer answered
  obtain ⟨m, resolved, -⟩ := ofTenant_iff.mp own
  rw [currentTenant_unreachable resolved unreachable] at outcome
  rw [Answered.admitted, outcome]
  rfl

/-- Whoever sends what, a request that is let in acts in the listed membership that it asks for; the
answers of an organization's requests are those it would get without all others; of those that are counted, an
interval of a window's length lets at most twice the limit through, and of the others all; and a member is
refused only after the organization's own members have used up the limit in the window before. -/
theorem tenant_budget (limits : Limits) (nonneg : 0 ≤ limits.requests)
    (positive : 0 < limits.windowSeconds) (arrivals : List Arrival)
    (ordered : arrivals.Pairwise fun a b => a.now ≤ b.now) :
    (∀ x ∈ (serve limits arrivals).answers, ∀ m, x.outcome = .ok m → Listed x.arrival m) ∧
      ∀ o, Budget limits o arrivals := by
  refine ⟨fun x hx m ok_ => listed_of_membership (outcome_membership hx ok_), fun o => ?_⟩
  refine ⟨(serve_own limits o arrivals).2, passed_le limits o nonneg positive ordered,
    fun x answered => admitted_unreachable answered, ?_⟩
  rintro before a after rfl own e refused
  have until_ : (before ++ [a]).Pairwise fun a b => a.now ≤ b.now :=
    ordered.sublist (by simp)
  exact refused_earned limits o nonneg positive until_ own refused

end Budgets

namespace Demo

def arrival (userId : UUID) (now : Rat) : Arrival := ⟨userId, none, FrontEnds.Demo.store.db, now, true⟩

/-- Three requests of the only member, one of a stranger between them. -/
def arrivals : List Arrival := [arrival 1 0, arrival 1 10, arrival 9 20, arrival 1 30]

end Demo

theorem tenant_budget_demo :
    (serve ⟨2, 60⟩ Demo.arrivals).answers.map (·.admitted) = [true, true, false, false] ∧
    (∀ x ∈ (serve ⟨2, 60⟩ Demo.arrivals).answers, ∀ m, x.outcome = .ok m →
        Listed x.arrival m) ∧
      ∀ o, Budget ⟨2, 60⟩ o Demo.arrivals :=
  ⟨by decide +kernel, tenant_budget ⟨2, 60⟩ (by decide) (by decide) Demo.arrivals (by decide +kernel)⟩

end TenantAccess
