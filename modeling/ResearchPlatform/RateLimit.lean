import ResearchPlatform.Library.FixedWindows
import Mathlib.Algebra.Order.Ring.Rat
import Mathlib.Tactic.Linarith

/-!
# The rate limiter

`core/rate_limit.py`: a Lua script counts the requests of a key in Redis and lets the
key expire. Times are exact rationals in seconds. A script runs as one step, at one
reading of the server's clock, so the calls of all API instances come one after the
other.
-/

namespace RateLimit

open FixedWindows

/-! ## Redis -/

structure Entry where
  value : Int
  expiresAt : Option Rat
  deriving DecidableEq

abbrev Redis := String → Option Entry

/-- The entry of a key, unless it has expired. -/
def existing (redis : Redis) (now : Rat) (key : String) : Option Entry :=
  (redis key).filter fun e => e.expiresAt.all fun t => decide (now < t)

/-- `INCR`, which starts a key that is not there without an expiry. -/
def incr (now : Rat) (key : String) (redis : Redis) : Redis × Int :=
  match existing redis now key with
  | none => (Function.update redis key (some ⟨1, none⟩), 1)
  | some e => (Function.update redis key (some { e with value := e.value + 1 }), e.value + 1)

/-- `EXPIRE`, which deletes the key for a time that is not positive. -/
def expire (now : Rat) (key : String) (seconds : Int) (redis : Redis) : Redis :=
  match existing redis now key with
  | none => redis
  | some e =>
    if seconds ≤ 0 then Function.update redis key none
    else Function.update redis key (some { e with expiresAt := some (now + seconds) })

/-- `RATE_LIMIT_LUA`. -/
def rateLimitLua (now : Rat) (key : String) (maxRequests window : Int) (redis : Redis) : Redis × Int :=
  let (redis, current) := incr now key redis
  let redis := if current = 1 then expire now key window redis else redis
  if maxRequests < current then (redis, 0) else (redis, 1)

/-- `RateLimiter.is_allowed`, which lets the request through when Redis is not reachable. -/
def isAllowed (reachable : Bool) (now : Rat) (key : String) (maxRequests window : Int)
    (redis : Redis) : Redis × Bool :=
  if reachable then
    let (redis, result) := rateLimitLua now key maxRequests window redis
    (redis, result ≠ 0)
  else (redis, true)

/-! ## Histories -/

structure Call where
  now : Rat
  key : String
  deriving DecidableEq

/-- A call with what came of it: whether it created the key, and whether it was admitted. -/
structure Record where
  call : Call
  created : Bool
  admitted : Bool
  deriving DecidableEq

structure History where
  redis : Redis
  records : List Record

def History.call (maxRequests window : Int) (h : History) (c : Call) : History :=
  let (redis, allowed) := isAllowed true c.now c.key maxRequests window h.redis
  ⟨redis, h.records ++ [⟨c, (existing h.redis c.now c.key).isNone, allowed⟩]⟩

/-- The calls of all instances, from a Redis without keys. -/
def history (maxRequests window : Int) (calls : List Call) : History :=
  calls.foldl (History.call maxRequests window) ⟨fun _ => none, []⟩

def History.recordsOf (h : History) (key : String) : List Record :=
  h.records.filter fun r => r.call.key = key

/-- The records from the last creation of the key on. -/
def sinceCreation (records : List Record) : List Record :=
  records.foldl (fun since r => if r.created then [r] else since ++ [r]) []

theorem history_snoc (maxRequests window : Int) (calls : List Call) (c : Call) :
    history maxRequests window (calls ++ [c]) =
      (history maxRequests window calls).call maxRequests window c := by
  rw [history, List.foldl_append]
  rfl

theorem sinceCreation_snoc (records : List Record) (r : Record) :
    sinceCreation (records ++ [r]) = if r.created then [r] else sinceCreation records ++ [r] := by
  rw [sinceCreation, List.foldl_append]
  rfl

/-! ## One call -/

section Calls
variable {maxRequests window : Int} {now : Rat} {key : String} {redis : Redis}

/-- The script touches no other key. -/
theorem isAllowed_other {other : String} (h : other ≠ key) :
    (isAllowed true now key maxRequests window redis).1 other = redis other := by
  have incr_ : (incr now key redis).1 other = redis other := by
    rw [incr]
    split <;> simp [h]
  have expire_ : ∀ redis : Redis, expire now key window redis other = redis other := by
    intro redis
    rw [expire]
    cases existing redis now key with
    | none => rfl
    | some e =>
      by_cases short : window ≤ 0
      · simp [short, h]
      · simp [short, h]
  simp only [isAllowed, if_true, rateLimitLua]
  split <;> split <;> simp [incr_, expire_]

/-- A key that is not there is created, with its expiry. -/
theorem isAllowed_creates (maxRequests : Int) (none_ : existing redis now key = none) (positive : 0 < window) :
    (isAllowed true now key maxRequests window redis).1 key = some ⟨1, some (now + window)⟩ ∧
      (isAllowed true now key maxRequests window redis).2 = decide (1 ≤ maxRequests) := by
  have incr_ : incr now key redis = (Function.update redis key (some ⟨1, none⟩), 1) := by
    rw [incr, none_]
  have there : existing (Function.update redis key (some ⟨1, none⟩)) now key = some ⟨1, none⟩ := by
    simp [existing]
  have expire_ : expire now key window (Function.update redis key (some ⟨1, none⟩)) key =
      some ⟨1, some (now + window)⟩ := by
    rw [expire, there]
    simp [not_le.mpr positive]
  simp only [isAllowed, rateLimitLua, incr_]
  by_cases over_ : maxRequests < 1
  · simp [over_, expire_, not_le.mpr over_]
  · simp [over_, expire_, not_lt.mp over_]

/-- A key that is there is counted, and keeps its expiry. -/
theorem isAllowed_counts (maxRequests window : Int) {n : Nat} {t : Rat} (positive : 0 < n)
    (entry : redis key = some ⟨n, some t⟩) (alive : now < t) :
    (isAllowed true now key maxRequests window redis).1 key = some ⟨n + 1, some t⟩ ∧
      (isAllowed true now key maxRequests window redis).2 = decide ((n : Int) + 1 ≤ maxRequests) := by
  have there : existing redis now key = some ⟨n, some t⟩ := by
    simp [existing, entry, alive]
  have incr_ : incr now key redis =
      (Function.update redis key (some ⟨n + 1, some t⟩), (n : Int) + 1) := by
    rw [incr, there]
  have counted : ¬ (n : Int) + 1 = 1 := by omega
  simp only [isAllowed, rateLimitLua, incr_, if_neg counted]
  by_cases over_ : maxRequests < (n : Int) + 1
  · simp [over_, not_le.mpr over_]
  · simp [over_, not_lt.mp over_]

end Calls

/-! ## Windows -/

/-- The calls of one window: the first creates the key, and the first `maxRequests` of
them are admitted. -/
inductive Counted (maxRequests : Int) : List Record → Prop
  | created {r : Record} (created : r.created = true) (admitted : r.admitted = decide (1 ≤ maxRequests)) :
      Counted maxRequests [r]
  | next {rs : List Record} {r : Record} (before : Counted maxRequests rs) (created : r.created = false)
      (admitted : r.admitted = decide ((rs.length : Int) + 1 ≤ maxRequests)) :
      Counted maxRequests (rs ++ [r])

theorem Counted.positive {maxRequests : Int} {rs : List Record} (h : Counted maxRequests rs) :
    0 < rs.length := by
  cases h with
  | created => simp
  | next => simp

theorem Counted.countP_le {maxRequests : Int} (hmax : 0 ≤ maxRequests) {rs : List Record}
    (h : Counted maxRequests rs) : rs.countP (·.admitted) ≤ maxRequests.toNat := by
  induction h with
  | @created r created admitted =>
    by_cases one : 1 ≤ maxRequests
    · simp [admitted, one]
      omega
    · simp [admitted, one]
  | @next rs r before created admitted ih =>
    rw [List.countP_append]
    by_cases more : (rs.length : Int) + 1 ≤ maxRequests
    · have few : rs.countP (·.admitted) ≤ rs.length := List.countP_le_length
      have last : [r].countP (·.admitted) ≤ 1 := List.countP_le_length
      omega
    · simpa [admitted, more] using ih

/-- The calls of a key fall into windows, and the entry counts those of the last one. -/
structure Serving (maxRequests window : Int) (h : History) (key : String)
    (spans : List (Rat × List Record)) : Prop where
  records : h.recordsOf key = spans.flatMap Prod.snd
  tiled : Tiled (fun r : Record => r.call.now) (window : Rat) spans
  counted : ∀ s ∈ spans, Counted maxRequests s.2
  starts : ∀ s ∈ spans, ∃ c ∈ s.2.head?, c.call.now = s.1
  entry : h.redis key = spans.getLast?.map fun s => ⟨s.2.length, some (s.1 + window)⟩
  since : sinceCreation (h.recordsOf key) = (spans.getLast?.map Prod.snd).getD []

/-- A property of every call and the calls before it. -/
def EachCall (P : List Record → Record → Prop) (records : List Record) : Prop :=
  ∀ before r after, records = before ++ r :: after → P before r

theorem EachCall.snoc {P : List Record → Record → Prop} {records : List Record} {r : Record}
    (h : EachCall P records) (last : P records r) : EachCall P (records ++ [r]) := by
  intro before r' after whole
  rcases List.eq_nil_or_concat after with rfl | ⟨after, x, rfl⟩
  · obtain ⟨rfl, same⟩ := List.append_inj' whole rfl
    cases same
    exact last
  · rw [List.concat_eq_append, ← List.cons_append, ← List.append_assoc] at whole
    obtain ⟨rfl, -⟩ := List.append_inj' whole rfl
    exact h before r' after rfl

/-- What a call finds: the key is created if it has expired, and the call is admitted if
it is among the first since then. -/
def Decided (maxRequests window : Int) (before : List Record) (r : Record) : Prop :=
  (r.created = true ↔ ∀ c ∈ (sinceCreation before).head?, c.call.now + window ≤ r.call.now) ∧
    (r.admitted = true ↔ ((sinceCreation (before ++ [r])).length : Int) ≤ maxRequests)

section Steps
variable {maxRequests window : Int} {h : History} {key : String} {spans : List (Rat × List Record)}

theorem recordsOf_call_other {c : Call} (other : c.key ≠ key) :
    (h.call maxRequests window c).recordsOf key = h.recordsOf key := by
  simp [History.call, History.recordsOf, other]

theorem recordsOf_call (c : Call) : (h.call maxRequests window c).recordsOf c.key =
    h.recordsOf c.key ++ [⟨c, (existing h.redis c.now c.key).isNone,
      (isAllowed true c.now c.key maxRequests window h.redis).2⟩] := by
  simp [History.call, History.recordsOf]

theorem Serving.call_other {c : Call} (served : Serving maxRequests window h key spans)
    (other : c.key ≠ key) : Serving maxRequests window (h.call maxRequests window c) key spans := by
  have records : (h.call maxRequests window c).recordsOf key = h.recordsOf key :=
    recordsOf_call_other other
  exact ⟨records.trans served.records, served.tiled, served.counted, served.starts,
    (isAllowed_other (Ne.symm other)).trans served.entry, records ▸ served.since⟩

/-- The record of a call. -/
def History.record (maxRequests window : Int) (h : History) (c : Call) : Record :=
  ⟨c, (existing h.redis c.now c.key).isNone, (isAllowed true c.now c.key maxRequests window h.redis).2⟩

/-- A call that finds no key opens a window. -/
theorem Serving.opens {c : Call} (served : Serving maxRequests window h c.key spans)
    (positive : 0 < window) (none_ : existing h.redis c.now c.key = none)
    (after : ∀ s ∈ spans, s.1 + window ≤ c.now) :
    Serving maxRequests window (h.call maxRequests window c) c.key
        (spans ++ [(c.now, [h.record maxRequests window c])]) ∧
      Decided maxRequests window (h.recordsOf c.key) (h.record maxRequests window c) := by
  obtain ⟨entry, allowed⟩ := isAllowed_creates maxRequests none_ positive
  have positive' : (0 : Rat) < window := by exact_mod_cast positive
  have created : (h.record maxRequests window c).created = true := by simp [History.record, none_]
  have admitted : (h.record maxRequests window c).admitted = decide (1 ≤ maxRequests) := allowed
  have since : sinceCreation (h.recordsOf c.key ++ [h.record maxRequests window c]) =
      [h.record maxRequests window c] := by rw [sinceCreation_snoc, if_pos created]
  refine ⟨⟨?_, ?_, ?_, ?_, ?_, ?_⟩, ?_, ?_⟩
  · rw [recordsOf_call, served.records]
    simp [History.record]
  · refine served.tiled.concat (fun x mem => ?_) after
    rw [List.mem_singleton.mp mem]
    exact ⟨le_rfl, lt_add_of_pos_right c.now positive'⟩
  · intro s mem
    rcases List.mem_append.mp mem with mem | mem
    · exact served.counted s mem
    · exact List.mem_singleton.mp mem ▸ .created created admitted
  · intro s mem
    rcases List.mem_append.mp mem with mem | mem
    · exact served.starts s mem
    · rw [List.mem_singleton.mp mem]
      exact ⟨_, rfl, rfl⟩
  · rw [List.getLast?_concat]
    exact entry
  · rw [recordsOf_call, List.getLast?_concat]
    exact since
  · refine iff_of_true created fun first mem => ?_
    rw [served.since] at mem
    rcases List.eq_nil_or_concat spans with rfl | ⟨init, s, rfl⟩
    · cases mem
    · rw [List.concat_eq_append, List.getLast?_concat] at mem
      have inList : s ∈ init.concat s := by simp
      obtain ⟨first', mem', start⟩ := served.starts s inList
      have same : first = first' := Option.some.inj ((Option.mem_def.mp mem).symm.trans mem')
      rw [same, start]
      exact after s inList
  · rw [since, admitted, decide_eq_true_iff]
    simp

/-- A call that finds the key is counted in the last window. -/
theorem Serving.counts {c : Call} {init : List (Rat × List Record)} {start : Rat} {rs : List Record}
    (served : Serving maxRequests window h c.key (init ++ [(start, rs)])) (alive : c.now < start + window)
    (ordered : ∀ r ∈ h.recordsOf c.key, r.call.now ≤ c.now) :
    Serving maxRequests window (h.call maxRequests window c) c.key
        (init ++ [(start, rs ++ [h.record maxRequests window c])]) ∧
      Decided maxRequests window (h.recordsOf c.key) (h.record maxRequests window c) := by
  have inList : (start, rs) ∈ init ++ [(start, rs)] := by simp
  have found : h.redis c.key = some ⟨rs.length, some (start + window)⟩ := by
    simpa using served.entry
  obtain ⟨entry, allowed⟩ := isAllowed_counts maxRequests window
    (served.counted _ inList).positive found alive
  have there : existing h.redis c.now c.key = some ⟨rs.length, some (start + window)⟩ := by
    simp [existing, found, alive]
  have created : (h.record maxRequests window c).created = false := by simp [History.record, there]
  have admitted : (h.record maxRequests window c).admitted =
      decide ((rs.length : Int) + 1 ≤ maxRequests) := allowed
  obtain ⟨first, hfirst, atStart⟩ : ∃ first ∈ rs.head?, first.call.now = start :=
    served.starts _ inList
  have sinceRs : sinceCreation (h.recordsOf c.key) = rs := by simpa using served.since
  have since : sinceCreation (h.recordsOf c.key ++ [h.record maxRequests window c]) =
      rs ++ [h.record maxRequests window c] := by
    rw [sinceCreation_snoc, created, sinceRs]
    rfl
  have started : start ≤ c.now := by
    rw [← atStart]
    refine ordered first ?_
    rw [served.records]
    exact List.mem_flatMap.mpr ⟨_, inList, List.mem_of_mem_head? hfirst⟩
  refine ⟨⟨?_, served.tiled.arrive ⟨started, alive⟩, ?_, ?_, ?_, ?_⟩, ?_, ?_⟩
  · rw [recordsOf_call, served.records]
    simp [History.record]
  · intro s mem
    rcases List.mem_append.mp mem with mem | mem
    · exact served.counted s (List.mem_append_left _ mem)
    · exact List.mem_singleton.mp mem ▸ .next (served.counted _ inList) created admitted
  · intro s mem
    rcases List.mem_append.mp mem with mem | mem
    · exact served.starts s (List.mem_append_left _ mem)
    · rw [List.mem_singleton.mp mem]
      refine ⟨first, ?_, atStart⟩
      rw [List.head?_append, Option.mem_def.mp hfirst]
      rfl
  · have after : (h.call maxRequests window c).redis c.key =
        some ⟨(rs.length : Int) + 1, some (start + window)⟩ := entry
    rw [List.getLast?_concat, after]
    simp
  · rw [recordsOf_call, List.getLast?_concat]
    exact since
  · refine iff_of_false (by simp [created]) fun expired => ?_
    have late := expired first (sinceRs ▸ hfirst)
    rw [atStart] at late
    exact absurd alive (not_lt.mpr late)
  · rw [since, admitted, decide_eq_true_iff, List.length_append]
    simp

theorem Serving.call {c : Call} (served : Serving maxRequests window h c.key spans)
    (positive : 0 < window) (ordered : ∀ r ∈ h.recordsOf c.key, r.call.now ≤ c.now) :
    (∃ spans', Serving maxRequests window (h.call maxRequests window c) c.key spans') ∧
      Decided maxRequests window (h.recordsOf c.key) (h.record maxRequests window c) := by
  rcases List.eq_nil_or_concat spans with rfl | ⟨init, ⟨start, rs⟩, rfl⟩
  · have none_ : existing h.redis c.now c.key = none := by
      have gone : h.redis c.key = none := served.entry
      simp [existing, gone]
    obtain ⟨served', decided⟩ := served.opens positive none_ fun _ mem => nomatch mem
    exact ⟨⟨_, served'⟩, decided⟩
  · rw [List.concat_eq_append] at served
    by_cases alive : c.now < start + window
    · obtain ⟨served', decided⟩ := served.counts alive ordered
      exact ⟨⟨_, served'⟩, decided⟩
    · have expired : start + window ≤ c.now := not_lt.mp alive
      have none_ : existing h.redis c.now c.key = none := by
        have found : h.redis c.key = some ⟨rs.length, some (start + window)⟩ := by
          simpa using served.entry
        simp [existing, found, expired]
      have positive' : (0 : Rat) < window := by exact_mod_cast positive
      have after : ∀ s ∈ init ++ [(start, rs)], s.1 + window ≤ c.now := by
        intro s mem
        rcases List.mem_append.mp mem with mem | mem
        · have before := (List.pairwise_append.mp served.tiled.apart).2.2 s mem (start, rs) (by simp)
          simp only at before
          linarith
        · exact List.mem_singleton.mp mem ▸ expired
      obtain ⟨served', decided⟩ := served.opens positive none_ after
      exact ⟨⟨_, served'⟩, decided⟩

end Steps

/-! ## Runs -/

theorem history_calls (maxRequests window : Int) (calls : List Call) :
    (history maxRequests window calls).records.map (·.call) = calls := by
  induction calls using List.reverseRecOn with
  | nil => rfl
  | append_singleton calls c ih =>
    rw [history_snoc, History.call, List.map_append, ih]
    rfl

/-- Over any run, what every call found, and how the windows lie. -/
theorem served_history (maxRequests : Int) {window : Int} (positive : 0 < window) {key : String}
    {calls : List Call}
    (ordered : (calls.filter (·.key = key)).Pairwise fun c c' => c.now ≤ c'.now) :
    (∃ spans, Serving maxRequests window (history maxRequests window calls) key spans) ∧
      EachCall (Decided maxRequests window) ((history maxRequests window calls).recordsOf key) := by
  induction calls using List.reverseRecOn with
  | nil =>
    refine ⟨⟨[], ⟨rfl, Tiled.nil, by simp, by simp, rfl, rfl⟩⟩, ?_⟩
    intro before r after whole
    cases before <;> cases whole
  | append_singleton calls c ih =>
    rw [List.filter_append] at ordered
    obtain ⟨⟨spans, served⟩, decided⟩ := ih (List.pairwise_append.mp ordered).1
    rw [history_snoc]
    by_cases same : c.key = key
    · subst same
      have before : ∀ r ∈ (history maxRequests window calls).recordsOf c.key, r.call.now ≤ c.now := by
        intro r mem
        obtain ⟨mem, ofKey⟩ := List.mem_filter.mp mem
        have inCalls : r.call ∈ calls := by
          rw [← history_calls maxRequests window calls]
          exact List.mem_map_of_mem mem
        refine (List.pairwise_append.mp ordered).2.2 r.call ?_ c (by simp)
        exact List.mem_filter.mpr ⟨inCalls, ofKey⟩
      obtain ⟨served', last⟩ := served.call positive before
      refine ⟨served', ?_⟩
      rw [recordsOf_call]
      exact decided.snoc last
    · rw [recordsOf_call_other same]
      exact ⟨⟨spans, served.call_other same⟩, decided⟩

/-- The rate limit of a key over a run. -/
structure FixedWindow (maxRequests window : Int) (h : History) (key : String) : Prop where
  expires : ∀ e, h.redis key = some e → e.expiresAt ≠ none
  admits : EachCall (fun before r => r.admitted = true ↔
    ((sinceCreation (before ++ [r])).length : Int) ≤ maxRequests) (h.recordsOf key)
  atMost : ∀ a : Rat, (hits (fun r : Record => r.call.now) (·.admitted) a (a + window)
    (h.recordsOf key) : Int) ≤ 2 * maxRequests
  renews : EachCall (fun before r => ∀ c ∈ (sinceCreation before).head?,
    c.call.now + window ≤ r.call.now → r.created = true ∧ r.admitted = true) (h.recordsOf key)

/-- Every window admits its first calls, an interval meets two windows at most, and no
key is left without an expiry. -/
theorem fixed_window {maxRequests window : Int} (atLeastOne : 1 ≤ maxRequests) (positive : 0 < window)
    (key : String) (calls : List Call)
    (ordered : (calls.filter (·.key = key)).Pairwise fun c c' => c.now ≤ c'.now) :
    FixedWindow maxRequests window (history maxRequests window calls) key := by
  obtain ⟨⟨spans, served⟩, decided⟩ := served_history maxRequests positive ordered
  refine ⟨?_, ?_, ?_, ?_⟩
  · intro e found
    rw [served.entry] at found
    obtain ⟨s, -, rfl⟩ := Option.map_eq_some_iff.mp found
    exact Option.some_ne_none _
  · exact fun before r after whole => (decided before r after whole).2
  · intro a
    have most := served.tiled.hits_le (p := (·.admitted))
      (fun s mem => (served.counted s mem).countP_le (by omega)) a
    rw [← served.records] at most
    omega
  · intro before r after whole c mem late
    obtain ⟨created_, admitted_⟩ := decided before r after whole
    have created : r.created = true := created_.mpr fun c' mem' => by
      rwa [Option.some.inj ((Option.mem_def.mp mem').symm.trans mem)]
    refine ⟨created, admitted_.mpr ?_⟩
    rw [sinceCreation_snoc, if_pos created]
    simpa using atLeastOne

def minuteCalls : List Call := [⟨0, "k"⟩, ⟨20, "k"⟩, ⟨59, "k"⟩, ⟨60, "k"⟩]

/-- Two requests a minute: two of three calls are admitted, and the next one a minute
after the first. -/
theorem fixed_window_minute : FixedWindow 2 60 (history 2 60 minuteCalls) "k" ∧
    (history 2 60 minuteCalls).records.map (·.admitted) = [true, true, false, true] :=
  ⟨fixed_window (by decide) (by decide) "k" minuteCalls (by decide), by decide +kernel⟩

end RateLimit
