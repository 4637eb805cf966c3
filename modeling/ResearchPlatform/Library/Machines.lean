import Mathlib.Logic.Basic
import Mathlib.Data.List.Basic
import Mathlib.Data.List.Nodup
import Mathlib.Data.List.Induction

/-!
# Machines that take labelled steps

A machine is a partial step function: `none` says that the event is not enabled
in the state, so a statement that waits for a lock is simply not a step yet.
A run is a list of events, all enabled in turn. Conditions on runs are stated
step by step, and the rules below turn a fact about one step into a fact about
every run.
-/

namespace Machines

universe u v

structure Machine (State : Type u) (Event : Type v) where
  step : State → Event → Option State

namespace Machine
variable {State : Type u} {Event : Type v} (M : Machine State Event)

def run : State → List Event → Option State
  | s, [] => some s
  | s, e :: es => (M.step s e).bind fun t => run t es

def Reachable (init s : State) : Prop := ∃ es, M.run init es = some s

/-- Every step that the run takes satisfies `R`. -/
def EveryStep (R : State → Event → State → Prop) : State → List Event → Prop
  | _, [] => True
  | s, e :: es => ∀ t, M.step s e = some t → R s e t ∧ EveryStep R t es

instance decidableEveryStep (R : State → Event → State → Prop) [∀ s e t, Decidable (R s e t)] :
    ∀ s es, Decidable (M.EveryStep R s es)
  | _, [] => isTrue trivial
  | s, e :: es => match h : M.step s e with
    | none => isTrue fun t ht => by rw [h] at ht; cases ht
    | some t =>
      have := decidableEveryStep R t es
      decidable_of_iff (R s e t ∧ M.EveryStep R t es) (by
        constructor
        · intro both u hu
          rw [h] at hu
          cases hu
          exact both
        · exact fun every => every t h)

/-- What the steps of the run show, in order. -/
def observed {β : Type*} (obs : State → Event → Option β) : State → List Event → List β
  | _, [] => []
  | s, e :: es => match M.step s e with
    | none => []
    | some t => (obs s e).toList ++ observed obs t es

/-- The run took a step of which `Q` held, of its event and the state before it. -/
def Happened (Q : State → Event → Prop) (init : State) (es : List Event) : Prop :=
  ∃ fs e gs w, es = fs ++ e :: gs ∧ M.run init fs = some w ∧ Q w e

/-- `P` holds in every state the run goes through, the first one included. -/
def Throughout (P : State → Prop) (s : State) (es : List Event) : Prop :=
  P s ∧ M.EveryStep (fun _ _ t => P t) s es

instance (P : State → Prop) [DecidablePred P] (s : State) (es : List Event) :
    Decidable (M.Throughout P s es) :=
  inferInstanceAs (Decidable (P s ∧ M.EveryStep (fun _ _ t => P t) s es))

variable {M}

@[simp] theorem run_nil (s : State) : M.run s [] = some s := rfl

theorem run_cons_iff {s t : State} {e : Event} {es : List Event} :
    M.run s (e :: es) = some t ↔ ∃ m, M.step s e = some m ∧ M.run m es = some t := by
  simp only [run, Option.bind_eq_some_iff]

theorem run_append_iff {s t : State} {es fs : List Event} :
    M.run s (es ++ fs) = some t ↔ ∃ m, M.run s es = some m ∧ M.run m fs = some t := by
  induction es generalizing s with
  | nil => simp
  | cons e es ih =>
    simp only [List.cons_append, run_cons_iff, ih]
    constructor
    · rintro ⟨m, hm, k, hk, hr⟩
      exact ⟨k, ⟨m, hm, hk⟩, hr⟩
    · rintro ⟨k, ⟨m, hm, hk⟩, hr⟩
      exact ⟨m, hm, k, hk, hr⟩

theorem Reachable.refl (s : State) : M.Reachable s s := ⟨[], rfl⟩

theorem Reachable.step {init s t : State} {e : Event} (h : M.Reachable init s)
    (hs : M.step s e = some t) : M.Reachable init t := by
  obtain ⟨es, he⟩ := h
  exact ⟨es ++ [e], run_append_iff.mpr ⟨s, he, run_cons_iff.mpr ⟨t, hs, rfl⟩⟩⟩

/-- The state that a closed run ends in. -/
theorem run_getD {init : State} {es : List Event} (d : State) (enabled : (M.run init es).isSome) :
    M.run init es = some ((M.run init es).getD d) := by
  obtain ⟨s, hs⟩ := Option.isSome_iff_exists.mp enabled
  rw [hs, Option.getD_some]

theorem reachable_getD {init : State} {es : List Event} (d : State)
    (enabled : (M.run init es).isSome) : M.Reachable init ((M.run init es).getD d) :=
  ⟨es, run_getD d enabled⟩

/-- The run rule: what every guarded step keeps, a guarded run keeps. -/
theorem run_keeps {I : State → Prop} {G : State → Event → State → Prop}
    (keeps : ∀ s e t, I s → M.step s e = some t → G s e t → I t)
    {s t : State} {es : List Event} (hs : I s) (guarded : M.EveryStep G s es)
    (hr : M.run s es = some t) : I t := by
  induction es generalizing s with
  | nil => exact Option.some.inj hr ▸ hs
  | cons e es ih =>
    obtain ⟨m, hm, hr⟩ := run_cons_iff.mp hr
    obtain ⟨hg, rest⟩ := guarded m hm
    exact ih (keeps s e m hs hm hg) rest hr

/-- The length rule: a rank that every guarded step lowers bounds every guarded run. -/
theorem run_length_le {I : State → Prop} {G : State → Event → State → Prop} (rank : State → ℕ)
    (keeps : ∀ s e t, I s → M.step s e = some t → G s e t → I t)
    (falls : ∀ s e t, I s → M.step s e = some t → G s e t → rank t < rank s)
    {s t : State} {es : List Event} (hs : I s) (guarded : M.EveryStep G s es)
    (hr : M.run s es = some t) : es.length + rank t ≤ rank s := by
  induction es generalizing s with
  | nil =>
    cases hr
    simp
  | cons e es ih =>
    obtain ⟨m, hm, hr⟩ := run_cons_iff.mp hr
    obtain ⟨hg, rest⟩ := guarded m hm
    have shorter := ih (keeps s e m hs hm hg) rest hr
    have lower := falls s e m hs hm hg
    simp only [List.length_cons]
    omega

/-- A condition on events alone holds of a run if it holds of its events. -/
theorem everyStep_of_events {P : Event → Prop} {es : List Event} (s : State)
    (each : ∀ e ∈ es, P e) : M.EveryStep (fun _ e _ => P e) s es := by
  induction es generalizing s with
  | nil => trivial
  | cons e es ih =>
    intro t _
    exact ⟨each e List.mem_cons_self, ih t fun a ha => each a (List.mem_cons_of_mem _ ha)⟩

theorem everyStep_true (s : State) (es : List Event) :
    M.EveryStep (fun _ _ _ => True) s es := everyStep_of_events s fun _ _ => trivial

/-- The crossing rule: what does not hold at first and holds in the end is brought
about by one of the steps. -/
theorem run_crosses {P : State → Prop} {s t : State} {es : List Event}
    (hr : M.run s es = some t) (first : ¬ P s) (last : P t) :
    ∃ fs e gs m m', es = fs ++ e :: gs ∧ M.run s fs = some m ∧ M.step m e = some m' ∧
      M.run m' gs = some t ∧ ¬ P m ∧ P m' := by
  induction es generalizing s with
  | nil =>
    cases hr
    exact absurd last first
  | cons e es ih =>
    obtain ⟨m, hm, hr⟩ := run_cons_iff.mp hr
    by_cases here : P m
    · exact ⟨[], e, es, s, m, rfl, rfl, hm, hr, first, here⟩
    · obtain ⟨fs, f, gs, k, k', rfl, hk, hf, hg, no, yes⟩ := ih hr here
      exact ⟨e :: fs, f, gs, k, k', rfl, run_cons_iff.mpr ⟨m, hm, hk⟩, hf, hg, no, yes⟩

/-- The invariant rule, for steps that need no guard. -/
theorem reachable_invariant {I : State → Prop} {init s : State} (start : I init)
    (keeps : ∀ s e t, I s → M.step s e = some t → I t) (h : M.Reachable init s) : I s := by
  obtain ⟨es, hr⟩ := h
  exact run_keeps (G := fun _ _ _ => True) (fun s e t hi hs _ => keeps s e t hi hs)
    start (everyStep_true init es) hr

/-- Under an invariant that guarded steps keep, the guard may be traded for
what it implies of each step. -/
theorem everyStep_mono {I : State → Prop} {G R : State → Event → State → Prop}
    (keeps : ∀ s e t, I s → M.step s e = some t → G s e t → I t ∧ R s e t)
    {s : State} {es : List Event} (hs : I s) (guarded : M.EveryStep G s es) :
    M.EveryStep R s es := by
  induction es generalizing s with
  | nil => trivial
  | cons e es ih =>
    intro t ht
    obtain ⟨hg, rest⟩ := guarded t ht
    obtain ⟨hi, hr⟩ := keeps s e t hs ht hg
    exact ⟨hr, ih hi rest⟩

/-- Two step conditions that agree wherever the invariant holds, and keep it,
hold of the same runs. -/
theorem everyStep_congr {I : State → Prop} {G R : State → Event → State → Prop}
    (same : ∀ s e t, I s → M.step s e = some t → (G s e t ↔ R s e t))
    (keeps : ∀ s e t, I s → M.step s e = some t → G s e t → I t)
    {s : State} {es : List Event} (hs : I s) :
    M.EveryStep G s es ↔ M.EveryStep R s es := by
  constructor
  · exact everyStep_mono (fun s e t hi ht hg => ⟨keeps s e t hi ht hg, (same s e t hi ht).mp hg⟩) hs
  · refine everyStep_mono (fun s e t hi ht hr => ?_) hs
    have hg := (same s e t hi ht).mpr hr
    exact ⟨keeps s e t hi ht hg, hg⟩

/-- The history rule: what every guarded step keeps of the state and of all that
was shown so far holds at the end of a guarded run. -/
theorem run_keeps_history {β : Type*} {obs : State → Event → Option β}
    {J : State → List β → Prop} {G : State → Event → State → Prop}
    (keeps : ∀ s e t past, J s past → M.step s e = some t → G s e t →
      J t (past ++ (obs s e).toList))
    {s t : State} {es : List Event} {past : List β} (hs : J s past)
    (guarded : M.EveryStep G s es) (hr : M.run s es = some t) :
    J t (past ++ M.observed obs s es) := by
  induction es generalizing s past with
  | nil =>
    cases hr
    simpa [observed] using hs
  | cons e es ih =>
    obtain ⟨m, hm, hr⟩ := run_cons_iff.mp hr
    obtain ⟨hg, rest⟩ := guarded m hm
    have next := ih (keeps s e m past hs hm hg) rest hr
    simpa [observed, hm, List.append_assoc] using next

/-- The prefix rule: an invariant of the state may speak of the run that led to it. -/
theorem run_prefix {init : State} {P : List Event → State → Prop} (first : P [] init)
    (next : ∀ fs w e t, M.run init fs = some w → P fs w → M.step w e = some t → P (fs ++ [e]) t)
    {s : State} {es : List Event} (hr : M.run init es = some s) : P es s := by
  induction es using List.reverseRecOn generalizing s with
  | nil => exact Option.some.inj hr ▸ first
  | append_singleton fs e ih =>
    obtain ⟨w, hw, hr⟩ := run_append_iff.mp hr
    obtain ⟨t, ht, hr⟩ := run_cons_iff.mp hr
    exact Option.some.inj hr ▸ next fs w e t hw (ih hw) ht

theorem Happened.later {Q : State → Event → Prop} {init : State} {es : List Event}
    (more : List Event) (h : M.Happened Q init es) : M.Happened Q init (es ++ more) := by
  obtain ⟨fs, e, gs, w, rfl, hw, hq⟩ := h
  exact ⟨fs, e, gs ++ more, w, by simp, hw, hq⟩

theorem happened_now {Q : State → Event → Prop} {init w : State} {fs : List Event} {e : Event}
    (hw : M.run init fs = some w) (hq : Q w e) : M.Happened Q init (fs ++ [e]) :=
  ⟨fs, e, [], w, rfl, hw, hq⟩

theorem Happened.mono {Q R : State → Event → Prop} {init : State} {es : List Event}
    (implies : ∀ w e, Q w e → R w e) (h : M.Happened Q init es) : M.Happened R init es := by
  obtain ⟨fs, e, gs, w, split, hw, hq⟩ := h
  exact ⟨fs, e, gs, w, split, hw, implies w e hq⟩

/-- What no step of a run may do is what none of its prefixes comes to. -/
theorem everyStep_not_iff {Q : State → Event → Prop} (enabled : ∀ s e, Q s e → ∃ t, M.step s e = some t)
    {s : State} {es : List Event} : M.EveryStep (fun s e _ => ¬ Q s e) s es ↔ ¬ M.Happened Q s es := by
  induction es generalizing s with
  | nil =>
    refine iff_of_true trivial ?_
    rintro ⟨fs, e, gs, w, split, _⟩
    simp at split
  | cons e es ih =>
    constructor
    · rintro every ⟨fs, f, gs, w, split, hw, hq⟩
      cases fs with
      | nil =>
        obtain ⟨rfl, rfl⟩ := List.cons.inj split
        obtain rfl : s = w := Option.some.inj hw
        obtain ⟨t, ht⟩ := enabled s e hq
        exact (every t ht).1 hq
      | cons f' fs =>
        obtain ⟨rfl, rfl⟩ := List.cons.inj split
        obtain ⟨m, hm, hr⟩ := run_cons_iff.mp hw
        exact ih.mp (every m hm).2 ⟨fs, f, gs, w, rfl, hr, hq⟩
    · intro never t ht
      refine ⟨fun hq => never ⟨[], e, es, s, rfl, rfl, hq⟩, ih.mpr ?_⟩
      rintro ⟨fs, f, gs, w, rfl, hw, hq⟩
      exact never ⟨e :: fs, f, gs, w, rfl, run_cons_iff.mpr ⟨t, ht, hw⟩, hq⟩

/-- The trace rule: a property of traces that every prefix inherits, and that each
step extends exactly when its guard holds, is the guard on every step. -/
theorem observed_iff {β : Type*} {obs : State → Event → Option β}
    {J : State → List β → Prop} {G : State → Event → State → Prop} {P : List β → Prop}
    (keeps : ∀ s e t past, J s past → M.step s e = some t → J t (past ++ (obs s e).toList))
    (extends_iff : ∀ s e t past, J s past → P past → M.step s e = some t →
      (P (past ++ (obs s e).toList) ↔ G s e t))
    (inherits : ∀ past more, P (past ++ more) → P past)
    {s : State} {es : List Event} {past : List β} (hs : J s past) (hp : P past) :
    P (past ++ M.observed obs s es) ↔ M.EveryStep G s es := by
  induction es generalizing s past with
  | nil => simpa [observed, EveryStep] using hp
  | cons e es ih =>
    simp only [observed, EveryStep]
    cases ht : M.step s e with
    | none => simpa using hp
    | some t =>
      have next := extends_iff s e t past hs hp ht
      simp only [Option.some.injEq, forall_eq', ← List.append_assoc]
      constructor
      · intro whole
        have here := inherits _ _ whole
        exact ⟨next.mp here, (ih (keeps s e t past hs ht) here).mp whole⟩
      · rintro ⟨guard, rest⟩
        exact (ih (keeps s e t past hs ht) (next.mpr guard)).mpr rest

/-- The order rule: if whatever a step shows comes after all that is past, and is
past from then on, then a guarded run shows its values in order. -/
theorem observed_pairwise {β : Type*} {I : State → Prop} {G : State → Event → State → Prop}
    {obs : State → Event → Option β} {R : β → β → Prop} (Past : State → β → Prop)
    (keeps : ∀ s e t, I s → M.step s e = some t → G s e t → I t)
    (stays : ∀ s e t b, I s → M.step s e = some t → G s e t → Past s b → Past t b)
    (marks : ∀ s e t b, I s → M.step s e = some t → G s e t → obs s e = some b →
      (∀ a, Past s a → R a b) ∧ Past t b)
    {s : State} {es : List Event} (hs : I s) (guarded : M.EveryStep G s es) :
    (M.observed obs s es).Pairwise R ∧ ∀ a, Past s a → ∀ b ∈ M.observed obs s es, R a b := by
  induction es generalizing s with
  | nil => simp [observed]
  | cons e es ih =>
    simp only [observed]
    cases ht : M.step s e with
    | none => simp
    | some t =>
      obtain ⟨hg, rest⟩ := guarded t ht
      obtain ⟨ordered, after⟩ := ih (keeps s e t hs ht hg) rest
      have before : ∀ a, Past s a → ∀ b ∈ M.observed obs t es, R a b :=
        fun a ha => after a (stays s e t a hs ht hg ha)
      cases ho : obs s e with
      | none => exact ⟨ordered, before⟩
      | some b =>
        obtain ⟨new, past⟩ := marks s e t b hs ht hg ho
        refine ⟨List.pairwise_cons.mpr ⟨after b past, ordered⟩, ?_⟩
        intro a ha x hx
        rcases List.mem_cons.mp hx with rfl | hx
        · exact new a ha
        · exact before a ha x hx

/-- The once-only rule: if a step shows only what is not yet done, does it, and
undoes nothing, then a guarded run shows nothing twice. -/
theorem observed_nodup {β : Type*} {I : State → Prop} {G : State → Event → State → Prop}
    {obs : State → Event → Option β} (Done : State → β → Prop)
    (keeps : ∀ s e t, I s → M.step s e = some t → G s e t → I t)
    (stays : ∀ s e t b, I s → M.step s e = some t → G s e t → Done s b → Done t b)
    (marks : ∀ s e t b, I s → M.step s e = some t → G s e t → obs s e = some b →
      ¬ Done s b ∧ Done t b)
    {s : State} {es : List Event} (hs : I s) (guarded : M.EveryStep G s es) :
    (M.observed obs s es).Nodup :=
  (observed_pairwise (R := fun a b => a ≠ b) Done keeps stays (fun s e t b i ht hg ho => by
    obtain ⟨new, done⟩ := marks s e t b i ht hg ho
    refine ⟨?_, done⟩
    rintro a old rfl
    exact new old) hs guarded).1

end Machine

end Machines
