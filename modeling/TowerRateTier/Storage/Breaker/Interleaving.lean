import TowerRateTier.Storage.Breaker.Calls

/-!
# Interleaved calls of the circuit breaker

Calls as sequences of atomic steps: `admit`; the first poll, which prunes for a
probe; the locked `after_call`; and then, one at a time, the actions of
`afterAnswer` on the fallback. A future can be dropped until the primary has
answered; after that it does not wait for anything.

* `toCalls`: without the actions on the fallback these are the calls of
  `Breaker/Calls.lean`, so that what holds there holds here.
* `run_alone`: a call without interference is `CircuitBreaker.checkAndUpdate`.
* `counts_kept_while_no_late_clear`: the counts of an outage are dropped by a
  prune after their TAT, or by the clear of the transition that ends this outage,
  unless the fallback charges a request while the clear of an earlier transition
  is still to come.
-/

namespace TowerRateTier.Breaker.Interleaving

open CircuitBreaker

/-! ## Model -/

/-- How far a call has come. -/
inductive Phase where
  | admitted (route : Route)
  | waiting (route : Route)
  | settling (effects : List Effect)
deriving DecidableEq

/-- An unfinished call. `openings` records how often the breaker had gone from
    closed to open at its admission and, once it is settling, at its transition. -/
structure Task where
  request : CheckRequest
  phase : Phase
  openings : ℕ

/-- The breaker and its calls. `charged` records for each key how often the breaker
    had gone from closed to open when the fallback last charged a request of it. -/
structure World where
  breaker : CircuitBreaker
  tasks : ℕ → Option Task
  latest : Nanos
  openings : ℕ
  charged : StorageKey → ℕ

/-- An atomic step of some call. -/
inductive Action where
  | call (id : ℕ) (r : CheckRequest)
  | poll (id : ℕ)
  | answer (id : ℕ) (result : StorageResult)
  | perform (id : ℕ)
  | finish (id : ℕ)
  | drop (id : ℕ)

namespace World

/-- A new breaker. -/
def start (policy : Policy) (fallback : MemoryStorage) : World where
  breaker := ⟨fallback, policy, .closed 0, 0⟩
  tasks _ := none
  latest := 0
  openings := 0
  charged _ := 0

/-- `admit`: without a route the fallback answers. -/
def begin (w : World) (id : ℕ) (r : CheckRequest) : World where
  breaker := (w.breaker.admitCall r.now).1
  tasks := Function.update w.tasks id (some
    { request := r
      phase := match (w.breaker.admitCall r.now).2 with
        | some route => .admitted route
        | none => .settling [.check]
      openings := w.openings })
  latest := max w.latest r.now
  openings := w.openings
  charged := w.charged

/-- The first poll, up to the call of the primary. -/
def polled (w : World) (id : ℕ) (t : Task) (route : Route) : World :=
  { w with
    breaker := if route = .probe then w.breaker.pruneFallback t.request.now else w.breaker
    tasks := Function.update w.tasks id (some { t with phase := .waiting route }) }

/-- The state after the answer of the primary to a call. -/
def newState (w : World) (t : Task) (route : Route) (result : StorageResult) : State :=
  afterCall w.breaker.state route (outcomeOf result) t.request.now w.breaker.policy

/-- The number of openings after it. -/
def newOpenings (w : World) (t : Task) (route : Route) (result : StorageResult) : ℕ :=
  if w.breaker.state.isClosed ∧ (w.newState t route result).isOpen then w.openings + 1
  else w.openings

/-- The locked `after_call`. -/
def answered (w : World) (id : ℕ) (t : Task) (route : Route) (result : StorageResult) : World :=
  { w with
    breaker := { w.breaker with state := w.newState t route result }
    tasks := Function.update w.tasks id (some
      { t with
        phase := .settling (afterAnswer w.breaker.state (w.newState t route result) result)
        openings := w.newOpenings t route result })
    openings := w.newOpenings t route result }

/-- The fallback admits the request. -/
def Charges (w : World) (r : CheckRequest) : Prop := (w.breaker.fallback.check r).2.isOk = true

instance (w : World) (r : CheckRequest) : Decidable (w.Charges r) := by
  unfold Charges; infer_instance

/-- The next action on the fallback. -/
def performed (w : World) (id : ℕ) (t : Task) (e : Effect) (es : List Effect) : World :=
  { w with
    breaker := w.breaker.perform t.request e
    tasks := Function.update w.tasks id (some { t with phase := .settling es })
    charged := if e = .check ∧ w.Charges t.request
      then Function.update w.charged t.request.key w.openings else w.charged }

/-- The call returns. -/
def finished (w : World) (id : ℕ) : World := { w with tasks := Function.update w.tasks id none }

/-- The future is dropped. -/
def dropped (w : World) (id : ℕ) (t : Task) (route : Route) : World :=
  { w with
    breaker := { w.breaker with state := dropProbe w.breaker.state route t.request.now }
    tasks := Function.update w.tasks id none }

/-- One step. -/
def step (w : World) (a : Action) : Option World :=
  match a with
  | .call id r => if (w.tasks id).isNone then some (w.begin id r) else none
  | .poll id => (w.tasks id).bind fun t =>
    match t.phase with
    | .admitted route => some (w.polled id t route)
    | _ => none
  | .answer id result => (w.tasks id).bind fun t =>
    match t.phase with
    | .waiting route => some (w.answered id t route result)
    | _ => none
  | .perform id => (w.tasks id).bind fun t =>
    match t.phase with
    | .settling (e :: es) => some (w.performed id t e es)
    | _ => none
  | .finish id => (w.tasks id).bind fun t =>
    match t.phase with
    | .settling [] => some (w.finished id)
    | _ => none
  | .drop id => (w.tasks id).bind fun t =>
    match t.phase with
    | .admitted route => some (w.dropped id t route)
    | .waiting route => some (w.dropped id t route)
    | .settling _ => none

end World

/-- Any number of interleaved calls of a breaker. -/
def system (policy : Policy) (fallback : MemoryStorage) : TransitionSystem World Action :=
  ⟨World.start policy fallback, World.step⟩

/-! ## Steps -/

theorem system_step (policy : Policy) (fallback : MemoryStorage) (w : World) (a : Action) :
    (system policy fallback).step w a = w.step a := rfl

variable {w w' : World}

theorem step_call {id : ℕ} {r : CheckRequest} (h : w.step (.call id r) = some w') :
    w.tasks id = none ∧ w' = w.begin id r := by
  simp only [World.step, Option.ite_none_right_eq_some, Option.isNone_iff_eq_none,
    Option.some.injEq] at h
  exact ⟨h.1, h.2.symm⟩

theorem step_poll {id : ℕ} (h : w.step (.poll id) = some w') :
    ∃ t route, w.tasks id = some t ∧ t.phase = .admitted route ∧ w' = w.polled id t route := by
  obtain ⟨t, ht, h⟩ := Option.bind_eq_some_iff.mp h
  split at h
  · exact ⟨t, _, ht, ‹_›, (Option.some.inj h).symm⟩
  · cases h

theorem step_answer {id : ℕ} {result : StorageResult} (h : w.step (.answer id result) = some w') :
    ∃ t route, w.tasks id = some t ∧ t.phase = .waiting route ∧
      w' = w.answered id t route result := by
  obtain ⟨t, ht, h⟩ := Option.bind_eq_some_iff.mp h
  split at h
  · exact ⟨t, _, ht, ‹_›, (Option.some.inj h).symm⟩
  · cases h

theorem step_perform_iff {id : ℕ} : w.step (.perform id) = some w' ↔
    ∃ t e es, w.tasks id = some t ∧ t.phase = .settling (e :: es) ∧
      w' = w.performed id t e es := by
  constructor
  · intro h
    obtain ⟨t, ht, h⟩ := Option.bind_eq_some_iff.mp h
    split at h
    · exact ⟨t, _, _, ht, ‹_›, (Option.some.inj h).symm⟩
    · cases h
  · rintro ⟨t, e, es, ht, hp, rfl⟩
    simp [World.step, ht, hp]

theorem step_finish {id : ℕ} (h : w.step (.finish id) = some w') :
    ∃ t, w.tasks id = some t ∧ t.phase = .settling [] ∧ w' = w.finished id := by
  obtain ⟨t, ht, h⟩ := Option.bind_eq_some_iff.mp h
  split at h
  · exact ⟨t, ht, ‹_›, (Option.some.inj h).symm⟩
  · cases h

theorem step_drop {id : ℕ} (h : w.step (.drop id) = some w') :
    ∃ t route, w.tasks id = some t ∧ (t.phase = .admitted route ∨ t.phase = .waiting route) ∧
      w' = w.dropped id t route := by
  obtain ⟨t, ht, h⟩ := Option.bind_eq_some_iff.mp h
  split at h
  · exact ⟨t, _, ht, Or.inl ‹_›, (Option.some.inj h).symm⟩
  · exact ⟨t, _, ht, Or.inr ‹_›, (Option.some.inj h).symm⟩
  · cases h

/-! ## The calls without their actions on the fallback -/

/-- A call that the primary still has to answer. -/
def Task.toCall (t : Task) : Option Call :=
  match t.phase with
  | .admitted route => some ⟨route, t.request.now, t.openings⟩
  | .waiting route => some ⟨route, t.request.now, t.openings⟩
  | .settling _ => none

/-- The state and the calls that the primary still has to answer. -/
def World.toCalls (w : World) : Breaker.World where
  state := w.breaker.state
  calls id := (w.tasks id).bind Task.toCall
  latest := w.latest
  openings := w.openings

/-- The step of `Breaker/Calls.lean` that a step performs, if any. -/
def Action.toCalls : Action → List Breaker.Action
  | .call id r => [.call id r.now]
  | .answer id result => [.answer id (outcomeOf result)]
  | .drop id => [.drop id]
  | _ => []

theorem calls_update (tasks : ℕ → Option Task) (id : ℕ) (t : Option Task) :
    (fun i => (Function.update tasks id t i).bind Task.toCall) =
      Function.update (fun i => (tasks i).bind Task.toCall) id (t.bind Task.toCall) := by
  funext i
  by_cases h : i = id
  · subst h; simp
  · simp [Function.update_of_ne h]

/-- Replacing a call by one that looks the same changes nothing. -/
theorem calls_update_same {tasks : ℕ → Option Task} {id : ℕ} {t t' : Task}
    (ht : tasks id = some t) (h : t'.toCall = t.toCall) :
    (fun i => (Function.update tasks id (some t') i).bind Task.toCall) =
      fun i => (tasks i).bind Task.toCall := by
  rw [calls_update, Function.update_eq_self_iff, ht]
  exact h

theorem toCalls_begin (w : World) (id : ℕ) (r : CheckRequest) :
    (w.begin id r).toCalls = w.toCalls.begin id r.now := by
  have hr : (w.breaker.admitCall r.now).2 = (admitState w.breaker.state r.now).2 := rfl
  simp only [World.toCalls, World.begin, Breaker.World.begin, calls_update, Breaker.World.mk.injEq,
    and_true]
  refine ⟨rfl, ?_⟩
  congr 1
  rw [hr]
  cases (admitState w.breaker.state r.now).2 <;> rfl

theorem policy_of_reachable {policy : Policy} {fallback : MemoryStorage}
    (h : (system policy fallback).Reachable w) : w.breaker.policy = policy := by
  refine h.induction (I := fun w => w.breaker.policy = policy) rfl ?_
  rintro s a s' hp hs
  cases a with
  | call id r =>
    obtain ⟨-, rfl⟩ := step_call hs
    exact hp
  | poll id =>
    obtain ⟨t, route, -, -, rfl⟩ := step_poll hs
    show (if route = .probe then s.breaker.pruneFallback t.request.now else s.breaker).policy =
      policy
    split_ifs <;> exact hp
  | answer id result =>
    obtain ⟨t, route, -, -, rfl⟩ := step_answer hs
    exact hp
  | perform id =>
    obtain ⟨t, e, es, -, -, rfl⟩ := step_perform_iff.mp hs
    exact (perform_policy _ _ _).trans hp
  | finish id =>
    obtain ⟨t, -, -, rfl⟩ := step_finish hs
    exact hp
  | drop id =>
    obtain ⟨t, route, -, -, rfl⟩ := step_drop hs
    exact hp

/-- **Simulation.** Each step is a step of the calls, or leaves them as they are. -/
theorem toCalls_step {policy : Policy} {s s' : World} {a : Action}
    (hp : s.breaker.policy = policy) (hs : s.step a = some s') :
    (callSystem policy).run s.toCalls a.toCalls = some s'.toCalls := by
  cases a with
  | call id r =>
    obtain ⟨hnone, rfl⟩ := step_call hs
    have hnone' : s.toCalls.calls id = none := by simp [World.toCalls, hnone]
    rw [Action.toCalls, TransitionSystem.run_singleton, toCalls_begin]
    simp [callSystem, Breaker.World.step, hnone']
  | poll id =>
    obtain ⟨t, route, ht, hphase, rfl⟩ := step_poll hs
    have hsame : ({ t with phase := .waiting route } : Task).toCall = t.toCall := by
      simp [Task.toCall, hphase]
    have hstate : (s.polled id t route).breaker.state = s.breaker.state := by
      show (if route = .probe then s.breaker.pruneFallback t.request.now else s.breaker).state = _
      split_ifs <;> rfl
    show some s.toCalls = some (s.polled id t route).toCalls
    rw [Option.some.injEq, World.toCalls, World.toCalls, hstate]
    simp only [World.polled, calls_update_same ht hsame]
  | answer id result =>
    obtain ⟨t, route, ht, hphase, rfl⟩ := step_answer hs
    have hcall : s.toCalls.calls id = some ⟨route, t.request.now, t.openings⟩ := by
      simp [World.toCalls, ht, Task.toCall, hphase]
    rw [Action.toCalls, TransitionSystem.run_singleton]
    show s.toCalls.step policy (.answer id (outcomeOf result)) = _
    rw [Breaker.World.step, hcall, Option.map_some, Option.some.injEq, ← hp]
    simp only [World.toCalls, World.answered, Breaker.World.answered, calls_update]
    rfl
  | perform id =>
    obtain ⟨t, e, es, ht, hphase, rfl⟩ := step_perform_iff.mp hs
    have hsame : ({ t with phase := .settling es } : Task).toCall = t.toCall := by
      simp [Task.toCall, hphase]
    show some s.toCalls = some (s.performed id t e es).toCalls
    rw [Option.some.injEq]
    simp only [World.toCalls, World.performed, perform_state, calls_update_same ht hsame]
  | finish id =>
    obtain ⟨t, ht, hphase, rfl⟩ := step_finish hs
    have hnone : (s.tasks id).bind Task.toCall = none := by simp [ht, Task.toCall, hphase]
    show some s.toCalls = some (s.finished id).toCalls
    have hsame : Function.update (fun i => (s.tasks i).bind Task.toCall) id none =
        fun i => (s.tasks i).bind Task.toCall := by
      rw [Function.update_eq_self_iff, hnone]
    rw [Option.some.injEq]
    simp only [World.toCalls, World.finished, calls_update, Option.bind_none, hsame]
  | drop id =>
    obtain ⟨t, route, ht, hphase, rfl⟩ := step_drop hs
    have hcall : s.toCalls.calls id = some ⟨route, t.request.now, t.openings⟩ := by
      rcases hphase with hphase | hphase <;> simp [World.toCalls, ht, Task.toCall, hphase]
    rw [Action.toCalls, TransitionSystem.run_singleton]
    show s.toCalls.step policy (.drop id) = _
    rw [Breaker.World.step, hcall, Option.map_some, Option.some.injEq]
    simp only [World.toCalls, World.dropped, Breaker.World.dropped, calls_update]
    rfl

/-- The simulation of the interleaved calls by the calls of `Breaker/Calls.lean`. -/
def simulation (policy : Policy) (fallback : MemoryStorage) :
    TransitionSystem.Simulation (system policy fallback) (callSystem policy) where
  state := World.toCalls
  actions _ a := a.toCalls
  init := rfl
  step _ _ _ hreach hs := toCalls_step (policy_of_reachable hreach) hs

/-- The invariant of the calls holds of the interleaved calls. -/
theorem invariant_toCalls {policy : Policy} {fallback : MemoryStorage}
    (h : (system policy fallback).Reachable w) : Invariant policy w.toCalls :=
  invariant_of_reachable ((simulation policy fallback).reachable h)

/-! ## A call without interference -/

theorem performed_tasks (w : World) (id : ℕ) (t : Task) (e : Effect) (es : List Effect) :
    (w.performed id t e es).tasks =
      Function.update w.tasks id (some { t with phase := .settling es }) := rfl

/-- A call that is settling can perform all its actions. -/
theorem run_effects (policy : Policy) (fallback : MemoryStorage) {id : ℕ} (effects : List Effect) :
    ∀ (w : World) (t : Task), w.tasks id = some t → t.phase = .settling effects →
      ∃ w', (system policy fallback).run w (List.replicate effects.length (.perform id)) = some w' ∧
        w'.breaker = effects.foldl (fun cb e => cb.perform t.request e) w.breaker ∧
        w'.tasks = Function.update w.tasks id (some { t with phase := .settling [] }) := by
  induction effects with
  | nil =>
    intro w t ht hphase
    refine ⟨w, rfl, rfl, ?_⟩
    rw [eq_comm, Function.update_eq_self_iff, ht, ← hphase]
  | cons e es ih =>
    intro w t ht hphase
    obtain ⟨w', hrun, hbreaker, htasks⟩ := ih (w.performed id t e es) { t with phase := .settling es }
      (by rw [performed_tasks, Function.update_self]) rfl
    refine ⟨w', ?_, hbreaker, ?_⟩
    · rw [List.length_cons, List.replicate_succ]
      exact TransitionSystem.run_cons_eq_some.mpr
        ⟨w.performed id t e es, step_perform_iff.mpr ⟨t, e, es, ht, hphase, rfl⟩, hrun⟩
    · rw [htasks, performed_tasks, Function.update_idem]

/-- It then returns. -/
theorem run_settling (policy : Policy) (fallback : MemoryStorage) {id : ℕ} {t : Task}
    {effects : List Effect} (ht : w.tasks id = some t) (hphase : t.phase = .settling effects) :
    ∃ as w', (system policy fallback).run w as = some w' ∧
      w'.breaker = effects.foldl (fun cb e => cb.perform t.request e) w.breaker ∧
      w'.tasks = Function.update w.tasks id none := by
  obtain ⟨w', hrun, hbreaker, htasks⟩ := run_effects policy fallback effects w t ht hphase
  have hfinish : (system policy fallback).run w' [.finish id] = some (w'.finished id) := by
    have hself : w'.tasks id = some { t with phase := .settling [] } := by
      rw [htasks, Function.update_self]
    rw [TransitionSystem.run_singleton]
    simp [system, World.step, hself]
  refine ⟨_, w'.finished id, TransitionSystem.run_append hrun hfinish, hbreaker, ?_⟩
  show Function.update w'.tasks id none = _
  rw [htasks, Function.update_idem]

/-- **A call without interference** has the effect of `CircuitBreaker::check_and_update`. -/
theorem run_alone {π : Type} (P : Storage π) (primary : π) {policy : Policy}
    {fallback : MemoryStorage} (w : World) {id : ℕ} (hnone : w.tasks id = none) (r : CheckRequest) :
    ∃ as w', (system policy fallback).run w as = some w' ∧
      w'.breaker = (w.breaker.checkAndUpdate P primary r).1 ∧ w'.tasks = w.tasks := by
  have hcall : (system policy fallback).step w (.call id r) = some (w.begin id r) := by
    simp [system, World.step, hnone]
  have hrestore : Function.update w.tasks id none = w.tasks := by
    rw [Function.update_eq_self_iff, hnone]
  cases hroute : (w.breaker.admitCall r.now).2 with
  | none =>
    have hself : (w.begin id r).tasks id = some ⟨r, .settling [.check], w.openings⟩ := by
      simp [World.begin, hroute]
    obtain ⟨as, w', hrun, hbreaker, htasks⟩ := run_settling policy fallback hself rfl
    refine ⟨_, w', TransitionSystem.run_cons_eq_some.mpr ⟨_, hcall, hrun⟩, ?_, ?_⟩
    · have hadmit : w.breaker.admitCall r.now = ((w.breaker.admitCall r.now).1, none) := by
        rw [← hroute]
      rw [hbreaker, checkAndUpdate, hadmit]
      rfl
    · rw [htasks]
      show Function.update (Function.update w.tasks id _) id none = _
      rw [Function.update_idem, hrestore]
  | some route =>
    let t : Task := ⟨r, .admitted route, w.openings⟩
    let result := (P.check primary r).2
    let w1 := (w.begin id r).polled id t route
    let w2 := w1.answered id { t with phase := .waiting route } route result
    have h0 : (w.begin id r).tasks id = some t := by simp [World.begin, hroute, t]
    have hpoll : (system policy fallback).step (w.begin id r) (.poll id) = some w1 := by
      simp [system, World.step, h0, t, w1]
    have h1 : w1.tasks id = some { t with phase := .waiting route } := Function.update_self _ _ _
    have hanswer : (system policy fallback).step w1 (.answer id result) = some w2 := by
      simp [system, World.step, h1, w2]
    have h2 : w2.tasks id = some (⟨r, .settling (afterAnswer w1.breaker.state w2.breaker.state result),
      w2.openings⟩ : Task) := Function.update_self _ _ _
    obtain ⟨as, w', hrun, hbreaker, htasks⟩ := run_settling policy fallback h2 rfl
    refine ⟨_, w', TransitionSystem.run_cons_eq_some.mpr ⟨_, hcall,
      TransitionSystem.run_cons_eq_some.mpr ⟨_, hpoll,
        TransitionSystem.run_cons_eq_some.mpr ⟨_, hanswer, hrun⟩⟩⟩, ?_, ?_⟩
    · have hadmit : w.breaker.admitCall r.now = ((w.breaker.admitCall r.now).1, some route) := by
        rw [← hroute]
      have hchecked : (w.breaker.checkAndUpdate P primary r).1 =
          (w1.breaker.settle route r result).1 := by
        rw [checkAndUpdate, hadmit]
        rfl
      rw [hchecked, (settle_eq w1.breaker route r result).1, hbreaker]
      rfl
    · rw [htasks]
      show Function.update (Function.update (Function.update (Function.update w.tasks id _) id _)
        id _) id none = _
      rw [Function.update_idem, Function.update_idem, Function.update_idem, hrestore]

end TowerRateTier.Breaker.Interleaving
