import TowerRateTier.Storage.Breaker.Calls

/-!
# The events of the circuit breaker

The callback of `CircuitBreaker` sees `PrimaryFailed`, `Opened` and `Closed`. They
are derived from the state before and after an answer of the primary, which may
belong to a call that was admitted long before. Here the steps of
`Storage/Breaker/Calls.lean` carry the answers themselves, and the past of a
state says what has happened.

* `step_cases`: everything a step can do, with the events it delivers.
* `breaker_reports_exactly`: what the events and the counter of failures say
  about the past of any reachable state.
-/

namespace TowerRateTier.Breaker

open CircuitBreaker

/-! ## Model -/

/-- A step of some call, with the answer of the primary. -/
inductive AnswerAction where
  | call (id : ℕ) (now : Nanos)
  | answer (id : ℕ) (result : StorageResult)
  | drop (id : ℕ)

/-- The step as one of `callSystem`. -/
def AnswerAction.erase : AnswerAction → Action
  | .call id now => .call id now
  | .answer id result => .answer id (outcomeOf result)
  | .drop id => .drop id

/-- Any number of calls under a policy, with the answers of the primary. -/
def answerSystem (policy : Policy) : TransitionSystem World AnswerAction :=
  ⟨World.start, fun w a => w.step policy a.erase⟩

/-- A step from one world to another. -/
abbrev AnswerStep := TransitionSystem.Step World AnswerAction

namespace AnswerStep

/-- The route and the answer of the call that the step completes. -/
def completed (s : AnswerStep) : Option (Route × StorageResult) :=
  match s.action with
  | .answer id result => (s.source.calls id).map fun c => (c.route, result)
  | _ => none

/-- The events that the step delivers. -/
def events (s : AnswerStep) : List BreakerEvent :=
  match s.action with
  | .answer _ result => reported (afterAnswer s.source.state s.target.state result)
  | _ => []

/-- The error of the call that the step completes. -/
def failure (s : AnswerStep) : Option StorageError :=
  match s.completed with
  | some (_, .error error) => some error
  | _ => none

end AnswerStep

/-! ## What the past says -/

/-- The failed ordinary calls since the later of the start of the closed period and the
    last successful one; the last step comes first. -/
def failuresSince : List AnswerStep → ℕ
  | [] => 0
  | s :: past =>
    if s.source.state.isClosed = false ∧ s.target.state.isClosed = true then 0
    else
      match s.completed with
      | some (.primary, .ok _) => 0
      | some (.primary, .error _) => failuresSince past + 1
      | _ => failuresSince past

/-- The events delivered so far, in their order. -/
def delivered : List AnswerStep → List BreakerEvent
  | [] => []
  | s :: past => delivered past ++ s.events

/-- The error of a `PrimaryFailed`. -/
def failedError : BreakerEvent → Option StorageError
  | .primaryFailed error => some error
  | _ => none

/-- `Opened` as `true` and `Closed` as `false`. -/
def turn : BreakerEvent → Option Bool
  | .opened _ => some true
  | .closed => some false
  | .primaryFailed _ => none

/-- The `Opened` and `Closed` among the events. -/
def turns (events : List BreakerEvent) : List Bool := events.filterMap turn

/-- `true` and `false` in turns, starting with `true`. -/
def Alternates (marks : List Bool) : Prop :=
  marks = (List.range marks.length).map fun i => decide (i % 2 = 0)

/-! ## One step -/

/-- What a step can be. -/
inductive StepCase (policy : Policy) (s : AnswerStep) : Prop where
  /-- No call completes, and the breaker is neither opened nor closed by it. -/
  | none (hdone : s.completed = none) (hevents : s.events = [])
      (hclosed : s.source.state.isClosed = s.target.state.isClosed)
      (hkeep : s.source.state.isClosed = true → s.target.state = s.source.state)
  /-- An ordinary call succeeds in a closed period. -/
  | success (decision : Decision) (failures : UInt32)
      (hdone : s.completed = some (.primary, .ok decision)) (hevents : s.events = [])
      (hsource : s.source.state = .closed failures) (htarget : s.target.state = .closed 0)
  /-- A failure is counted. -/
  | failed (error : StorageError) (failures failures' : UInt32)
      (hdone : s.completed = some (.primary, .error error))
      (hevents : s.events = [.primaryFailed error])
      (hsource : s.source.state = .closed failures) (htarget : s.target.state = .closed failures')
      (hcount : failures'.toNat = failures.toNat + 1)
      (hlt : failures'.toNat < policy.failureThreshold.toNat)
  /-- A failure reaches the threshold. -/
  | opens (error : StorageError) (failures : UInt32) (t : Nanos)
      (hdone : s.completed = some (.primary, .error error))
      (hevents : s.events = [.primaryFailed error, .opened error])
      (hsource : s.source.state = .closed failures) (htarget : s.target.state = .openUntil t)
      (hle : policy.failureThreshold.toNat ≤ failures.toNat + 1)
  /-- The probe succeeds. -/
  | closes (decision : Decision) (hdone : s.completed = some (.probe, .ok decision))
      (hevents : s.events = [.closed]) (hsource : s.source.state = .halfOpen)
      (htarget : s.target.state = .closed 0)
  /-- The probe fails. -/
  | reopens (error : StorageError) (t : Nanos) (hdone : s.completed = some (.probe, .error error))
      (hevents : s.events = [.primaryFailed error]) (hsource : s.source.state = .halfOpen)
      (htarget : s.target.state = .openUntil t)
  /-- An ordinary call completes after the breaker has opened. -/
  | stale (result : StorageResult) (hdone : s.completed = some (.primary, result))
      (hevents : s.events = (s.failure.map BreakerEvent.primaryFailed).toList)
      (hsource : s.source.state.isClosed = false) (htarget : s.target.state = s.source.state)

theorem isClosed_iff {state : State} : state.isClosed = true ↔ ∃ f, state = .closed f := by
  cases state <;> simp [State.isClosed]

/-- A success is reported if it closes the breaker. -/
theorem events_ok {w w' : World} {id : ℕ} (decision : Decision) :
    AnswerStep.events ⟨w, .answer id (.ok decision), w'⟩ =
      if w.state = .halfOpen ∧ w'.state.isClosed = true then [.closed] else [] := by
  show reported (afterAnswer w.state w'.state (.ok decision)) = _
  rw [afterAnswer]
  split_ifs <;> rfl

/-- A failure is reported, and as an opening if it opens the breaker. -/
theorem events_error {w w' : World} {id : ℕ} (error : StorageError) :
    AnswerStep.events ⟨w, .answer id (.error error), w'⟩ =
      if w.state.isClosed = true ∧ w'.state.isOpen = true then
        [.primaryFailed error, .opened error]
      else [.primaryFailed error] := by
  show reported (afterAnswer w.state w'.state (.error error)) = _
  rw [afterAnswer]
  split_ifs <;> rfl

variable {policy : Policy} {w w' : World}

/-- The state after an admission is closed exactly if it was before. -/
theorem admitState_isClosed (state : State) (now : Nanos) :
    (admitState state now).1.isClosed = state.isClosed ∧
      (state.isClosed = true → (admitState state now).1 = state) := by
  cases state with
  | closed f => exact ⟨rfl, fun _ => rfl⟩
  | halfOpen => exact ⟨rfl, fun h => by cases h⟩
  | openUntil t =>
    refine ⟨?_, fun h => by cases h⟩
    by_cases hd : t ≤ now
    · rw [admitState_open_due hd]
      rfl
    · rw [admitState_open_early hd]

theorem dropProbe_isClosed (state : State) (route : Route) (now : Nanos) :
    (dropProbe state route now).isClosed = state.isClosed ∧
      (state.isClosed = true → dropProbe state route now = state) := by
  unfold dropProbe
  split_ifs with h
  · rw [h.2]
    exact ⟨rfl, fun hc => by cases hc⟩
  · exact ⟨rfl, fun _ => rfl⟩

/-- An answer that `after_call` ignores is one of an ordinary call: a probe completes only
    while the breaker is half open. -/
theorem primary_of_unmoved (hI : Invariant policy w) {id : ℕ} {c : Call}
    (hc : w.calls id = some c)
    (hs : (∃ t, w.state = .openUntil t) ∨ (w.state = .halfOpen ∧ c.route = .primary) ∨
      (∃ f, w.state = .closed f) ∧ c.route = .probe) :
    c.route = .primary ∧ w.state.isClosed = false := by
  have hprobe : c.route = .probe → w.state = .halfOpen := by
    intro hr
    by_contra hne
    exact hI.no_probe hne id ⟨c, hc, hr⟩
  rcases hs with ⟨t, ht⟩ | ⟨hh, hr⟩ | ⟨⟨f, hf⟩, hr⟩
  · refine ⟨?_, by rw [ht]; rfl⟩
    cases hr : c.route with
    | primary => rfl
    | probe =>
      rw [hprobe hr] at ht
      cases ht
  · exact ⟨hr, by rw [hh]; rfl⟩
  · rw [hprobe hr] at hf
    cases hf

/-- An answer, by the cases of `after_call`. -/
theorem answer_cases (hI : Invariant policy w) {id : ℕ} {c : Call} (hc : w.calls id = some c)
    (result : StorageResult) :
    StepCase policy ⟨w, .answer id result, w.answered policy id c (outcomeOf result)⟩ := by
  have hdone : AnswerStep.completed
      ⟨w, .answer id result, w.answered policy id c (outcomeOf result)⟩ =
        some (c.route, result) := by
    simp [AnswerStep.completed, hc]
  have hstate : (w.answered policy id c (outcomeOf result)).state =
      afterCall w.state c.route (outcomeOf result) c.admittedAt policy := rfl
  rcases afterCall_cases w.state c.route (outcomeOf result) c.admittedAt policy with
    ⟨hr, ho, ⟨f, hf⟩, he⟩ | ⟨hr, ho, ⟨f, hf, hle⟩, he⟩ | ⟨hr, ho, -, f, f', hf, hcount, hlt, he⟩ |
    ⟨hr, ho, hh, he⟩ | ⟨hr, ho, hh, he⟩ | ⟨hs, he⟩
  · cases result with
    | error error => cases ho
    | ok decision =>
      rw [← hstate] at he
      refine .success decision f (by rw [hdone, hr]) ?_ hf he
      rw [events_ok, if_neg (by simp [hf])]
  · cases result with
    | ok decision => cases ho
    | error error =>
      rw [← hstate] at he
      refine .opens error f _ (by rw [hdone, hr]) ?_ hf he hle
      rw [events_error, if_pos (by simp [hf, he, State.isClosed, State.isOpen, Policy.reopen])]
  · cases result with
    | ok decision => cases ho
    | error error =>
      rw [← hstate] at he
      refine .failed error f f' (by rw [hdone, hr]) ?_ hf he hcount hlt
      rw [events_error, if_neg (by simp [he, State.isOpen])]
  · cases result with
    | error error => cases ho
    | ok decision =>
      rw [← hstate] at he
      refine .closes decision (by rw [hdone, hr]) ?_ hh he
      rw [events_ok, if_pos (by simp [hh, he, State.isClosed])]
  · cases result with
    | ok decision => cases ho
    | error error =>
      rw [← hstate] at he
      refine .reopens error _ (by rw [hdone, hr]) ?_ hh he
      rw [events_error, if_neg (by simp [hh, State.isClosed])]
  · have hstale := primary_of_unmoved hI hc hs
    rw [← hstate] at he
    refine .stale result (by rw [hdone, hstale.1]) ?_ hstale.2 he
    unfold AnswerStep.failure
    rw [hdone]
    cases result with
    | ok decision =>
      rw [events_ok, if_neg (by rw [he, hstale.2]; simp)]
      rfl
    | error error =>
      rw [events_error, if_neg (by rw [hstale.2]; simp)]
      rfl

/-- **One step.** -/
theorem step_cases (hI : Invariant policy w) {a : AnswerAction}
    (hs : (answerSystem policy).step w a = some w') : StepCase policy ⟨w, a, w'⟩ := by
  have hs' : w.step policy a.erase = some w' := hs
  cases a with
  | call id now =>
    obtain ⟨-, rfl⟩ := step_call hs'
    obtain ⟨hclosed, hkeep⟩ := admitState_isClosed w.state now
    exact .none rfl rfl hclosed.symm hkeep
  | answer id result =>
    obtain ⟨c, hc, rfl⟩ := step_answer hs'
    exact answer_cases hI hc result
  | drop id =>
    obtain ⟨c, hc, rfl⟩ := step_drop hs'
    obtain ⟨hclosed, hkeep⟩ := dropProbe_isClosed w.state c.route c.admittedAt
    exact .none rfl rfl hclosed.symm hkeep

theorem invariant_of_answers (h : (answerSystem policy).Reachable w) : Invariant policy w :=
  h.induction invariant_start fun w a w' hI hs => invariant_step w a.erase w' hI hs

/-! ## The count of failures -/

section count

variable {s : AnswerStep} {past : List AnswerStep}

theorem failuresSince_start (h : s.source.state.isClosed = false)
    (h' : s.target.state.isClosed = true) : failuresSince (s :: past) = 0 := by
  rw [failuresSince, if_pos ⟨h, h'⟩]

theorem failuresSince_success (h : s.source.state.isClosed = true) {decision : Decision}
    (hdone : s.completed = some (.primary, .ok decision)) : failuresSince (s :: past) = 0 := by
  rw [failuresSince, if_neg (by simp [h]), hdone]

theorem failuresSince_failure (h : s.source.state.isClosed = true) {error : StorageError}
    (hdone : s.completed = some (.primary, .error error)) :
    failuresSince (s :: past) = failuresSince past + 1 := by
  rw [failuresSince, if_neg (by simp [h]), hdone]

theorem failuresSince_none (h : s.source.state.isClosed = true) (hdone : s.completed = none) :
    failuresSince (s :: past) = failuresSince past := by
  rw [failuresSince, if_neg (by simp [h]), hdone]

end count

/-! ## What a step means for the past -/

namespace StepCase

variable {s : AnswerStep} {past : List AnswerStep}

/-- A failed call is reported once, with its error. -/
theorem failedErrors (h : StepCase policy s) : s.events.filterMap failedError = s.failure.toList := by
  unfold AnswerStep.failure
  cases h with
  | none hdone hevents => simp [hdone, hevents]
  | success decision failures hdone hevents => simp [hdone, hevents]
  | failed error failures failures' hdone hevents => simp [hdone, hevents, failedError]
  | opens error failures t hdone hevents => simp [hdone, hevents, failedError]
  | closes decision hdone hevents => simp [hdone, hevents, failedError]
  | reopens error t hdone hevents => simp [hdone, hevents, failedError]
  | stale result hdone hevents =>
    rw [hevents, AnswerStep.failure, hdone]
    cases result with
    | ok decision => simp
    | error error => simp [failedError]

/-- `Opened` is delivered at the steps from closed to open, and `Closed` at those from half
    open to closed. -/
theorem turns_events (h : StepCase policy s) : turns s.events =
    if s.source.state.isClosed = true ∧ s.target.state.isOpen = true then [true]
    else if s.source.state = .halfOpen ∧ s.target.state.isClosed = true then [false]
    else [] := by
  unfold turns
  cases h with
  | none hdone hevents hclosed hkeep =>
    rw [hevents, if_neg, if_neg]
    · rfl
    · rintro ⟨hh, hc⟩
      rw [← hclosed, hh] at hc
      cases hc
    · rintro ⟨hc, ho⟩
      rw [hkeep hc] at ho
      obtain ⟨f, hf⟩ := isClosed_iff.mp hc
      rw [hf] at ho
      cases ho
  | success decision failures hdone hevents hsource htarget =>
    simp [hevents, hsource, htarget, State.isOpen]
  | failed error failures failures' hdone hevents hsource htarget =>
    simp [hevents, hsource, htarget, State.isOpen, turn]
  | opens error failures t hdone hevents hsource htarget =>
    rw [hevents, if_pos (by simp [hsource, htarget, State.isOpen, State.isClosed])]
    rfl
  | closes decision hdone hevents hsource htarget =>
    simp [hevents, hsource, htarget, State.isClosed, turn]
  | reopens error t hdone hevents hsource htarget =>
    simp [hevents, hsource, htarget, State.isClosed, turn]
  | stale result hdone hevents hsource htarget =>
    rw [hevents, hsource, htarget, hsource]
    cases s.failure <;> simp [turn]

/-- The breaker leaves a closed period exactly at the failure that makes the count reach
    the threshold. -/
theorem leaves_iff (h : StepCase policy s)
    (hcount : ∀ f, s.source.state = .closed f →
      f.toNat = failuresSince past ∧ f.toNat < policy.failureThreshold.toNat)
    (hclosed : s.source.state.isClosed = true) :
    s.target.state.isClosed = false ↔
      (∃ error, s.completed = some (.primary, .error error)) ∧
        failuresSince (s :: past) = policy.failureThreshold.toNat := by
  cases h with
  | none hdone hevents hsame hkeep => simp [hdone, ← hsame, hclosed]
  | success decision failures hdone hevents hsource htarget =>
    simp [hdone, htarget, State.isClosed]
  | failed error failures failures' hdone hevents hsource htarget hf' hlt =>
    have hf := hcount failures hsource
    rw [failuresSince_failure hclosed hdone]
    simp only [htarget, State.isClosed, Bool.true_eq_false, false_iff, not_and]
    omega
  | opens error failures t hdone hevents hsource htarget hle =>
    have hf := hcount failures hsource
    rw [failuresSince_failure hclosed hdone]
    simp only [htarget, State.isClosed, true_iff]
    exact ⟨⟨error, hdone⟩, by omega⟩
  | closes decision hdone hevents hsource htarget =>
    rw [hsource] at hclosed
    cases hclosed
  | reopens error t hdone hevents hsource htarget =>
    rw [hsource] at hclosed
    cases hclosed
  | stale result hdone hevents hsource htarget =>
    rw [hsource] at hclosed
    cases hclosed

/-- It returns to one exactly at the success of a probe. -/
theorem returns_iff (h : StepCase policy s) (hclosed : s.source.state.isClosed = false) :
    s.target.state.isClosed = true ↔ ∃ decision, s.completed = some (.probe, .ok decision) := by
  cases h with
  | none hdone hevents hsame hkeep => simp [hdone, ← hsame, hclosed]
  | success decision failures hdone hevents hsource htarget =>
    rw [hsource] at hclosed
    cases hclosed
  | failed error failures failures' hdone hevents hsource htarget hf' hlt =>
    rw [hsource] at hclosed
    cases hclosed
  | opens error failures t hdone hevents hsource htarget hle =>
    rw [hsource] at hclosed
    cases hclosed
  | closes decision hdone hevents hsource htarget => simp [hdone, htarget, State.isClosed]
  | reopens error t hdone hevents hsource htarget => simp [hdone, htarget, State.isClosed]
  | stale result hdone hevents hsource htarget => simp [hdone, htarget, hsource]

end StepCase

/-! ## The past of a state -/

theorem Alternates.snoc {marks : List Bool} (h : Alternates marks) :
    Alternates (marks ++ [decide (marks.length % 2 = 0)]) := by
  unfold Alternates
  rw [List.length_append, List.length_singleton, List.range_succ, List.map_append,
    List.map_singleton]
  exact congrArg (· ++ [decide (marks.length % 2 = 0)]) h

/-- What the past of a state says about it. -/
structure PastOf (w : World) (past : List AnswerStep) : Prop where
  count : ∀ f, w.state = .closed f → f.toNat = failuresSince past
  alternates : Alternates (turns (delivered past))
  phase : w.state.isClosed = true ↔ (turns (delivered past)).length % 2 = 0
  balance : (turns (delivered past)).count true =
    (turns (delivered past)).count false + if w.state.isClosed = true then 0 else 1

theorem turns_delivered_cons (s : AnswerStep) (past : List AnswerStep) :
    turns (delivered (s :: past)) = turns (delivered past) ++ turns s.events := by
  rw [delivered, turns, turns, turns, List.filterMap_append]

theorem pastOf_start : PastOf World.start [] where
  count f hf := by cases hf; rfl
  alternates := rfl
  phase := by decide
  balance := by decide

variable {s : AnswerStep} {past : List AnswerStep}

/-- A step that neither opens nor closes the breaker. -/
theorem PastOf.quiet (h : PastOf s.source past) (hturns : turns s.events = [])
    (hclosed : s.target.state.isClosed = s.source.state.isClosed)
    (hcount : ∀ f, s.target.state = .closed f → f.toNat = failuresSince (s :: past)) :
    PastOf s.target (s :: past) := by
  have ht : turns (delivered (s :: past)) = turns (delivered past) := by
    rw [turns_delivered_cons, hturns, List.append_nil]
  refine ⟨hcount, ?_, ?_, ?_⟩
  · rw [ht]
    exact h.alternates
  · rw [ht, hclosed]
    exact h.phase
  · rw [ht, hclosed]
    exact h.balance

/-- A step that opens or closes it. -/
theorem PastOf.turned (h : PastOf s.source past)
    (hturns : turns s.events = [s.source.state.isClosed])
    (hclosed : s.target.state.isClosed = !s.source.state.isClosed)
    (hcount : ∀ f, s.target.state = .closed f → f.toNat = failuresSince (s :: past)) :
    PastOf s.target (s :: past) := by
  have ht : turns (delivered (s :: past)) =
      turns (delivered past) ++ [s.source.state.isClosed] := by
    rw [turns_delivered_cons, hturns]
  have hmark : s.source.state.isClosed =
      decide ((turns (delivered past)).length % 2 = 0) := by
    rw [eq_comm, Bool.eq_iff_iff, decide_eq_true_iff]
    exact h.phase.symm
  have hbalance := h.balance
  refine ⟨hcount, ?_, ?_, ?_⟩
  · rw [ht, hmark]
    exact h.alternates.snoc
  · rw [ht, hclosed, hmark, List.length_append, List.length_singleton]
    simp only [Bool.not_eq_eq_eq_not, Bool.not_true, decide_eq_false_iff_not]
    omega
  · rw [ht, hclosed, List.count_append, List.count_append]
    cases hc : s.source.state.isClosed with
    | true =>
      rw [hc] at hbalance
      simpa using hbalance
    | false =>
      rw [hc] at hbalance
      simpa using hbalance

/-- **One step.** -/
theorem PastOf.step (h : PastOf s.source past) (hcase : StepCase policy s) :
    PastOf s.target (s :: past) := by
  cases hcase with
  | none hdone hevents hclosed hkeep =>
    refine h.quiet (by rw [hevents]; rfl) hclosed.symm fun f hf => ?_
    have hsource : s.source.state.isClosed = true := by rw [hclosed, hf]; rfl
    rw [failuresSince_none hsource hdone]
    exact h.count f (by rw [← hkeep hsource, hf])
  | success decision failures hdone hevents hsource htarget =>
    have hclosed : s.source.state.isClosed = true := by rw [hsource]; rfl
    refine h.quiet (by rw [hevents]; rfl) (by rw [htarget, hsource]; rfl) fun f hf => ?_
    rw [failuresSince_success hclosed hdone]
    obtain rfl := State.closed.inj (htarget.symm.trans hf)
    rfl
  | failed error failures failures' hdone hevents hsource htarget hf' hlt =>
    have hclosed : s.source.state.isClosed = true := by rw [hsource]; rfl
    refine h.quiet (by rw [hevents]; rfl) (by rw [htarget, hsource]; rfl) fun f hf => ?_
    rw [failuresSince_failure hclosed hdone, ← h.count failures hsource]
    obtain rfl := State.closed.inj (htarget.symm.trans hf)
    exact hf'
  | opens error failures t hdone hevents hsource htarget hle =>
    refine h.turned (by rw [hevents, hsource]; rfl) (by rw [htarget, hsource]; rfl) fun f hf => ?_
    cases htarget.symm.trans hf
  | closes decision hdone hevents hsource htarget =>
    refine h.turned (by rw [hevents, hsource]; rfl) (by rw [htarget, hsource]; rfl) fun f hf => ?_
    rw [failuresSince_start (by rw [hsource]; rfl) (by rw [htarget]; rfl)]
    obtain rfl := State.closed.inj (htarget.symm.trans hf)
    rfl
  | reopens error t hdone hevents hsource htarget =>
    refine h.quiet (by rw [hevents]; rfl) (by rw [htarget, hsource]; rfl) fun f hf => ?_
    cases htarget.symm.trans hf
  | stale result hdone hevents hsource htarget =>
    refine h.quiet ?_ (by rw [htarget]) fun f hf => ?_
    · rw [hevents]
      cases s.failure <;> rfl
    · rw [← htarget, hf] at hsource
      cases hsource

theorem pastOf_of_reachable {x : World × List AnswerStep}
    (h : (answerSystem policy).withHistory.Reachable x) : PastOf x.1 x.2 := by
  refine h.history_induction (I := Invariant policy) (J := fun x => PastOf x.1 x.2)
    (fun w hw => invariant_of_answers hw) pastOf_start ?_
  intro w past a w' hI hpast hs
  exact PastOf.step (s := ⟨w, a, w'⟩) hpast (step_cases hI hs)

/-- **Events and counter.** In every reachable state, with the steps that have led to it:
    in a closed period the counter is the number of consecutive failures of ordinary
    calls since the start of the period or the last success, and below the threshold;
    `Opened` and `Closed` have been delivered in turns, `Opened` first, and there is
    one `Opened` more exactly if the breaker is not closed. Of the next step: the
    breaker leaves a closed period exactly at the failure of an ordinary call that
    makes this number reach the threshold, and returns to one exactly at the success
    of a probe; a failed call, ordinary or probe, is reported once, with its error;
    `Opened` is delivered exactly if the step goes from closed to open, and `Closed`
    exactly if it goes from half open to closed. -/
theorem breaker_reports_exactly (policy : Policy) (w : World) (past : List AnswerStep)
    (h : (answerSystem policy).withHistory.Reachable (w, past)) :
    (∀ f, w.state = .closed f →
        f.toNat = failuresSince past ∧ f.toNat < policy.failureThreshold.toNat) ∧
      Alternates (turns (delivered past)) ∧
      (turns (delivered past)).count true =
        (turns (delivered past)).count false + (if w.state.isClosed = true then 0 else 1) ∧
      ∀ a w', (answerSystem policy).step w a = some w' →
        let s : AnswerStep := ⟨w, a, w'⟩
        (w.state.isClosed = true → (w'.state.isClosed = false ↔
          (∃ error, s.completed = some (.primary, .error error)) ∧
            failuresSince (s :: past) = policy.failureThreshold.toNat)) ∧
        (w.state.isClosed = false → (w'.state.isClosed = true ↔
          ∃ decision, s.completed = some (.probe, .ok decision))) ∧
        s.events.filterMap failedError = s.failure.toList ∧
        turns s.events =
          if w.state.isClosed = true ∧ w'.state.isOpen = true then [true]
          else if w.state = .halfOpen ∧ w'.state.isClosed = true then [false]
          else [] := by
  have hI := invariant_of_answers h.of_withHistory
  have hpast := pastOf_of_reachable h
  have hcount : ∀ f, w.state = .closed f →
      f.toNat = failuresSince past ∧ f.toNat < policy.failureThreshold.toNat :=
    fun f hf => ⟨hpast.count f hf, hI.failures f hf⟩
  refine ⟨hcount, hpast.alternates, hpast.balance, ?_⟩
  intro a w' hs s
  have hcase : StepCase policy s := step_cases hI hs
  exact ⟨fun hc => hcase.leaves_iff hcount hc, fun hc => hcase.returns_iff hc,
    hcase.failedErrors, hcase.turns_events⟩

/-- One failure opens the breaker, a probe fails, the next one is dropped, and the third
    one closes it. -/
def reportedRun : List AnswerAction :=
  [.call 0 0, .answer 0 (.error ⟨"down"⟩), .call 1 5, .answer 1 (.error ⟨"down"⟩), .call 2 10,
    .drop 2, .call 3 10, .answer 3 (.ok (.ok ⟨0, 0, .zero⟩))]

/-- After that run the breaker has reported one opening and one closing. -/
theorem breaker_reports_exactly_reportedRun :
    ∃ w past, (answerSystem onePolicy).withHistory.run (World.start, []) reportedRun =
        some (w, past) ∧
      delivered past = [.primaryFailed ⟨"down"⟩, .opened ⟨"down"⟩, .primaryFailed ⟨"down"⟩, .closed] ∧
      Alternates (turns (delivered past)) := by
  refine ⟨_, _, rfl, by decide, ?_⟩
  exact (breaker_reports_exactly onePolicy _ _ ⟨reportedRun, rfl⟩).2.1

end TowerRateTier.Breaker
