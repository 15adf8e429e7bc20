import TowerRateTier.Storage.Memory
import TowerRateTier.Storage.Breaker.Transition

/-!
# `CircuitBreaker`

Model of `src/storage/breaker.rs`. A call takes the lock of the state twice, to
be admitted and to record the outcome of the primary; between and after these
it acts on the fallback. `afterAnswer` is the list of these last actions, which
the interleaving model takes one at a time; `checkAndUpdate` is a call that runs
on its own.

* `settle_eq`: a call on its own performs exactly the listed actions.
-/

namespace TowerRateTier

open Breaker

/-! ## Model -/

/-- Model of `BreakerEvent` (lines 129–148). -/
inductive BreakerEvent where
  | primaryFailed (error : StorageError)
  | opened (error : StorageError)
  | closed
deriving DecidableEq, Repr

/-- Model of `CircuitBreaker` (lines 112–121), without its primary. -/
structure CircuitBreaker where
  fallback : MemoryStorage
  policy : Policy
  state : State
  lastPruned : Nanos

/-- `duration_nanos` (lines 364–366). -/
def durationNanos (duration : Duration) : Nanos := UInt64.ofNatClamp duration.asNanos

namespace CircuitBreaker

/-- `CircuitBreaker::new` (lines 155–167): three failures, five seconds. -/
def new (fallback : MemoryStorage) : CircuitBreaker where
  fallback := fallback
  policy := ⟨3, durationNanos (.fromSecs 5), by decide, by decide⟩
  state := .closed 0
  lastPruned := 0

/-- `CircuitBreaker::failure_threshold` (lines 174–178); `none` is its panic. -/
def failureThreshold (cb : CircuitBreaker) (threshold : UInt32) : Option CircuitBreaker :=
  if h : 0 < threshold.toNat then
    some { cb with policy := { cb.policy with failureThreshold := threshold, threshold_pos := h } }
  else none

theorem durationNanos_pos {duration : Duration} (h : 0 < duration.asNanos) :
    0 < (durationNanos duration).toNat := by
  rw [durationNanos, UInt64.toNat_ofNatClamp]
  omega

/-- `CircuitBreaker::open_for` (lines 189–193); `none` is its panic. -/
def openFor (cb : CircuitBreaker) (duration : Duration) : Option CircuitBreaker :=
  if h : 0 < duration.asNanos then
    some { cb with policy :=
      { cb.policy with openFor := durationNanos duration, openFor_pos := durationNanos_pos h } }
  else none

/-- `CircuitBreaker::admit` (lines 210–220), on the state. -/
def admitState (state : State) (now : Nanos) : State × Option Route :=
  match state with
  | .closed _ => (state, some .primary)
  | .openUntil t => if t ≤ now then (.halfOpen, some .probe) else (state, none)
  | .halfOpen => (state, none)

/-- `CircuitBreaker::admit`. -/
def admitCall (cb : CircuitBreaker) (now : Nanos) : CircuitBreaker × Option Route :=
  ({ cb with state := (admitState cb.state now).1 }, (admitState cb.state now).2)

/-- `ProbeGuard::drop` (lines 350–360): a probe whose future is dropped before the
    primary answers gives the next request a chance to probe. -/
def dropProbe (state : State) (route : Route) (admittedAt : Nanos) : State :=
  if route = .probe ∧ state = .halfOpen then .openUntil admittedAt else state

/-- `CircuitBreaker::prune_fallback` (lines 232–235). -/
def pruneFallback (cb : CircuitBreaker) (now : Nanos) : CircuitBreaker :=
  { cb with lastPruned := now, fallback := cb.fallback.retainActive now }

/-- `CircuitBreaker::prune_fallback_if_due` (lines 239–249), when no other call
    prunes between its load and its exchange. -/
def pruneFallbackIfDue (cb : CircuitBreaker) (now : Nanos) : CircuitBreaker :=
  if cb.policy.openFor ≤ now.saturatingSub cb.lastPruned then cb.pruneFallback now else cb

/-- `outcome` of the primary's answer (lines 289–292). -/
def outcomeOf : StorageResult → Outcome
  | .ok _ => .success
  | .error _ => .failure

/-- The answer of the fallback. -/
def checkFallback (cb : CircuitBreaker) (r : CheckRequest) : CircuitBreaker × Decision :=
  ({ cb with fallback := (cb.fallback.check r).1 }, (cb.fallback.check r).2)

/-- The rest of `check_and_update` (lines 289–319) once the primary has answered,
    when no other call runs meanwhile, with the events it reports. -/
def settle (cb : CircuitBreaker) (route : Route) (r : CheckRequest) (result : StorageResult) :
    CircuitBreaker × List BreakerEvent × StorageResult :=
  let old := cb.state
  let cb := { cb with state := afterCall old route (outcomeOf result) r.now cb.policy }
  match result with
  | .ok decision =>
    if old = .halfOpen ∧ cb.state.isClosed then
      ({ cb with fallback := cb.fallback.clear }, [.closed], .ok decision)
    else (cb, [], .ok decision)
  | .error error =>
    if old.isClosed ∧ cb.state.isOpen then
      let (cb, decision) := (cb.pruneFallback r.now).checkFallback r
      (cb, [.primaryFailed error, .opened error], .ok decision)
    else
      let (cb, decision) := (cb.pruneFallbackIfDue r.now).checkFallback r
      (cb, [.primaryFailed error], .ok decision)

/-- `CircuitBreaker::check_and_update` (lines 261–322) when no other call runs
    meanwhile, with the events it reports. -/
def checkAndUpdate {π : Type} (P : Storage π) (cb : CircuitBreaker) (primary : π)
    (r : CheckRequest) : CircuitBreaker × π × List BreakerEvent × StorageResult :=
  match cb.admitCall r.now with
  | (cb, none) =>
    let (cb, decision) := cb.checkFallback r
    (cb, primary, [], .ok decision)
  | (cb, some route) =>
    let cb := if route = .probe then cb.pruneFallback r.now else cb
    let (primary, result) := P.check primary r
    let (cb, events, result) := cb.settle route r result
    (cb, primary, events, result)

/-- `CircuitBreaker` as a backend. -/
def storage {π : Type} (P : Storage π) : Storage (CircuitBreaker × π) where
  checkAndUpdate s key quota cost now :=
    let (cb, primary, _, result) := s.1.checkAndUpdate P s.2 ⟨key, quota, cost, now⟩
    ((cb, primary), result)

/-! ## The actions of a call after the answer of the primary -/

/-- What a call still has to do once it has released the lock. -/
inductive Effect where
  | clear
  | emit (event : BreakerEvent)
  | prune
  | pruneIfDue
  | check
deriving DecidableEq, Repr

/-- Lines 301–319: the actions in the order of the source. -/
def afterAnswer (old new : State) : StorageResult → List Effect
  | .ok _ => if old = .halfOpen ∧ new.isClosed then [.clear, .emit .closed] else []
  | .error error =>
    if old.isClosed ∧ new.isOpen then
      [.emit (.primaryFailed error), .prune, .emit (.opened error), .check]
    else [.emit (.primaryFailed error), .pruneIfDue, .check]

/-- One action of a call with arguments `r`. -/
def perform (cb : CircuitBreaker) (r : CheckRequest) : Effect → CircuitBreaker
  | .clear => { cb with fallback := cb.fallback.clear }
  | .emit _ => cb
  | .prune => cb.pruneFallback r.now
  | .pruneIfDue => cb.pruneFallbackIfDue r.now
  | .check => (cb.checkFallback r).1

/-- The events among the actions. -/
def reported (effects : List Effect) : List BreakerEvent :=
  effects.filterMap fun
    | .emit event => some event
    | _ => none

/-! ## Lemmas -/

@[simp] theorem admitState_closed (failures : UInt32) (now : Nanos) :
    admitState (.closed failures) now = (.closed failures, some .primary) := rfl

@[simp] theorem admitState_halfOpen (now : Nanos) :
    admitState .halfOpen now = (.halfOpen, none) := rfl

theorem admitState_open_due {t now : Nanos} (h : t ≤ now) :
    admitState (.openUntil t) now = (.halfOpen, some .probe) := if_pos h

theorem admitState_open_early {t now : Nanos} (h : ¬ t ≤ now) :
    admitState (.openUntil t) now = (.openUntil t, none) := if_neg h

@[simp] theorem perform_state (cb : CircuitBreaker) (r : CheckRequest) (e : Effect) :
    (cb.perform r e).state = cb.state := by
  cases e with
  | pruneIfDue =>
    show (cb.pruneFallbackIfDue r.now).state = cb.state
    unfold pruneFallbackIfDue
    split_ifs <;> rfl
  | _ => rfl

@[simp] theorem perform_policy (cb : CircuitBreaker) (r : CheckRequest) (e : Effect) :
    (cb.perform r e).policy = cb.policy := by
  cases e with
  | pruneIfDue =>
    show (cb.pruneFallbackIfDue r.now).policy = cb.policy
    unfold pruneFallbackIfDue
    split_ifs <;> rfl
  | _ => rfl

/-- A success of the primary. -/
theorem settle_ok (cb : CircuitBreaker) (route : Route) (r : CheckRequest) (decision : Decision) :
    let new := afterCall cb.state route .success r.now cb.policy
    cb.settle route r (.ok decision) =
      ({ cb with
        state := new
        fallback := if cb.state = .halfOpen ∧ new.isClosed then cb.fallback.clear
          else cb.fallback },
        if cb.state = .halfOpen ∧ new.isClosed then [.closed] else [], .ok decision) := by
  intro new
  show (if cb.state = .halfOpen ∧ new.isClosed then
    (({ cb with state := new, fallback := cb.fallback.clear }, [.closed], .ok decision) :
      CircuitBreaker × List BreakerEvent × StorageResult)
    else ({ cb with state := new }, [], .ok decision)) = _
  split_ifs <;> rfl

/-- The breaker when the fallback answers for a failed primary: pruned if it has just
    opened, and otherwise if it is due. -/
def pruneAfterFailure (cb : CircuitBreaker) (new : State) (now : Nanos) : CircuitBreaker :=
  if cb.state.isClosed ∧ new.isOpen then ({ cb with state := new } : CircuitBreaker).pruneFallback now
  else ({ cb with state := new } : CircuitBreaker).pruneFallbackIfDue now

theorem pruneAfterFailure_state (cb : CircuitBreaker) (new : State) (r : CheckRequest) :
    (cb.pruneAfterFailure new r.now).state = new := by
  unfold pruneAfterFailure
  split_ifs
  · rfl
  · exact perform_state { cb with state := new } r .pruneIfDue

theorem pruneAfterFailure_policy (cb : CircuitBreaker) (new : State) (r : CheckRequest) :
    (cb.pruneAfterFailure new r.now).policy = cb.policy := by
  unfold pruneAfterFailure
  split_ifs
  · rfl
  · exact perform_policy { cb with state := new } r .pruneIfDue

/-- A failure of the primary. -/
theorem settle_error (cb : CircuitBreaker) (route : Route) (r : CheckRequest)
    (error : StorageError) :
    let new := afterCall cb.state route .failure r.now cb.policy
    cb.settle route r (.error error) =
      (((cb.pruneAfterFailure new r.now).checkFallback r).1,
        if cb.state.isClosed ∧ new.isOpen then [.primaryFailed error, .opened error]
          else [.primaryFailed error],
        .ok ((cb.pruneAfterFailure new r.now).checkFallback r).2) := by
  intro new
  unfold pruneAfterFailure
  by_cases hc : cb.state.isClosed ∧ new.isOpen
  · simp only [if_pos hc]
    exact if_pos hc
  · simp only [if_neg hc]
    exact if_neg hc

/-- **A call on its own** records the outcome of the primary and then performs the
    actions of `afterAnswer`. -/
theorem settle_eq (cb : CircuitBreaker) (route : Route) (r : CheckRequest)
    (result : StorageResult) :
    let new := afterCall cb.state route (outcomeOf result) r.now cb.policy
    (cb.settle route r result).1 =
        (afterAnswer cb.state new result).foldl (fun cb e => cb.perform r e)
          { cb with state := new } ∧
      (cb.settle route r result).2.1 = reported (afterAnswer cb.state new result) := by
  intro new
  cases result with
  | ok decision =>
    by_cases hc : cb.state = .halfOpen ∧ new.isClosed
    · simp only [settle, afterAnswer, new, if_pos hc]
      exact ⟨rfl, rfl⟩
    · simp only [settle, afterAnswer, new, if_neg hc]
      exact ⟨rfl, rfl⟩
  | error error =>
    by_cases hc : cb.state.isClosed ∧ new.isOpen
    · simp only [settle, afterAnswer, new, if_pos hc]
      exact ⟨rfl, rfl⟩
    · simp only [settle, afterAnswer, new, if_neg hc]
      exact ⟨rfl, rfl⟩

end CircuitBreaker

end TowerRateTier
