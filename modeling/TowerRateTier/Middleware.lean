import TowerRateTier.Lib.Readiness
import TowerRateTier.Buffered
import TowerRateTier.Deployment

/-!
# The services as layers

How `TierLimitService`, `BufferedTierLimitService` and `TierCostService` use the
service inside them: `poll_ready` asks it, and a call of one of the first two swaps
the instance that is ready for a clone and moves it into the future.

* `innerCalls_length_le`: a future calls its instance at most once.
* `inner_called_when_ready`: in any stack of these layers the innermost service is
  called only when it is ready.
-/

namespace TowerRateTier

open Readiness

/-! ## Calls of one future -/

namespace TierLimitService

variable {σ B E ResBody : Type} (svc : TierLimitService σ B E ResBody)

theorem shortCircuit_innerCalls_le (st : σ) (req : Request B) (notices : List Notice)
    (outcome : CheckOutcome) :
    (innerCalls (svc.shortCircuit st req notices outcome).actions).length ≤ 1 := by
  cases outcome <;> simp [shortCircuit]

theorem limitedCall_innerCalls_le (st : σ) (now : Nanos) (checkedAt : SystemTime)
    (req : Request B) (notices : List Notice) (userId tier : String) (quota : Quota) :
    (innerCalls (svc.limitedCall st now checkedAt req notices userId tier quota).actions).length ≤
      1 := by
  obtain ⟨-, -, hpass, hstop⟩ :=
    limitedCall_calls svc st now checkedAt req notices userId tier quota
  by_cases h : requestCost req.parts svc.settings ≤ quota.maxBurst ∧
      svc.StorageAllows st (svc.checkOf now req userId tier quota)
  · rw [hpass h]
    exact Nat.le_refl _
  · rw [hstop h]
    exact Nat.zero_le _

/-- The future of a call calls the inner service at most once. -/
theorem innerCalls_length_le (st : σ) (now : Nanos) (checkedAt : SystemTime) (req : Request B) :
    (innerCalls (svc.call st now checkedAt req).actions).length ≤ 1 := by
  rcases hres : resolve svc.rateTier svc.settings (svc.identity req) with ⟨notices, result⟩
  cases result with
  | error outcome =>
    rw [call_of_error hres]
    exact svc.shortCircuit_innerCalls_le st req notices outcome
  | ok found =>
    rw [call_of_ok hres]
    exact svc.limitedCall_innerCalls_le st now checkedAt req notices _ _ _

end TierLimitService

namespace BufferedTierLimitService

variable {σ B E ResBody : Type} (svc : BufferedTierLimitService σ B E ResBody)

theorem conclude_innerCalls_le (st : σ) (checkedAt : SystemTime) (parts : Parts)
    (bodyBytes : Bytes) (actions : List (CallAction Bytes)) (userId tierName : String)
    (result : StorageResult) (h : innerCalls actions = []) :
    (innerCalls (svc.conclude st checkedAt parts bodyBytes actions userId tierName
      result).actions).length ≤ 1 := by
  unfold conclude
  rcases processResult result userId tierName svc.settings checkedAt with ⟨notices, outcome⟩
  cases outcome <;> simp [h]

theorem limitedCall_innerCalls_le (st : σ) (now : Nanos) (checkedAt : SystemTime) (parts : Parts)
    (bodyBytes : Bytes) (notices : List Notice) (userId tierName : String) (quota : Quota) :
    (innerCalls (svc.limitedCall st now checkedAt parts bodyBytes notices userId tierName
      quota).actions).length ≤ 1 := by
  unfold limitedCall
  dsimp only
  rcases rejectCostOverLimit (requestCost parts svc.settings) quota userId tierName
    svc.settings with ⟨rejected, response⟩
  cases response with
  | some resp => simp
  | none => exact svc.conclude_innerCalls_le _ _ _ _ _ _ _ _ (by simp)

/-- The future of a call calls the inner service at most once. -/
theorem innerCalls_length_le (st : σ) (now : Nanos) (checkedAt : SystemTime) (req : Request B) :
    (innerCalls (svc.call st now checkedAt req).actions).length ≤ 1 := by
  unfold call
  split_ifs
  · exact Nat.zero_le _
  · split
    · unfold identified
      split
      · rename_i notices outcome _
        cases outcome <;> simp [shortCircuit]
      · exact svc.limitedCall_innerCalls_le _ _ _ _ _ _ _ _ _
    · exact Nat.zero_le _
    · exact Nat.zero_le _

end BufferedTierLimitService

/-! ## The layers -/

/-- A service of the crate around another one. -/
inductive Middleware : Type 1 where
  | tierLimit {σ B E ResBody : Type} (svc : TierLimitService σ B E ResBody)
  | buffered {σ B E ResBody : Type} (svc : BufferedTierLimitService σ B E ResBody)
  | tierCost (cost : UInt32)

/-- The circumstances of a call: the storage, the times of the two clocks and the request. -/
structure Circumstances (σ B : Type) where
  storage : σ
  now : Nanos
  checkedAt : SystemTime
  req : Request B

/-- `poll_ready` and `call` (`src/service.rs` lines 40–49, `src/buffered.rs` lines 96–105 and
    `src/cost.rs` lines 82–89), and the `Clone` of each service. -/
def Middleware.layer : Middleware → AnyLayer
  | tierLimit svc => ⟨_, _, handover fun x : Circumstances _ _ =>
      (innerCalls (svc.call x.storage x.now x.checkedAt x.req).actions).length⟩
  | buffered svc => ⟨_, _, handover fun x : Circumstances _ _ =>
      (innerCalls (svc.call x.storage x.now x.checkedAt x.req).actions).length⟩
  | tierCost _ => ⟨_, _, direct⟩

theorem Middleware.layer_preserves (mw : Middleware) : mw.layer.layer.Preserves := by
  cases mw with
  | tierLimit svc => exact handover_preserves fun x => svc.innerCalls_length_le _ _ _ _
  | buffered svc => exact handover_preserves fun x => svc.innerCalls_length_le _ _ _ _
  | tierCost cost => exact direct_preserves

/-- **Readiness.** Let the outermost of any stack of these services be called, and cloned,
    only by the rule that a service is called once for each time that it has become ready.
    Then the innermost one is: whichever futures run, in whatever order, wait or are
    dropped, each call of an instance comes after it has become ready itself, with no
    other call of it in between. -/
theorem inner_called_when_ready (stack : List Middleware) (outer inner : List Event)
    (h : Stack (stack.map Middleware.layer) outer inner) (ho : Obeys outer) :
    Obeys inner ∧
      ∀ before i after, inner = before ++ .call i :: after → ReadySince i before := by
  have hobeys : Obeys inner := by
    apply h.obeys _ ho
    intro L hL
    obtain ⟨mw, -, rfl⟩ := List.mem_map.mp hL
    exact mw.layer_preserves
  refine ⟨hobeys, fun before i after he => ?_⟩
  rw [he] at hobeys
  exact hobeys.readySince

/-- A cost layer around a limiter. -/
def costedLimiter : List Middleware := [.tierCost 2, .tierLimit TierLimitService.keyedService]

/-- Two calls of one service, of which the second one reaches the inner service first. -/
def overtakenCalls : List (HandoverStep (Circumstances MemoryStorage Unit)) :=
  let x : Circumstances MemoryStorage Unit :=
    ⟨.new, 0, ⟨0, Deployment.epoch_lt⟩, ⟨⟨"GET", "/", [("x-api-key", "u")], some 2⟩, ()⟩⟩
  [.pollReady 0, .call 0 0, .pollReady 0, .call 0 1, .resume 1 x, .resume 0 x]

/-- Each of them calls the instance that has become ready for it. -/
theorem inner_called_when_ready_overtaken :
    Stack (costedLimiter.map Middleware.layer) [.ready 0, .call 0, .ready 0, .call 0]
        [.ready 0, .clone 0, .ready 1, .clone 1, .call 1, .call 0] ∧
      ReadySince 0 [.ready 0, .clone 0, .ready 1, .clone 1, .call 1] := by
  have hstack : Stack (costedLimiter.map Middleware.layer) [.ready 0, .call 0, .ready 0, .call 0]
      [.ready 0, .clone 0, .ready 1, .clone 1, .call 1, .call 0] :=
    .cons ⟨[.ready 0, .call 0, .ready 0, .call 0], _, rfl⟩
      (.cons ⟨overtakenCalls, _, rfl⟩ (.nil _))
  exact ⟨hstack, (inner_called_when_ready costedLimiter _ _ hstack ⟨_, rfl⟩).2
    [.ready 0, .clone 0, .ready 1, .clone 1, .call 1] 0 [] rfl⟩

end TowerRateTier
