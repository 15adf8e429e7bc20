import TowerRateTier.Quota

/-!
# The state machine of the circuit breaker

Model of `src/storage/breaker/transition.rs`.

* `afterCall_cases`: everything a completed call can do to the state.
-/

namespace TowerRateTier.Breaker

/-! ## Model -/

/-- Model of `State` (lines 8–17). `openUntil` is `Open { until }`. -/
inductive State where
  | closed (failures : UInt32)
  | openUntil (t : Nanos)
  | halfOpen
deriving DecidableEq, Repr

/-- `matches!(state, State::Closed { .. })`. -/
def State.isClosed : State → Bool
  | .closed _ => true
  | _ => false

/-- `matches!(state, State::Open { .. })`. -/
def State.isOpen : State → Bool
  | .openUntil _ => true
  | _ => false

/-- Model of `Route` (lines 21–26). -/
inductive Route where
  | primary
  | probe
deriving DecidableEq, Repr

/-- Model of `Outcome` (lines 30–35). -/
inductive Outcome where
  | success
  | failure
deriving DecidableEq, Repr

/-- Model of `Policy` (lines 39–44). The setters of `CircuitBreaker` refuse a
    threshold of 0 and an empty open period. -/
structure Policy where
  failureThreshold : UInt32
  openFor : Nanos
  threshold_pos : 0 < failureThreshold.toNat
  openFor_pos : 0 < openFor.toNat

theorem five_nanos_pos : 0 < (5 : Nanos).toNat := by decide

/-- `State::Open { until: now.saturating_add(policy.open_for) }`. -/
def Policy.reopen (policy : Policy) (now : Nanos) : State :=
  .openUntil (now.saturatingAdd policy.openFor)

/-- Model of `after_call` (lines 67–92). -/
def afterCall (state : State) (route : Route) (outcome : Outcome) (now : Nanos)
    (policy : Policy) : State :=
  match state, route, outcome with
  | .closed _, .primary, .success => .closed 0
  | .halfOpen, .probe, .success => .closed 0
  | .closed failures, .primary, .failure =>
    let failures := failures.saturatingAdd 1
    if policy.failureThreshold ≤ failures then policy.reopen now else .closed failures
  | .halfOpen, .probe, .failure => policy.reopen now
  -- Stale results, and probe results the breaker no longer waits for.
  | state, _, _ => state

/-! ## What a completed call does -/

/-- The failure of an ordinary call opens the breaker in this state. -/
def Opens (policy : Policy) (state : State) : Prop :=
  ∃ failures, state = .closed failures ∧ policy.failureThreshold.toNat ≤ failures.toNat + 1

@[simp] theorem afterCall_openUntil (t : Nanos) (route : Route) (outcome : Outcome) (now : Nanos)
    (policy : Policy) : afterCall (.openUntil t) route outcome now policy = .openUntil t := by
  cases route <;> cases outcome <;> rfl

@[simp] theorem afterCall_halfOpen_primary (outcome : Outcome) (now : Nanos) (policy : Policy) :
    afterCall .halfOpen .primary outcome now policy = .halfOpen := by
  cases outcome <;> rfl

@[simp] theorem afterCall_closed_probe (failures : UInt32) (outcome : Outcome) (now : Nanos)
    (policy : Policy) :
    afterCall (.closed failures) .probe outcome now policy = .closed failures := by
  cases outcome <;> rfl

@[simp] theorem afterCall_success (failures : UInt32) (now : Nanos) (policy : Policy) :
    afterCall (.closed failures) .primary .success now policy = .closed 0 := rfl

@[simp] theorem afterCall_probe_success (now : Nanos) (policy : Policy) :
    afterCall .halfOpen .probe .success now policy = .closed 0 := rfl

@[simp] theorem afterCall_probe_failure (now : Nanos) (policy : Policy) :
    afterCall .halfOpen .probe .failure now policy = policy.reopen now := rfl

/-- The threshold fits into a `u32`, so a saturated count of failures opens. -/
theorem threshold_le_saturatingAdd (policy : Policy) (failures : UInt32) :
    policy.failureThreshold ≤ failures.saturatingAdd 1 ↔
      policy.failureThreshold.toNat ≤ failures.toNat + 1 := by
  have := policy.failureThreshold.toNat_lt
  rw [UInt32.le_iff_toNat_le, UInt32.toNat_saturatingAdd, UInt32.toNat_one]
  omega

theorem afterCall_failure_opens {failures : UInt32} (now : Nanos) {policy : Policy}
    (h : policy.failureThreshold.toNat ≤ failures.toNat + 1) :
    afterCall (.closed failures) .primary .failure now policy = policy.reopen now :=
  if_pos ((threshold_le_saturatingAdd _ _).mpr h)

theorem afterCall_failure_counts {failures : UInt32} (now : Nanos) {policy : Policy}
    (h : failures.toNat + 1 < policy.failureThreshold.toNat) :
    ∃ failures' : UInt32, failures'.toNat = failures.toNat + 1 ∧
      afterCall (.closed failures) .primary .failure now policy = .closed failures' := by
  refine ⟨failures.saturatingAdd 1, ?_, ?_⟩
  · have := policy.failureThreshold.toNat_lt
    rw [UInt32.toNat_saturatingAdd, UInt32.toNat_one]
    omega
  · exact if_neg (fun hc => absurd ((threshold_le_saturatingAdd _ _).mp hc) (by omega))

/-- **Transitions.** A completed call leaves the state as it is, ends a closed
    period, counts a failure in it, starts one, or ends a probe. -/
theorem afterCall_cases (state : State) (route : Route) (outcome : Outcome) (now : Nanos)
    (policy : Policy) :
    (route = .primary ∧ outcome = .success ∧ (∃ f, state = .closed f) ∧
        afterCall state route outcome now policy = .closed 0) ∨
      (route = .primary ∧ outcome = .failure ∧ Opens policy state ∧
        afterCall state route outcome now policy = policy.reopen now) ∨
      (route = .primary ∧ outcome = .failure ∧ ¬ Opens policy state ∧
        ∃ f f' : UInt32, state = .closed f ∧ f'.toNat = f.toNat + 1 ∧
          f'.toNat < policy.failureThreshold.toNat ∧
          afterCall state route outcome now policy = .closed f') ∨
      (route = .probe ∧ outcome = .success ∧ state = .halfOpen ∧
        afterCall state route outcome now policy = .closed 0) ∨
      (route = .probe ∧ outcome = .failure ∧ state = .halfOpen ∧
        afterCall state route outcome now policy = policy.reopen now) ∨
      (((∃ t, state = .openUntil t) ∨ (state = .halfOpen ∧ route = .primary) ∨
          (∃ f, state = .closed f) ∧ route = .probe) ∧
        afterCall state route outcome now policy = state) := by
  cases state with
  | openUntil t => simp
  | halfOpen =>
    cases route with
    | primary => simp
    | probe => cases outcome <;> simp
  | closed f =>
    cases route with
    | probe => simp
    | primary =>
      cases outcome with
      | success => simp
      | failure =>
        right
        by_cases h : policy.failureThreshold.toNat ≤ f.toNat + 1
        · exact Or.inl ⟨rfl, rfl, ⟨f, rfl, h⟩, afterCall_failure_opens now h⟩
        · obtain ⟨f', hf, he⟩ := afterCall_failure_counts now (not_le.mp h)
          refine Or.inr (Or.inl ⟨rfl, rfl, ?_, f, f', rfl, hf, by omega, he⟩)
          rintro ⟨g, hg, hle⟩
          obtain rfl := State.closed.inj hg
          exact h hle

end TowerRateTier.Breaker
