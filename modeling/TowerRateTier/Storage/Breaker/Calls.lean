import TowerRateTier.Storage.Breaker
import TowerRateTier.Lib.TransitionSystem

/-!
# Overlapping calls of the circuit breaker

The state of the breaker and the calls that the primary has not answered yet.
Steps, in any order and with times in any order: a new call, the answer of the
primary to an admitted call, and the drop of the future of one.

* `Invariant`: there is a probe exactly in the half-open state, the count of
  failures is below the threshold, and `until` is at most `open_for` ahead.
* `breaker_never_stuck`: never two probes, and a breaker without unfinished
  calls sends a request to the primary at the latest after `open_for`.
* `stale_answers_harmless_iff`: a stale answer leaves the state unchanged, except
  for one that arrives in a later closed period: there it is counted like a
  fresh one.
-/

namespace TowerRateTier.Breaker

open CircuitBreaker

/-! ## Model -/

/-- A call that was admitted to the primary and is unfinished. `openings` records
    how often the breaker had gone from closed to open at its admission. -/
structure Call where
  route : Route
  admittedAt : Nanos
  openings : ℕ
deriving DecidableEq, Repr

/-- The breaker, its unfinished calls, the largest time a call has used and the
    number of steps from closed to open so far. -/
structure World where
  state : State
  calls : ℕ → Option Call
  latest : Nanos
  openings : ℕ

/-- A step of some call. -/
inductive Action where
  | call (id : ℕ) (now : Nanos)
  | answer (id : ℕ) (outcome : Outcome)
  | drop (id : ℕ)

namespace World

/-- A new breaker. -/
def start : World := ⟨.closed 0, fun _ => none, 0, 0⟩

/-- Call `id` begins: `admit`. -/
def begin (w : World) (id : ℕ) (now : Nanos) : World where
  state := (admitState w.state now).1
  calls := Function.update w.calls id
    ((admitState w.state now).2.map fun route => ⟨route, now, w.openings⟩)
  latest := max w.latest now
  openings := w.openings

/-- The primary answers call `id`: `after_call`. -/
def answered (policy : Policy) (w : World) (id : ℕ) (c : Call) (outcome : Outcome) : World :=
  let new := afterCall w.state c.route outcome c.admittedAt policy
  { w with
    state := new
    calls := Function.update w.calls id none
    openings := if w.state.isClosed ∧ new.isOpen then w.openings + 1 else w.openings }

/-- The future of call `id` is dropped: `ProbeGuard::drop`. -/
def dropped (w : World) (id : ℕ) (c : Call) : World :=
  { w with
    state := dropProbe w.state c.route c.admittedAt
    calls := Function.update w.calls id none }

/-- One step. -/
def step (policy : Policy) (w : World) : Action → Option World
  | .call id now => if (w.calls id).isNone then some (w.begin id now) else none
  | .answer id outcome => (w.calls id).map fun c => w.answered policy id c outcome
  | .drop id => (w.calls id).map fun c => w.dropped id c

end World

/-- Any number of calls under a policy. -/
def callSystem (policy : Policy) : TransitionSystem World Action := ⟨World.start, World.step policy⟩

/-- Call `id` is an unfinished probe. -/
def IsProbe (w : World) (id : ℕ) : Prop := ∃ c, w.calls id = some c ∧ c.route = .probe

/-! ## Steps -/

variable {policy : Policy} {w w' : World}

theorem step_call {id : ℕ} {now : Nanos} (h : w.step policy (.call id now) = some w') :
    w.calls id = none ∧ w' = w.begin id now := by
  simp only [World.step, Option.ite_none_right_eq_some, Option.isNone_iff_eq_none,
    Option.some.injEq] at h
  exact ⟨h.1, h.2.symm⟩

theorem step_answer {id : ℕ} {outcome : Outcome}
    (h : w.step policy (.answer id outcome) = some w') :
    ∃ c, w.calls id = some c ∧ w' = w.answered policy id c outcome := by
  obtain ⟨c, hc, rfl⟩ := Option.map_eq_some_iff.mp h
  exact ⟨c, hc, rfl⟩

theorem step_drop {id : ℕ} (h : w.step policy (.drop id) = some w') :
    ∃ c, w.calls id = some c ∧ w' = w.dropped id c := by
  obtain ⟨c, hc, rfl⟩ := Option.map_eq_some_iff.mp h
  exact ⟨c, hc, rfl⟩

/-- A call that ends is no probe any more, and the others stay as they are. -/
theorem isProbe_of_removed {id : ℕ} (h : w'.calls = Function.update w.calls id none) (id' : ℕ) :
    IsProbe w' id' ↔ id' ≠ id ∧ IsProbe w id' := by
  unfold IsProbe
  rw [h]
  by_cases he : id' = id
  · subst he; simp
  · simp [he]

theorem isProbe_begin {id : ℕ} {now : Nanos} (hnone : w.calls id = none) (id' : ℕ) :
    IsProbe (w.begin id now) id' ↔
      IsProbe w id' ∨ id' = id ∧ (admitState w.state now).2 = some .probe := by
  unfold IsProbe World.begin
  by_cases he : id' = id
  · subst he
    cases hr : (admitState w.state now).2 with
    | none => simp [hnone]
    | some route => simp [hnone]
  · simp [he]

/-! ## The invariant -/

/-- What holds in every reachable state. -/
structure Invariant (policy : Policy) (w : World) : Prop where
  probe : w.state = .halfOpen → ∃ id, IsProbe w id ∧ ∀ id', IsProbe w id' → id' = id
  no_probe : w.state ≠ .halfOpen → ∀ id, ¬ IsProbe w id
  failures : ∀ f, w.state = .closed f → f.toNat < policy.failureThreshold.toNat
  due : ∀ t, w.state = .openUntil t → t.toNat ≤ (w.latest.saturatingAdd policy.openFor).toNat
  admitted : ∀ id c, w.calls id = some c → c.admittedAt.toNat ≤ w.latest.toNat

theorem invariant_start : Invariant policy World.start where
  probe h := by cases h
  no_probe _ id := by rintro ⟨c, hc, -⟩; cases hc
  failures f h := by cases h; exact policy.threshold_pos
  due t h := by cases h
  admitted id c h := by cases h

/-- The time at which a probe is due, seen from a later time. -/
theorem toNat_saturatingAdd_le {a b c : Nanos} (h : a.toNat ≤ b.toNat) :
    (a.saturatingAdd c).toNat ≤ (b.saturatingAdd c).toNat := by
  rw [UInt64.toNat_saturatingAdd, UInt64.toNat_saturatingAdd]
  omega

theorem le_toNat_saturatingAdd {a b c : Nanos} (h : a.toNat ≤ b.toNat) :
    a.toNat ≤ (b.saturatingAdd c).toNat := by
  have := a.toNat_le
  rw [UInt64.toNat_saturatingAdd]
  omega

theorem latest_begin (w : World) (id : ℕ) (now : Nanos) :
    w.latest.toNat ≤ (w.begin id now).latest.toNat ∧
      now.toNat ≤ (w.begin id now).latest.toNat := by
  simp only [World.begin, UInt64.toNat_max]
  omega

theorem Invariant.admitted_begin (h : Invariant policy w) (id : ℕ) (now : Nanos) :
    ∀ id' c, (w.begin id now).calls id' = some c →
      c.admittedAt.toNat ≤ (w.begin id now).latest.toNat := by
  intro id' c hc
  by_cases he : id' = id
  · subst he
    simp only [World.begin, Function.update_self, Option.map_eq_some_iff] at hc
    obtain ⟨route, -, rfl⟩ := hc
    exact (latest_begin w id' now).2
  · simp only [World.begin, Function.update_of_ne he] at hc
    exact (h.admitted id' c hc).trans (latest_begin w id now).1

theorem Invariant.begin (h : Invariant policy w) {id : ℕ} {now : Nanos}
    (hnone : w.calls id = none) : Invariant policy (w.begin id now) := by
  have hlatest := latest_begin w id now
  have hadm := h.admitted_begin id now
  cases hs : w.state with
  | closed f =>
    have hs' : (w.begin id now).state = .closed f := by simp [World.begin, hs]
    refine ⟨by simp [hs'], ?_, ?_, by simp [hs'], hadm⟩
    · intro _ id' hp
      rw [isProbe_begin hnone, hs] at hp
      rcases hp with hp | ⟨-, hr⟩
      · exact h.no_probe (by simp [hs]) id' hp
      · simp at hr
    · intro g hg
      exact h.failures g (by rw [hs, ← hg, hs'])
  | halfOpen =>
    have hs' : (w.begin id now).state = .halfOpen := by simp [World.begin, hs]
    refine ⟨?_, by simp [hs'], by simp [hs'], by simp [hs'], hadm⟩
    intro _
    obtain ⟨p, hp, huniq⟩ := h.probe hs
    refine ⟨p, (isProbe_begin hnone p).mpr (Or.inl hp), fun id' hp' => ?_⟩
    rw [isProbe_begin hnone, hs] at hp'
    rcases hp' with hp' | ⟨-, hr⟩
    · exact huniq id' hp'
    · simp at hr
  | openUntil t =>
    have hno := h.no_probe (by simp [hs])
    by_cases hd : t ≤ now
    · -- The call becomes the only probe.
      have hadmit := admitState_open_due hd
      have hs' : (w.begin id now).state = .halfOpen := by simp [World.begin, hs, hadmit]
      refine ⟨?_, by simp [hs'], by simp [hs'], by simp [hs'], hadm⟩
      intro _
      refine ⟨id, (isProbe_begin hnone id).mpr (Or.inr ⟨rfl, by rw [hs, hadmit]⟩), ?_⟩
      intro id' hp'
      rcases (isProbe_begin hnone id').mp hp' with hp' | ⟨he, -⟩
      · exact absurd hp' (hno id')
      · exact he
    · have hadmit := admitState_open_early hd
      have hs' : (w.begin id now).state = .openUntil t := by simp [World.begin, hs, hadmit]
      refine ⟨by simp [hs'], ?_, by simp [hs'], ?_, hadm⟩
      · intro _ id' hp
        rw [isProbe_begin hnone, hs, hadmit] at hp
        rcases hp with hp | ⟨-, hr⟩
        · exact hno id' hp
        · cases hr
      · intro u hu
        rw [hs'] at hu
        obtain rfl := State.openUntil.inj hu
        exact (h.due t hs).trans (toNat_saturatingAdd_le hlatest.1)

/-- The end of a call: it suffices to look at the new state. -/
theorem Invariant.removed (h : Invariant policy w) {id : ℕ} {c : Call} (hc : w.calls id = some c)
    (hcalls : w'.calls = Function.update w.calls id none) (hlatest : w'.latest = w.latest)
    (hstate : (w'.state = w.state ∧ (w.state = .halfOpen → c.route = .primary)) ∨
      (w.state = .halfOpen → c.route = .probe) ∧
        ((∃ f, w'.state = .closed f ∧ f.toNat < policy.failureThreshold.toNat) ∨
          ∃ t, w'.state = .openUntil t ∧
            t.toNat ≤ (w.latest.saturatingAdd policy.openFor).toNat)) :
    Invariant policy w' := by
  have hadm : ∀ id' c', w'.calls id' = some c' → c'.admittedAt.toNat ≤ w'.latest.toNat := by
    intro id' c' hc'
    rw [hcalls] at hc'
    by_cases he : id' = id
    · subst he; simp at hc'
    · rw [Function.update_of_ne he] at hc'
      rw [hlatest]
      exact h.admitted id' c' hc'
  rcases hstate with ⟨hs, hroute⟩ | ⟨hroute, hs⟩
  · refine ⟨?_, ?_, ?_, ?_, hadm⟩
    · intro hh
      rw [hs] at hh
      obtain ⟨p, hp, huniq⟩ := h.probe hh
      have hne : p ≠ id := by
        rintro rfl
        obtain ⟨c', hc', hr⟩ := hp
        obtain rfl : c = c' := Option.some.inj (hc.symm.trans hc')
        rw [hroute hh] at hr
        cases hr
      exact ⟨p, (isProbe_of_removed hcalls p).mpr ⟨hne, hp⟩, fun id' hp' =>
        huniq id' ((isProbe_of_removed hcalls id').mp hp').2⟩
    · intro hh id' hp'
      exact h.no_probe (by rwa [hs] at hh) id' ((isProbe_of_removed hcalls id').mp hp').2
    · intro f hf
      exact h.failures f (by rw [← hs, hf])
    · intro t ht
      rw [hlatest]
      exact h.due t (by rw [← hs, ht])
  · have hno : ∀ id', ¬ IsProbe w' id' := by
      intro id' hp'
      obtain ⟨hne, hp⟩ := (isProbe_of_removed hcalls id').mp hp'
      by_cases hh : w.state = .halfOpen
      · obtain ⟨p, -, huniq⟩ := h.probe hh
        exact hne ((huniq id' hp).trans (huniq id ⟨c, hc, hroute hh⟩).symm)
      · exact h.no_probe hh id' hp
    rcases hs with ⟨f, hf, hlt⟩ | ⟨t, ht, hle⟩
    · exact ⟨by simp [hf], fun _ => hno, fun g hg => by rw [hf] at hg; cases hg; exact hlt,
        by simp [hf], hadm⟩
    · exact ⟨by simp [ht], fun _ => hno, by simp [ht],
        fun u hu => by rw [ht] at hu; cases hu; rw [hlatest]; exact hle, hadm⟩

theorem Invariant.answered (h : Invariant policy w) {id : ℕ} {c : Call}
    (hc : w.calls id = some c) (outcome : Outcome) :
    Invariant policy (w.answered policy id c outcome) := by
  have hlate := h.admitted id c hc
  have hreopen : ∃ t, policy.reopen c.admittedAt = .openUntil t ∧
      t.toNat ≤ (w.latest.saturatingAdd policy.openFor).toNat :=
    ⟨_, rfl, toNat_saturatingAdd_le hlate⟩
  have hzero : (0 : UInt32).toNat < policy.failureThreshold.toNat := policy.threshold_pos
  refine h.removed hc rfl rfl ?_
  show (afterCall w.state c.route outcome c.admittedAt policy = w.state ∧ _) ∨ _
  rcases afterCall_cases w.state c.route outcome c.admittedAt policy with
    ⟨-, -, ⟨f, hf⟩, he⟩ | ⟨-, -, ⟨f, hf, -⟩, he⟩ | ⟨-, -, -, f, f', hf, -, hlt, he⟩ |
    ⟨hr, -, hh, he⟩ | ⟨hr, -, hh, he⟩ | ⟨hs, he⟩
  · exact Or.inr ⟨by simp [hf], Or.inl ⟨0, he, hzero⟩⟩
  · exact Or.inr ⟨by simp [hf], Or.inr (by rw [← he] at hreopen; exact hreopen)⟩
  · exact Or.inr ⟨by simp [hf], Or.inl ⟨f', he, hlt⟩⟩
  · exact Or.inr ⟨fun _ => hr, Or.inl ⟨0, he, hzero⟩⟩
  · exact Or.inr ⟨fun _ => hr, Or.inr (by rw [← he] at hreopen; exact hreopen)⟩
  · refine Or.inl ⟨he, fun hh => ?_⟩
    rcases hs with ⟨t, ht⟩ | ⟨-, hr⟩ | ⟨⟨f, hf⟩, -⟩
    · rw [hh] at ht; cases ht
    · exact hr
    · rw [hh] at hf; cases hf

theorem Invariant.dropped (h : Invariant policy w) {id : ℕ} {c : Call}
    (hc : w.calls id = some c) : Invariant policy (w.dropped id c) := by
  have hlate := h.admitted id c hc
  refine h.removed hc rfl rfl ?_
  show (dropProbe w.state c.route c.admittedAt = w.state ∧ _) ∨ _
  by_cases hp : c.route = .probe ∧ w.state = .halfOpen
  · exact Or.inr ⟨fun _ => hp.1, Or.inr ⟨c.admittedAt, if_pos hp, le_toNat_saturatingAdd hlate⟩⟩
  · refine Or.inl ⟨if_neg hp, fun hh => ?_⟩
    cases hr : c.route with
    | primary => rfl
    | probe => exact absurd ⟨hr, hh⟩ hp

theorem invariant_step (w : World) (a : Action) (w' : World) (h : Invariant policy w)
    (hs : w.step policy a = some w') : Invariant policy w' := by
  cases a with
  | call id now =>
    obtain ⟨hnone, rfl⟩ := step_call hs
    exact h.begin hnone
  | answer id outcome =>
    obtain ⟨c, hc, rfl⟩ := step_answer hs
    exact h.answered hc outcome
  | drop id =>
    obtain ⟨c, hc, rfl⟩ := step_drop hs
    exact h.dropped hc

theorem invariant_of_reachable (h : (callSystem policy).Reachable w) : Invariant policy w :=
  h.induction invariant_start invariant_step

/-! ## Probes -/

/-- **The breaker never gets stuck.** In every reachable state it is half open if
    and only if exactly one unfinished probe exists, and there is none otherwise;
    a closed breaker has counted fewer failures than the threshold; and without
    unfinished calls it is closed or open until at most `open_for` after the largest
    time so far, so that a request at or after that time goes to the primary. -/
theorem breaker_never_stuck (policy : Policy) (w : World)
    (h : (callSystem policy).Reachable w) :
    (w.state = .halfOpen ↔ ∃! id, IsProbe w id) ∧
      (w.state ≠ .halfOpen → ∀ id, ¬ IsProbe w id) ∧
      (∀ failures, w.state = .closed failures → failures < policy.failureThreshold) ∧
      ((∀ id, w.calls id = none) →
        ((∃ failures, w.state = .closed failures) ∨
          ∃ t, w.state = .openUntil t ∧ t ≤ w.latest.saturatingAdd policy.openFor) ∧
        ∀ now, (∀ t, w.state = .openUntil t → t ≤ now) → (admitState w.state now).2 ≠ none) := by
  have hI := invariant_of_reachable h
  refine ⟨⟨hI.probe, ?_⟩, hI.no_probe, ?_, ?_⟩
  · rintro ⟨id, hp, -⟩
    by_contra hne
    exact hI.no_probe hne id hp
  · intro failures hf
    exact UInt32.lt_iff_toNat_lt.mpr (hI.failures failures hf)
  · intro hnone
    cases hs : w.state with
    | closed failures => exact ⟨Or.inl ⟨failures, rfl⟩, fun now _ => by simp⟩
    | openUntil t =>
      refine ⟨Or.inr ⟨t, rfl, UInt64.le_iff_toNat_le.mpr (hI.due t hs)⟩, fun now hnow => ?_⟩
      rw [admitState_open_due (hnow t rfl)]
      simp
    | halfOpen =>
      obtain ⟨id, ⟨c, hc, -⟩, -⟩ := hI.probe hs
      rw [hnone id] at hc
      cases hc

/-- One failure opens the breaker, for 5 ns. -/
def onePolicy : Policy := ⟨1, 5, Nat.one_pos, five_nanos_pos⟩

/-- Two overlapping calls, of which the second opens the breaker at time 5, and a
    probe at time 10. -/
def probeWorld : World :=
  ((((World.start.begin 0 2).begin 1 5).answered onePolicy 1 ⟨.primary, 5, 0⟩ .failure).begin 2 10)

/-- While call 2 probes, there is exactly one probe. -/
theorem probeWorld_one_probe : ∃! id, IsProbe probeWorld id :=
  (breaker_never_stuck onePolicy probeWorld
    ⟨[.call 0 2, .call 1 5, .answer 1 .failure, .call 2 10], by rfl⟩).1.mp (by decide)

/-! ## Stale answers -/

/-- Call `id` is an ordinary call that was admitted before the breaker last went
    from closed to open. -/
def IsStale (w : World) (id : ℕ) : Prop :=
  ∃ c, w.calls id = some c ∧ c.route = .primary ∧ c.openings < w.openings

/-- If the step is a stale answer, it leaves the state unchanged. -/
def StaleUnmoved (w : World) (a : Action) (w' : World) : Prop :=
  ∀ id outcome, a = .answer id outcome → IsStale w id → w'.state = w.state

/-- If the step is a stale answer, then the breaker is not closed, or the answer is
    a success and no failure has been counted. -/
def StaleHarmless (w : World) (a : Action) : Prop :=
  ∀ id outcome, a = .answer id outcome → IsStale w id →
    ∀ failures, w.state = .closed failures → outcome = .success ∧ failures = 0

/-- An ordinary answer leaves the state unchanged, except in a closed period. -/
theorem afterCall_primary_eq_iff (policy : Policy) (state : State) (outcome : Outcome)
    (now : Nanos) :
    afterCall state .primary outcome now policy = state ↔
      ∀ failures, state = .closed failures → outcome = .success ∧ failures = 0 := by
  constructor
  · rintro h failures rfl
    cases outcome with
    | success => exact ⟨rfl, (State.closed.inj h).symm⟩
    | failure =>
      exfalso
      by_cases ho : policy.failureThreshold.toNat ≤ failures.toNat + 1
      · rw [afterCall_failure_opens now ho] at h
        cases h
      · obtain ⟨f', hf, he⟩ := afterCall_failure_counts now (not_le.mp ho)
        rw [he] at h
        obtain rfl := State.closed.inj h
        omega
  · intro h
    cases state with
    | closed failures =>
      obtain ⟨rfl, rfl⟩ := h failures rfl
      rfl
    | openUntil t => exact afterCall_openUntil _ _ _ _ _
    | halfOpen => exact afterCall_halfOpen_primary _ _ _

/-- A stale answer goes through `after_call` like any other. -/
theorem state_of_stale_answer {id : ℕ} {outcome : Outcome}
    (hs : w.step policy (.answer id outcome) = some w') (hstale : IsStale w id) :
    ∃ now, w'.state = afterCall w.state .primary outcome now policy := by
  obtain ⟨c, hc, rfl⟩ := step_answer hs
  obtain ⟨c', hc', hroute, -⟩ := hstale
  obtain rfl : c = c' := Option.some.inj (hc.symm.trans hc')
  refine ⟨c.admittedAt, ?_⟩
  rw [← hroute]
  rfl

theorem staleUnmoved_iff {a : Action} (hs : w.step policy a = some w') :
    StaleUnmoved w a w' ↔ StaleHarmless w a := by
  constructor
  · rintro h id outcome rfl hstale
    obtain ⟨now, he⟩ := state_of_stale_answer hs hstale
    have hunmoved := h id outcome rfl hstale
    rw [he] at hunmoved
    exact (afterCall_primary_eq_iff policy w.state outcome now).mp hunmoved
  · rintro h id outcome rfl hstale
    obtain ⟨now, he⟩ := state_of_stale_answer hs hstale
    rw [he]
    exact (afterCall_primary_eq_iff policy w.state outcome now).mpr (h id outcome rfl hstale)

/-- **Stale answers.** In a run, every stale answer leaves the state unchanged if
    and only if each one arrives while the breaker is open or half open, or is a
    success in a closed period without failures so far. -/
theorem stale_answers_harmless_iff (policy : Policy) (as : List Action) :
    (callSystem policy).Along StaleUnmoved World.start as ↔
      (callSystem policy).Along (fun w a _ => StaleHarmless w a) World.start as :=
  ⟨fun h => h.mono fun _ _ _ hs hu => (staleUnmoved_iff hs).mp hu,
    fun h => h.mono fun _ _ _ hs hu => (staleUnmoved_iff hs).mpr hu⟩

/-- Call 0 is in flight when call 1 opens the breaker; the probe 2 closes it, and then
    call 0 fails. -/
def staleRun : List Action :=
  [.call 0 0, .call 1 0, .answer 1 .failure, .call 2 5, .answer 2 .success, .answer 0 .failure]

/-- The run is possible, and its last step, a stale answer, opens the breaker. -/
theorem stale_failure_reopens :
    (∃ w, (callSystem onePolicy).run World.start staleRun = some w ∧ w.state = .openUntil 5) ∧
      ¬ (callSystem onePolicy).Along StaleUnmoved World.start staleRun := by
  refine ⟨⟨_, rfl, by decide⟩, fun h => ?_⟩
  obtain ⟨w1, h1, -, w2, h2, -, w3, h3, -, w4, h4, -, w5, h5, -, w6, h6, hu, -⟩ := h
  obtain rfl := Option.some.inj h1
  obtain rfl := Option.some.inj h2
  obtain rfl := Option.some.inj h3
  obtain rfl := Option.some.inj h4
  obtain rfl := Option.some.inj h5
  obtain rfl := Option.some.inj h6
  exact absurd (hu 0 .failure rfl ⟨⟨.primary, 0, 0⟩, by decide, by decide, by decide⟩) (by decide)

end TowerRateTier.Breaker
