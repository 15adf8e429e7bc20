import TowerRateTier.Storage.Breaker.Calls

/-!
# The spacing of the probes

An outage is the part of a run from a step that opens the breaker to the next one
that closes it. The moment from which a probe may go is read off the steps since
the opening: `open_for` after the call that opened, later `open_for` after the
last probe if it failed, and at once if its future was dropped.

* `DuringOutage`: an open breaker waits until exactly this moment.
* `probes_spaced`: the calls that an outage admits.
-/

namespace TowerRateTier.Breaker

open CircuitBreaker

/-! ## The next probe -/

/-- A step from one world to another. -/
abbrev CallStep := TransitionSystem.Step World Action

/-- Where the step ends a probe, the moment from which the next one may go. -/
def CallStep.allows (policy : Policy) (s : CallStep) : Option Nanos :=
  match s.action with
  | .answer id .failure =>
    (s.source.calls id).bind fun c =>
      if c.route = .probe then some (c.admittedAt.saturatingAdd policy.openFor) else none
  | .drop id => (s.source.calls id).bind fun c => if c.route = .probe then some c.admittedAt else none
  | _ => none

/-- The moment from which a probe may go, after the opening by a call with time `openedBy`
    and the steps since then, the last one first. -/
def nextProbe (policy : Policy) (openedBy : Nanos) : List CallStep → Nanos
  | [] => openedBy.saturatingAdd policy.openFor
  | s :: past => (CallStep.allows policy s).getD (nextProbe policy openedBy past)

/-- The step closes the breaker. -/
def CallStep.Closes (s : CallStep) : Prop :=
  s.source.state = .halfOpen ∧ s.target.state.isClosed = true

instance : DecidablePred CallStep.Closes := fun _ => inferInstanceAs (Decidable (_ ∧ _))

/-- The breaker is not closed, and open exactly until the next probe may go. -/
structure DuringOutage (policy : Policy) (openedBy : Nanos) (w : World) (past : List CallStep) :
    Prop where
  not_closed : w.state.isClosed = false
  due : ∀ t, w.state = .openUntil t → t = nextProbe policy openedBy past

/-! ## One step -/

variable {policy : Policy} {openedBy : Nanos} {w w' : World} {past : List CallStep}

theorem nextProbe_of_none {s : CallStep} (h : CallStep.allows policy s = none) :
    nextProbe policy openedBy (s :: past) = nextProbe policy openedBy past := by
  rw [nextProbe, h, Option.getD_none]

theorem nextProbe_of_some {s : CallStep} {t : Nanos} (h : CallStep.allows policy s = some t) :
    nextProbe policy openedBy (s :: past) = t := by
  rw [nextProbe, h, Option.getD_some]

/-- Outside a closed period the answer to an ordinary call changes nothing. -/
theorem afterCall_primary_of_not_closed {state : State} (h : state.isClosed = false)
    (outcome : Outcome) (now : Nanos) : afterCall state .primary outcome now policy = state := by
  apply (afterCall_primary_eq_iff policy state outcome now).mpr
  rintro failures rfl
  cases h

/-- An unfinished probe means that the breaker is half open. -/
theorem Invariant.halfOpen_of_probe (hI : Invariant policy w) {id : ℕ} {c : Call}
    (hc : w.calls id = some c) (hr : c.route = .probe) : w.state = .halfOpen := by
  by_contra hne
  exact hI.no_probe hne id ⟨c, hc, hr⟩

/-- The answer or the end of an ordinary call neither changes the state nor moves the next
    probe. -/
theorem allows_answer_primary {id : ℕ} {outcome : Outcome} {c : Call} (hc : w.calls id = some c)
    (hr : c.route = .primary) : CallStep.allows policy ⟨w, .answer id outcome, w'⟩ = none := by
  cases outcome with
  | success => rfl
  | failure => simp [CallStep.allows, hc, hr]

/-- A step that leaves the state as it is, and ends no probe. -/
theorem DuringOutage.quiet (h : DuringOutage policy openedBy w past) {a : Action}
    (hallows : CallStep.allows policy ⟨w, a, w'⟩ = none) (hstate : w'.state = w.state) :
    DuringOutage policy openedBy w' (⟨w, a, w'⟩ :: past) := by
  refine ⟨by rw [hstate]; exact h.not_closed, fun t ht => ?_⟩
  rw [nextProbe_of_none hallows]
  exact h.due t (by rw [← hstate, ht])

/-- A step that ends a probe without closing the breaker. -/
theorem duringOutage_of_reopened {a : Action} {t : Nanos}
    (hallows : CallStep.allows policy ⟨w, a, w'⟩ = some t) (hstate : w'.state = .openUntil t) :
    DuringOutage policy openedBy w' (⟨w, a, w'⟩ :: past) := by
  refine ⟨by rw [hstate]; rfl, fun u hu => ?_⟩
  rw [nextProbe_of_some hallows]
  exact (State.openUntil.inj (hstate.symm.trans hu)).symm

theorem DuringOutage.call (h : DuringOutage policy openedBy w past) (id : ℕ) (now : Nanos) :
    DuringOutage policy openedBy (w.begin id now) (⟨w, .call id now, w.begin id now⟩ :: past) := by
  have hallows : CallStep.allows policy ⟨w, .call id now, w.begin id now⟩ = none := rfl
  have hstate : (w.begin id now).state = (admitState w.state now).1 := rfl
  cases hs : w.state with
  | closed f =>
    have := h.not_closed
    rw [hs] at this
    cases this
  | halfOpen => exact h.quiet hallows (by rw [hstate, hs, admitState_halfOpen])
  | openUntil t =>
    by_cases hd : t ≤ now
    · rw [hs, admitState_open_due hd] at hstate
      refine ⟨by rw [hstate]; rfl, fun u hu => ?_⟩
      cases hstate.symm.trans hu
    · exact h.quiet hallows (by rw [hstate, hs, admitState_open_early hd])

theorem DuringOutage.answer (h : DuringOutage policy openedBy w past) (hI : Invariant policy w)
    {id : ℕ} {c : Call} (hc : w.calls id = some c) (outcome : Outcome)
    (hclose : ¬ CallStep.Closes ⟨w, .answer id outcome, w.answered policy id c outcome⟩) :
    DuringOutage policy openedBy (w.answered policy id c outcome)
      (⟨w, .answer id outcome, w.answered policy id c outcome⟩ :: past) := by
  have hstate : (w.answered policy id c outcome).state =
      afterCall w.state c.route outcome c.admittedAt policy := rfl
  cases hr : c.route with
  | primary =>
    apply h.quiet (allows_answer_primary hc hr)
    rw [hstate, hr, afterCall_primary_of_not_closed h.not_closed]
  | probe =>
    have hh := hI.halfOpen_of_probe hc hr
    rw [hr, hh] at hstate
    cases outcome with
    | success => exact absurd ⟨hh, by rw [hstate]; rfl⟩ hclose
    | failure =>
      apply duringOutage_of_reopened (t := c.admittedAt.saturatingAdd policy.openFor)
      · simp [CallStep.allows, hc, hr]
      · exact hstate

theorem DuringOutage.drop (h : DuringOutage policy openedBy w past) (hI : Invariant policy w)
    {id : ℕ} {c : Call} (hc : w.calls id = some c) :
    DuringOutage policy openedBy (w.dropped id c) (⟨w, .drop id, w.dropped id c⟩ :: past) := by
  have hstate : (w.dropped id c).state = dropProbe w.state c.route c.admittedAt := rfl
  cases hr : c.route with
  | primary =>
    apply h.quiet
    · simp [CallStep.allows, hc, hr]
    · rw [hstate, dropProbe, if_neg (by simp [hr])]
  | probe =>
    apply duringOutage_of_reopened (t := c.admittedAt)
    · simp [CallStep.allows, hc, hr]
    · rw [hstate, dropProbe, if_pos ⟨hr, hI.halfOpen_of_probe hc hr⟩]

/-- **One step** of an outage. -/
theorem DuringOutage.step (h : DuringOutage policy openedBy w past) (hI : Invariant policy w)
    {a : Action} (hs : w.step policy a = some w') (hclose : ¬ CallStep.Closes ⟨w, a, w'⟩) :
    DuringOutage policy openedBy w' (⟨w, a, w'⟩ :: past) := by
  cases a with
  | call id now =>
    obtain ⟨-, rfl⟩ := step_call hs
    exact h.call id now
  | answer id outcome =>
    obtain ⟨c, hc, rfl⟩ := step_answer hs
    exact h.answer hI hc outcome hclose
  | drop id =>
    obtain ⟨c, hc, rfl⟩ := step_drop hs
    exact h.drop hI hc

/-! ## The outage -/

/-- The steps of an outage keep the description of its state. -/
theorem DuringOutage.run {x y : World × List CallStep} {as : List Action}
    (h : DuringOutage policy openedBy x.1 x.2) (hI : Invariant policy x.1)
    (hr : (callSystem policy).withHistory.run x as = some y)
    (hclose : ∀ s ∈ y.2, ¬ CallStep.Closes s) :
    Invariant policy y.1 ∧ DuringOutage policy openedBy y.1 y.2 := by
  induction as generalizing x with
  | nil =>
    obtain rfl := Option.some.inj hr
    exact ⟨hI, h⟩
  | cons a as ih =>
    obtain ⟨z, hz, hrest⟩ := TransitionSystem.run_cons_eq_some.mp hr
    obtain ⟨hstep, hpast⟩ := TransitionSystem.withHistory_step_eq_some.mp hz
    have hmem : ∀ s ∈ z.2, s ∈ y.2 := TransitionSystem.mem_of_withHistory hrest
    have hI' := invariant_step x.1 a z.1 hI hstep
    apply ih _ hI' hrest
    rw [hpast]
    exact h.step hI hstep (hclose _ (hmem _ (by rw [hpast]; exact List.mem_cons_self)))

/-- The failure that opens the breaker begins an outage. -/
theorem duringOutage_of_opens {id : ℕ} {c : Call} (hc : w.calls id = some c)
    (hs : w.step policy (.answer id .failure) = some w') (hclosed : w.state.isClosed = true)
    (hopen : w'.state.isOpen = true) : DuringOutage policy c.admittedAt w' [] := by
  obtain ⟨c', hc', rfl⟩ := step_answer hs
  obtain rfl : c = c' := Option.some.inj (hc.symm.trans hc')
  have hstate : (w.answered policy id c .failure).state = policy.reopen c.admittedAt := by
    have he : (w.answered policy id c .failure).state =
        afterCall w.state c.route .failure c.admittedAt policy := rfl
    rw [he] at hopen ⊢
    rcases afterCall_cases w.state c.route .failure c.admittedAt policy with
      ⟨-, ho, -, -⟩ | ⟨-, -, -, he⟩ | ⟨-, -, -, f, f', -, -, -, he⟩ | ⟨-, ho, -, -⟩ |
      ⟨-, -, -, he⟩ | ⟨-, he⟩
    · cases ho
    · exact he
    · rw [he] at hopen
      cases hopen
    · cases ho
    · exact he
    · rw [he] at hopen
      cases hw : w.state with
      | closed f => rw [hw] at hopen; cases hopen
      | openUntil t => rw [hw] at hclosed; cases hclosed
      | halfOpen => rw [hw] at hclosed; cases hclosed
  refine ⟨by rw [hstate]; rfl, fun t ht => ?_⟩
  exact (State.openUntil.inj (hstate.symm.trans ht)).symm

/-- A call that is admitted during an outage is a probe, and no other one is unfinished. -/
theorem DuringOutage.admitted (h : DuringOutage policy openedBy w past) (hI : Invariant policy w)
    {id : ℕ} {now : Nanos} (hs : w.step policy (.call id now) = some w') {c : Call}
    (hc : w'.calls id = some c) :
    c.route = .probe ∧ (∀ id', ¬ IsProbe w id') ∧ nextProbe policy openedBy past ≤ now := by
  obtain ⟨-, rfl⟩ := step_call hs
  simp only [World.begin, Function.update_self, Option.map_eq_some_iff] at hc
  obtain ⟨route, hroute, rfl⟩ := hc
  cases hw : w.state with
  | closed f =>
    have := h.not_closed
    rw [hw] at this
    cases this
  | halfOpen =>
    rw [hw, admitState_halfOpen] at hroute
    cases hroute
  | openUntil t =>
    by_cases hd : t ≤ now
    · rw [hw, admitState_open_due hd] at hroute
      refine ⟨(Option.some.inj hroute).symm, hI.no_probe (by simp [hw]), ?_⟩
      rw [← h.due t hw]
      exact hd
    · rw [hw, admitState_open_early hd] at hroute
      cases hroute

/-- **Spacing.** Let a failed call with time `c.admittedAt` open the breaker, and let the
    run go on without a step that closes it. Then the breaker is not closed, and if it
    is open, then until the moment `nextProbe`. Every call that is admitted next is a
    probe; no other probe is unfinished then, and its time is not before `nextProbe`:
    `open_for` after the call that opened, if no probe has ended yet, else `open_for`
    after the last one if that failed, and its own time if it was dropped (all
    saturating). The answer to an ordinary call changes neither the state nor that
    moment. -/
theorem probes_spaced (policy : Policy) (w₀ w₁ : World) (id : ℕ) (c : Call)
    (hreach : (callSystem policy).Reachable w₀) (hc : w₀.calls id = some c)
    (hs : (callSystem policy).step w₀ (.answer id .failure) = some w₁)
    (hclosed : w₀.state.isClosed = true) (hopen : w₁.state.isOpen = true)
    (as : List Action) (w : World) (past : List CallStep)
    (hr : (callSystem policy).withHistory.run (w₁, []) as = some (w, past))
    (hout : ∀ s ∈ past, ¬ CallStep.Closes s) :
    w.state.isClosed = false ∧
      (∀ t, w.state = .openUntil t → t = nextProbe policy c.admittedAt past) ∧
      (∀ id' now w' c', (callSystem policy).step w (.call id' now) = some w' →
        w'.calls id' = some c' → c'.route = .probe ∧ (∀ i, ¬ IsProbe w i) ∧
          nextProbe policy c.admittedAt past ≤ now) ∧
      ∀ id' outcome w' c', (callSystem policy).step w (.answer id' outcome) = some w' →
        w.calls id' = some c' → c'.route = .primary →
          w'.state = w.state ∧
            nextProbe policy c.admittedAt (⟨w, .answer id' outcome, w'⟩ :: past) =
              nextProbe policy c.admittedAt past := by
  have hI₁ := invariant_of_reachable (hreach.step hs)
  obtain ⟨hI, h⟩ := (duringOutage_of_opens hc hs hclosed hopen).run (x := (w₁, [])) hI₁ hr hout
  refine ⟨h.not_closed, h.due, fun id' now w' c' hs' hc' => h.admitted hI hs' hc', ?_⟩
  intro id' outcome w' c' hs' hc' hroute
  refine ⟨?_, nextProbe_of_none (allows_answer_primary hc' hroute)⟩
  obtain ⟨c'', hc'', rfl⟩ := step_answer hs'
  obtain rfl : c' = c'' := Option.some.inj (hc'.symm.trans hc'')
  show afterCall w.state c'.route outcome c'.admittedAt policy = w.state
  rw [hroute, afterCall_primary_of_not_closed h.not_closed]

/-- A call with time 2 is about to fail. -/
def failingWorld : World := World.start.begin 0 2

/-- The probe at 7 fails, and the next one, at 12, is dropped. -/
def outageRun : List Action := [.call 1 7, .answer 1 .failure, .call 2 12, .drop 2]

/-- The next probe may go at 12, the time of the dropped one. -/
theorem probes_spaced_outageRun :
    ∃ w past, (callSystem onePolicy).withHistory.run
        (failingWorld.answered onePolicy 0 ⟨.primary, 2, 0⟩ .failure, []) outageRun =
          some (w, past) ∧
      w.state = .openUntil 12 ∧ (12 : Nanos) = nextProbe onePolicy 2 past := by
  refine ⟨_, _, rfl, by decide, ?_⟩
  exact (probes_spaced onePolicy failingWorld _ 0 ⟨.primary, 2, 0⟩ ⟨[.call 0 2], rfl⟩ rfl rfl rfl
    rfl outageRun _ _ rfl (by decide)).2.1 12 (by decide)

end TowerRateTier.Breaker
