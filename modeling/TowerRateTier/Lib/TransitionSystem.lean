import Mathlib.Tactic.TypeStar
import Mathlib.Data.Option.Basic

/-!
# Transition systems with a partial step function

An action that is not enabled has no step. A run is a list of actions; in a
concurrent system it is one interleaving of the steps of its parties.

* `Reachable.induction`: the invariant rule.
* `Along.mono_of_invariant`: what holds of every step of a run, given what is
  assumed of every step and an invariant that this keeps.
* `withHistory`: the system that remembers its steps, for properties of a run that
  speak of what happened before.
* `Simulation.reachable`: a map of the states under which every step is matched
  by zero or more steps of another system preserves reachability.
-/

/-- A start state and a step function; `step s a = none` where the action `a` is
    not enabled in `s`. -/
structure TransitionSystem (σ α : Type*) where
  init : σ
  step : σ → α → Option σ

namespace TransitionSystem

variable {σ α τ β : Type*} (M : TransitionSystem σ α)

/-! ## Runs -/

/-- The state after a sequence of actions, if each one is enabled. -/
def run : σ → List α → Option σ
  | s, [] => some s
  | s, a :: as => (M.step s a).bind fun s' => run s' as

/-- Some run from the start state leads to `s`. -/
def Reachable (s : σ) : Prop := ∃ as, M.run M.init as = some s

/-- Each action is enabled in its turn, and every step of the run satisfies `P`. -/
def Along (P : σ → α → σ → Prop) : σ → List α → Prop
  | _, [] => True
  | s, a :: as => ∃ s', M.step s a = some s' ∧ P s a s' ∧ Along P s' as

variable {M}

@[simp] theorem run_nil (s : σ) : M.run s [] = some s := rfl

theorem run_cons_eq_some {s t : σ} {a : α} {as : List α} :
    M.run s (a :: as) = some t ↔ ∃ s', M.step s a = some s' ∧ M.run s' as = some t := by
  rw [run, Option.bind_eq_some_iff]

theorem run_singleton (s : σ) (a : α) : M.run s [a] = M.step s a := by
  rw [run]
  cases M.step s a <;> rfl

theorem run_append {s t u : σ} {as bs : List α} (h1 : M.run s as = some t)
    (h2 : M.run t bs = some u) : M.run s (as ++ bs) = some u := by
  induction as generalizing s with
  | nil => obtain rfl := Option.some.inj h1; exact h2
  | cons a as ih =>
    obtain ⟨s', hs, hr⟩ := run_cons_eq_some.mp h1
    exact run_cons_eq_some.mpr ⟨s', hs, ih hr⟩

theorem run_append_eq_some {s u : σ} {as bs : List α} :
    M.run s (as ++ bs) = some u ↔ ∃ t, M.run s as = some t ∧ M.run t bs = some u := by
  constructor
  · intro h
    induction as generalizing s with
    | nil => exact ⟨s, rfl, h⟩
    | cons a as ih =>
      obtain ⟨s', hs, hr⟩ := run_cons_eq_some.mp h
      obtain ⟨t, ht, hbs⟩ := ih hr
      exact ⟨t, run_cons_eq_some.mpr ⟨s', hs, ht⟩, hbs⟩
  · rintro ⟨t, h1, h2⟩
    exact run_append h1 h2

theorem run_concat {s t u : σ} {as : List α} {a : α} (h1 : M.run s as = some t)
    (h2 : M.step t a = some u) : M.run s (as ++ [a]) = some u := by
  refine run_append h1 ?_
  rw [run_singleton, h2]

/-! ## Reachable states -/

theorem reachable_init : M.Reachable M.init := ⟨[], rfl⟩

theorem Reachable.run {s t : σ} {as : List α} (h : M.Reachable s) (hr : M.run s as = some t) :
    M.Reachable t := by
  obtain ⟨bs, hb⟩ := h
  exact ⟨bs ++ as, run_append hb hr⟩

theorem Reachable.step {s s' : σ} {a : α} (h : M.Reachable s) (hs : M.step s a = some s') :
    M.Reachable s' := by
  have hr : M.run s [a] = some s' := by rw [run_singleton, hs]
  exact h.run hr

/-- What every step keeps holds at the end of a run. -/
theorem run_invariant {I : σ → Prop} (hstep : ∀ s a s', I s → M.step s a = some s' → I s')
    {s t : σ} {as : List α} (hs : I s) (hr : M.run s as = some t) : I t := by
  induction as generalizing s with
  | nil => obtain rfl := Option.some.inj hr; exact hs
  | cons a as ih =>
    obtain ⟨s', h1, h2⟩ := run_cons_eq_some.mp hr
    exact ih (hstep s a s' hs h1) h2

/-- The same for runs of which every action satisfies `Q`. -/
theorem run_invariant_of_forall {I : σ → Prop} {Q : α → Prop}
    (hstep : ∀ s a s', I s → Q a → M.step s a = some s' → I s') {s t : σ} {as : List α}
    (hQ : ∀ a ∈ as, Q a) (hs : I s) (hr : M.run s as = some t) : I t := by
  induction as generalizing s with
  | nil => obtain rfl := Option.some.inj hr; exact hs
  | cons a as ih =>
    obtain ⟨s', h1, h2⟩ := run_cons_eq_some.mp hr
    have hs' := hstep s a s' hs (hQ a List.mem_cons_self) h1
    exact ih (fun b hb => hQ b (List.mem_cons_of_mem _ hb)) hs' h2

/-- **Invariant rule.** -/
theorem Reachable.induction {I : σ → Prop} (hinit : I M.init)
    (hstep : ∀ s a s', I s → M.step s a = some s' → I s') {s : σ} (h : M.Reachable s) : I s := by
  obtain ⟨as, hr⟩ := h
  exact run_invariant hstep hinit hr

/-! ## Properties of every step of a run -/

theorem along_cons {P : σ → α → σ → Prop} {s s' : σ} {a : α} (hs : M.step s a = some s')
    (as : List α) : M.Along P s (a :: as) ↔ P s a s' ∧ M.Along P s' as := by
  constructor
  · rintro ⟨t, ht, h⟩
    obtain rfl : s' = t := Option.some.inj (hs.symm.trans ht)
    exact h
  · exact fun h => ⟨s', hs, h⟩

/-- The steps of two runs, one after the other. -/
theorem along_append {P : σ → α → σ → Prop} {s t : σ} {as : List α} (bs : List α)
    (hr : M.run s as = some t) : M.Along P s (as ++ bs) ↔ M.Along P s as ∧ M.Along P t bs := by
  induction as generalizing s with
  | nil => obtain rfl := Option.some.inj hr; simp [Along]
  | cons a as ih =>
    obtain ⟨s', hs, hr'⟩ := run_cons_eq_some.mp hr
    rw [List.cons_append, along_cons hs, along_cons hs, ih hr', and_assoc]

/-- **Rule for the steps of a run.** If the steps of a run satisfy `P`, and a step
    that satisfies `P` keeps the invariant `I` and satisfies `Q`, then the steps of
    the run satisfy `Q`. -/
theorem Along.mono_of_invariant {P Q : σ → α → σ → Prop} {I : σ → Prop}
    (hstep : ∀ s a s', I s → M.step s a = some s' → P s a s' → I s' ∧ Q s a s') :
    ∀ {s : σ} {as : List α}, I s → M.Along P s as → M.Along Q s as := by
  intro s as
  induction as generalizing s with
  | nil => intro _ _; trivial
  | cons a as ih =>
    rintro hI ⟨s', hs, hP, hr⟩
    obtain ⟨hI', hQ⟩ := hstep s a s' hI hs hP
    exact ⟨s', hs, hQ, ih hI' hr⟩

theorem Along.mono {P Q : σ → α → σ → Prop}
    (h : ∀ s a s', M.step s a = some s' → P s a s' → Q s a s') {s : σ} {as : List α}
    (hr : M.Along P s as) : M.Along Q s as :=
  Along.mono_of_invariant (I := fun _ => True) (fun s a s' _ hs hP => ⟨trivial, h s a s' hs hP⟩)
    trivial hr

/-! ## Histories -/

/-- A step that a system has made. -/
structure Step (σ α : Type*) where
  source : σ
  action : α
  target : σ

/-- The system that remembers its steps, the last one first. -/
def withHistory (M : TransitionSystem σ α) : TransitionSystem (σ × List (Step σ α)) α where
  init := (M.init, [])
  step s a := (M.step s.1 a).map fun t => (t, ⟨s.1, a, t⟩ :: s.2)

theorem withHistory_step_eq_some {s t : σ × List (Step σ α)} {a : α} :
    M.withHistory.step s a = some t ↔
      M.step s.1 a = some t.1 ∧ t.2 = ⟨s.1, a, t.1⟩ :: s.2 := by
  show (M.step s.1 a).map _ = some t ↔ _
  rw [Option.map_eq_some_iff]
  constructor
  · rintro ⟨u, hu, rfl⟩
    exact ⟨hu, rfl⟩
  · rintro ⟨hs, ht⟩
    exact ⟨t.1, hs, Prod.ext rfl ht.symm⟩

/-- What is reached with a history is reached. -/
theorem run_of_withHistory {s t : σ × List (Step σ α)} {as : List α}
    (h : M.withHistory.run s as = some t) : M.run s.1 as = some t.1 := by
  induction as generalizing s with
  | nil => rw [Option.some.inj h, run_nil]
  | cons a as ih =>
    obtain ⟨u, hs, hr⟩ := run_cons_eq_some.mp h
    exact run_cons_eq_some.mpr ⟨u.1, (withHistory_step_eq_some.mp hs).1, ih hr⟩

/-- A history only grows. -/
theorem mem_of_withHistory {s t : σ × List (Step σ α)} {as : List α}
    (h : M.withHistory.run s as = some t) : ∀ x ∈ s.2, x ∈ t.2 := by
  induction as generalizing s with
  | nil => rw [Option.some.inj h]; exact fun _ hx => hx
  | cons a as ih =>
    obtain ⟨u, hs, hr⟩ := run_cons_eq_some.mp h
    intro x hx
    apply ih hr
    rw [(withHistory_step_eq_some.mp hs).2]
    exact List.mem_cons_of_mem _ hx

theorem Reachable.of_withHistory {s : σ × List (Step σ α)} (h : M.withHistory.Reachable s) :
    M.Reachable s.1 := by
  obtain ⟨as, hr⟩ := h
  exact ⟨as, run_of_withHistory hr⟩

/-- **Invariant rule with a history.** The invariant may use that of the system. -/
theorem Reachable.history_induction {I : σ → Prop} {J : σ × List (Step σ α) → Prop}
    (hI : ∀ s, M.Reachable s → I s) (hinit : J (M.init, []))
    (hstep : ∀ s past a t, I s → J (s, past) → M.step s a = some t →
      J (t, ⟨s, a, t⟩ :: past))
    {s : σ × List (Step σ α)} (h : M.withHistory.Reachable s) : J s := by
  suffices M.withHistory.Reachable s ∧ J s from this.2
  apply h.induction
  · exact ⟨reachable_init, hinit⟩
  · rintro s a t ⟨hs, hJ⟩ hstep'
    obtain ⟨h1, h2⟩ := withHistory_step_eq_some.mp hstep'
    refine ⟨hs.step hstep', ?_⟩
    have ht : t = (t.1, ⟨s.1, a, t.1⟩ :: s.2) := Prod.ext rfl h2
    rw [ht]
    exact hstep s.1 s.2 a t.1 (hI s.1 hs.of_withHistory) hJ h1

/-! ## Simulation -/

/-- Every step of `M` from a reachable state is matched by zero or more steps of `N`
    on the image of the states. -/
structure Simulation (M : TransitionSystem σ α) (N : TransitionSystem τ β) where
  state : σ → τ
  actions : σ → α → List β
  init : state M.init = N.init
  step : ∀ s a s', M.Reachable s → M.step s a = some s' →
    N.run (state s) (actions s a) = some (state s')

/-- **Simulation rule.** -/
theorem Simulation.reachable {N : TransitionSystem τ β} (F : Simulation M N) {s : σ}
    (h : M.Reachable s) : N.Reachable (F.state s) := by
  suffices M.Reachable s ∧ N.Reachable (F.state s) from this.2
  refine h.induction (I := fun s => M.Reachable s ∧ N.Reachable (F.state s)) ?_ ?_
  · refine ⟨reachable_init, ?_⟩
    rw [F.init]
    exact reachable_init
  · rintro s a s' ⟨hs, ht⟩ hstep
    exact ⟨hs.step hstep, ht.run (F.step s a s' hs hstep)⟩

end TransitionSystem
