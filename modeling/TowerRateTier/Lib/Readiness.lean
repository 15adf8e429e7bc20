import TowerRateTier.Lib.TransitionSystem
import Mathlib.Data.Finset.Basic
import Mathlib.Logic.Function.Basic

/-!
# Readiness of services

A service may be called only after it has said that it is ready, and once for each
time it has. A clone has to say so itself. A layer is used as a service and uses the
clones of an inner one; it is sound if its uses keep this rule whenever it is used by
this rule.

* `Obeys.readySince`: the rule in plain terms.
* `preserves_of_simulation`: soundness by a relation between what has become ready
  outside and inside.
* `handover_preserves`: a layer whose calls take the instance that is ready with them
  and leave a clone.
* `Stack.obeys`: any stack of sound layers is sound.
-/

namespace Readiness

/-! ## The rule -/

/-- What happens to the instances of a service, which are numbered as they are made. -/
inductive Event where
  | ready (i : ℕ)
  | clone (i : ℕ)
  | call (i : ℕ)
deriving DecidableEq

/-- How many instances there are, and which of them may be called. -/
structure Monitor where
  count : ℕ
  ready : Finset ℕ

/-- One event, if it keeps the rule. -/
def Monitor.step (m : Monitor) : Event → Option Monitor
  | .ready i => if i < m.count then some ⟨m.count, insert i m.ready⟩ else none
  | .clone i => if i < m.count then some ⟨m.count + 1, m.ready⟩ else none
  | .call i => if i ∈ m.ready then some ⟨m.count, m.ready.erase i⟩ else none

/-- The rule, from a new instance on. -/
def monitor : TransitionSystem Monitor Event := ⟨⟨1, ∅⟩, Monitor.step⟩

/-- The events keep the rule. -/
def Obeys (trace : List Event) : Prop := ∃ m, monitor.run monitor.init trace = some m

/-- Instance `i` has said that it is ready, and has not been called since. -/
def ReadySince (i : ℕ) (trace : List Event) : Prop :=
  ∃ before since, trace = before ++ .ready i :: since ∧ .call i ∉ since

variable {m m' : Monitor} {trace : List Event}

theorem step_ready {i : ℕ} : m.step (.ready i) = some m' ↔
    i < m.count ∧ m' = ⟨m.count, insert i m.ready⟩ := by
  rw [Monitor.step, Option.ite_none_right_eq_some, Option.some.injEq, eq_comm (b := m')]

theorem step_clone {i : ℕ} : m.step (.clone i) = some m' ↔
    i < m.count ∧ m' = ⟨m.count + 1, m.ready⟩ := by
  rw [Monitor.step, Option.ite_none_right_eq_some, Option.some.injEq, eq_comm (b := m')]

theorem step_call {i : ℕ} : m.step (.call i) = some m' ↔
    i ∈ m.ready ∧ m' = ⟨m.count, m.ready.erase i⟩ := by
  rw [Monitor.step, Option.ite_none_right_eq_some, Option.some.injEq, eq_comm (b := m')]

theorem ReadySince.concat {i : ℕ} (h : ReadySince i trace) {e : Event} (he : e ≠ .call i) :
    ReadySince i (trace ++ [e]) := by
  obtain ⟨before, since, rfl, hnot⟩ := h
  refine ⟨before, since ++ [e], by rw [List.append_assoc, List.cons_append], fun hm => ?_⟩
  rcases List.mem_append.mp hm with hm | hm
  · exact hnot hm
  · exact he (List.mem_singleton.mp hm).symm

/-- What may be called has become ready. -/
theorem readySince_of_run (trace : List Event) : ∀ m,
    monitor.run monitor.init trace = some m → ∀ i ∈ m.ready, ReadySince i trace := by
  induction trace using List.reverseRecOn with
  | nil =>
    intro m hr i hi
    obtain rfl := Option.some.inj hr
    exact absurd hi (Finset.notMem_empty i)
  | append_singleton trace e ih =>
    intro m hr i hi
    obtain ⟨u, hu, hstep⟩ := TransitionSystem.run_append_eq_some.mp hr
    rw [TransitionSystem.run_singleton] at hstep
    cases e with
    | ready j =>
      obtain ⟨-, rfl⟩ := step_ready.mp hstep
      rcases Finset.mem_insert.mp hi with rfl | hi
      · exact ⟨trace, [], rfl, List.not_mem_nil⟩
      · exact (ih u hu i hi).concat (by simp)
    | clone j =>
      obtain ⟨-, rfl⟩ := step_clone.mp hstep
      exact (ih u hu i hi).concat (by simp)
    | call j =>
      obtain ⟨-, rfl⟩ := step_call.mp hstep
      obtain ⟨hne, hi⟩ := Finset.mem_erase.mp hi
      exact (ih u hu i hi).concat fun he => hne (Event.call.inj he).symm

/-- **The rule.** An instance is called only if it has become ready since its last call. -/
theorem Obeys.readySince {before after : List Event} {i : ℕ}
    (h : Obeys (before ++ .call i :: after)) : ReadySince i before := by
  obtain ⟨m, hr⟩ := h
  obtain ⟨u, hu, hrest⟩ := TransitionSystem.run_append_eq_some.mp hr
  obtain ⟨v, hv, -⟩ := TransitionSystem.run_cons_eq_some.mp hrest
  exact readySince_of_run before u hu i (step_call.mp hv).1

/-! ## Layers -/

/-- A layer: its steps, with what happens to it and what it does to the inner service. -/
structure Layer (σ α : Type*) where
  init : σ
  step : σ → α → Option (σ × List Event × List Event)

variable {σ α : Type*} {L : Layer σ α}

/-- A run of a layer, with the events outside and inside. -/
def Layer.run (L : Layer σ α) : σ → List α → Option (σ × List Event × List Event)
  | s, [] => some (s, [], [])
  | s, a :: as => (L.step s a).bind fun x =>
    (L.run x.1 as).map fun y => (y.1, x.2.1 ++ y.2.1, x.2.2 ++ y.2.2)

/-- Some run of the layer from its start has these events outside and inside. -/
def Layer.Runs (L : Layer σ α) (outer inner : List Event) : Prop :=
  ∃ as s, L.run L.init as = some (s, outer, inner)

/-- Used by the rule, the layer uses the inner service by the rule. -/
def Layer.Preserves (L : Layer σ α) : Prop :=
  ∀ outer inner, L.Runs outer inner → Obeys outer → Obeys inner

/-- **Simulation.** -/
theorem preserves_of_simulation (R : Monitor → σ → Monitor → Prop)
    (hinit : R monitor.init L.init monitor.init)
    (hstep : ∀ m s n a s' outer inner m', R m s n → L.step s a = some (s', outer, inner) →
      monitor.run m outer = some m' → ∃ n', monitor.run n inner = some n' ∧ R m' s' n') :
    L.Preserves := by
  suffices ∀ as s s' outer inner, L.run s as = some (s', outer, inner) → ∀ m n m', R m s n →
      monitor.run m outer = some m' → ∃ n', monitor.run n inner = some n' by
    rintro outer inner ⟨as, s', hr⟩ ⟨m', hm'⟩
    exact this as L.init s' outer inner hr _ _ m' hinit hm'
  intro as
  induction as with
  | nil =>
    intro s s' outer inner hr m n m' _ _
    obtain ⟨-, -, rfl⟩ : s = s' ∧ [] = outer ∧ [] = inner := by simpa [Layer.run] using hr
    exact ⟨n, rfl⟩
  | cons a as ih =>
    intro s s' outer inner hr m n m' hR hm
    obtain ⟨⟨s₁, outer₁, inner₁⟩, hs, hr⟩ := Option.bind_eq_some_iff.mp hr
    obtain ⟨⟨s₂, outer₂, inner₂⟩, hlater, he⟩ := Option.map_eq_some_iff.mp hr
    obtain ⟨-, rfl, rfl⟩ : s₂ = s' ∧ outer₁ ++ outer₂ = outer ∧ inner₁ ++ inner₂ = inner := by
      simpa using he
    obtain ⟨u, hu, hrest⟩ := TransitionSystem.run_append_eq_some.mp hm
    obtain ⟨n₁, hn₁, hR'⟩ := hstep m s n a s₁ outer₁ inner₁ u hR hs hu
    obtain ⟨n₂, hn₂⟩ := ih s₁ s₂ outer₂ inner₂ hlater u n₁ m' hR' hrest
    exact ⟨n₂, TransitionSystem.run_append hn₁ hn₂⟩

/-- A layer of any kind. -/
structure AnyLayer where
  State : Type
  Step : Type
  layer : Layer State Step

/-- The events at the outer end and at the inner end of a stack of layers. -/
inductive Stack : List AnyLayer → List Event → List Event → Prop where
  | nil (trace : List Event) : Stack [] trace trace
  | cons {L : AnyLayer} {Ls : List AnyLayer} {outer middle inner : List Event}
      (h : L.layer.Runs outer middle) (hr : Stack Ls middle inner) :
      Stack (L :: Ls) outer inner

/-- **Stacks.** -/
theorem Stack.obeys {Ls : List AnyLayer} {outer inner : List Event} (h : Stack Ls outer inner)
    (hL : ∀ L ∈ Ls, L.layer.Preserves) (ho : Obeys outer) : Obeys inner := by
  induction h with
  | nil trace => exact ho
  | cons h _ ih =>
    apply ih fun L hmem => hL L (List.mem_cons_of_mem _ hmem)
    exact hL _ List.mem_cons_self _ _ h ho

/-! ## A layer that passes everything on -/

/-- Each use is the same use of the inner service. -/
def direct : Layer Unit Event := ⟨(), fun s e => some (s, [e], [e])⟩

theorem direct_preserves : direct.Preserves := by
  refine preserves_of_simulation (fun m _ n => m = n) rfl ?_
  rintro m s _ e s' outer inner m' rfl hs hm
  obtain ⟨-, rfl, rfl⟩ : s = s' ∧ [e] = outer ∧ [e] = inner := by
    simpa [direct] using hs
  exact ⟨m', hm, rfl⟩

/-! ## A layer that hands over what is ready -/

/-- Who holds an instance of the inner service: a clone of the layer, or a call. -/
inductive Owner where
  | handle (h : ℕ)
  | future (f : ℕ)
deriving DecidableEq

/-- The instances that are held, and how many clones of the layer and instances of the
    inner service there are. -/
structure Owners where
  owned : Owner → Option ℕ
  handles : ℕ
  created : ℕ

/-- A step of a layer whose calls run on values of type `ρ`. -/
inductive HandoverStep (ρ : Type*) where
  | pollReady (h : ℕ)
  | clone (h : ℕ)
  | call (h f : ℕ)
  | resume (f : ℕ) (x : ρ)
  | drop (f : ℕ)

variable {ρ : Type*}

/-- A clone holds an instance and is ready if this is. A call takes the instance and leaves
    a clone of it; when it runs on `x` it calls the instance `calls x` times. -/
def handover (calls : ρ → ℕ) : Layer Owners (HandoverStep ρ) where
  init := ⟨fun o => if o = .handle 0 then some 0 else none, 1, 1⟩
  step s
    | .pollReady h => (s.owned (.handle h)).map fun i => (s, [.ready h], [.ready i])
    | .clone h => (s.owned (.handle h)).map fun i =>
      (⟨Function.update s.owned (.handle s.handles) (some s.created), s.handles + 1,
        s.created + 1⟩, [.clone h], [.clone i])
    | .call h f => (s.owned (.handle h)).bind fun i =>
      if (s.owned (.future f)).isNone then
        some (⟨Function.update (Function.update s.owned (.future f) (some i)) (.handle h)
          (some s.created), s.handles, s.created + 1⟩, [.call h], [.clone i])
      else none
    | .resume f x => (s.owned (.future f)).map fun i =>
      (⟨Function.update s.owned (.future f) none, s.handles, s.created⟩, [],
        List.replicate (calls x) (.call i))
    | .drop f => (s.owned (.future f)).map fun _ =>
      (⟨Function.update s.owned (.future f) none, s.handles, s.created⟩, [], [])

/-- No instance is held twice. That of a clone is ready if the clone is, and that of a call
    is. -/
structure Held (m : Monitor) (s : Owners) (n : Monitor) : Prop where
  handles : m.count = s.handles
  created : n.count = s.created
  ready_lt : ∀ h ∈ m.ready, h < m.count
  owned_lt : ∀ o i, s.owned o = some i → i < s.created
  owner_eq : ∀ o o' i, s.owned o = some i → s.owned o' = some i → o = o'
  handle_ready : ∀ h i, s.owned (.handle h) = some i → h ∈ m.ready → i ∈ n.ready
  future_ready : ∀ f i, s.owned (.future f) = some i → i ∈ n.ready

variable {s s' : Owners} {n : Monitor} {calls : ρ → ℕ}

/-- Frame: the owners after a clone of the layer or a call of it. -/
theorem owned_update {owned : Owner → Option ℕ} {o o' : Owner} {x : Option ℕ} {i : ℕ}
    (h : Function.update owned o x o' = some i) : (o' = o ∧ x = some i) ∨ owned o' = some i := by
  by_cases ho : o' = o
  · subst ho
    rw [Function.update_self] at h
    exact Or.inl ⟨rfl, h⟩
  · rw [Function.update_of_ne ho] at h
    exact Or.inr h

theorem held_init : Held monitor.init (handover calls).init monitor.init where
  handles := rfl
  created := rfl
  ready_lt h hh := absurd hh (Finset.notMem_empty h)
  owned_lt o i h := by
    obtain ⟨-, rfl⟩ : o = .handle 0 ∧ 0 = i := by simpa [handover] using h
    exact Nat.one_pos
  owner_eq o o' i h h' := by
    obtain ⟨rfl, -⟩ : o = .handle 0 ∧ 0 = i := by simpa [handover] using h
    obtain ⟨rfl, -⟩ : o' = .handle 0 ∧ 0 = i := by simpa [handover] using h'
    rfl
  handle_ready h i _ hr := absurd hr (Finset.notMem_empty h)
  future_ready f i h := by simp [handover] at h

theorem Held.pollReady (hH : Held m s n) {h i : ℕ} (hi : s.owned (.handle h) = some i)
    (hh : h < m.count) : Held ⟨m.count, insert h m.ready⟩ s ⟨n.count, insert i n.ready⟩ where
  handles := hH.handles
  created := hH.created
  ready_lt h' hr := by
    rcases Finset.mem_insert.mp hr with rfl | hr
    · exact hh
    · exact hH.ready_lt h' hr
  owned_lt := hH.owned_lt
  owner_eq := hH.owner_eq
  handle_ready h' i' hi' hr := by
    rcases Finset.mem_insert.mp hr with rfl | hr
    · obtain rfl := Option.some.inj (hi.symm.trans hi')
      exact Finset.mem_insert_self _ _
    · exact Finset.mem_insert_of_mem (hH.handle_ready h' i' hi' hr)
  future_ready f i' hi' := Finset.mem_insert_of_mem (hH.future_ready f i' hi')

theorem Held.clone (hH : Held m s n) : Held ⟨m.count + 1, m.ready⟩
    ⟨Function.update s.owned (.handle s.handles) (some s.created), s.handles + 1, s.created + 1⟩
    ⟨n.count + 1, n.ready⟩ where
  handles := congrArg (· + 1) hH.handles
  created := congrArg (· + 1) hH.created
  ready_lt h hr := Nat.lt_succ_of_lt (hH.ready_lt h hr)
  owned_lt o i hi := by
    rcases owned_update hi with ⟨-, hnew⟩ | hold
    · obtain rfl := Option.some.inj hnew
      exact Nat.lt_succ_self _
    · exact Nat.lt_succ_of_lt (hH.owned_lt o i hold)
  owner_eq o o' i hi hi' := by
    rcases owned_update hi with ⟨ho, hnew⟩ | hold
    · rcases owned_update hi' with ⟨ho', -⟩ | hold'
      · rw [ho, ho']
      · obtain rfl := Option.some.inj hnew
        exact absurd (hH.owned_lt o' _ hold') (Nat.lt_irrefl _)
    · rcases owned_update hi' with ⟨-, hnew'⟩ | hold'
      · obtain rfl := Option.some.inj hnew'
        exact absurd (hH.owned_lt o _ hold) (Nat.lt_irrefl _)
      · exact hH.owner_eq o o' i hold hold'
  handle_ready h i hi hr := by
    rcases owned_update hi with ⟨ho, -⟩ | hold
    · have hlt := hH.ready_lt h hr
      rw [Owner.handle.inj ho, hH.handles] at hlt
      exact absurd hlt (Nat.lt_irrefl _)
    · exact hH.handle_ready h i hold hr
  future_ready f i hi := by
    have hi' : Function.update s.owned (.handle s.handles) (some s.created) (.future f) =
      some i := hi
    rw [Function.update_of_ne (by simp)] at hi'
    exact hH.future_ready f i hi'

/-- A call takes the instance of its clone, which is ready, and leaves a new one. -/
theorem Held.call (hH : Held m s n) {h f i : ℕ} (hi : s.owned (.handle h) = some i)
    (hh : h ∈ m.ready) : Held ⟨m.count, m.ready.erase h⟩
    ⟨Function.update (Function.update s.owned (.future f) (some i)) (.handle h) (some s.created),
      s.handles, s.created + 1⟩
    ⟨n.count + 1, n.ready⟩ := by
  -- What is held afterwards: the new instance, the one handed over, and the others.
  have hcases : ∀ o j, Function.update (Function.update s.owned (.future f) (some i)) (.handle h)
      (some s.created) o = some j → (o = .handle h ∧ j = s.created) ∨
        (o = .future f ∧ j = i) ∨ (o ≠ .handle h ∧ s.owned o = some j) := by
    intro o j hj
    by_cases ho : o = .handle h
    · subst ho
      rw [Function.update_self] at hj
      exact Or.inl ⟨rfl, (Option.some.inj hj).symm⟩
    · rw [Function.update_of_ne ho] at hj
      rcases owned_update hj with ⟨hf, hnew⟩ | hold
      · exact Or.inr (Or.inl ⟨hf, (Option.some.inj hnew).symm⟩)
      · exact Or.inr (Or.inr ⟨ho, hold⟩)
  have hlt := hH.owned_lt _ _ hi
  refine ⟨hH.handles, congrArg (· + 1) hH.created, fun h' hr => ?_, fun o j hj => ?_,
    fun o o' j hj hj' => ?_, fun h' j hj hr => ?_, fun f' j hj => ?_⟩
  · exact hH.ready_lt h' (Finset.mem_of_mem_erase hr)
  · show j < s.created + 1
    rcases hcases o j hj with ⟨-, rfl⟩ | ⟨-, rfl⟩ | ⟨-, hold⟩
    · omega
    · omega
    · have := hH.owned_lt o j hold
      omega
  · rcases hcases o j hj with ⟨rfl, rfl⟩ | ⟨rfl, rfl⟩ | ⟨hne, hold⟩ <;>
      rcases hcases o' _ hj' with ⟨rfl, he⟩ | ⟨rfl, he⟩ | ⟨hne', hold'⟩
    · rfl
    · omega
    · exact absurd (hH.owned_lt o' _ hold') (Nat.lt_irrefl _)
    · omega
    · rfl
    · exact absurd (hH.owner_eq o' _ _ hold' hi) hne'
    · rw [he] at hold
      exact absurd (hH.owned_lt o _ hold) (Nat.lt_irrefl _)
    · rw [he] at hold
      exact absurd (hH.owner_eq o _ _ hold hi) hne
    · exact hH.owner_eq o o' j hold hold'
  · obtain ⟨hne, hr⟩ := Finset.mem_erase.mp hr
    rcases hcases (.handle h') j hj with ⟨ho, -⟩ | ⟨ho, -⟩ | ⟨-, hold⟩
    · exact absurd (Owner.handle.inj ho) hne
    · cases ho
    · exact hH.handle_ready h' j hold hr
  · rcases hcases (.future f') j hj with ⟨ho, -⟩ | ⟨-, rfl⟩ | ⟨-, hold⟩
    · cases ho
    · exact hH.handle_ready h _ hi hh
    · exact hH.future_ready f' j hold

/-- A call that ends; its instance may have been called. -/
theorem Held.release (hH : Held m s n) {f i : ℕ} (hi : s.owned (.future f) = some i)
    {ready : Finset ℕ} (hready : ∀ j ∈ n.ready, j ≠ i → j ∈ ready) :
    Held m ⟨Function.update s.owned (.future f) none, s.handles, s.created⟩
      ⟨n.count, ready⟩ := by
  have hold : ∀ o j, Function.update s.owned (.future f) none o = some j →
      s.owned o = some j ∧ j ≠ i := by
    intro o j hj
    rcases owned_update hj with ⟨-, hnew⟩ | hold
    · cases hnew
    · refine ⟨hold, ?_⟩
      rintro rfl
      obtain rfl := hH.owner_eq _ _ _ hold hi
      rw [Function.update_self] at hj
      cases hj
  refine ⟨hH.handles, hH.created, hH.ready_lt, fun o j hj => hH.owned_lt o j (hold o j hj).1,
    fun o o' j hj hj' => hH.owner_eq o o' j (hold o j hj).1 (hold o' j hj').1,
    fun h j hj hr => ?_, fun f' j hj => ?_⟩
  · obtain ⟨hj, hne⟩ := hold (.handle h) j hj
    exact hready j (hH.handle_ready h j hj hr) hne
  · obtain ⟨hj, hne⟩ := hold (.future f') j hj
    exact hready j (hH.future_ready f' j hj) hne

/-- **Handing over.** -/
theorem handover_preserves (hcalls : ∀ x, calls x ≤ 1) : (handover calls).Preserves := by
  refine preserves_of_simulation Held held_init ?_
  intro m s n a s' outer inner m' hH hs hm
  cases a with
  | pollReady h =>
    obtain ⟨i, hi, he⟩ := Option.map_eq_some_iff.mp hs
    obtain ⟨rfl, rfl, rfl⟩ : s = s' ∧ [Event.ready h] = outer ∧ [Event.ready i] = inner := by
      simpa using he
    rw [TransitionSystem.run_singleton] at hm
    obtain ⟨hh, rfl⟩ := step_ready.mp hm
    refine ⟨_, ?_, hH.pollReady hi hh⟩
    rw [TransitionSystem.run_singleton]
    exact step_ready.mpr ⟨hH.created ▸ hH.owned_lt _ _ hi, rfl⟩
  | clone h =>
    obtain ⟨i, hi, he⟩ := Option.map_eq_some_iff.mp hs
    obtain ⟨rfl, rfl, rfl⟩ : _ = s' ∧ [Event.clone h] = outer ∧ [Event.clone i] = inner := by
      simpa using he
    rw [TransitionSystem.run_singleton] at hm
    obtain ⟨-, rfl⟩ := step_clone.mp hm
    refine ⟨_, ?_, hH.clone⟩
    rw [TransitionSystem.run_singleton]
    exact step_clone.mpr ⟨hH.created ▸ hH.owned_lt _ _ hi, rfl⟩
  | call h f =>
    obtain ⟨i, hi, he⟩ := Option.bind_eq_some_iff.mp hs
    split_ifs at he
    obtain ⟨rfl, rfl, rfl⟩ : _ = s' ∧ [Event.call h] = outer ∧ [Event.clone i] = inner := by
      simpa using he
    rw [TransitionSystem.run_singleton] at hm
    obtain ⟨hh, rfl⟩ := step_call.mp hm
    refine ⟨_, ?_, hH.call hi hh⟩
    rw [TransitionSystem.run_singleton]
    exact step_clone.mpr ⟨hH.created ▸ hH.owned_lt _ _ hi, rfl⟩
  | resume f x =>
    obtain ⟨i, hi, he⟩ := Option.map_eq_some_iff.mp hs
    obtain ⟨rfl, rfl, rfl⟩ : _ = s' ∧ [] = outer ∧
        List.replicate (calls x) (Event.call i) = inner := by
      simpa using he
    obtain rfl := Option.some.inj hm
    rcases Nat.le_one_iff_eq_zero_or_eq_one.mp (hcalls x) with hzero | hone
    · rw [hzero]
      exact ⟨n, rfl, hH.release hi fun j hj _ => hj⟩
    · rw [hone]
      refine ⟨⟨n.count, n.ready.erase i⟩, ?_, hH.release hi fun j hj hne => ?_⟩
      · rw [List.replicate_one, TransitionSystem.run_singleton]
        exact step_call.mpr ⟨hH.future_ready f i hi, rfl⟩
      · exact Finset.mem_erase.mpr ⟨hne, hj⟩
  | drop f =>
    obtain ⟨i, hi, he⟩ := Option.map_eq_some_iff.mp hs
    obtain ⟨rfl, rfl, rfl⟩ : _ = s' ∧ [] = outer ∧ [] = inner := by
      simpa using he
    obtain rfl := Option.some.inj hm
    exact ⟨n, rfl, hH.release hi fun j hj _ => hj⟩

end Readiness
