import TowerRateTier.Storage.Breaker.Interleaving

/-!
# The counts of an outage

What can remove an entry that the fallback charged since the breaker last went
from closed to open: a prune after its TAT, the clear of the transition that ends
this outage, or the clear of an earlier one that comes late, because `clear` runs
after the lock has been released.

* `counts_kept_while_no_late_clear`: in a run in which the fallback charges no
  request while such a late clear is still to come, entries are removed only in
  the first two ways; and a request charged at such a moment can lose its entry in
  the third way at once.
-/

namespace TowerRateTier.Breaker.Interleaving

open CircuitBreaker

variable {w w' : World} {policy : Policy} {fallback : MemoryStorage}

/-! ## Definitions -/

/-- The step prunes the fallback with time `now`, if a prune is due. -/
def PrunesAt (w : World) (a : Action) (now : Nanos) : Prop :=
  ∃ id t, w.tasks id = some t ∧ t.request.now = now ∧
    ((a = .poll id ∧ t.phase = .admitted .probe) ∨
      (a = .perform id ∧ ∃ es,
        t.phase = .settling (.prune :: es) ∨ t.phase = .settling (.pruneIfDue :: es)))

/-- Call `id` still has to clear the fallback, after a transition that ended outage `n`. -/
def ClearPending (w : World) (id n : ℕ) : Prop :=
  ∃ t es, w.tasks id = some t ∧ t.phase = .settling (.clear :: es) ∧ t.openings = n

/-- An entry that was charged since the breaker last opened is removed only by a prune
    after its TAT, or by the clear of the transition that ended this outage. -/
def CountsKept (w : World) (a : Action) (w' : World) : Prop :=
  ∀ k tat, w.breaker.fallback.state k = some tat → w.charged k = w.openings →
    w'.breaker.fallback.state k = none →
      (∃ now, PrunesAt w a now ∧ tat < now) ∨
        ∃ id, a = .perform id ∧ ClearPending w id w.openings

/-- A call that closed the breaker still has to clear the fallback, and the breaker has
    opened again. -/
def LateClear (w : World) : Prop := ∃ id n, ClearPending w id n ∧ n < w.openings

/-- If the step charges a request to the fallback, then no late clear is to come. -/
def NoLateClear (w : World) (a : Action) : Prop :=
  ∀ id t es, a = .perform id → w.tasks id = some t → t.phase = .settling (.check :: es) →
    w.Charges t.request → ¬ LateClear w

/-! ## One step on the fallback -/

theorem retainActive_eq_none {st : MemoryStorage} {now tat : Nanos} {k : StorageKey}
    (hk : st.state k = some tat) (h : (st.retainActive now).state k = none) : tat < now := by
  have hfilter : (some tat).filter (fun tat => decide (now ≤ tat)) = none := by
    rw [← hk]; exact h
  rw [Option.filter_eq_none_iff] at hfilter
  have := hfilter tat rfl
  simpa using this

theorem check_ne_none {st : MemoryStorage} {r : CheckRequest} {tat : Nanos} {k : StorageKey}
    (hk : st.state k = some tat) : (st.check r).1.state k ≠ none := by
  by_cases hr : r.key = k
  · subst hr
    rw [MemoryStorage.check_state_self, hk]
    by_cases ha : Admits (some tat) r.now r.quota.emissionIntervalNanos r.quota.burstOffsetNanos
        r.cost
    · simp [(MemoryStorage.checkEntry_ok ha).1]
    · simp [(MemoryStorage.checkEntry_error ha).1]
  · rw [MemoryStorage.check_state_ne st r hr, hk]
    simp

/-- **Removal.** Only a prune after the TAT and a clear remove an entry. -/
theorem removed_cases {a : Action} (hs : w.step a = some w') {k : StorageKey} {tat : Nanos}
    (hk : w.breaker.fallback.state k = some tat) (hk' : w'.breaker.fallback.state k = none) :
    (∃ now, PrunesAt w a now ∧ tat < now) ∨ ∃ id n, a = .perform id ∧ ClearPending w id n := by
  -- Most steps leave the fallback alone, and the entry was there before.
  have hthere : w.breaker.fallback.state k ≠ none := by simp [hk]
  cases a with
  | call id r =>
    obtain ⟨-, rfl⟩ := step_call hs
    exact absurd hk' hthere
  | poll id =>
    obtain ⟨t, route, ht, hphase, rfl⟩ := step_poll hs
    cases route with
    | primary => exact absurd hk' hthere
    | probe =>
      exact Or.inl ⟨t.request.now, ⟨id, t, ht, rfl, Or.inl ⟨rfl, hphase⟩⟩,
        retainActive_eq_none hk hk'⟩
  | answer id result =>
    obtain ⟨t, route, -, -, rfl⟩ := step_answer hs
    exact absurd hk' hthere
  | perform id =>
    obtain ⟨t, e, es, ht, hphase, rfl⟩ := step_perform_iff.mp hs
    cases e with
    | clear => exact Or.inr ⟨id, t.openings, rfl, t, es, ht, hphase, rfl⟩
    | emit event => exact absurd hk' hthere
    | prune =>
      exact Or.inl ⟨t.request.now, ⟨id, t, ht, rfl, Or.inr ⟨rfl, es, Or.inl hphase⟩⟩,
        retainActive_eq_none hk hk'⟩
    | pruneIfDue =>
      have hk'' : (w.breaker.pruneFallbackIfDue t.request.now).fallback.state k = none := hk'
      unfold pruneFallbackIfDue at hk''
      split_ifs at hk'' with hdue
      · exact Or.inl ⟨t.request.now, ⟨id, t, ht, rfl, Or.inr ⟨rfl, es, Or.inr hphase⟩⟩,
          retainActive_eq_none hk hk''⟩
      · exact absurd hk'' hthere
    | check => exact absurd hk' (check_ne_none hk)
  | finish id =>
    obtain ⟨t, -, -, rfl⟩ := step_finish hs
    exact absurd hk' hthere
  | drop id =>
    obtain ⟨t, route, -, -, rfl⟩ := step_drop hs
    exact absurd hk' hthere

/-! ## Invariants -/

/-- A clear is the first of the remaining actions, if it is among them. -/
def ClearFirst : Phase → Prop
  | .settling effects => .clear ∉ effects.tail
  | _ => True

/-- The counters of the model are at most the number of openings. -/
structure Counted (w : World) : Prop where
  charged_le : ∀ k, w.charged k ≤ w.openings
  openings_le : ∀ id t, w.tasks id = some t → t.openings ≤ w.openings
  clear_first : ∀ id t, w.tasks id = some t → ClearFirst t.phase

theorem clearFirst_afterAnswer (old new : State) (result : StorageResult) :
    ClearFirst (.settling (afterAnswer old new result)) := by
  cases result with
  | ok decision => unfold afterAnswer; split_ifs <;> simp [ClearFirst]
  | error error => unfold afterAnswer; split_ifs <;> simp [ClearFirst]

theorem ClearFirst.tail {e : Effect} {es : List Effect} (h : ClearFirst (.settling (e :: es))) :
    .clear ∉ es := h

theorem ClearFirst.perform {e : Effect} {es : List Effect}
    (h : ClearFirst (.settling (e :: es))) : ClearFirst (.settling es) :=
  fun hmem => h.tail (List.mem_of_mem_tail hmem)

/-- A step replaces or removes at most one call: a call after it is the new one or was
    there before. -/
theorem task_of_update {tasks : ℕ → Option Task} {id i : ℕ} {new : Option Task} {t : Task}
    (h : Function.update tasks id new i = some t) : (i = id ∧ new = some t) ∨ tasks i = some t := by
  by_cases hi : i = id
  · subst hi
    rw [Function.update_self] at h
    exact Or.inl ⟨rfl, h⟩
  · rw [Function.update_of_ne hi] at h
    exact Or.inr h

/-- What holds of every call holds of the others after a step that changes one. -/
theorem tasks_insert {tasks tasks' : ℕ → Option Task} {id : ℕ} {new : Task} {P : Task → Prop}
    (h' : tasks' = Function.update tasks id (some new)) (h : ∀ i t, tasks i = some t → P t)
    (hnew : P new) : ∀ i t, tasks' i = some t → P t := by
  intro i t ht
  rw [h'] at ht
  rcases task_of_update ht with ⟨-, he⟩ | hold
  · obtain rfl := Option.some.inj he
    exact hnew
  · exact h i t hold

theorem tasks_erase {tasks tasks' : ℕ → Option Task} {id : ℕ} {P : Task → Prop}
    (h' : tasks' = Function.update tasks id none) (h : ∀ i t, tasks i = some t → P t) :
    ∀ i t, tasks' i = some t → P t := by
  intro i t ht
  rw [h'] at ht
  rcases task_of_update ht with ⟨-, he⟩ | hold
  · exact absurd he (by simp)
  · exact h i t hold

theorem counted_start : Counted (World.start policy fallback) where
  charged_le _ := le_rfl
  openings_le id t h := by cases h
  clear_first id t h := by cases h

theorem openings_le_newOpenings (w : World) (t : Task) (route : Route) (result : StorageResult) :
    w.openings ≤ w.newOpenings t route result := by
  unfold World.newOpenings
  split_ifs <;> omega

/-- What an action on the fallback charges is charged to the last opening. -/
theorem Counted.charged_performed (h : Counted w) (id : ℕ) (t : Task) (e : Effect)
    (es : List Effect) (k : StorageKey) : (w.performed id t e es).charged k ≤ w.openings := by
  show (if e = .check ∧ w.Charges t.request
    then Function.update w.charged t.request.key w.openings else w.charged) k ≤ w.openings
  split_ifs
  · by_cases hk : k = t.request.key
    · rw [hk, Function.update_self]
    · rw [Function.update_of_ne hk]
      exact h.charged_le k
  · exact h.charged_le k

theorem Counted.step (h : Counted w) {a : Action} (hs : w.step a = some w') : Counted w' := by
  cases a with
  | call id r =>
    obtain ⟨-, rfl⟩ := step_call hs
    refine ⟨h.charged_le, tasks_insert rfl h.openings_le le_rfl,
      tasks_insert rfl h.clear_first ?_⟩
    simp only
    split
    · trivial
    · exact List.not_mem_nil
  | poll id =>
    obtain ⟨t, route, ht, -, rfl⟩ := step_poll hs
    exact ⟨h.charged_le, tasks_insert rfl h.openings_le (h.openings_le id t ht),
      tasks_insert rfl h.clear_first trivial⟩
  | answer id result =>
    obtain ⟨t, route, ht, -, rfl⟩ := step_answer hs
    have hle := openings_le_newOpenings w t route result
    exact ⟨fun k => (h.charged_le k).trans hle,
      tasks_insert rfl (fun i t' ht' => (h.openings_le i t' ht').trans hle) le_rfl,
      tasks_insert rfl h.clear_first (clearFirst_afterAnswer _ _ _)⟩
  | perform id =>
    obtain ⟨t, e, es, ht, hphase, rfl⟩ := step_perform_iff.mp hs
    have hfirst := h.clear_first id t ht
    rw [hphase] at hfirst
    exact ⟨h.charged_performed id t e es, tasks_insert rfl h.openings_le (h.openings_le id t ht),
      tasks_insert rfl h.clear_first hfirst.perform⟩
  | finish id =>
    obtain ⟨t, -, -, rfl⟩ := step_finish hs
    exact ⟨h.charged_le, tasks_erase rfl h.openings_le, tasks_erase rfl h.clear_first⟩
  | drop id =>
    obtain ⟨t, route, -, -, rfl⟩ := step_drop hs
    exact ⟨h.charged_le, tasks_erase rfl h.openings_le, tasks_erase rfl h.clear_first⟩

/-! ## Late clears -/

/-- While a late clear is to come, no entry has been charged since the breaker opened. -/
def LateClearSafe (w : World) : Prop :=
  LateClear w → ∀ k tat, w.breaker.fallback.state k = some tat → w.charged k < w.openings

/-- A pending clear was pending before, or belongs to the transition just made. -/
theorem clearPending_step (h : Counted w) {a : Action} (hs : w.step a = some w') {id n : ℕ}
    (hc : ClearPending w' id n) : ClearPending w id n ∨ n = w'.openings := by
  obtain ⟨t', es', ht', hphase', rfl⟩ := hc
  -- Other calls keep their actions, so only the call of the step matters.
  have hframe : w.tasks id = some t' → ClearPending w id t'.openings :=
    fun ht => ⟨t', es', ht, hphase', rfl⟩
  cases a with
  | call i r =>
    obtain ⟨-, rfl⟩ := step_call hs
    rcases task_of_update ht' with ⟨-, hnew⟩ | hold
    · obtain rfl := Option.some.inj hnew
      simp only at hphase'
      split at hphase' <;> simp at hphase'
    · exact Or.inl (hframe hold)
  | poll i =>
    obtain ⟨t, route, -, -, rfl⟩ := step_poll hs
    rcases task_of_update ht' with ⟨-, hnew⟩ | hold
    · obtain rfl := Option.some.inj hnew
      exact absurd hphase' (by simp)
    · exact Or.inl (hframe hold)
  | answer i result =>
    obtain ⟨t, route, -, -, rfl⟩ := step_answer hs
    rcases task_of_update ht' with ⟨-, hnew⟩ | hold
    · obtain rfl := Option.some.inj hnew
      exact Or.inr rfl
    · exact Or.inl (hframe hold)
  | perform i =>
    obtain ⟨t, e, es, ht, hphase, rfl⟩ := step_perform_iff.mp hs
    rcases task_of_update ht' with ⟨-, hnew⟩ | hold
    · obtain rfl := Option.some.inj hnew
      have hfirst := h.clear_first i t ht
      rw [hphase] at hfirst
      obtain rfl := Phase.settling.inj hphase'
      exact absurd List.mem_cons_self hfirst.tail
    · exact Or.inl (hframe hold)
  | finish i =>
    obtain ⟨t, -, -, rfl⟩ := step_finish hs
    rcases task_of_update ht' with ⟨-, hnew⟩ | hold
    · exact absurd hnew (by simp)
    · exact Or.inl (hframe hold)
  | drop i =>
    obtain ⟨t, route, -, -, rfl⟩ := step_drop hs
    rcases task_of_update ht' with ⟨-, hnew⟩ | hold
    · exact absurd hnew (by simp)
    · exact Or.inl (hframe hold)

/-- An entry was there before and has not been charged, or the step charges it. -/
theorem entry_step {a : Action} (hs : w.step a = some w') {k : StorageKey} {tat' : Nanos}
    (hk : w'.breaker.fallback.state k = some tat') :
    ((∃ tat, w.breaker.fallback.state k = some tat) ∧ w'.charged k = w.charged k) ∨
      ∃ id t es, a = .perform id ∧ w.tasks id = some t ∧ t.phase = .settling (.check :: es) ∧
        w.Charges t.request := by
  have hretain : ∀ now, (w.breaker.fallback.retainActive now).state k = some tat' →
      ∃ tat, w.breaker.fallback.state k = some tat := by
    intro now h
    exact ⟨tat', (Option.filter_eq_some_iff.mp h).1⟩
  cases a with
  | call id r =>
    obtain ⟨-, rfl⟩ := step_call hs
    exact Or.inl ⟨⟨tat', hk⟩, rfl⟩
  | poll id =>
    obtain ⟨t, route, -, -, rfl⟩ := step_poll hs
    cases route with
    | primary => exact Or.inl ⟨⟨tat', hk⟩, rfl⟩
    | probe => exact Or.inl ⟨hretain _ hk, rfl⟩
  | answer id result =>
    obtain ⟨t, route, -, -, rfl⟩ := step_answer hs
    exact Or.inl ⟨⟨tat', hk⟩, rfl⟩
  | perform id =>
    obtain ⟨t, e, es, ht, hphase, rfl⟩ := step_perform_iff.mp hs
    cases e with
    | clear => cases hk
    | emit event => exact Or.inl ⟨⟨tat', hk⟩, rfl⟩
    | prune => exact Or.inl ⟨hretain _ hk, rfl⟩
    | pruneIfDue =>
      refine Or.inl ⟨?_, rfl⟩
      have hk' : (w.breaker.pruneFallbackIfDue t.request.now).fallback.state k = some tat' := hk
      unfold pruneFallbackIfDue at hk'
      split_ifs at hk'
      · exact hretain _ hk'
      · exact ⟨tat', hk'⟩
    | check =>
      by_cases hch : w.Charges t.request
      · exact Or.inr ⟨id, t, es, rfl, ht, hphase, hch⟩
      · have hcharged : (w.performed id t .check es).charged = w.charged :=
          if_neg (fun h => hch h.2)
        refine Or.inl ⟨⟨tat', ?_⟩, by rw [hcharged]⟩
        have hk' : (w.breaker.fallback.check t.request).1.state k = some tat' := hk
        rw [MemoryStorage.check_state_of_denied hch] at hk'
        exact hk'
  | finish id =>
    obtain ⟨t, -, -, rfl⟩ := step_finish hs
    exact Or.inl ⟨⟨tat', hk⟩, rfl⟩
  | drop id =>
    obtain ⟨t, route, -, -, rfl⟩ := step_drop hs
    exact Or.inl ⟨⟨tat', hk⟩, rfl⟩

/-- A step keeps the number of openings, or it opens the breaker and leaves the fallback
    alone. -/
theorem openings_step {a : Action} (hs : w.step a = some w') :
    w'.openings = w.openings ∨
      w'.openings = w.openings + 1 ∧ w'.breaker.fallback = w.breaker.fallback ∧
        w'.charged = w.charged := by
  cases a with
  | call id r =>
    obtain ⟨-, rfl⟩ := step_call hs
    exact Or.inl rfl
  | poll id =>
    obtain ⟨t, route, -, -, rfl⟩ := step_poll hs
    exact Or.inl rfl
  | answer id result =>
    obtain ⟨t, route, -, -, rfl⟩ := step_answer hs
    show w.newOpenings t route result = _ ∨ w.newOpenings t route result = _ ∧ _
    unfold World.newOpenings
    split_ifs
    · exact Or.inr ⟨rfl, rfl, rfl⟩
    · exact Or.inl rfl
  | perform id =>
    obtain ⟨t, e, es, -, -, rfl⟩ := step_perform_iff.mp hs
    exact Or.inl rfl
  | finish id =>
    obtain ⟨t, -, -, rfl⟩ := step_finish hs
    exact Or.inl rfl
  | drop id =>
    obtain ⟨t, route, -, -, rfl⟩ := step_drop hs
    exact Or.inl rfl

theorem LateClearSafe.step (hc : Counted w) (h : LateClearSafe w) {a : Action}
    (hs : w.step a = some w') (hno : NoLateClear w a) : LateClearSafe w' := by
  rintro ⟨id, n, hpending, hlt⟩ k tat' hk
  rcases openings_step hs with ho | ⟨ho, hfallback, hcharged⟩
  · -- The late clear was late before the step, so the step charges nothing.
    have hlate : LateClear w := by
      rcases clearPending_step hc hs hpending with hp | hn
      · exact ⟨id, n, hp, by omega⟩
      · omega
    rcases entry_step hs hk with ⟨⟨tat, hk'⟩, hcharged⟩ | ⟨i, t, es, ha, ht, hphase, hch⟩
    · rw [hcharged, ho]
      exact h hlate k tat hk'
    · exact absurd hlate (hno i t es ha ht hphase hch)
  · have := hc.charged_le k
    rw [hcharged]
    omega

/-- Without a charge before a late clear, a step keeps the counts. -/
theorem countsKept_of_safe (hc : Counted w) (h : LateClearSafe w) {a : Action}
    (hs : w.step a = some w') : CountsKept w a w' := by
  intro k tat hk hcharged hk'
  rcases removed_cases hs hk hk' with hprune | ⟨id, n, ha, hpending⟩
  · exact Or.inl hprune
  · have hn : n = w.openings := by
      obtain ⟨t, es, ht, hphase, rfl⟩ := hpending
      by_contra hne
      have hlt := lt_of_le_of_ne (hc.openings_le id t ht) hne
      have := h ⟨id, t.openings, ⟨t, es, ht, hphase, rfl⟩, hlt⟩ k tat hk
      omega
    exact Or.inr ⟨id, ha, hn ▸ hpending⟩

/-- A late clear loses what has been charged since the breaker opened. -/
theorem lost_of_late_clear {id : ℕ} {t : Task} {es : List Effect} {k : StorageKey} {tat : Nanos}
    (hs : w.step (.perform id) = some w')
    (ht : w.tasks id = some t) (hphase : t.phase = .settling (.clear :: es))
    (hlt : t.openings < w.openings) (hk : w.breaker.fallback.state k = some tat)
    (hcharged : w.charged k = w.openings) : ¬ CountsKept w (.perform id) w' := by
  intro hkept
  obtain ⟨t₀, e, es₀, ht₀, hphase₀, rfl⟩ := step_perform_iff.mp hs
  obtain rfl : t = t₀ := Option.some.inj (ht.symm.trans ht₀)
  obtain ⟨rfl, rfl⟩ := List.cons.inj (Phase.settling.inj (hphase.symm.trans hphase₀))
  rcases hkept k tat hk hcharged rfl with ⟨now, ⟨j, t', ht', -, hprune⟩, -⟩ | ⟨j, hj, t', es', ht', -, ho⟩
  · rcases hprune with ⟨hj, -⟩ | ⟨hj, es', hphase'⟩
    · cases hj
    · obtain rfl := Action.perform.inj hj
      obtain rfl : t = t' := Option.some.inj (ht.symm.trans ht')
      rw [hphase] at hphase'
      simp at hphase'
  · obtain rfl := Action.perform.inj hj
    obtain rfl : t = t' := Option.some.inj (ht.symm.trans ht')
    omega

/-- A charge before a late clear can be lost in the next step. -/
theorem counts_lost {a : Action} (hs : w.step a = some w') (hno : ¬ NoLateClear w a) :
    ∃ b w'', w'.step b = some w'' ∧ ¬ CountsKept w' b w'' := by
  unfold NoLateClear at hno
  push Not at hno
  obtain ⟨id, t, es, rfl, ht, hphase, hch, i, n, ⟨t', es', ht', hphase', rfl⟩, hlt⟩ := hno
  obtain ⟨t₀, e, es₀, ht₀, hphase₀, rfl⟩ := step_perform_iff.mp hs
  obtain rfl : t = t₀ := Option.some.inj (ht.symm.trans ht₀)
  obtain ⟨rfl, rfl⟩ := List.cons.inj (Phase.settling.inj (hphase.symm.trans hphase₀))
  have hne : i ≠ id := by
    rintro rfl
    obtain rfl : t' = t := Option.some.inj (ht'.symm.trans ht)
    cases hphase'.symm.trans hphase
  have htask : (w.performed id t .check es).tasks i = some t' := by
    rw [performed_tasks, Function.update_of_ne hne]
    exact ht'
  have hadmits : Admits (w.breaker.fallback.state t.request.key) t.request.now
      t.request.quota.emissionIntervalNanos t.request.quota.burstOffsetNanos t.request.cost := by
    rw [← MemoryStorage.checkEntry_isOk_iff, ← MemoryStorage.check_snd]
    exact hch
  have hentry : (w.performed id t .check es).breaker.fallback.state t.request.key =
      some (newTat (w.breaker.fallback.state t.request.key) t.request.now
        t.request.quota.emissionIntervalNanos t.request.cost) := by
    show (w.breaker.fallback.check t.request).1.state t.request.key = _
    rw [MemoryStorage.check_state_self, (MemoryStorage.checkEntry_ok hadmits).1]
  have hcharged : (w.performed id t .check es).charged t.request.key = w.openings := by
    show (if _ then Function.update w.charged t.request.key w.openings else w.charged) _ = _
    rw [if_pos ⟨rfl, hch⟩, Function.update_self]
  have hclear := step_perform_iff.mpr ⟨t', .clear, es', htask, hphase', rfl⟩
  exact ⟨.perform i, _, hclear, lost_of_late_clear hclear htask hphase' hlt hentry hcharged⟩

/-- **Counts of an outage.** In every run in which the fallback charges no request while
    a late clear is to come, each step keeps the counts of the current outage. After a
    charge at such a moment the late clear can lose it in the next step. -/
theorem counts_kept_while_no_late_clear (policy : Policy) (fallback : MemoryStorage) :
    (∀ as, (system policy fallback).Along (fun w a _ => NoLateClear w a)
        (World.start policy fallback) as →
      (system policy fallback).Along CountsKept (World.start policy fallback) as) ∧
    ∀ w a w', (system policy fallback).Reachable w → w.step a = some w' → ¬ NoLateClear w a →
      ∃ b w'', w'.step b = some w'' ∧ ¬ CountsKept w' b w'' := by
  refine ⟨fun as h => ?_, fun w a w' _ hs hno => counts_lost hs hno⟩
  refine TransitionSystem.Along.mono_of_invariant (I := fun w => Counted w ∧ LateClearSafe w)
    ?_ ⟨counted_start, ?_⟩ h
  · rintro s a s' ⟨hc, hsafe⟩ hs hno
    exact ⟨⟨hc.step hs, hsafe.step hc hs hno⟩, countsKept_of_safe hc hsafe hs⟩
  · rintro ⟨id, n, -, hlt⟩
    exact absurd hlt (Nat.not_lt_zero n)

/-- A request of one user, at time `now`, with a quota of ten per second. -/
def userRequest (now : Nanos) : CheckRequest :=
  ⟨⟨"u", "free"⟩, ⟨10, .fromSecs 1, .ten_per_second⟩, 1, now⟩

/-- The failing call 0 opens the breaker and charges the fallback. -/
def openingRun : List Action :=
  [.call 0 (userRequest 0), .poll 0, .answer 0 (.error ⟨"down"⟩), .perform 0, .perform 0, .perform 0,
    .perform 0]

/-- The probe 1 closes the breaker, but before it clears the fallback the failing call
    2 opens it again and charges the fallback. -/
def reopeningRun : List Action :=
  openingRun ++ [.finish 0, .call 1 (userRequest 5), .poll 1,
    .answer 1 (.ok (.ok ⟨10, 9, .fromNanos 100000000⟩)), .call 2 (userRequest 5), .poll 2,
    .answer 2 (.error ⟨"down"⟩), .perform 2, .perform 2, .perform 2, .perform 2]

/-- The probe 1 closes the breaker and clears the fallback in time. -/
def closingRun : List Action :=
  openingRun ++ [.finish 0, .call 1 (userRequest 5), .poll 1,
    .answer 1 (.ok (.ok ⟨10, 9, .fromNanos 100000000⟩)), .perform 1, .perform 1, .finish 1]

/-- The failing call 2 opens the breaker again and charges the fallback. -/
def secondOutage : List Action :=
  closingRun ++ [.call 2 (userRequest 6), .poll 2, .answer 2 (.error ⟨"down"⟩), .perform 2,
    .perform 2, .perform 2, .perform 2]

/-- While every unfinished call is one of the current outage, no clear is late. -/
theorem noLateClear_of_current {a : Action}
    (h : ∀ i t, w.tasks i = some t → w.openings ≤ t.openings) : NoLateClear w a := by
  rintro id t es - - - - ⟨i, n, ⟨t', es', ht', -, rfl⟩, hlt⟩
  exact absurd hlt (Nat.not_lt.mpr (h i t' ht'))

/-- The clear between the outages removes what the first one charged, and what the
    second one charges stays. -/
theorem secondOutage_keeps_counts :
    (system onePolicy MemoryStorage.new).Along CountsKept
        (World.start onePolicy MemoryStorage.new) secondOutage ∧
      (∃ w w', (system onePolicy MemoryStorage.new).run (World.start onePolicy MemoryStorage.new)
          (closingRun.take 11) = some w ∧ w.step (.perform 1) = some w' ∧
        ClearPending w 1 w.openings ∧ w.charged ⟨"u", "free"⟩ = w.openings ∧
        w.breaker.fallback.state ⟨"u", "free"⟩ = some 100000000 ∧
        w'.breaker.fallback.state ⟨"u", "free"⟩ = none) ∧
      ∃ w, (system onePolicy MemoryStorage.new).run (World.start onePolicy MemoryStorage.new)
          secondOutage = some w ∧ w.openings = 2 ∧ w.charged ⟨"u", "free"⟩ = 2 ∧
        w.breaker.fallback.state ⟨"u", "free"⟩ = some 100000006 := by
  refine ⟨(counts_kept_while_no_late_clear onePolicy MemoryStorage.new).1 secondOutage ?_,
    ⟨_, _, rfl, rfl, ⟨_, _, rfl, rfl, rfl⟩, by decide, by decide, by decide⟩,
    _, rfl, by decide, by decide, by decide⟩
  refine (TransitionSystem.along_append _ rfl).mpr
    ⟨(TransitionSystem.along_append _ rfl).mpr ⟨?_, ?_⟩, ?_⟩
  all_goals
    refine ⟨_, rfl, ?_, _, rfl, ?_, _, rfl, ?_, _, rfl, ?_, _, rfl, ?_, _, rfl, ?_, _, rfl, ?_,
      trivial⟩
    -- each call returns before the next one begins
    all_goals
      refine noLateClear_of_current fun i t ht => ?_
      rcases i with _ | _ | _ | i <;> cases ht <;> decide

/-- The clear of the first outage removes what the second one has charged. -/
theorem late_clear_loses_counts :
    (∃ w, (system onePolicy MemoryStorage.new).run (World.start onePolicy MemoryStorage.new)
        (reopeningRun ++ [Action.perform 1]) = some w ∧ w.breaker.state = .openUntil 10 ∧
        w.breaker.fallback.state ⟨"u", "free"⟩ = none) ∧
      ¬ (system onePolicy MemoryStorage.new).Along CountsKept
        (World.start onePolicy MemoryStorage.new) (reopeningRun ++ [Action.perform 1]) := by
  refine ⟨⟨_, rfl, by decide, by decide⟩, fun h => ?_⟩
  obtain ⟨-, w', hs, hkept, -⟩ := (TransitionSystem.along_append [Action.perform 1] rfl).mp h
  rw [system_step] at hs
  refine lost_of_late_clear (k := ⟨"u", "free"⟩) hs rfl rfl ?_ rfl ?_ hkept
  · decide
  · decide

end TowerRateTier.Breaker.Interleaving
