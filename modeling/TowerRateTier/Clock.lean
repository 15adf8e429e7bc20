import TowerRateTier.Quota
import TowerRateTier.Lib.CompareExchange
import Mathlib

/-!
# `FakeClock`

Model of the clock of `src/clock.rs` that tests and embedders advance by hand. Its
clones share one atomic word: `advance` is a compare-exchange loop on it, `set` a
store and `now` a load, and they can be called by any number of threads.

* `after_toNat`: without `set`, the word is the sum of what was advanced.
* `fake_clock_linearizable`: no `advance` is lost or counted twice, and `now` shows
  every one that has returned before it.
-/

namespace TowerRateTier

open CompareExchange

/-! ## Model -/

/-- The `delta` of `FakeClock::advance` (line 83). -/
def clockDelta (duration : Duration) : Nanos := UInt64.ofNat (min duration.asNanos (2 ^ 64 - 1))

/-- A call of `FakeClock::advance`, `FakeClock::set` or `FakeClock::now`. -/
inductive ClockCall where
  | advance (duration : Duration)
  | set (nanos : Nanos)
  | now

namespace ClockCall

/-- The calls as operations on the atomic word (lines 82–99, 102–104 and 114–116). -/
def operation : ClockCall → Operation Nanos
  | .advance duration => .update fun current => current.saturatingAdd (clockDelta duration)
  | .set nanos => .store nanos
  | .now => .load

/-- How much a call advances the clock. -/
def amount : ClockCall → ℕ
  | .advance duration => duration.asNanos
  | _ => 0

def isSet : ClockCall → Prop
  | .set _ => True
  | _ => False

def isAdvance : ClockCall → Bool
  | .advance _ => true
  | _ => false

theorem isAdvance_iff {a : ClockCall} : a.isAdvance = true ↔ ∃ duration, a = .advance duration := by
  cases a <;> simp [isAdvance]

theorem amount_of_not_isAdvance {a : ClockCall} (h : a.isAdvance = false) : a.amount = 0 := by
  cases a with
  | advance duration => cases h
  | set nanos => rfl
  | now => rfl

end ClockCall

/-- `FakeClock::new` (lines 73–77), with any interleaving of calls on its clones. -/
def fakeClock : TransitionSystem (World ClockCall Nanos) (Action ClockCall) :=
  CompareExchange.system ClockCall.operation 0

/-! ## What the clock shows -/

/-- How much call `i` advances the clock. -/
def amountOf (w : World ClockCall Nanos) (i : ℕ) : ℕ :=
  (w.calls i).elim 0 fun c => c.request.amount

/-- The time `a` is the sum of some advances: of all that have returned by `since`, and of
    none that begins at `upTo` or later. -/
def Shows (w : World ClockCall Nanos) (since upTo : ℕ) (a : Nanos) : Prop :=
  ∃ T : Finset ℕ,
    (∀ i ∈ T, ∃ c duration, w.calls i = some c ∧ c.request = .advance duration ∧
      c.calledAt < upTo) ∧
    (∀ i c duration found place moment, w.calls i = some c → c.request = .advance duration →
      c.phase = .returned found place moment → moment ≤ since → i ∈ T) ∧
    a.toNat = min (∑ i ∈ T, amountOf w i) (2 ^ 64 - 1)

/-- The advances among some commits. -/
def advanceIds (commits : List (ℕ × ClockCall)) : List ℕ :=
  (commits.filter fun x => x.2.isAdvance).map Prod.fst

theorem toNat_clockDelta (duration : Duration) :
    (clockDelta duration).toNat = min duration.asNanos (2 ^ 64 - 1) := by
  rw [clockDelta, UInt64.toNat_ofNat']
  omega

/-- Without `set` the word is the sum of what was advanced, up to its range. -/
theorem after_toNat (commits : List (ℕ × ClockCall)) (h : ∀ x ∈ commits, ¬ x.2.isSet) :
    (after ClockCall.operation 0 commits).toNat =
      min (commits.map fun x => x.2.amount).sum (2 ^ 64 - 1) := by
  induction commits using List.reverseRecOn with
  | nil => rfl
  | append_singleton commits x ih =>
    have hold := ih fun y hy => h y (List.mem_append_left _ hy)
    have hnew := h x (List.mem_append_right _ List.mem_cons_self)
    obtain ⟨id, request⟩ := x
    rw [after_concat, List.map_append, List.sum_append, List.map_singleton, List.sum_singleton]
    cases request with
    | advance duration =>
      show ((after ClockCall.operation 0 commits).saturatingAdd (clockDelta duration)).toNat =
        min (_ + duration.asNanos) (2 ^ 64 - 1)
      rw [UInt64.toNat_saturatingAdd, hold, toNat_clockDelta]
      omega
    | set nanos => exact absurd trivial hnew
    | now =>
      show (after ClockCall.operation 0 commits).toNat = _
      rw [hold]
      rfl

/-- The amounts of some commits are those of the advances among them. -/
theorem sum_amount_eq (w : World ClockCall Nanos) (commits : List (ℕ × ClockCall))
    (h : ∀ x ∈ commits, ∃ c, w.calls x.1 = some c ∧ c.request = x.2) :
    (commits.map fun x => x.2.amount).sum = ((advanceIds commits).map (amountOf w)).sum := by
  induction commits with
  | nil => rfl
  | cons x commits ih =>
    have hrest := ih fun y hy => h y (List.mem_cons_of_mem _ hy)
    rw [List.map_cons, List.sum_cons, hrest]
    unfold advanceIds
    by_cases ha : x.2.isAdvance = true
    · obtain ⟨c, hc, hreq⟩ := h x List.mem_cons_self
      have hamount : amountOf w x.1 = x.2.amount := by
        rw [amountOf, hc, ← hreq]
        rfl
      rw [List.filter_cons_of_pos (by simpa using ha), List.map_cons, List.map_cons, List.sum_cons,
        hamount]
    · rw [List.filter_cons_of_neg (by simpa using ha), ClockCall.amount_of_not_isAdvance (by simpa using ha),
        zero_add]

variable {w : World ClockCall Nanos}

/-- What the first `n` calls leave is the sum of the advances among them. -/
theorem shows_of_linear (h : Linear ClockCall.operation 0 w)
    (hset : ∀ x ∈ w.commits, ¬ x.2.isSet) {n since upTo : ℕ} (hn : n ≤ w.commits.length)
    (hsince : since ≤ n) (hupTo : n ≤ upTo) :
    Shows w since upTo (after ClockCall.operation 0 (w.commits.take n)) := by
  have htake : ∀ x ∈ w.commits.take n, x ∈ w.commits := fun x hx => List.mem_of_mem_take hx
  have hnodup : (advanceIds (w.commits.take n)).Nodup :=
    ((List.filter_sublist.trans (List.take_sublist n w.commits)).map Prod.fst).nodup h.nodup
  refine ⟨(advanceIds (w.commits.take n)).toFinset, fun i hi => ?_, ?_, ?_⟩
  · rw [List.mem_toFinset] at hi
    obtain ⟨x, hx, rfl⟩ := List.mem_map.mp hi
    obtain ⟨hx, hadvance⟩ := List.mem_filter.mp hx
    obtain ⟨c, hc, hreq⟩ := h.known x (htake x hx)
    obtain ⟨duration, hduration⟩ := ClockCall.isAdvance_iff.mp hadvance
    obtain ⟨place, hplace⟩ := List.mem_iff_getElem?.mp hx
    have hlt : place < n := by
      have := (List.getElem?_eq_some_iff.mp hplace).1
      rw [List.length_take] at this
      omega
    rw [List.getElem?_take_of_lt hlt] at hplace
    have := h.calledAt_le hc hplace
    exact ⟨c, duration, hc, hreq.trans hduration, by omega⟩
  · intro i c duration found place moment hc hreq hp hmoment
    have hphase := h.calls i c hc
    rw [hp] at hphase
    obtain ⟨hat, hlt, -⟩ := hphase
    rw [List.mem_toFinset]
    refine List.mem_map.mpr ⟨(i, c.request), List.mem_filter.mpr ⟨?_, ?_⟩, rfl⟩
    · apply List.mem_of_getElem? (i := place)
      rw [List.getElem?_take_of_lt (by omega)]
      exact hat.commit
    · rw [hreq]
      rfl
  · rw [after_toNat _ fun x hx => hset x (htake x hx),
      sum_amount_eq w _ fun x hx => h.known x (htake x hx), List.sum_toFinset _ hnodup]

/-- Without `set` the time does not go back. -/
theorem after_mono (h : ∀ x ∈ w.commits, ¬ x.2.isSet) {m n : ℕ} (hmn : m ≤ n) :
    after ClockCall.operation 0 (w.commits.take m) ≤
      after ClockCall.operation 0 (w.commits.take n) := by
  rw [UInt64.le_iff_toNat_le, after_toNat _ fun x hx => h x (List.mem_of_mem_take hx),
    after_toNat _ fun x hx => h x (List.mem_of_mem_take hx)]
  have hsub : (w.commits.take m).Sublist (w.commits.take n) := List.take_sublist_take_left hmn
  have := (hsub.map fun x => x.2.amount).sum_le_sum fun _ _ => Nat.zero_le _
  omega

/-- **Linearizability of the clock.** In every interleaving of calls on its clones the calls
    take effect one after another, each once and while it runs. Without `set`, the clock
    is at the sum of the advances, `now` shows all that have returned before it and none
    that begins after it, and its answers do not go back. -/
theorem fake_clock_linearizable (as : List (Action ClockCall))
    (hr : fakeClock.run (World.start 0) as = some w) :
    Linear ClockCall.operation 0 w ∧
      ((∀ id nanos, Action.call id (.set nanos) ∉ as) →
        Shows w w.commits.length w.commits.length w.cell ∧
          ∀ id c found place moment, w.calls id = some c → c.request = .now →
            c.phase = .returned found place moment →
              Shows w c.calledAt moment found ∧
                ∀ id' c' found' place' moment', w.calls id' = some c' → c'.request = .now →
                  c'.phase = .returned found' place' moment' → moment ≤ c'.calledAt →
                    found ≤ found') := by
  have h := linear_of_run hr
  refine ⟨h, fun hnoset => ?_⟩
  have hset : ∀ x ∈ w.commits, ¬ x.2.isSet := by
    intro x hx hisSet
    obtain ⟨c, hc, hreq⟩ := h.known x hx
    rcases called_of_run hr hc with hcall | ⟨c', hc', -⟩
    · rw [hreq] at hcall
      cases hx2 : x.2 with
      | set nanos => exact hnoset x.1 nanos (hx2 ▸ hcall)
      | advance duration => rw [hx2] at hisSet; exact hisSet
      | now => rw [hx2] at hisSet; exact hisSet
    · cases hc'
  refine ⟨?_, fun id c found place moment hc hreq hp => ?_⟩
  · have hshows := shows_of_linear h hset (Nat.le_refl w.commits.length) (Nat.le_refl _)
      (Nat.le_refl _)
    rwa [List.take_length, ← h.cell] at hshows
  · have hphase := h.calls id c hc
    rw [hp] at hphase
    obtain ⟨hat, hlt, hle⟩ := hphase
    have hplace := hat.le_place
    have hfound := hat.found
    refine ⟨?_, fun id' c' found' place' moment' hc' hreq' hp' hbefore => ?_⟩
    · rw [hfound]
      exact shows_of_linear h hset (by omega) (by omega) (by omega)
    · have hphase' := h.calls id' c' hc'
      rw [hp'] at hphase'
      have hlater := h.place_lt_place hc hp hc' hp' hbefore
      rw [hfound, hphase'.1.found]
      exact after_mono hset (Nat.le_of_lt hlater)

/-- Two threads advance the clock at once; the second one has to try three times. -/
def racingAdvances : List (Action ClockCall) :=
  [.call 0 (.advance (.fromSecs 1)), .call 1 (.advance (.fromSecs 2)), .read 0, .read 1,
    .exchange 0 false, .exchange 1 false, .exchange 1 true, .exchange 1 false, .finish 0,
    .finish 1, .call 2 .now, .access 2, .finish 2]

/-- Both advances are counted, and shown. -/
theorem fake_clock_linearizable_racing :
    ∃ w, fakeClock.run (World.start 0) racingAdvances = some w ∧ w.cell = 3000000000 ∧
      Shows w 2 3 3000000000 := by
  refine ⟨_, rfl, rfl, ?_⟩
  have h := (fake_clock_linearizable racingAdvances rfl).2 (by simp [racingAdvances])
  exact (h.2 2 _ _ _ _ rfl rfl rfl).1

end TowerRateTier
