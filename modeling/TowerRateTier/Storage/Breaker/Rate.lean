import TowerRateTier.Lib.Windows
import TowerRateTier.Storage.MemorySweep
import TowerRateTier.Storage.Breaker.Outage

/-!
# The rate of the fallback

What an instance admits from its fallback while the calls of a circuit breaker
interleave. A run of the breaker acts on the fallback as checks, prunes and clears;
a prune loses what is before its time, and a clear everything.

* `fallback_eq_foldl`: the fallback after a run.
* `charged_refines`: the entry of a key is a virtual schedule.
* `fallback_rate_bound`: a burst, the configured rate, and a burst more for each
  closing; with the requests of a key in order that is all.
-/

namespace TowerRateTier.Breaker.Interleaving

open CircuitBreaker
open MemoryStorage (absEntry costBetween timesIn)

/-! ## Model -/

/-- What a step does to the fallback. A clear comes with the latest time of a call so
    far. -/
inductive FallbackOp where
  | check (r : CheckRequest)
  | prune (now : Nanos)
  | clear (latest : Nanos)

namespace FallbackOp

def apply (st : MemoryStorage) : FallbackOp → MemoryStorage
  | .check r => (st.check r).1
  | .prune now => st.retainActive now
  | .clear _ => st.clear

def pruneTime : FallbackOp → Option Nanos
  | .prune now => some now
  | _ => none

def clearTime : FallbackOp → Option Nanos
  | .clear latest => some latest
  | _ => none

end FallbackOp

/-- What an action of a call with arguments `r` does to the fallback. -/
def World.effectOp (w : World) (r : CheckRequest) : Effect → Option FallbackOp
  | .clear => some (.clear w.latest)
  | .emit _ => none
  | .prune => some (.prune r.now)
  | .pruneIfDue =>
    if w.breaker.policy.openFor ≤ r.now.saturatingSub w.breaker.lastPruned then some (.prune r.now)
    else none
  | .check => some (.check r)

/-- What a step does to the fallback, if anything. -/
def World.fallbackOp (w : World) : Action → Option FallbackOp
  | .poll id => (w.tasks id).bind fun t =>
    match t.phase with
    | .admitted .probe => some (.prune t.request.now)
    | _ => none
  | .perform id => (w.tasks id).bind fun t =>
    match t.phase with
    | .settling (e :: _) => w.effectOp t.request e
    | _ => none
  | _ => none

/-- What the steps of a run do to the fallback. -/
def fallbackOps : World → List Action → List FallbackOp
  | _, [] => []
  | w, a :: as =>
    match w.step a with
    | none => []
    | some w' => (w.fallbackOp a).toList ++ fallbackOps w' as

/-- The checks that the fallback admits. -/
def charged : MemoryStorage → List FallbackOp → List CheckRequest
  | _, [] => []
  | st, .check r :: ops =>
    if (st.check r).2.isOk then r :: charged (st.check r).1 ops else charged (st.check r).1 ops
  | st, .prune now :: ops => charged (st.retainActive now) ops
  | st, .clear _ :: ops => charged st.clear ops

/-- How often the breaker closes in a run. -/
def closings : World → List Action → ℕ
  | _, [] => 0
  | w, a :: as =>
    match w.step a with
    | none => 0
    | some w' =>
      (if w.breaker.state = .halfOpen ∧ w'.breaker.state.isClosed then 1 else 0) + closings w' as

variable {w w' : World} {k : StorageKey} {q : Quota}

theorem fallbackOps_cons {a : Action} (hs : w.step a = some w') (as : List Action) :
    fallbackOps w (a :: as) = (w.fallbackOp a).toList ++ fallbackOps w' as := by
  rw [fallbackOps, hs]

/-- A step does to the fallback what its operation says. -/
theorem fallback_step {a : Action} (hs : w.step a = some w') :
    w'.breaker.fallback = (w.fallbackOp a).elim w.breaker.fallback
      (FallbackOp.apply w.breaker.fallback) := by
  cases a with
  | call id r =>
    obtain ⟨-, rfl⟩ := step_call hs
    rfl
  | poll id =>
    obtain ⟨t, route, ht, hphase, rfl⟩ := step_poll hs
    rw [World.fallbackOp, ht, Option.bind_some]
    cases route with
    | primary => simp only [hphase]; rfl
    | probe => simp only [hphase]; rfl
  | answer id result =>
    obtain ⟨t, route, -, -, rfl⟩ := step_answer hs
    rfl
  | perform id =>
    obtain ⟨t, e, es, ht, hphase, rfl⟩ := step_perform_iff.mp hs
    rw [World.fallbackOp, ht, Option.bind_some]
    simp only [hphase]
    show (w.breaker.perform t.request e).fallback = _
    cases e with
    | pruneIfDue =>
      show (w.breaker.pruneFallbackIfDue t.request.now).fallback = _
      unfold pruneFallbackIfDue World.effectOp
      split_ifs <;> rfl
    | _ => rfl
  | finish id =>
    obtain ⟨t, -, -, rfl⟩ := step_finish hs
    rfl
  | drop id =>
    obtain ⟨t, route, -, -, rfl⟩ := step_drop hs
    rfl

/-- **The fallback after a run.** -/
theorem fallback_eq_foldl (policy : Policy) (fallback : MemoryStorage) (as : List Action) :
    ∀ w : World, (system policy fallback).run w as = some w' →
      w'.breaker.fallback = (fallbackOps w as).foldl FallbackOp.apply w.breaker.fallback := by
  induction as with
  | nil =>
    intro w hr
    obtain rfl := Option.some.inj hr
    rfl
  | cons a as ih =>
    intro w hr
    obtain ⟨u, hu, hrest⟩ := TransitionSystem.run_cons_eq_some.mp hr
    rw [ih u hrest, fallbackOps_cons hu, List.foldl_append, fallback_step hu]
    cases w.fallbackOp a <;> rfl

/-! ## One entry as a virtual schedule -/

/-- A request of key `k` is made with quota `q`, at a time at which nothing saturates. -/
def Rated (k : StorageKey) (q : Quota) (r : CheckRequest) : Prop :=
  r.key = k → r.quota = q ∧ r.now.toNat + q.burstOffsetNanos.toNat < 2 ^ 64 - 1

/-- The operation on the entry of key `k`, with how far ahead of a later check it may lose
    a TAT. -/
def absFallbackOp (k : StorageKey) (q : Quota) (lag : ℕ) :
    FallbackOp → Option (VirtualScheduling.Op ℤ × ℤ)
  | .check r =>
    if r.key = k then some (.offer r.now.toNat (q.emissionIntervalNanos.toNat * r.cost.toNat), 0)
    else none
  | .prune now => some (.forget now.toNat, lag)
  | .clear latest =>
    some (.forget (latest.toNat + q.burstOffsetNanos.toNat + 1), q.burstOffsetNanos.toNat + 1 + lag)

/-- The checks of a run are rated, what it prunes is at most `lag` ahead of the later
    checks of the key, and what it clears is within a burst of times that are. -/
def Orderly (k : StorageKey) (q : Quota) (lag : ℕ) : MemoryStorage → List FallbackOp → Prop
  | _, [] => True
  | st, op :: ops =>
    (match op with
      | .check r => Rated k q r
      | .prune now => ∀ r, .check r ∈ ops → r.key = k → now.toNat ≤ r.now.toNat + lag
      | .clear latest =>
        (∀ tat, st.state k = some tat →
            tat.toNat ≤ latest.toNat + q.burstOffsetNanos.toNat) ∧
          ∀ r, .check r ∈ ops → r.key = k → latest.toNat ≤ r.now.toNat + lag) ∧
      Orderly k q lag (op.apply st) ops

variable {lag : ℕ}

theorem absFallbackOp_check {r : CheckRequest} (hk : r.key = k) :
    absFallbackOp k q lag (.check r) =
      some (.offer r.now.toNat (q.emissionIntervalNanos.toNat * r.cost.toNat), 0) := if_pos hk

theorem absFallbackOp_other {r : CheckRequest} (hk : r.key ≠ k) :
    absFallbackOp k q lag (.check r) = none := if_neg hk

theorem absEntry_clear {st : MemoryStorage} {latest : Nanos} (burst : ℤ)
    (h : ∀ tat, st.state k = some tat → tat.toNat ≤ latest.toNat + q.burstOffsetNanos.toNat) :
    absEntry (st.clear.state k) = VirtualScheduling.step burst (absEntry (st.state k))
      (.forget (latest.toNat + q.burstOffsetNanos.toNat + 1)) := by
  have hempty : absEntry (st.clear.state k) = none := rfl
  rw [hempty]
  cases hs : st.state k with
  | none => rfl
  | some tat =>
    have hle := h tat hs
    have hnot : ¬ (latest.toNat + q.burstOffsetNanos.toNat + 1 : ℤ) ≤ tat.toNat := by omega
    simp [VirtualScheduling.step, Option.filter, hnot]

/-- **Refinement.** -/
theorem charged_refines (ops : List FallbackOp) :
    ∀ st : MemoryStorage, Orderly k q lag st ops →
      VirtualScheduling.admittedOffers (q.burstOffsetNanos.toNat : ℤ) (absEntry (st.state k))
          ((ops.filterMap (absFallbackOp k q lag)).map Prod.fst) =
        ((charged st ops).filter fun r => r.key = k).map fun r =>
          ((r.now.toNat : ℤ), (q.emissionIntervalNanos.toNat * r.cost.toNat : ℤ)) := by
  induction ops with
  | nil => intro st _; rfl
  | cons op ops ih =>
    intro st h
    have hih := ih (op.apply st) h.2
    cases op with
    | check r =>
      by_cases hk : r.key = k
      · obtain ⟨rfl, hn⟩ := h.1 hk
        subst hk
        have hok := MemoryStorage.check_isOk_iff_fits st hn
        have hentry : absEntry ((FallbackOp.apply st (.check r)).state r.key) = _ :=
          (congrArg absEntry (MemoryStorage.check_state_self st r)).trans
            (MemoryStorage.absEntry_check hn)
        rw [hentry] at hih
        rw [List.filterMap_cons_some (absFallbackOp_check rfl), List.map_cons,
          VirtualScheduling.admittedOffers, charged]
        by_cases ha : (st.check r).2.isOk = true
        · rw [if_pos (hok.mp ha), if_pos ha, hih, List.filter_cons_of_pos (by simp), List.map_cons]
          rfl
        · rw [if_neg (fun hf => ha (hok.mpr hf)), if_neg ha, hih]
          rfl
      · have hentry : (FallbackOp.apply st (.check r)).state k = st.state k :=
          MemoryStorage.check_state_ne st r hk
        rw [hentry] at hih
        rw [List.filterMap_cons_none (absFallbackOp_other hk), charged, hih]
        split_ifs
        · rw [List.filter_cons_of_neg (by simpa using hk)]
          rfl
        · rfl
    | prune now =>
      have hentry : absEntry ((FallbackOp.apply st (.prune now)).state k) = _ :=
        MemoryStorage.absEntry_retain (st.state k) (q.burstOffsetNanos.toNat : ℤ) now
      rw [hentry] at hih
      exact hih
    | clear latest =>
      have hentry : absEntry ((FallbackOp.apply st (.clear latest)).state k) = _ :=
        absEntry_clear (q.burstOffsetNanos.toNat : ℤ) h.1.1
      rw [hentry] at hih
      exact hih

/-- The offers of an abstract run are the checks of the key. -/
theorem offer_mem_absFallbackOps {ops : List FallbackOp}
    {x : VirtualScheduling.Op ℤ × ℤ} {now inc : ℤ} (hx : x ∈ ops.filterMap (absFallbackOp k q lag))
    (h : x.1 = .offer now inc) :
    ∃ r, FallbackOp.check r ∈ ops ∧ r.key = k ∧ now = r.now.toNat ∧
      inc = q.emissionIntervalNanos.toNat * r.cost.toNat := by
  obtain ⟨op, hop, he⟩ := List.mem_filterMap.mp hx
  cases op with
  | check r =>
    by_cases hk : r.key = k
    · rw [absFallbackOp_check hk] at he
      obtain rfl := Option.some.inj he
      obtain ⟨rfl, rfl⟩ := VirtualScheduling.Op.offer.inj h
      exact ⟨r, hop, hk, rfl, rfl⟩
    · rw [absFallbackOp_other hk] at he
      cases he
  | prune g =>
    obtain rfl := Option.some.inj he
    cases h
  | clear g =>
    obtain rfl := Option.some.inj he
    cases h

theorem Orderly.promptBy (ops : List FallbackOp) : ∀ st : MemoryStorage,
    Orderly k q lag st ops →
      VirtualScheduling.PromptBy (ops.filterMap (absFallbackOp k q lag)) := by
  induction ops with
  | nil => intro st _; exact List.Pairwise.nil
  | cons op ops ih =>
    intro st h
    have hih := ih (op.apply st) h.2
    cases op with
    | check r =>
      by_cases hk : r.key = k
      · rw [List.filterMap_cons_some (absFallbackOp_check hk)]
        refine List.pairwise_cons.mpr ⟨fun b _ before now inc ha _ => ?_, hih⟩
        cases ha
      · rw [List.filterMap_cons_none (absFallbackOp_other hk)]
        exact hih
    | prune g =>
      refine List.pairwise_cons.mpr ⟨fun b hb before now inc ha hoffer => ?_, hih⟩
      obtain ⟨r, hr, hk, rfl, -⟩ := offer_mem_absFallbackOps hb hoffer
      obtain rfl := VirtualScheduling.Op.forget.inj ha
      have := h.1 r hr hk
      show (g.toNat : ℤ) ≤ r.now.toNat + lag
      omega
    | clear g =>
      refine List.pairwise_cons.mpr ⟨fun b hb before now inc ha hoffer => ?_, hih⟩
      obtain ⟨r, hr, hk, rfl, -⟩ := offer_mem_absFallbackOps hb hoffer
      obtain rfl := VirtualScheduling.Op.forget.inj ha
      have := h.1.2 r hr hk
      show (g.toNat + q.burstOffsetNanos.toNat + 1 : ℤ) ≤
        r.now.toNat + (q.burstOffsetNanos.toNat + 1 + lag)
      omega

/-- What the prunes and the clears of a run may cost the interval `[s, t]`. -/
def lossBetween (q : Quota) (lag s t : ℕ) (ops : List FallbackOp) : ℕ :=
  lag * timesIn s (t + lag) (ops.filterMap FallbackOp.pruneTime) +
    (q.burstOffsetNanos.toNat + 1 + lag) *
      (ops.filterMap FallbackOp.clearTime).countP fun latest =>
        s ≤ latest.toNat + q.burstOffsetNanos.toNat ∧ latest.toNat ≤ t + lag

theorem sum_lossCost_eq (k : StorageKey) (q : Quota) (lag s t : ℕ) (ops : List FallbackOp) :
    ((ops.filterMap (absFallbackOp k q lag)).map (VirtualScheduling.lossCost (s : ℤ) t)).sum =
      (lossBetween q lag s t ops : ℕ) := by
  induction ops with
  | nil => simp [lossBetween, timesIn]
  | cons op ops ih =>
    cases op with
    | check r =>
      have hsame : lossBetween q lag s t (.check r :: ops) = lossBetween q lag s t ops := rfl
      rw [hsame, ← ih]
      by_cases hk : r.key = k
      · rw [List.filterMap_cons_some (absFallbackOp_check hk), List.map_cons, List.sum_cons]
        exact zero_add _
      · rw [List.filterMap_cons_none (absFallbackOp_other hk)]
    | prune g =>
      have hcons : lossBetween q lag s t (.prune g :: ops) =
          (if s < g.toNat ∧ g.toNat ≤ t + lag then lag else 0) + lossBetween q lag s t ops := by
        have htimes : FallbackOp.pruneTime (.prune g) = some g := rfl
        unfold lossBetween timesIn
        rw [List.filterMap_cons_some htimes, List.countP_cons, List.filterMap_cons_none rfl]
        simp only [decide_eq_true_eq]
        split_ifs <;> ring
      rw [hcons, Nat.cast_add, ← ih]
      show (if (s : ℤ) < g.toNat ∧ (g.toNat : ℤ) ≤ t + lag then (lag : ℤ) else 0) + _ = _
      congr 1
      rw [apply_ite (Nat.cast : ℕ → ℤ)]
      congr 1
      rw [eq_iff_iff]
      omega
    | clear g =>
      have hcons : lossBetween q lag s t (.clear g :: ops) =
          (if s ≤ g.toNat + q.burstOffsetNanos.toNat ∧ g.toNat ≤ t + lag then
            q.burstOffsetNanos.toNat + 1 + lag else 0) + lossBetween q lag s t ops := by
        have htimes : FallbackOp.clearTime (.clear g) = some g := rfl
        unfold lossBetween timesIn
        rw [List.filterMap_cons_some htimes, List.countP_cons, List.filterMap_cons_none rfl]
        simp only [decide_eq_true_eq]
        split_ifs <;> ring
      rw [hcons, Nat.cast_add, ← ih]
      show (if (s : ℤ) < g.toNat + q.burstOffsetNanos.toNat + 1 ∧
        (g.toNat + q.burstOffsetNanos.toNat + 1 : ℤ) ≤ t + (q.burstOffsetNanos.toNat + 1 + lag) then
          (q.burstOffsetNanos.toNat + 1 + lag : ℤ) else 0) + _ = _
      congr 1
      rw [apply_ite (Nat.cast : ℕ → ℤ), Nat.cast_add]
      congr 1
      rw [eq_iff_iff]
      omega

/-- The rate bound for what a run does to the fallback. -/
theorem Orderly.costBetween_le {s t : ℕ} {ops : List FallbackOp} {st : MemoryStorage}
    (h : Orderly k q lag st ops) (hst : s ≤ t) :
    q.emissionIntervalNanos.toNat * costBetween k s t (charged st ops) ≤
      q.burstOffsetNanos.toNat + (t - s) + lossBetween q lag s t ops := by
  have hle := VirtualScheduling.admittedBetween_le_of_promptBy
    (Int.natCast_nonneg q.burstOffsetNanos.toNat) (Int.ofNat_le.mpr hst) (absEntry (st.state k)) _
    (h.promptBy ops st)
    (by
      intro x hx
      obtain ⟨op, -, he⟩ := List.mem_filterMap.mp hx
      cases op with
      | check r =>
        by_cases hk : r.key = k
        · rw [absFallbackOp_check hk] at he
          obtain rfl := Option.some.inj he
          exact le_rfl
        · rw [absFallbackOp_other hk] at he
          cases he
      | prune g =>
        obtain rfl := Option.some.inj he
        exact Int.natCast_nonneg _
      | clear g =>
        obtain rfl := Option.some.inj he
        positivity)
    (by
      intro now inc hm
      obtain ⟨x, hx, hfst⟩ := List.mem_map.mp hm
      obtain ⟨r, -, -, -, rfl⟩ := offer_mem_absFallbackOps hx hfst
      positivity)
  have hcost : VirtualScheduling.admittedBetween (q.burstOffsetNanos.toNat : ℤ) s t
      (absEntry (st.state k)) ((ops.filterMap (absFallbackOp k q lag)).map Prod.fst) =
        (q.emissionIntervalNanos.toNat * costBetween k s t (charged st ops) : ℕ) := by
    unfold VirtualScheduling.admittedBetween MemoryStorage.costBetween MemoryStorage.costOf
    rw [charged_refines ops st h, List.filter_map, List.filter_filter, List.filter_filter,
      MemoryStorage.sum_offers]
    congr 4
    apply List.filter_congr
    intro r _
    simp [Bool.and_comm]
  rw [hcost, sum_lossCost_eq] at hle
  have : ((t - s : ℕ) : ℤ) = (t : ℤ) - s := by omega
  rw [← this] at hle
  exact_mod_cast hle

/-! ## Runs of the breaker -/

/-- A step that checks a request of key `k` does so at most `lag` after the latest call. -/
def Timely (k : StorageKey) (lag : ℕ) (w : World) (a : Action) : Prop :=
  ∀ r, w.fallbackOp a = some (.check r) → r.key = k → w.latest.toNat ≤ r.now.toNat + lag

/-- The calls of a run are rated. -/
def RatedCalls (k : StorageKey) (q : Quota) (as : List Action) : Prop :=
  ∀ id r, Action.call id r ∈ as → Rated k q r

/-- The entry of a key is at most a burst ahead of the latest call. -/
structure Ahead (k : StorageKey) (q : Quota) (w : World) : Prop where
  rated : ∀ id t, w.tasks id = some t → Rated k q t.request ∧
    t.request.now.toNat ≤ w.latest.toNat
  entry : ∀ tat, w.breaker.fallback.state k = some tat →
    tat.toNat ≤ w.latest.toNat + q.burstOffsetNanos.toNat

theorem ahead_start (policy : Policy) : Ahead k q (World.start policy .new) := by
  constructor
  · intro id t ht
    exact nomatch ht
  · intro tat htat
    exact nomatch htat

/-- What a step does to the fallback, it does for one of the calls. -/
theorem fallbackOp_spec {a : Action} {op : FallbackOp} (h : w.fallbackOp a = some op) :
    ∃ id t, w.tasks id = some t ∧
      (op = .check t.request ∨ op = .prune t.request.now ∨ op = .clear w.latest) := by
  cases a with
  | call id r => exact nomatch h
  | answer id result => exact nomatch h
  | finish id => exact nomatch h
  | drop id => exact nomatch h
  | poll id =>
    obtain ⟨t, ht, h⟩ := Option.bind_eq_some_iff.mp h
    refine ⟨id, t, ht, Or.inr (Or.inl ?_)⟩
    split at h
    · exact (Option.some.inj h).symm
    · exact nomatch h
  | perform id =>
    obtain ⟨t, ht, h⟩ := Option.bind_eq_some_iff.mp h
    refine ⟨id, t, ht, ?_⟩
    split at h
    · rename_i e es _
      cases e with
      | clear => exact Or.inr (Or.inr (Option.some.inj h).symm)
      | emit event => exact nomatch h
      | prune => exact Or.inr (Or.inl (Option.some.inj h).symm)
      | pruneIfDue =>
        rw [World.effectOp, Option.ite_none_right_eq_some] at h
        exact Or.inr (Or.inl (Option.some.inj h.2).symm)
      | check => exact Or.inl (Option.some.inj h).symm
    · exact nomatch h

theorem latest_le_step {a : Action} (hs : w.step a = some w') :
    w.latest.toNat ≤ w'.latest.toNat := by
  cases a with
  | call id r =>
    obtain ⟨-, rfl⟩ := step_call hs
    show w.latest.toNat ≤ (max w.latest r.now).toNat
    rw [UInt64.toNat_max]
    exact Nat.le_max_left _ _
  | poll id =>
    obtain ⟨t, route, -, -, rfl⟩ := step_poll hs
    exact Nat.le_refl _
  | answer id result =>
    obtain ⟨t, route, -, -, rfl⟩ := step_answer hs
    exact Nat.le_refl _
  | perform id =>
    obtain ⟨t, e, es, -, -, rfl⟩ := step_perform_iff.mp hs
    exact Nat.le_refl _
  | finish id =>
    obtain ⟨t, -, -, rfl⟩ := step_finish hs
    exact Nat.le_refl _
  | drop id =>
    obtain ⟨t, route, -, -, rfl⟩ := step_drop hs
    exact Nat.le_refl _

/-- A check leaves an entry at most a burst ahead of its time, or as it was. -/
theorem entry_check_le {st : MemoryStorage} {r : CheckRequest} (hr : Rated k q r) {tat : Nanos}
    (h : (st.check r).1.state k = some tat) :
    st.state k = some tat ∨ tat.toNat ≤ r.now.toNat + q.burstOffsetNanos.toNat := by
  by_cases hk : r.key = k
  · obtain ⟨rfl, hn⟩ := hr hk
    subst hk
    rw [MemoryStorage.check_state_self] at h
    have habs : absEntry (MemoryStorage.checkEntry (st.state r.key) r.quota r.cost r.now).1 = _ :=
      MemoryStorage.absEntry_check hn
    rw [h, VirtualScheduling.step_offer] at habs
    split_ifs at habs with hf
    · right
      have htat : (tat.toNat : ℤ) = _ := Option.some.inj habs
      unfold VirtualScheduling.Fits at hf
      omega
    · left
      by_cases ha : Admits (st.state r.key) r.now r.quota.emissionIntervalNanos
          r.quota.burstOffsetNanos r.cost
      · exact absurd ((MemoryStorage.admits_iff_fits _ _ hn).mp ha) hf
      · rwa [(MemoryStorage.checkEntry_error ha).1] at h
  · rw [MemoryStorage.check_state_ne st r hk] at h
    exact Or.inl h

/-- What holds of the requests of all calls, if it holds of that of a new one. -/
theorem requests_step {P : CheckRequest → Prop} (h : ∀ id t, w.tasks id = some t → P t.request)
    {a : Action} (hs : w.step a = some w') (hcall : ∀ id r, a = .call id r → P r) :
    ∀ id t, w'.tasks id = some t → P t.request := by
  cases a with
  | call id r =>
    obtain ⟨-, rfl⟩ := step_call hs
    exact tasks_insert rfl h (hcall id r rfl)
  | poll id =>
    obtain ⟨t, route, ht, -, rfl⟩ := step_poll hs
    exact tasks_insert rfl h (h id t ht)
  | answer id result =>
    obtain ⟨t, route, ht, -, rfl⟩ := step_answer hs
    exact tasks_insert rfl h (h id t ht)
  | perform id =>
    obtain ⟨t, e, es, ht, -, rfl⟩ := step_perform_iff.mp hs
    exact tasks_insert rfl h (h id t ht)
  | finish id =>
    obtain ⟨t, -, -, rfl⟩ := step_finish hs
    exact tasks_erase rfl h
  | drop id =>
    obtain ⟨t, route, -, -, rfl⟩ := step_drop hs
    exact tasks_erase rfl h

theorem now_le_latest {id : ℕ} {r : CheckRequest} (hs : w.step (.call id r) = some w') :
    r.now.toNat ≤ w'.latest.toNat := by
  obtain ⟨-, rfl⟩ := step_call hs
  show r.now.toNat ≤ (max w.latest r.now).toNat
  rw [UInt64.toNat_max]
  exact Nat.le_max_right _ _

theorem Ahead.step (h : Ahead k q w) {a : Action} (hs : w.step a = some w')
    (hcall : ∀ id r, a = .call id r → Rated k q r) : Ahead k q w' := by
  have hlatest := latest_le_step hs
  have hrequests := requests_step
    (P := fun r => Rated k q r ∧ r.now.toNat ≤ w'.latest.toNat)
    (fun i t ht => ⟨(h.rated i t ht).1, (h.rated i t ht).2.trans hlatest⟩) hs
    fun id r ha => ⟨hcall id r ha, now_le_latest (ha ▸ hs)⟩
  refine ⟨hrequests, fun tat htat => ?_⟩
  rw [fallback_step hs] at htat
  have hold : ∀ tat, w.breaker.fallback.state k = some tat →
      tat.toNat ≤ w'.latest.toNat + q.burstOffsetNanos.toNat := by
    intro tat htat
    have := h.entry tat htat
    omega
  cases hop : w.fallbackOp a with
  | none =>
    rw [hop] at htat
    exact hold tat htat
  | some op =>
    rw [hop, Option.elim_some] at htat
    obtain ⟨id, t, ht, rfl | rfl | rfl⟩ := fallbackOp_spec hop
    · obtain ⟨hrated, hnow⟩ := h.rated id t ht
      rcases entry_check_le hrated htat with hsame | hle
      · exact hold tat hsame
      · omega
    · exact hold tat (Option.filter_eq_some_iff.mp htat).1
    · exact nomatch htat

/-- The latest call of a state is at most `lag` after the checks that are to come. -/
theorem latest_le_of_check {policy : Policy} {fallback : MemoryStorage} (as : List Action) :
    ∀ w : World, (system policy fallback).Along (fun w a _ => Timely k lag w a) w as →
      ∀ r, .check r ∈ fallbackOps w as → r.key = k → w.latest.toNat ≤ r.now.toNat + lag := by
  induction as with
  | nil => intro w _ r hr; exact nomatch hr
  | cons a as ih =>
    rintro w ⟨w', hs, htimely, hrest⟩ r hr hk
    rw [fallbackOps_cons hs] at hr
    rcases List.mem_append.mp hr with hr | hr
    · exact htimely r (Option.mem_toList.mp hr) hk
    · have hle := latest_le_step hs
      have := ih w' hrest r hr hk
      omega

/-- What a run does to the fallback is orderly. -/
theorem Ahead.orderly {policy : Policy} {fallback : MemoryStorage} (as : List Action) :
    ∀ w : World, Ahead k q w → RatedCalls k q as →
      (system policy fallback).Along (fun w a _ => Timely k lag w a) w as →
        Orderly k q lag w.breaker.fallback (fallbackOps w as) := by
  induction as with
  | nil => intro w _ _ _; trivial
  | cons a as ih =>
    rintro w h hcalls ⟨w', hs, htimely, hrest⟩
    have h' := h.step hs fun id r ha => hcalls id r (ha ▸ List.mem_cons_self)
    have horderly := ih w' h' (fun id r hr => hcalls id r (List.mem_cons_of_mem _ hr)) hrest
    have hlatest := latest_le_step hs
    have hlater := latest_le_of_check as w' hrest
    rw [fallback_step hs] at horderly
    rw [fallbackOps_cons hs]
    cases hop : w.fallbackOp a with
    | none =>
      rw [hop] at horderly
      exact horderly
    | some op =>
      rw [hop] at horderly
      refine ⟨?_, horderly⟩
      obtain ⟨id, t, ht, rfl | rfl | rfl⟩ := fallbackOp_spec hop
      · exact (h.rated id t ht).1
      · intro r hr hk
        have hnow := (h.rated id t ht).2
        have := hlater r hr hk
        omega
      · refine ⟨h.entry, fun r hr hk => ?_⟩
        have := hlater r hr hk
        omega

/-! ## The clears -/

/-- The call still has to clear the fallback. -/
def Clears (t : Task) : Prop := ∃ es, t.phase = .settling (.clear :: es)

/-- Only the call that closes the breaker clears the fallback. -/
theorem closes_of_clear {old new : State} {result : StorageResult} {es : List Effect}
    (h : afterAnswer old new result = .clear :: es) : old = .halfOpen ∧ new.isClosed := by
  cases result with
  | ok decision =>
    by_cases hc : old = .halfOpen ∧ new.isClosed
    · exact hc
    · rw [afterAnswer, if_neg hc] at h
      simp at h
  | error error =>
    rw [afterAnswer] at h
    split_ifs at h <;> exact absurd (List.cons.inj h).1 (by simp)

/-- The calls with a clear to come, after a step that changes one call. -/
theorem clears_update {tasks : ℕ → Option Task} {P P' : Finset ℕ} {i : ℕ} {new : Option Task}
    (hP : ∀ id t, tasks id = some t → Clears t → id ∈ P) (hsub : ∀ j ∈ P, j ≠ i → j ∈ P')
    (hnew : ∀ t, new = some t → Clears t → i ∈ P') :
    ∀ id t, Function.update tasks i new id = some t → Clears t → id ∈ P' := by
  intro id t ht hclear
  by_cases hi : id = i
  · subst hi
    rw [Function.update_self] at ht
    exact hnew t ht hclear
  · rw [Function.update_of_ne hi] at ht
    exact hsub id (hP id t ht hclear) hi

/-- The clears that the calls in `P` still have to make, after a step: a closing adds
    one, and the clear that the step makes is no longer among them. -/
theorem clears_step (hf : ∀ id t, w.tasks id = some t → ClearFirst t.phase) {P : Finset ℕ}
    (hP : ∀ id t, w.tasks id = some t → Clears t → id ∈ P) {a : Action}
    (hs : w.step a = some w') :
    ∃ P' : Finset ℕ, (∀ id t, w'.tasks id = some t → Clears t → id ∈ P') ∧
      ((w.fallbackOp a).toList.filterMap FallbackOp.clearTime).length + P'.card ≤
        P.card + if w.breaker.state = .halfOpen ∧ w'.breaker.state.isClosed then 1 else 0 := by
  -- Without a clear and without a closing the same calls are left.
  have hkeep : ∀ {i : ℕ} {new : Option Task}, w'.tasks = Function.update w.tasks i new →
      (∀ t, new = some t → ¬ Clears t) →
      (w.fallbackOp a).toList.filterMap FallbackOp.clearTime = [] →
      ∃ P' : Finset ℕ, (∀ id t, w'.tasks id = some t → Clears t → id ∈ P') ∧
        ((w.fallbackOp a).toList.filterMap FallbackOp.clearTime).length + P'.card ≤
          P.card + if w.breaker.state = .halfOpen ∧ w'.breaker.state.isClosed then 1 else 0 := by
    intro i new htasks hnew hnone
    refine ⟨P, ?_, ?_⟩
    · rw [htasks]
      exact clears_update hP (fun j hj _ => hj) fun t ht hclear => absurd hclear (hnew t ht)
    · rw [hnone, List.length_nil]
      omega
  cases a with
  | call id r =>
    obtain ⟨-, rfl⟩ := step_call hs
    refine hkeep rfl (fun t ht hclear => ?_) rfl
    obtain ⟨es, hes⟩ := hclear
    obtain rfl := Option.some.inj ht
    dsimp only at hes
    split at hes <;> simp at hes
  | poll id =>
    obtain ⟨t, route, ht, hphase, rfl⟩ := step_poll hs
    refine hkeep rfl (fun t' ht' hclear => ?_) ?_
    · obtain ⟨es, hes⟩ := hclear
      obtain rfl := Option.some.inj ht'
      exact nomatch hes
    · rw [World.fallbackOp, ht, Option.bind_some]
      simp only [hphase]
      cases route <;> rfl
  | answer id result =>
    obtain ⟨t, route, -, -, rfl⟩ := step_answer hs
    by_cases hc : w.breaker.state = .halfOpen ∧ (w.newState t route result).isClosed
    · refine ⟨insert id P, clears_update hP (fun j hj _ => Finset.mem_insert_of_mem hj)
        fun _ _ _ => Finset.mem_insert_self id P, ?_⟩
      have hcard := Finset.card_insert_le id P
      have hnone : (w.fallbackOp (.answer id result)).toList = [] := rfl
      have hclosed : (w.answered id t route result).breaker.state = w.newState t route result := rfl
      rw [hnone, hclosed, if_pos hc]
      simpa using hcard
    · refine hkeep rfl (fun t' ht' hclear => ?_) rfl
      obtain ⟨es, hes⟩ := hclear
      obtain rfl := Option.some.inj ht'
      exact hc (closes_of_clear (Phase.settling.inj hes))
  | perform id =>
    obtain ⟨t, e, es, ht, hphase, rfl⟩ := step_perform_iff.mp hs
    have hfirst := hf id t ht
    rw [hphase] at hfirst
    have hnew : ∀ t', some { t with phase := .settling es } = some t' → ¬ Clears t' := by
      intro t' ht' hclear
      obtain ⟨es', hes⟩ := hclear
      obtain rfl := Option.some.inj ht'
      apply hfirst.tail
      rw [Phase.settling.inj hes]
      exact List.mem_cons_self
    have hop : w.fallbackOp (.perform id) = w.effectOp t.request e := by
      rw [World.fallbackOp, ht, Option.bind_some]
      simp only [hphase]
    by_cases he : e = .clear
    · subst he
      have hmem := hP id t ht ⟨es, hphase⟩
      refine ⟨P.erase id, clears_update hP (fun j hj hne => Finset.mem_erase.mpr ⟨hne, hj⟩)
        fun t' ht' hclear => absurd hclear (hnew t' ht'), ?_⟩
      have hone :
          ((w.fallbackOp (.perform id)).toList.filterMap FallbackOp.clearTime).length = 1 := by
        rw [hop]
        rfl
      have hpos := Finset.card_pos.mpr ⟨id, hmem⟩
      rw [hone, Finset.card_erase_of_mem hmem]
      omega
    · refine hkeep rfl hnew ?_
      rw [hop]
      cases e with
      | clear => exact absurd rfl he
      | emit event => rfl
      | prune => rfl
      | pruneIfDue =>
        rw [World.effectOp]
        split_ifs <;> rfl
      | check => rfl
  | finish id =>
    obtain ⟨t, -, -, rfl⟩ := step_finish hs
    exact hkeep rfl (fun t ht => nomatch ht) rfl
  | drop id =>
    obtain ⟨t, route, -, -, rfl⟩ := step_drop hs
    exact hkeep rfl (fun t ht => nomatch ht) rfl

/-- A run clears the fallback once for each closing, apart from the clears that it
    finds. -/
theorem clears_le (as : List Action) : ∀ (w : World) (P : Finset ℕ), Counted w →
    (∀ id t, w.tasks id = some t → Clears t → id ∈ P) →
      ((fallbackOps w as).filterMap FallbackOp.clearTime).length ≤ P.card + closings w as := by
  induction as with
  | nil => intro w P _ _; exact Nat.zero_le _
  | cons a as ih =>
    intro w P hc hP
    cases hs : w.step a with
    | none =>
      have hnone : fallbackOps w (a :: as) = [] := by rw [fallbackOps, hs]
      rw [hnone]
      exact Nat.zero_le _
    | some w' =>
      obtain ⟨P', hP', hle⟩ := clears_step hc.clear_first hP hs
      have := ih w' P' (hc.step hs) hP'
      rw [fallbackOps_cons hs, List.filterMap_append, List.length_append, closings, hs]
      dsimp only
      omega

theorem clears_le_closings (policy : Policy) (as : List Action) :
    ((fallbackOps (World.start policy .new) as).filterMap FallbackOp.clearTime).length ≤
      closings (World.start policy .new) as := by
  have hle := clears_le as (World.start policy .new) ∅ counted_start fun id t ht => nomatch ht
  rwa [Finset.card_empty, zero_add] at hle

/-- **Rate of the fallback.** Let calls of a new breaker interleave in any way; let all
    calls of a key have one quota and times at which nothing saturates; and let each
    request of the key that is checked against the fallback be at most `lag` behind the
    latest call. Then what the fallback admits of the key in `[s, t]` is at most a
    burst and the configured rate, `lag` more for each prune, and a burst more for each
    clear; and there are no more clears than closings. -/
theorem fallback_rate_bound (policy : Policy) (as : List Action) {w : World}
    (hr : (system policy .new).run (World.start policy .new) as = some w)
    (hcalls : RatedCalls k q as)
    (hlag : (system policy .new).Along (fun w a _ => Timely k lag w a) (World.start policy .new) as)
    {s t : ℕ} (hst : s ≤ t) :
    w.breaker.fallback =
        (fallbackOps (World.start policy .new) as).foldl FallbackOp.apply MemoryStorage.new ∧
      q.emissionIntervalNanos.toNat *
          costBetween k s t (charged .new (fallbackOps (World.start policy .new) as)) ≤
        q.burstOffsetNanos.toNat + (t - s) +
          lossBetween q lag s t (fallbackOps (World.start policy .new) as) ∧
      ((fallbackOps (World.start policy .new) as).filterMap FallbackOp.clearTime).length ≤
        closings (World.start policy .new) as := by
  refine ⟨fallback_eq_foldl policy .new as _ hr, ?_, clears_le_closings policy as⟩
  exact ((ahead_start policy).orderly as _ hcalls hlag).costBetween_le hst

/-- A request of a whole burst. -/
def burstRequest (now : Nanos) : CheckRequest :=
  ⟨⟨"u", "free"⟩, ⟨10, .fromSecs 1, .ten_per_second⟩, 10, now⟩

/-- The call `id` fails, and the fallback answers. -/
def failingCall (id : ℕ) (now : Nanos) : List Action :=
  [.call id (burstRequest now), .poll id, .answer id (.error ⟨"down"⟩), .perform id, .perform id,
    .perform id, .perform id, .finish id]

/-- Two outages, five nanoseconds apart. -/
def twoOutages : List Action :=
  failingCall 0 0 ++ [.call 1 (burstRequest 5), .poll 1,
    .answer 1 (.ok (.ok ⟨10, 0, .fromNanos 100000000⟩)), .perform 1, .perform 1, .finish 1] ++
      failingCall 2 5

/-- Each of them admits a whole burst. -/
theorem fallback_rate_bound_twoOutages :
    (∃ w, (system onePolicy .new).run (World.start onePolicy .new) twoOutages = some w) ∧
      10 ^ 8 * 20 ≤ 10 ^ 9 + (5 - 0) +
        lossBetween (burstRequest 0).quota 0 0 5
          (fallbackOps (World.start onePolicy .new) twoOutages) ∧
      closings (World.start onePolicy .new) twoOutages = 1 := by
  have hcalls : RatedCalls ⟨"u", "free"⟩ (burstRequest 0).quota twoOutages := by
    intro id r hr _
    simp only [twoOutages, failingCall, List.cons_append, List.nil_append, List.mem_cons,
      Action.call.injEq, reduceCtorEq, List.not_mem_nil, or_false, false_or] at hr
    rcases hr with ⟨-, rfl⟩ | ⟨-, rfl⟩ | ⟨-, rfl⟩ <;> exact ⟨rfl, by decide⟩
  have hlag : (system onePolicy .new).Along (fun w a _ => Timely ⟨"u", "free"⟩ 0 w a)
      (World.start onePolicy .new) twoOutages := by
    refine ⟨_, rfl, ?_, _, rfl, ?_, _, rfl, ?_, _, rfl, ?_, _, rfl, ?_, _, rfl, ?_, _, rfl, ?_,
      _, rfl, ?_, _, rfl, ?_, _, rfl, ?_, _, rfl, ?_, _, rfl, ?_, _, rfl, ?_, _, rfl, ?_,
      _, rfl, ?_, _, rfl, ?_, _, rfl, ?_, _, rfl, ?_, _, rfl, ?_, _, rfl, ?_, _, rfl, ?_,
      _, rfl, ?_, trivial⟩
    all_goals intro r hr _
    -- The fallback is checked at the time of the latest call.
    all_goals cases hr
    all_goals exact Nat.le_refl _
  have h := fallback_rate_bound onePolicy twoOutages rfl hcalls hlag (Nat.zero_le 5)
  refine ⟨⟨_, rfl⟩, h.2.1, rfl⟩

end TowerRateTier.Breaker.Interleaving
