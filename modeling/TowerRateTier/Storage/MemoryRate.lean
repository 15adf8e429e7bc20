import Mathlib
import TowerRateTier.Storage.Memory
import TowerRateTier.Lib.VirtualScheduling

/-!
# The rate enforced by `MemoryStorage`

A run is a sequence of `check_and_update` and `retain_active` calls, in the
order in which they take effect. Their times may come in any order: tasks read
the clock before they reach the map, and the breaker prunes with a time that can
be newer than that of a slower request.

The entry of a key refines the virtual schedule of
`Lib/VirtualScheduling.lean`, with `offer` for a check and `forget` for a
collection, as long as nothing saturates.

* `memoryStorage_rate_bound`: the rate bound for any order of the times.
* `enforcesRate_iff`: the configured rate `max_burst / window` is enforced, as an
  exact rational, if and only if `max_burst` divides the window, because the
  emission interval is rounded down.
-/

namespace TowerRateTier

/-- One step of a run of `MemoryStorage`. -/
inductive MemoryOp where
  | check (r : CheckRequest)
  | retainActive (now : Nanos)

namespace MemoryStorage

/-! ## Runs -/

/-- The store after one step. -/
def step (st : MemoryStorage) : MemoryOp → MemoryStorage
  | .check r => (st.check r).1
  | .retainActive now => st.retainActive now

/-- The store after a run. -/
def run (st : MemoryStorage) (ops : List MemoryOp) : MemoryStorage := ops.foldl step st

/-- The sum of the costs admitted for key `k` in a run. -/
def admittedCost (k : StorageKey) : MemoryStorage → List MemoryOp → ℕ
  | _, [] => 0
  | st, .check r :: ops =>
    (if r.key = k ∧ (st.check r).2.isOk then r.cost.toNat else 0) + (st.check r).1.admittedCost k ops
  | st, .retainActive g :: ops => (st.retainActive g).admittedCost k ops

/-- The time of the first check of key `k` that a run admits. -/
def firstAdmitted (k : StorageKey) : MemoryStorage → List MemoryOp → Option Nanos
  | _, [] => none
  | st, .check r :: ops =>
    if r.key = k ∧ (st.check r).2.isOk then some r.now else (st.check r).1.firstAdmitted k ops
  | st, .retainActive g :: ops => (st.retainActive g).firstAdmitted k ops

/-- How far `retain_active(g)` looks ahead of the next admitted check. -/
def gap (g : Nanos) : Option Nanos → ℕ
  | some n => g.toNat - n.toNat
  | none => 0

/-- The sum of the gaps of the `retain_active` calls of a run. -/
def pruneSlack (k : StorageKey) : MemoryStorage → List MemoryOp → ℕ
  | _, [] => 0
  | st, .check r :: ops => (st.check r).1.pruneSlack k ops
  | st, .retainActive g :: ops =>
    gap g ((st.retainActive g).firstAdmitted k ops) + (st.retainActive g).pruneSlack k ops

/-! ## One entry as a virtual schedule -/

/-- The stored TAT as an integer. -/
def absEntry (entry : Option Nanos) : Option ℤ := entry.map fun t => (t.toNat : ℤ)

@[simp] theorem absEntry_none : absEntry none = none := rfl
@[simp] theorem absEntry_some (t : Nanos) : absEntry (some t) = some (t.toNat : ℤ) := rfl

theorem arrival_absEntry (entry : Option Nanos) (now : Nanos) :
    VirtualScheduling.arrival (absEntry entry) (now.toNat : ℤ) =
      ((currentTat entry now).toNat : ℤ) := by
  rw [toNat_currentTat]
  cases entry <;> simp [VirtualScheduling.arrival]

/-- Without saturation, `check_gcra` admits exactly what fits. -/
theorem admits_iff_fits {entry : Option Nanos} {now bo : Nanos} (ei : Nanos) (cost : UInt32)
    (h : now.toNat + bo.toNat < 2 ^ 64 - 1) :
    Admits entry now ei bo cost ↔
      VirtualScheduling.Fits (bo.toNat : ℤ) (absEntry entry) now.toNat
        (ei.toNat * cost.toNat) := by
  rw [admits_iff_exact h, VirtualScheduling.Fits, arrival_absEntry]
  exact_mod_cast Iff.rfl

/-- A check is an offer of `emission_interval * cost`. -/
theorem absEntry_check {entry : Option Nanos} {q : Quota} {cost : UInt32} {now : Nanos}
    (h : now.toNat + q.burstOffsetNanos.toNat < 2 ^ 64 - 1) :
    absEntry (checkEntry entry q cost now).1 =
      VirtualScheduling.step (q.burstOffsetNanos.toNat : ℤ) (absEntry entry)
        (.offer now.toNat (q.emissionIntervalNanos.toNat * cost.toNat)) := by
  rw [VirtualScheduling.step_offer]
  by_cases ha : Admits entry now q.emissionIntervalNanos q.burstOffsetNanos cost
  · rw [if_pos ((admits_iff_fits _ _ h).mp ha), (checkEntry_ok ha).1, arrival_absEntry,
      absEntry_some, newTat_exact_of_le h ((admits_iff _ _ _ _ _).mp ha)]
    push_cast; rfl
  · rw [if_neg (fun hf => ha ((admits_iff_fits _ _ h).mpr hf)), (checkEntry_error ha).1]

/-- A collection forgets a TAT that is before its time. -/
theorem absEntry_retain (entry : Option Nanos) (burst : ℤ) (g : Nanos) :
    absEntry (entry.filter fun tat => g ≤ tat) =
      VirtualScheduling.step burst (absEntry entry) (.forget g.toNat) := by
  cases entry with
  | none => rfl
  | some t =>
    rw [absEntry_some]
    by_cases hg : g ≤ t
    · have : (g.toNat : ℤ) ≤ t.toNat := by exact_mod_cast UInt64.le_iff_toNat_le.mp hg
      simp [VirtualScheduling.step, Option.filter, hg, this]
    · have : ¬ (g.toNat : ℤ) ≤ t.toNat := by
        rw [UInt64.le_iff_toNat_le] at hg; exact_mod_cast hg
      simp [VirtualScheduling.step, Option.filter, hg, this]

/-- What a step of a run means for the entry of key `k` under quota `q`. -/
def absOp (k : StorageKey) (q : Quota) : MemoryOp → Option (VirtualScheduling.Op ℤ)
  | .check r =>
    if r.key = k then some (.offer r.now.toNat (q.emissionIntervalNanos.toNat * r.cost.toNat))
    else none
  | .retainActive g => some (.forget g.toNat)

theorem absOp_check (k : StorageKey) (q : Quota) (r : CheckRequest) :
    absOp k q (.check r) = if r.key = k then
      some (.offer r.now.toNat (q.emissionIntervalNanos.toNat * r.cost.toNat)) else none := rfl

/-- The checks of key `k` in a run are all made with quota `q`, at times at which
    nothing saturates. -/
def Uniform (k : StorageKey) (q : Quota) (ops : List MemoryOp) : Prop :=
  ∀ r, MemoryOp.check r ∈ ops → r.key = k →
    r.quota = q ∧ r.now.toNat + q.burstOffsetNanos.toNat < 2 ^ 64 - 1

theorem Uniform.tail {k : StorageKey} {q : Quota} {op : MemoryOp} {ops : List MemoryOp}
    (h : Uniform k q (op :: ops)) : Uniform k q ops :=
  fun r hr => h r (List.mem_cons_of_mem _ hr)

/-- A check of key `k` is admitted when the offer fits. -/
theorem check_isOk_iff_fits (st : MemoryStorage) {r : CheckRequest}
    (h : r.now.toNat + r.quota.burstOffsetNanos.toNat < 2 ^ 64 - 1) :
    (st.check r).2.isOk = true ↔
      VirtualScheduling.Fits (r.quota.burstOffsetNanos.toNat : ℤ) (absEntry (st.state r.key))
        r.now.toNat (r.quota.emissionIntervalNanos.toNat * r.cost.toNat) := by
  rw [check_snd, checkEntry_isOk_iff, admits_iff_fits _ _ h]

theorem absOp_self (r : CheckRequest) : absOp r.key r.quota (.check r) =
    some (.offer r.now.toNat (r.quota.emissionIntervalNanos.toNat * r.cost.toNat)) := by
  rw [absOp_check, if_pos rfl]

/-- **Refinement.** The checks and collections of a run act on the entry of key
    `k` as offers and losses on a virtual schedule: the same work is admitted,
    from the same time on, with the same slack. -/
theorem run_refines (k : StorageKey) (q : Quota) (ops : List MemoryOp) :
    ∀ st : MemoryStorage, Uniform k q ops →
      ((q.emissionIntervalNanos.toNat * st.admittedCost k ops : ℕ) : ℤ) =
          VirtualScheduling.admittedWork (q.burstOffsetNanos.toNat : ℤ) (absEntry (st.state k))
            (ops.filterMap (absOp k q)) ∧
        absEntry (st.firstAdmitted k ops) =
          VirtualScheduling.firstAdmitted (q.burstOffsetNanos.toNat : ℤ) (absEntry (st.state k))
            (ops.filterMap (absOp k q)) ∧
        ((st.pruneSlack k ops : ℕ) : ℤ) =
          VirtualScheduling.forgetSlack (q.burstOffsetNanos.toNat : ℤ) (absEntry (st.state k))
            (ops.filterMap (absOp k q)) := by
  induction ops with
  | nil => intro st _; exact ⟨by simp [admittedCost, VirtualScheduling.admittedWork], rfl, rfl⟩
  | cons op ops ih =>
    intro st hu
    cases op with
    | check r =>
      obtain ⟨ih1, ih2, ih3⟩ := ih (st.check r).1 hu.tail
      by_cases hk : r.key = k
      · obtain ⟨hq, hn⟩ := hu r List.mem_cons_self hk
        subst hk hq
        rw [check_state_self, absEntry_check hn] at ih1 ih2 ih3
        have hok := check_isOk_iff_fits st hn
        rw [List.filterMap_cons_some (absOp_self r)]
        refine ⟨?_, ?_, ih3⟩
        · rw [admittedCost, VirtualScheduling.admittedWork, VirtualScheduling.admitted, ← ih1]
          by_cases ha : (st.check r).2.isOk = true
          · rw [if_pos ⟨rfl, ha⟩, if_pos (hok.mp ha)]
            push_cast; ring
          · rw [if_neg (fun h => ha h.2), if_neg (fun h => ha (hok.mpr h))]
            simp
        · rw [firstAdmitted, VirtualScheduling.firstAdmitted]
          by_cases ha : (st.check r).2.isOk = true
          · rw [if_pos ⟨rfl, ha⟩, if_pos (hok.mp ha), absEntry_some]
          · rw [if_neg (fun h => ha h.2), if_neg (fun h => ha (hok.mpr h)), ih2]
      · rw [check_state_ne st r hk] at ih1 ih2 ih3
        rw [List.filterMap_cons_none (by rw [absOp_check, if_neg hk])]
        refine ⟨?_, ?_, ih3⟩
        · rw [admittedCost, if_neg (fun h => hk h.1), zero_add]; exact ih1
        · rw [firstAdmitted, if_neg (fun h => hk h.1)]; exact ih2
    | retainActive g =>
      obtain ⟨ih1, ih2, ih3⟩ := ih (st.retainActive g) hu.tail
      have hs : absEntry ((st.retainActive g).state k) =
          VirtualScheduling.step (q.burstOffsetNanos.toNat : ℤ) (absEntry (st.state k))
            (.forget g.toNat) := absEntry_retain _ _ _
      rw [hs] at ih1 ih2 ih3
      have hop : absOp k q (.retainActive g) = some (.forget g.toNat) := rfl
      rw [List.filterMap_cons_some hop]
      refine ⟨?_, ih2, ?_⟩
      · rw [admittedCost, VirtualScheduling.admittedWork, VirtualScheduling.admitted, zero_add]
        exact ih1
      · rw [pruneSlack, VirtualScheduling.forgetSlack, ← ih2, ← ih3]
        cases (st.retainActive g).firstAdmitted k ops with
        | none => simp [gap, VirtualScheduling.slack]
        | some n => simp only [gap, VirtualScheduling.slack, absEntry_some]; omega

/-! ## The rate bound -/

theorem offer_mem_absOps {k : StorageKey} {q : Quota} {ops : List MemoryOp} {now inc : ℤ}
    (h : VirtualScheduling.Op.offer now inc ∈ ops.filterMap (absOp k q)) :
    ∃ r, MemoryOp.check r ∈ ops ∧ r.key = k ∧ now = r.now.toNat := by
  obtain ⟨op, hop, he⟩ := List.mem_filterMap.mp h
  cases op with
  | check r =>
    rw [absOp_check] at he
    split_ifs at he with hk
    simp only [Option.some.injEq, VirtualScheduling.Op.offer.injEq] at he
    exact ⟨r, hop, hk, he.1.symm⟩
  | retainActive g => simp [absOp] at he

theorem pruneSlack_eq_zero (k : StorageKey) (ops : List MemoryOp) :
    ∀ st : MemoryStorage, (∀ g, MemoryOp.retainActive g ∉ ops) → st.pruneSlack k ops = 0 := by
  induction ops with
  | nil => intro st _; rfl
  | cons op ops ih =>
    intro st h
    cases op with
    | check r => exact ih _ fun g hg => h g (List.mem_cons_of_mem _ hg)
    | retainActive g => exact absurd List.mem_cons_self (h g)

/-- **Rate bound.** From any state, over any piece of a run in which the checks
    of key `k` have times in `[s, t]`, in whatever order, the work admitted for
    `k` is at most the burst plus `t - s`, plus how far each collection looked
    ahead of the next admitted check. Without collections the bound is the
    classic one. That `burst_offset` is `emission_interval * max_burst` without
    saturation is part of `Uniform`: it is below `u64::MAX`. -/
theorem memoryStorage_rate_bound (k : StorageKey) (q : Quota) (st : MemoryStorage)
    (pre piece : List MemoryOp) (s t : ℕ) (hu : Uniform k q piece)
    (ht : ∀ r, MemoryOp.check r ∈ piece → r.key = k → s ≤ r.now.toNat ∧ r.now.toNat ≤ t) :
    q.emissionIntervalNanos.toNat * (st.run pre).admittedCost k piece ≤
        q.burstOffsetNanos.toNat + (t - s) + (st.run pre).pruneSlack k piece ∧
      ((∀ g, MemoryOp.retainActive g ∉ piece) →
        q.emissionIntervalNanos.toNat * (st.run pre).admittedCost k piece ≤
          q.burstOffsetNanos.toNat + (t - s)) := by
  obtain ⟨h1, -, h3⟩ := run_refines k q piece (st.run pre) hu
  have hmain : q.emissionIntervalNanos.toNat * (st.run pre).admittedCost k piece ≤
      q.burstOffsetNanos.toNat + (t - s) + (st.run pre).pruneSlack k piece := by
    have hb : (0 : ℤ) ≤ q.burstOffsetNanos.toNat := Int.natCast_nonneg _
    have hoff : ∀ now inc : ℤ, VirtualScheduling.Op.offer now inc ∈ piece.filterMap (absOp k q) →
        (s : ℤ) ≤ now ∧ now ≤ t := by
      intro now inc h
      obtain ⟨r, hr, hk, rfl⟩ := offer_mem_absOps h
      exact_mod_cast ht r hr hk
    rcases Nat.le_total s t with hst | hst
    · have := VirtualScheduling.admittedWork_le hb (by exact_mod_cast hst)
        (absEntry ((st.run pre).state k)) _ hoff
      rw [← h1, ← h3] at this
      omega
    · -- An empty interval: the piece has no check of `k`, unless it is at `s = t`.
      have := VirtualScheduling.admittedWork_le hb (le_refl (t : ℤ))
        (absEntry ((st.run pre).state k)) _
        (fun now inc h => by have := hoff now inc h; omega)
      rw [← h1, ← h3] at this
      omega
  refine ⟨hmain, fun h => ?_⟩
  rw [pruneSlack_eq_zero k piece _ h] at hmain
  exact hmain

/-- A run whose times go backwards, with a second key and a collection ahead of
    the last check. -/
def outOfOrderRun (u : StorageKey) (q : Quota) : List MemoryOp :=
  [.check ⟨u, q, 1, 12⟩, .check ⟨u, q, 2, 10⟩,
    .check ⟨⟨"v", "pro"⟩, ⟨1, ⟨7, by norm_num⟩, Or.inr ⟨by decide, by decide⟩⟩, 1, 3⟩,
    .retainActive 31, .check ⟨u, q, 4, 12⟩]

/-- Four requests per 20 ns: the collection at 31 deletes the TAT 27 of the first
    two checks, and 7 requests are admitted within 2 ns. -/
theorem memoryStorage_rate_bound_out_of_order :
    let q : Quota := ⟨4, ⟨20, by norm_num⟩, Or.inr ⟨by decide, by decide⟩⟩
    let u : StorageKey := ⟨"u", "free"⟩
    (new.run []).admittedCost u (outOfOrderRun u q) = 7 ∧
      q.emissionIntervalNanos.toNat * (new.run []).admittedCost u (outOfOrderRun u q) ≤
        q.burstOffsetNanos.toNat + (12 - 10) + (new.run []).pruneSlack u (outOfOrderRun u q) := by
  intro q u
  refine ⟨by decide, (memoryStorage_rate_bound u q new [] (outOfOrderRun u q) 10 12 ?_ ?_).1⟩
  · intro r hr hk
    simp only [outOfOrderRun, List.mem_cons, MemoryOp.check.injEq, reduceCtorEq,
      List.not_mem_nil, or_false, false_or] at hr
    rcases hr with rfl | rfl | rfl | rfl
    · exact ⟨rfl, by decide⟩
    · exact ⟨rfl, by decide⟩
    · exact absurd hk (by decide)
    · exact ⟨rfl, by decide⟩
  · intro r hr hk
    simp only [outOfOrderRun, List.mem_cons, MemoryOp.check.injEq, reduceCtorEq,
      List.not_mem_nil, or_false, false_or] at hr
    rcases hr with rfl | rfl | rfl | rfl
    · exact ⟨by decide, by decide⟩
    · exact ⟨by decide, by decide⟩
    · exact absurd hk (by decide)
    · exact ⟨by decide, by decide⟩

/-! ## The configured rate -/

/-- The run consists of checks of key `k` with quota `q`, costs of at most
    `max_burst` and nondecreasing times below `2^62`. -/
structure SingleKeyRun (k : StorageKey) (q : Quota) (rs : List CheckRequest) : Prop where
  key : ∀ r ∈ rs, r.key = k
  quota : ∀ r ∈ rs, r.quota = q
  cost_le : ∀ r ∈ rs, r.cost.toNat ≤ q.maxBurst.toNat
  now_lt : ∀ r ∈ rs, r.now.toNat < 2 ^ 62
  sorted : rs.Pairwise fun a b => a.now ≤ b.now

/-- The rate `max_burst / window` is enforced exactly: any piece of a run whose
    times lie in `[s, t]` admits at most `max_burst * (1 + (t - s) / window)`. -/
def EnforcesRate (q : Quota) : Prop :=
  ∀ (k : StorageKey) (pre piece : List CheckRequest) (s t : ℕ), SingleKeyRun k q (pre ++ piece) →
    (∀ r ∈ piece, s ≤ r.now.toNat ∧ r.now.toNat ≤ t) → s ≤ t →
    ((new.run (pre.map .check)).admittedCost k (piece.map .check) : ℚ) ≤
      q.maxBurst.toNat * (1 + ((t - s : ℕ) : ℚ) / q.window.asNanos)

/-- Below `2^62` nothing of a quota saturates. -/
theorem interval_exact_of_window_lt (q : Quota) (hw : q.window.asNanos < 2 ^ 62) :
    q.emissionIntervalNanos.toNat = q.exactInterval ∧
      q.burstOffsetNanos.toNat = q.exactInterval * q.maxBurst.toNat ∧
      q.exactInterval * q.maxBurst.toNat ≤ q.window.asNanos := by
  have h1 : q.exactInterval * q.maxBurst.toNat ≤ q.window.asNanos := Nat.div_mul_le_self _ _
  have h2 : q.exactInterval ≤ q.window.asNanos := Nat.div_le_self _ _
  have h3 := q.toNat_emissionIntervalNanos
  have h4 := q.toNat_burstOffsetNanos
  rw [min_eq_left (by omega)] at h3
  rw [h3, min_eq_left (by omega)] at h4
  exact ⟨h3, h4, h1⟩

/-- If `max_burst` divides the window, the interval is exact and so is the rate. -/
theorem enforcesRate_of_dvd (q : Quota) (hq : q.isUnlimited = false)
    (hw : q.window.asNanos < 2 ^ 62) (hd : q.maxBurst.toNat ∣ q.window.asNanos) :
    EnforcesRate q := by
  intro k pre piece s t hrun ht hst
  obtain ⟨he, hb, -⟩ := interval_exact_of_window_lt q hw
  have hwin : q.exactInterval * q.maxBurst.toNat = q.window.asNanos := Nat.div_mul_cancel hd
  have hu : Uniform k q (piece.map .check) := by
    intro r hr _
    simp only [List.mem_map, MemoryOp.check.injEq, exists_eq_right] at hr
    have hr' : r ∈ pre ++ piece := List.mem_append_right _ hr
    have := hrun.now_lt r hr'
    exact ⟨hrun.quota r hr', by omega⟩
  have hpiece : ∀ r, MemoryOp.check r ∈ piece.map MemoryOp.check → r.key = k →
      s ≤ r.now.toNat ∧ r.now.toNat ≤ t := by
    intro r hr _
    simp only [List.mem_map, MemoryOp.check.injEq, exists_eq_right] at hr
    exact ht r hr
  have hmain := (memoryStorage_rate_bound k q new (pre.map .check) _ s t hu hpiece).2
    (by intro g hg; simp at hg)
  generalize (new.run (pre.map .check)).admittedCost k (piece.map .check) = total at *
  rw [he, hb, hwin] at hmain
  -- Multiply the bound on the work by `max_burst`, and divide by the window.
  have hm : 0 < q.maxBurst.toNat := q.isUnlimited_eq_false_iff.mp hq
  have hpos : (0 : ℚ) < q.window.asNanos := by
    have := q.maxBurst_le_window hq
    exact_mod_cast lt_of_lt_of_le hm this
  have hscaled : q.window.asNanos * total ≤
      q.maxBurst.toNat * (q.window.asNanos + (t - s)) := by
    calc q.window.asNanos * total = q.maxBurst.toNat * (q.exactInterval * total) := by
          rw [← hwin]; ring
      _ ≤ q.maxBurst.toNat * (q.window.asNanos + (t - s)) := Nat.mul_le_mul_left _ hmain
  have hcast : (q.window.asNanos : ℚ) * total ≤
      q.maxBurst.toNat * (q.window.asNanos + ((t - s : ℕ) : ℚ)) := by exact_mod_cast hscaled
  rw [one_add_div hpos.ne', mul_div_assoc', le_div_iff₀ hpos, mul_comm]
  exact hcast

/-- A full burst at time 0 and one more request after one emission interval. -/
def burstThenOne (k : StorageKey) (q : Quota) : List CheckRequest :=
  [⟨k, q, q.maxBurst, 0⟩, ⟨k, q, 1, q.emissionIntervalNanos⟩]

theorem admittedCost_burstThenOne (k : StorageKey) (q : Quota) (hq : q.isUnlimited = false)
    (hw : q.window.asNanos < 2 ^ 62) :
    new.admittedCost k ((burstThenOne k q).map .check) = q.maxBurst.toNat + 1 := by
  obtain ⟨he, hb, hle⟩ := interval_exact_of_window_lt q hw
  have hm : 0 < q.maxBurst.toNat := q.isUnlimited_eq_false_iff.mp hq
  have hie : q.exactInterval ≤ q.exactInterval * q.maxBurst.toNat := Nat.le_mul_of_pos_right _ hm
  have h1 : Admits none 0 q.emissionIntervalNanos q.burstOffsetNanos q.maxBurst := by
    rw [admits_iff_exact (by simp; omega), toNat_currentTat, he, hb]
    simp
  have ht : (newTat none 0 q.emissionIntervalNanos q.maxBurst).toNat =
      q.exactInterval * q.maxBurst.toNat := by
    rw [newTat_exact_of_le (by simp only [UInt64.toNat_zero]; omega) ((admits_iff _ _ _ _ _).mp h1),
      toNat_currentTat, he]
    simp
  have h2 : Admits (some (newTat none 0 q.emissionIntervalNanos q.maxBurst))
      q.emissionIntervalNanos q.emissionIntervalNanos q.burstOffsetNanos 1 := by
    rw [admits_iff_exact (by omega), toNat_currentTat, Option.getD_some, ht, he, hb]
    simp only [UInt32.toNat_one, mul_one]
    omega
  have hs : (new.check ⟨k, q, q.maxBurst, 0⟩).1.state k =
      some (newTat none 0 q.emissionIntervalNanos q.maxBurst) := by
    rw [check_state_self new ⟨k, q, q.maxBurst, 0⟩]
    exact (checkEntry_ok h1).1
  have hok1 : (new.check ⟨k, q, q.maxBurst, 0⟩).2.isOk = true := by
    rw [check_snd, checkEntry_isOk_iff]; exact h1
  have hok2 : ((new.check ⟨k, q, q.maxBurst, 0⟩).1.check
      ⟨k, q, 1, q.emissionIntervalNanos⟩).2.isOk = true := by
    rw [check_snd, checkEntry_isOk_iff]
    simp only [hs]
    exact h2
  simp only [burstThenOne, List.map_cons, List.map_nil, admittedCost, true_and, hok1, hok2,
    if_true, UInt32.toNat_one, add_zero]

theorem singleKeyRun_burstThenOne (k : StorageKey) (q : Quota) (hq : q.isUnlimited = false)
    (hw : q.window.asNanos < 2 ^ 62) : SingleKeyRun k q (burstThenOne k q) := by
  obtain ⟨he, -, -⟩ := interval_exact_of_window_lt q hw
  have hm : 0 < q.maxBurst.toNat := q.isUnlimited_eq_false_iff.mp hq
  have hi : q.exactInterval ≤ q.window.asNanos := Nat.div_le_self _ _
  have hmem : ∀ r, r ∈ burstThenOne k q →
      r = ⟨k, q, q.maxBurst, 0⟩ ∨ r = ⟨k, q, 1, q.emissionIntervalNanos⟩ := by
    simp [burstThenOne]
  refine ⟨?_, ?_, ?_, ?_, ?_⟩
  · intro r hr
    rcases hmem r hr with rfl | rfl <;> rfl
  · intro r hr
    rcases hmem r hr with rfl | rfl <;> rfl
  · intro r hr
    rcases hmem r hr with rfl | rfl
    · exact le_rfl
    · exact hm
  · intro r hr
    rcases hmem r hr with rfl | rfl
    · show (0 : Nanos).toNat < 2 ^ 62
      decide
    · show q.emissionIntervalNanos.toNat < 2 ^ 62
      omega
  · simp [burstThenOne]

/-- **Configured rate.** For a window below `2^62` ns, `MemoryStorage` enforces the
    configured rate exactly if and only if `max_burst` divides the window. If it
    does not, a full burst and one request an emission interval later already
    exceed it. -/
theorem enforcesRate_iff (count : UInt32) (window : Duration) (q : Quota)
    (hq : Quota.withWindow count window = some q) (hw : window.asNanos < 2 ^ 62) :
    EnforcesRate q ↔ count.toNat ∣ window.asNanos := by
  obtain ⟨rfl, rfl, hlim⟩ := (Quota.withWindow_eq_some_iff _ _ _).mp hq
  refine ⟨fun h => ?_, enforcesRate_of_dvd q hlim hw⟩
  obtain ⟨he, hb, hle⟩ := interval_exact_of_window_lt q hw
  have hm : 0 < q.maxBurst.toNat := q.isUnlimited_eq_false_iff.mp hlim
  have hie : q.exactInterval ≤ q.exactInterval * q.maxBurst.toNat := Nat.le_mul_of_pos_right _ hm
  have hrun : SingleKeyRun ⟨"", ""⟩ q (burstThenOne ⟨"", ""⟩ q) :=
    singleKeyRun_burstThenOne _ q hlim hw
  have hbound := h ⟨"", ""⟩ [] (burstThenOne ⟨"", ""⟩ q) 0 q.exactInterval hrun
    (by intro r hr; simp only [burstThenOne, List.mem_cons, List.not_mem_nil, or_false] at hr
        rcases hr with rfl | rfl <;> simp [he]) (Nat.zero_le _)
  have hzero : new.run ([].map MemoryOp.check) = new := rfl
  rw [hzero, admittedCost_burstThenOne _ q hlim hw] at hbound
  have hpos : (0 : ℚ) < q.window.asNanos := by
    exact_mod_cast lt_of_lt_of_le hm (q.maxBurst_le_window hlim)
  rw [one_add_div hpos.ne', mul_div_assoc', le_div_iff₀ hpos] at hbound
  have hnat : (q.maxBurst.toNat + 1) * q.window.asNanos ≤
      q.maxBurst.toNat * (q.window.asNanos + q.exactInterval) := by exact_mod_cast hbound
  have hge : q.window.asNanos ≤ q.exactInterval * q.maxBurst.toNat := by
    rw [add_mul, mul_add, one_mul, mul_comm q.maxBurst.toNat q.exactInterval] at hnat
    omega
  exact ⟨q.exactInterval, by rw [mul_comm]; omega⟩

/-- Ten requests per second: `10` divides `10 ^ 9`. -/
theorem enforcesRate_ten_per_second :
    EnforcesRate ⟨10, Duration.fromSecs 1, Or.inr ⟨by decide, by decide⟩⟩ :=
  (enforcesRate_iff 10 (Duration.fromSecs 1) _ (by decide) (by decide)).mpr (by decide)

/-- Two requests per 3 ns. -/
def twoPerThreeNanos : Quota := ⟨2, ⟨3, by norm_num⟩, Or.inr ⟨by decide, by decide⟩⟩

/-- The interval is 1 ns, so that 2 requests at time 0 and one at time 1 are
    admitted, more than `2 * (1 + 1/3)`. -/
theorem two_per_three_nanos_too_loose :
    Quota.withWindow 2 ⟨3, by norm_num⟩ = some twoPerThreeNanos ∧
      ¬ EnforcesRate twoPerThreeNanos := by
  refine ⟨by decide, fun h => ?_⟩
  have hrun := singleKeyRun_burstThenOne ⟨"u", "free"⟩ twoPerThreeNanos (by decide) (by decide)
  have hbound := h ⟨"u", "free"⟩ [] (burstThenOne ⟨"u", "free"⟩ twoPerThreeNanos) 0 1 hrun
    (by decide) (by decide)
  have htotal : (new.run (List.map MemoryOp.check [])).admittedCost ⟨"u", "free"⟩
      ((burstThenOne ⟨"u", "free"⟩ twoPerThreeNanos).map .check) = 3 := by decide
  rw [htotal] at hbound
  norm_num [show twoPerThreeNanos.maxBurst.toNat = 2 from rfl,
    show twoPerThreeNanos.window.asNanos = 3 from rfl] at hbound

end MemoryStorage

end TowerRateTier
