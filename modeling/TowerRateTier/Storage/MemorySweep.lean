import Mathlib
import TowerRateTier.Storage.MemoryRate
import TowerRateTier.Lib.Windows

/-!
# Sweeps of `MemoryStorage`

`DashMap` locks one shard at a time. A check holds the lock of the shard of its
key, and `retain_active` visits the shards one after another, so the checks of
other tasks can stand between its visits. `ShardOp` is one step under one lock.

* `retainActive_eq_visits`: without other steps in between, the visits are the
  atomic `retain_active`.
* `shardRun_refines`: the entry of a key is a virtual schedule, also between the
  visits of a sweep.
* `limited_iff_overflows`: which checks are limited.
-/

namespace TowerRateTier

/-- One step on the map under the lock of a shard. -/
inductive ShardOp where
  | check (r : CheckRequest)
  | retain (shard : ℕ) (now : Nanos)

namespace MemoryStorage

variable (shardOf : StorageKey → ℕ)

/-! ## Model -/

/-- What `retain_active` (lines 39–41) does under the lock of one shard. -/
def retainShard (st : MemoryStorage) (shard : ℕ) (now : Nanos) : MemoryStorage :=
  ⟨fun key => if shardOf key = shard then (st.state key).filter fun tat => now ≤ tat
    else st.state key⟩

/-- The store after one step. -/
def shardStep (st : MemoryStorage) : ShardOp → MemoryStorage
  | .check r => (st.check r).1
  | .retain shard now => st.retainShard shardOf shard now

/-- The store after a run. -/
def shardRun (st : MemoryStorage) (ops : List ShardOp) : MemoryStorage :=
  ops.foldl (shardStep shardOf) st

/-- The checks that a run admits. -/
def admittedChecks : MemoryStorage → List ShardOp → List CheckRequest
  | _, [] => []
  | st, .check r :: ops =>
    if (st.check r).2.isOk then r :: admittedChecks (st.check r).1 ops
    else admittedChecks (st.check r).1 ops
  | st, .retain shard now :: ops => admittedChecks (st.retainShard shardOf shard now) ops

/-- The costs of the checks of key `k` together. -/
def costOf (k : StorageKey) (rs : List CheckRequest) : ℕ :=
  ((rs.filter fun r => r.key = k).map fun r => r.cost.toNat).sum

theorem shardRun_concat (st : MemoryStorage) (ops : List ShardOp) (op : ShardOp) :
    st.shardRun shardOf (ops ++ [op]) = (st.shardRun shardOf ops).shardStep shardOf op := by
  rw [shardRun, List.foldl_append]
  rfl

/-- The visits of the shards in their order are `retain_active`. -/
theorem retainActive_eq_visits (st : MemoryStorage) (shards : ℕ) (now : Nanos)
    (h : ∀ k, shardOf k < shards) :
    st.shardRun shardOf ((List.range shards).map fun shard => .retain shard now) =
      st.retainActive now := by
  have hvisited : ∀ n (k : StorageKey),
      (st.shardRun shardOf ((List.range n).map fun shard => .retain shard now)).state k =
        if shardOf k < n then (st.state k).filter fun tat => now ≤ tat else st.state k := by
    intro n k
    induction n with
    | zero => rfl
    | succ n ih =>
      rw [List.range_succ, List.map_append, List.map_singleton, shardRun_concat]
      show (if shardOf k = n then Option.filter _ ((st.shardRun shardOf _).state k)
        else (st.shardRun shardOf _).state k) = _
      rw [ih]
      by_cases hn : shardOf k = n
      · rw [if_pos hn, if_neg (by omega), if_pos (by omega)]
      · rw [if_neg hn]
        by_cases hlt : shardOf k < n
        · rw [if_pos hlt, if_pos (by omega)]
        · rw [if_neg hlt, if_neg (by omega)]
  apply MemoryStorage.ext
  funext k
  rw [hvisited, if_pos (h k)]
  rfl

theorem admittedChecks_append (as bs : List ShardOp) : ∀ st : MemoryStorage,
    st.admittedChecks shardOf (as ++ bs) =
      st.admittedChecks shardOf as ++ (st.shardRun shardOf as).admittedChecks shardOf bs := by
  induction as with
  | nil => intro st; rfl
  | cons op as ih =>
    intro st
    cases op with
    | check r =>
      rw [List.cons_append, admittedChecks, admittedChecks, ih]
      split_ifs <;> rfl
    | retain shard now => exact ih _

/-! ## One entry as a virtual schedule -/

/-- What a step means for the entry of key `k` under quota `q`. -/
def absShardOp (k : StorageKey) (q : Quota) : ShardOp → Option (VirtualScheduling.Op ℤ)
  | .check r =>
    if r.key = k then some (.offer r.now.toNat (q.emissionIntervalNanos.toNat * r.cost.toNat))
    else none
  | .retain shard now => if shardOf k = shard then some (.forget now.toNat) else none

/-- The checks of key `k` are all made with quota `q`, at times at which nothing
    saturates. -/
def ShardUniform (k : StorageKey) (q : Quota) (ops : List ShardOp) : Prop :=
  ∀ r, ShardOp.check r ∈ ops → r.key = k →
    r.quota = q ∧ r.now.toNat + q.burstOffsetNanos.toNat < 2 ^ 64 - 1

variable {shardOf} {k : StorageKey} {q : Quota}

theorem ShardUniform.tail {op : ShardOp} {ops : List ShardOp} (h : ShardUniform k q (op :: ops)) :
    ShardUniform k q ops := fun r hr => h r (List.mem_cons_of_mem _ hr)

theorem absShardOp_self {r : CheckRequest} (hk : r.key = k) :
    absShardOp shardOf k q (.check r) =
      some (.offer r.now.toNat (q.emissionIntervalNanos.toNat * r.cost.toNat)) := if_pos hk

theorem absShardOp_other {r : CheckRequest} (hk : r.key ≠ k) :
    absShardOp shardOf k q (.check r) = none := if_neg hk

theorem absShardOp_visit {shard : ℕ} (h : shardOf k = shard) (now : Nanos) :
    absShardOp shardOf k q (.retain shard now) = some (.forget now.toNat) := if_pos h

theorem absShardOp_elsewhere {shard : ℕ} (h : shardOf k ≠ shard) (now : Nanos) :
    absShardOp shardOf k q (.retain shard now) = none := if_neg h

/-- The offers of an abstract run are the checks of the key. -/
theorem offer_mem_absShardOps (ops : List ShardOp) {now inc : ℤ}
    (h : VirtualScheduling.Op.offer now inc ∈ ops.filterMap (absShardOp shardOf k q)) :
    ∃ r, ShardOp.check r ∈ ops ∧ r.key = k ∧ now = r.now.toNat ∧
      inc = q.emissionIntervalNanos.toNat * r.cost.toNat := by
  obtain ⟨op, hop, he⟩ := List.mem_filterMap.mp h
  cases op with
  | check r =>
    by_cases hk : r.key = k
    · rw [absShardOp_self hk] at he
      obtain ⟨hnow, hinc⟩ := VirtualScheduling.Op.offer.inj (Option.some.inj he)
      exact ⟨r, hop, hk, hnow.symm, hinc.symm⟩
    · rw [absShardOp_other hk] at he
      cases he
  | retain shard now =>
    by_cases hs : shardOf k = shard
    · rw [absShardOp_visit hs] at he
      cases he
    · rw [absShardOp_elsewhere hs] at he
      cases he

/-- One step on the entry of key `k`. -/
theorem absEntry_shardStep (shardOf : StorageKey → ℕ) (st : MemoryStorage) (op : ShardOp)
    (hu : ShardUniform k q [op]) :
    absEntry ((st.shardStep shardOf op).state k) =
      (absShardOp shardOf k q op).elim (absEntry (st.state k))
        (VirtualScheduling.step (q.burstOffsetNanos.toNat : ℤ) (absEntry (st.state k))) := by
  cases op with
  | check r =>
    by_cases hk : r.key = k
    · obtain ⟨rfl, hn⟩ := hu r List.mem_cons_self hk
      subst hk
      rw [absShardOp_self rfl, Option.elim_some, ← absEntry_check hn]
      exact congrArg absEntry (check_state_self st r)
    · rw [absShardOp_other hk, Option.elim_none]
      exact congrArg absEntry (check_state_ne st r hk)
  | retain shard now =>
    by_cases hs : shardOf k = shard
    · rw [absShardOp_visit hs, Option.elim_some, ← absEntry_retain]
      exact congrArg absEntry (if_pos hs)
    · rw [absShardOp_elsewhere hs, Option.elim_none]
      exact congrArg absEntry (if_neg hs)

/-- **Refinement.** The steps of a run act on the entry of key `k` as offers and losses
    on a virtual schedule: they leave the same TAT, and the same offers are admitted. -/
theorem shardRun_refines (k : StorageKey) (q : Quota) (ops : List ShardOp) :
    ∀ st : MemoryStorage, ShardUniform k q ops →
      absEntry ((st.shardRun shardOf ops).state k) =
          VirtualScheduling.run (q.burstOffsetNanos.toNat : ℤ) (absEntry (st.state k))
            (ops.filterMap (absShardOp shardOf k q)) ∧
        VirtualScheduling.admittedOffers (q.burstOffsetNanos.toNat : ℤ) (absEntry (st.state k))
            (ops.filterMap (absShardOp shardOf k q)) =
          ((st.admittedChecks shardOf ops).filter fun r => r.key = k).map fun r =>
            ((r.now.toNat : ℤ), (q.emissionIntervalNanos.toNat * r.cost.toNat : ℤ)) := by
  induction ops with
  | nil => intro st _; exact ⟨rfl, rfl⟩
  | cons op ops ih =>
    intro st hu
    obtain ⟨ih1, ih2⟩ := ih (st.shardStep shardOf op) hu.tail
    have hstep := absEntry_shardStep shardOf st op
      (fun r hr => hu r (by rw [List.mem_singleton.mp hr]; exact List.mem_cons_self))
    rw [hstep] at ih1 ih2
    cases op with
    | check r =>
      by_cases hk : r.key = k
      · rw [List.filterMap_cons_some (absShardOp_self hk)]
        rw [absShardOp_self hk, Option.elim_some] at ih1 ih2
        refine ⟨ih1, ?_⟩
        obtain ⟨rfl, hn⟩ := hu r List.mem_cons_self hk
        subst hk
        have hok := check_isOk_iff_fits st hn
        rw [VirtualScheduling.admittedOffers, admittedChecks]
        by_cases ha : (st.check r).2.isOk = true
        · rw [if_pos (hok.mp ha), if_pos ha, ih2, List.filter_cons_of_pos (by simp), List.map_cons]
          rfl
        · rw [if_neg (fun h => ha (hok.mpr h)), if_neg ha, ih2]
          rfl
      · rw [List.filterMap_cons_none (absShardOp_other hk)]
        rw [absShardOp_other hk, Option.elim_none] at ih1 ih2
        refine ⟨ih1, ih2.trans ?_⟩
        rw [admittedChecks]
        split_ifs
        · rw [List.filter_cons_of_neg (by simpa using hk)]
          rfl
        · rfl
    | retain shard now =>
      by_cases hs : shardOf k = shard
      · rw [List.filterMap_cons_some (absShardOp_visit hs now)]
        rw [absShardOp_visit hs, Option.elim_some] at ih1 ih2
        exact ⟨ih1, ih2⟩
      · rw [List.filterMap_cons_none (absShardOp_elsewhere hs now)]
        rw [absShardOp_elsewhere hs, Option.elim_none] at ih1 ih2
        exact ⟨ih1, ih2⟩

/-! ## Which checks are limited -/

/-- From some admitted check of key `k` on, the run admits so much that a further
    `cost` at `now` would be more than a full burst and what the time since then gives
    back. -/
def Overflows (shardOf : StorageKey → ℕ) (k : StorageKey) (q : Quota) (st : MemoryStorage)
    (ops : List ShardOp) (now : Nanos) (cost : UInt32) : Prop :=
  ∃ pre r post, ops = pre ++ .check r :: post ∧ r.key = k ∧
    ((st.shardRun shardOf pre).check r).2.isOk = true ∧
    now.toNat + q.burstOffsetNanos.toNat < r.now.toNat + q.emissionIntervalNanos.toNat *
      (costOf k ((st.shardRun shardOf pre).admittedChecks shardOf (.check r :: post)) + cost.toNat)

/-- The visits to the shard of key `k` look at most `lag` ahead of its later checks. -/
def CollectsPromptly (shardOf : StorageKey → ℕ) (k : StorageKey) (lag : ℕ) (ops : List ShardOp) :
    Prop :=
  ops.Pairwise fun a b => ∀ now r, a = .retain (shardOf k) now → b = .check r → r.key = k →
    now.toNat ≤ r.now.toNat + lag

theorem CollectsPromptly.prompt {lag : ℕ} {ops : List ShardOp}
    (h : CollectsPromptly shardOf k lag ops) (q : Quota) :
    VirtualScheduling.Prompt (lag : ℤ) (ops.filterMap (absShardOp shardOf k q)) := by
  unfold VirtualScheduling.Prompt
  rw [List.pairwise_filterMap]
  apply h.imp
  intro a b hab x hx y hy before now inc hbefore hoffer
  subst hbefore hoffer
  cases a with
  | check r =>
    by_cases hk : r.key = k
    · rw [absShardOp_self hk] at hx
      cases hx
    · rw [absShardOp_other hk] at hx
      cases hx
  | retain shard g =>
    by_cases hs : shardOf k = shard
    · rw [absShardOp_visit hs] at hx
      obtain rfl := VirtualScheduling.Op.forget.inj (Option.some.inj hx)
      obtain ⟨r, hr, hk, rfl, -⟩ := offer_mem_absShardOps [b]
        (by rw [List.filterMap_cons_some hy]; exact List.mem_cons_self)
      exact_mod_cast hab g r (by rw [hs]) (List.mem_singleton.mp hr).symm hk
    · rw [absShardOp_elsewhere hs] at hx
      cases hx

/-- The work of the offers of some checks is their cost, in emission intervals. -/
theorem sum_offers (ei : Nanos) (rs : List CheckRequest) :
    ((rs.map fun r => ((r.now.toNat : ℤ), (ei.toNat * r.cost.toNat : ℤ))).map Prod.snd).sum =
      (ei.toNat * (rs.map fun r => r.cost.toNat).sum : ℕ) := by
  induction rs with
  | nil => rfl
  | cons r rs ih =>
    rw [List.map_cons, List.map_cons, List.map_cons, List.sum_cons, List.sum_cons, ih]
    push_cast
    ring

/-- The admitted work is the admitted cost. -/
theorem admittedWork_eq_cost (shardOf : StorageKey → ℕ) (k : StorageKey) (q : Quota)
    {ops : List ShardOp} (st : MemoryStorage) (hu : ShardUniform k q ops) :
    VirtualScheduling.admittedWork (q.burstOffsetNanos.toNat : ℤ) (absEntry (st.state k))
        (ops.filterMap (absShardOp shardOf k q)) =
      (q.emissionIntervalNanos.toNat * costOf k (st.admittedChecks shardOf ops) : ℕ) := by
  rw [VirtualScheduling.admittedWork_eq_sum, (shardRun_refines k q ops st hu).2, sum_offers]
  rfl

/-- The windows of the virtual schedule are the parts of the run from an admitted check
    on. -/
theorem window_iff (shardOf : StorageKey → ℕ) (k : StorageKey) (q : Quota) (ops : List ShardOp)
    (s w : ℤ) :
    ∀ st : MemoryStorage, ShardUniform k q ops →
      (VirtualScheduling.Window (q.burstOffsetNanos.toNat : ℤ) (absEntry (st.state k))
          (ops.filterMap (absShardOp shardOf k q)) s w ↔
        ∃ pre r post, ops = pre ++ .check r :: post ∧ r.key = k ∧
          ((st.shardRun shardOf pre).check r).2.isOk = true ∧ s = r.now.toNat ∧
          w = (q.emissionIntervalNanos.toNat * costOf k
            ((st.shardRun shardOf pre).admittedChecks shardOf (.check r :: post)) : ℕ)) := by
  induction ops with
  | nil =>
    intro st _
    constructor
    · intro h
      cases h
    · rintro ⟨pre, r, post, h, -⟩
      simp at h
  | cons op ops ih =>
    intro st hu
    have hih := ih (st.shardStep shardOf op) hu.tail
    rw [absEntry_shardStep shardOf st op
      (fun r hr => hu r (by rw [List.mem_singleton.mp hr]; exact List.mem_cons_self))] at hih
    -- A part that begins later is a part of the rest of the run.
    have hlater : (∃ pre r post, ops = pre ++ .check r :: post ∧ r.key = k ∧
          (((st.shardStep shardOf op).shardRun shardOf pre).check r).2.isOk = true ∧
          s = r.now.toNat ∧ w = (q.emissionIntervalNanos.toNat * costOf k
            (((st.shardStep shardOf op).shardRun shardOf pre).admittedChecks shardOf
              (.check r :: post)) : ℕ)) →
        ∃ pre r post, op :: ops = pre ++ .check r :: post ∧ r.key = k ∧
          ((st.shardRun shardOf pre).check r).2.isOk = true ∧ s = r.now.toNat ∧
          w = (q.emissionIntervalNanos.toNat * costOf k
            ((st.shardRun shardOf pre).admittedChecks shardOf (.check r :: post)) : ℕ) := by
      rintro ⟨pre, r, post, rfl, h⟩
      exact ⟨op :: pre, r, post, rfl, h⟩
    constructor
    · intro h
      cases habs : absShardOp shardOf k q op with
      | none =>
        rw [List.filterMap_cons_none habs] at h
        rw [habs, Option.elim_none] at hih
        exact hlater (hih.mp h)
      | some o =>
        rw [List.filterMap_cons_some habs] at h
        rw [habs, Option.elim_some] at hih
        have hwork := admittedWork_eq_cost shardOf k q st hu
        rw [List.filterMap_cons_some habs] at hwork
        cases h with
        | here hf =>
          obtain ⟨r, hr, hk, rfl, -⟩ := offer_mem_absShardOps [op]
            (by rw [List.filterMap_cons_some habs]; exact List.mem_cons_self)
          obtain rfl := List.mem_singleton.mp hr
          obtain ⟨rfl, hn⟩ := hu r List.mem_cons_self hk
          subst hk
          rw [absShardOp_self rfl] at habs
          obtain ⟨-, rfl⟩ := VirtualScheduling.Op.offer.inj (Option.some.inj habs)
          exact ⟨[], r, ops, rfl, rfl, (check_isOk_iff_fits st hn).mpr hf, rfl, hwork⟩
        | later h => exact hlater (hih.mp h)
    · rintro ⟨pre, r, post, hsplit, hk, hok, hs, hw⟩
      cases pre with
      | nil =>
        rw [List.nil_append, List.cons.injEq] at hsplit
        obtain ⟨rfl, rfl⟩ := hsplit
        obtain ⟨rfl, hn⟩ := hu r List.mem_cons_self hk
        subst hk
        have hwork := admittedWork_eq_cost shardOf r.key r.quota st hu
        rw [List.filterMap_cons_some (absShardOp_self rfl)] at hwork ⊢
        rw [hs, hw, shardRun, List.foldl_nil, ← hwork]
        exact .here ((check_isOk_iff_fits st hn).mp hok)
      | cons p pre =>
        rw [List.cons_append, List.cons.injEq] at hsplit
        obtain ⟨rfl, rfl⟩ := hsplit
        have h := hih.mpr ⟨pre, r, post, rfl, hk, hok, hs, hw⟩
        cases habs : absShardOp shardOf k q op with
        | none =>
          rw [List.filterMap_cons_none habs]
          rw [habs, Option.elim_none] at h
          exact h
        | some o =>
          rw [List.filterMap_cons_some habs]
          rw [habs, Option.elim_some] at h
          exact .later h

/-- **Nothing is limited without need.** In a run from an empty store, with one quota for
    the key, at times in any order at which nothing saturates, a check is limited only if
    its cost is above the burst, or if together with what the run admits from some
    admitted check on it is more than a full burst and what the time since that check
    gives back. If no collection looks ahead of a later check of the key, it is limited if
    and only if this is the case. -/
theorem limited_iff_overflows (shardOf : StorageKey → ℕ) (q : Quota) (ops : List ShardOp)
    (r : CheckRequest) (hu : ShardUniform r.key q (ops ++ [.check r])) :
    let limited := ((new.shardRun shardOf ops).check r).2.isOk = false
    let needed := q.burstOffsetNanos.toNat < q.emissionIntervalNanos.toNat * r.cost.toNat ∨
      Overflows shardOf r.key q new ops r.now r.cost
    (limited → needed) ∧
      (CollectsPromptly shardOf r.key 0 (ops ++ [.check r]) → (limited ↔ needed)) := by
  intro limited needed
  obtain ⟨rfl, hn⟩ := hu r (by simp) rfl
  have huops : ShardUniform r.key r.quota ops := fun r' hr' => hu r' (by simp [hr'])
  have hfits := check_isOk_iff_fits (new.shardRun shardOf ops) hn
  rw [(shardRun_refines r.key r.quota ops new huops).1] at hfits
  have hempty : absEntry (new.state r.key) = none := rfl
  have hwindow := fun s w => window_iff shardOf r.key r.quota ops s w new huops
  rw [hempty] at hfits hwindow
  have hneeded : ¬ needed ↔
      (r.quota.emissionIntervalNanos.toNat * r.cost.toNat : ℤ) ≤ r.quota.burstOffsetNanos.toNat ∧
        ∀ s w, VirtualScheduling.Window (r.quota.burstOffsetNanos.toNat : ℤ) none
          (ops.filterMap (absShardOp shardOf r.key r.quota)) s w →
            s + w + r.quota.emissionIntervalNanos.toNat * r.cost.toNat ≤
              r.now.toNat + r.quota.burstOffsetNanos.toNat := by
    constructor
    · intro h
      obtain ⟨h1, h2⟩ := not_or.mp h
      refine ⟨by exact_mod_cast not_lt.mp h1, fun s w hw => ?_⟩
      obtain ⟨pre, r', post, hsplit, hk, hok, rfl, rfl⟩ := (hwindow s w).mp hw
      by_contra hlt
      apply h2
      refine ⟨pre, r', post, hsplit, hk, hok, ?_⟩
      rw [Nat.mul_add, ← Nat.add_assoc]
      exact_mod_cast not_le.mp hlt
    · rintro ⟨h1, h2⟩
      apply not_or.mpr
      refine ⟨not_lt.mpr (by exact_mod_cast h1), ?_⟩
      rintro ⟨pre, r', post, hsplit, hk, hok, hlt⟩
      have h := h2 _ _ ((hwindow _ _).mpr ⟨pre, r', post, hsplit, hk, hok, rfl, rfl⟩)
      rw [Nat.mul_add] at hlt
      omega
  have hlimited : limited ↔ ¬ ((new.shardRun shardOf ops).check r).2.isOk = true :=
    (Bool.not_eq_true _).symm.to_iff
  constructor
  · intro h
    by_contra hno
    obtain ⟨h1, h2⟩ := hneeded.mp hno
    exact hlimited.mp h (hfits.mpr (VirtualScheduling.fits_of_windows h1 h2))
  · intro hp
    have hprompt := hp.prompt r.quota
    rw [List.filterMap_append, List.filterMap_cons_some (absShardOp_self rfl),
      List.filterMap_nil, Nat.cast_zero] at hprompt
    rw [hlimited, hfits, VirtualScheduling.fits_iff_windows hprompt, ← hneeded, not_not]

/-! ## Intervals of time -/

/-- The costs of the checks of key `k` with times in `[s, t]` together. -/
def costBetween (k : StorageKey) (s t : ℕ) (rs : List CheckRequest) : ℕ :=
  costOf k (rs.filter fun r => s ≤ r.now.toNat ∧ r.now.toNat ≤ t)

/-- The time of a visit to a shard. -/
def visitTime (shard : ℕ) : ShardOp → Option Nanos
  | .check _ => none
  | .retain i now => if i = shard then some now else none

/-- How many of the times are in `(s, t]`. -/
def timesIn (s t : ℕ) (times : List Nanos) : ℕ :=
  times.countP fun g => s < g.toNat ∧ g.toNat ≤ t

theorem lossesBetween_eq (shardOf : StorageKey → ℕ) (k : StorageKey) (q : Quota)
    (ops : List ShardOp) (s t : ℕ) :
    VirtualScheduling.lossesBetween (s : ℤ) t (ops.filterMap (absShardOp shardOf k q)) =
      timesIn s t (ops.filterMap (visitTime (shardOf k))) := by
  have hloss : ∀ op, (absShardOp shardOf k q op).bind VirtualScheduling.Op.loss =
      (visitTime (shardOf k) op).map fun g => (g.toNat : ℤ) := by
    intro op
    cases op with
    | check r =>
      by_cases hk : r.key = k
      · rw [absShardOp_self hk]
        rfl
      · rw [absShardOp_other hk]
        rfl
    | retain shard now =>
      by_cases hs : shardOf k = shard
      · rw [absShardOp_visit hs, visitTime, if_pos hs.symm]
        rfl
      · rw [absShardOp_elsewhere hs, visitTime, if_neg (Ne.symm hs)]
        rfl
  unfold VirtualScheduling.lossesBetween timesIn
  rw [List.filterMap_filterMap]
  simp only [hloss]
  rw [← List.map_filterMap, List.countP_map]
  congr 1
  funext g
  simp only [Function.comp, decide_eq_decide]
  constructor <;> rintro ⟨h1, h2⟩ <;> exact ⟨by exact_mod_cast h1, by exact_mod_cast h2⟩

/-- **Rate bound for an interval.** What a run admits for key `k` at times in `[s, t]`, in
    any order, is at most the burst and `t - s`, and `lag` more for each visit of a
    sweep of that interval. -/
theorem costBetween_le {lag s t : ℕ} {ops : List ShardOp} (st : MemoryStorage)
    (hu : ShardUniform k q ops) (hp : CollectsPromptly shardOf k lag ops) (hst : s ≤ t) :
    q.emissionIntervalNanos.toNat * costBetween k s t (st.admittedChecks shardOf ops) ≤
      q.burstOffsetNanos.toNat + (t - s) +
        lag * timesIn s (t + lag) (ops.filterMap (visitTime (shardOf k))) := by
  have hle := VirtualScheduling.admittedBetween_le (Int.natCast_nonneg q.burstOffsetNanos.toNat)
    (Int.natCast_nonneg lag) (Int.ofNat_le.mpr hst) (absEntry (st.state k)) _ (hp.prompt q) (by
      intro now inc h
      obtain ⟨r, -, -, -, rfl⟩ := offer_mem_absShardOps _ h
      positivity)
  have hcost : VirtualScheduling.admittedBetween (q.burstOffsetNanos.toNat : ℤ) s t
      (absEntry (st.state k)) (ops.filterMap (absShardOp shardOf k q)) =
        (q.emissionIntervalNanos.toNat *
          costBetween k s t (st.admittedChecks shardOf ops) : ℕ) := by
    unfold VirtualScheduling.admittedBetween costBetween costOf
    rw [(shardRun_refines k q ops st hu).2, List.filter_map, List.filter_filter,
      List.filter_filter, sum_offers]
    congr 4
    apply List.filter_congr
    intro r _
    simp [Bool.and_comm]
  rw [hcost, ← Nat.cast_add, lossesBetween_eq] at hle
  have : ((t - s : ℕ) : ℤ) = (t : ℤ) - s := by omega
  rw [← this] at hle
  exact_mod_cast hle

/-- A check of user `u` with two requests per 20 ns. -/
def pairCheck (cost : UInt32) (now : Nanos) : CheckRequest :=
  ⟨⟨"u", "free"⟩, ⟨2, .fromNanos 20, .two_per_twenty_nanos⟩, cost, now⟩

/-- Two checks whose times go backwards, and a visit of a sweep between them. -/
def sweptRun : List ShardOp :=
  [.check (pairCheck 1 12), .retain 0 9, .check (pairCheck 1 10)]

/-- The check at 12 is admitted. One more request would be 20 ns of work from 12 on, which
    ends more than a burst after 11. -/
theorem limited_iff_overflows_swept :
    ((new.shardRun (fun _ => 0) sweptRun).check (pairCheck 1 11)).2.isOk = false ∧
      Overflows (fun _ => 0) ⟨"u", "free"⟩ (pairCheck 1 11).quota new sweptRun 11 1 := by
  have huniform : ShardUniform (pairCheck 1 11).key (pairCheck 1 11).quota
      (sweptRun ++ [.check (pairCheck 1 11)]) := by
    intro r hr _
    simp only [sweptRun, List.cons_append, List.nil_append, List.mem_cons, ShardOp.check.injEq,
      reduceCtorEq, List.not_mem_nil, or_false, false_or] at hr
    rcases hr with rfl | rfl | rfl <;> exact ⟨rfl, by decide⟩
  have hprompt : CollectsPromptly (fun _ => 0) (pairCheck 1 11).key 0
      (sweptRun ++ [.check (pairCheck 1 11)]) := by
    simp only [CollectsPromptly, sweptRun, List.cons_append, List.nil_append, List.pairwise_cons]
    simp only [List.mem_cons, List.not_mem_nil, or_false, forall_eq_or_imp, forall_eq]
    simp [pairCheck]
  have hlimited : ((new.shardRun (fun _ => 0) sweptRun).check (pairCheck 1 11)).2.isOk = false := by
    decide
  refine ⟨hlimited, ?_⟩
  exact (((limited_iff_overflows (fun _ => 0) (pairCheck 1 11).quota sweptRun (pairCheck 1 11)
    huniform).2 hprompt).mp hlimited).resolve_left (by decide)

end MemoryStorage

end TowerRateTier
