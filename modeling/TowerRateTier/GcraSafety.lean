import TowerRateTier.Saturation

/-!
# Safety of `check_gcra`

`check_gcra` mixes saturating operations with two divisions, three plain
subtractions and two casts to `u32`. `checkedGcra` is the same function with
each of these checked: it is `none` where the source divides by zero, where a
subtraction would wrap around, or where a cast would drop bits.

* `checkedGcra_eq`: on a quota that a constructor returned no check fails.
* `check_gcra_safe`: nor does the answer leave its bounds.
-/

namespace TowerRateTier

/-! ## The checked function -/

/-- `check_gcra` (lines 72–105) with every unchecked operation checked. -/
def checkedGcra (tat : Option Nanos) (now emissionInterval burstOffset : Nanos) (cost : UInt32) :
    Option (Except RateLimited (Nanos × RateLimitInfo)) := do
  let limit ← (← burstOffset.checkedDiv emissionInterval).checkedToUInt32
  let currentTat := currentTat tat now
  let newTat := newTat tat now emissionInterval cost
  let allowAt := newTat.saturatingSub burstOffset
  if allowAt > now then
    let retryAfter ← allowAt.checkedSub now
    let resetAfter ← currentTat.checkedSub now
    return .error
      { limit
        retryAfter := .fromNanos retryAfter
        resetAfter := .fromNanos resetAfter }
  else
    let ahead ← newTat.checkedSub now
    let diff := burstOffset.saturatingSub ahead
    let remaining ← (← diff.checkedDiv emissionInterval).checkedToUInt32
    return .ok (newTat, { limit, remaining, resetAfter := .fromNanos ahead })

section Quota

variable (q : Quota)

/-- Up to the burst offset, intervals are counted without loss. -/
theorem checkedDiv_interval (hq : q.isUnlimited = false) {n : Nanos}
    (h : n.toNat ≤ q.burstOffsetNanos.toNat) :
    n.checkedDiv q.emissionIntervalNanos = some (n / q.emissionIntervalNanos) ∧
      (n / q.emissionIntervalNanos).checkedToUInt32 =
        some (n / q.emissionIntervalNanos).toUInt32 := by
  have hle := (q.toNat_div_interval h).2
  have hburst := q.maxBurst.toNat_lt
  have hlt : (n / q.emissionIntervalNanos).toNat < 2 ^ 32 := by
    rw [UInt64.toNat_div]
    omega
  exact ⟨UInt64.checkedDiv_of_pos n (q.emissionIntervalNanos_pos hq),
    UInt64.checkedToUInt32_of_lt hlt⟩

theorem saturatingSub_le (a b : Nanos) : (a.saturatingSub b).toNat ≤ a.toNat := by
  rw [UInt64.toNat_saturatingSub]
  exact Nat.sub_le _ _

/-- No check fails. -/
theorem checkedGcra_eq (hq : q.isUnlimited = false) (tat : Option Nanos) (now : Nanos)
    (cost : UInt32) :
    checkedGcra tat now q.emissionIntervalNanos q.burstOffsetNanos cost =
      some (checkGcra tat now q.emissionIntervalNanos q.burstOffsetNanos cost) := by
  obtain ⟨hdiv, hcast⟩ := checkedDiv_interval q hq (le_refl q.burstOffsetNanos.toNat)
  have hcurrent := UInt64.checkedSub_of_le (now_le_currentTat tat now)
  have hnew := UInt64.checkedSub_of_le (now_le_newTat tat now q.emissionIntervalNanos cost)
  unfold checkedGcra checkGcra
  simp only [hdiv, hcast, hcurrent, hnew, Option.bind_eq_bind, Option.bind_some]
  split_ifs with hlimited
  · -- the branch itself says that the allow-at time is after `now`
    rw [UInt64.checkedSub_of_le (UInt64.lt_iff_toNat_lt.mp hlimited).le]
    rfl
  · obtain ⟨hdiv', hcast'⟩ := checkedDiv_interval q hq (saturatingSub_le q.burstOffsetNanos
      (newTat tat now q.emissionIntervalNanos cost - now))
    simp only [hdiv', hcast', Option.bind_some]
    rfl

/-! ## The bounds of the answer -/

theorem limit_le_maxBurst : (q.burstOffsetNanos / q.emissionIntervalNanos).toUInt32 ≤ q.maxBurst := by
  obtain ⟨heq, hle⟩ := q.toNat_div_interval (le_refl q.burstOffsetNanos.toNat)
  rw [UInt32.le_iff_toNat_le, heq]
  exact hle

/-- A product that fits into a `u64` is divided exactly. -/
theorem limit_eq_maxBurst (hq : q.isUnlimited = false)
    (h : q.emissionIntervalNanos.toNat * q.maxBurst.toNat < 2 ^ 64) :
    (q.burstOffsetNanos / q.emissionIntervalNanos).toUInt32 = q.maxBurst := by
  have heq := (q.toNat_div_interval (le_refl q.burstOffsetNanos.toNat)).1
  rw [← UInt32.toNat_inj, heq, q.toNat_burstOffsetNanos, min_eq_left (by omega)]
  exact Nat.mul_div_cancel_left _ (q.emissionIntervalNanos_pos hq)

/-- What is left after a request is at most what there is. -/
theorem remaining_le_limit (ahead : Nanos) :
    (q.burstOffsetNanos.saturatingSub ahead / q.emissionIntervalNanos).toUInt32 ≤
      (q.burstOffsetNanos / q.emissionIntervalNanos).toUInt32 := by
  have hsub := saturatingSub_le q.burstOffsetNanos ahead
  rw [UInt32.le_iff_toNat_le, (q.toNat_div_interval hsub).1, (q.toNat_div_interval le_rfl).1]
  exact Nat.div_le_div_right hsub

theorem stored_le_newTat (t now ei : Nanos) (cost : UInt32) :
    t ≤ newTat (some t) now ei cost := by
  have hcurrent : t.toNat ≤ (currentTat (some t) now).toNat := by
    rw [toNat_currentTat]
    exact le_max_left _ _
  rw [UInt64.le_iff_toNat_le]
  exact hcurrent.trans (currentTat_le_newTat (some t) now ei cost)

end Quota

/-- **Safety.** For every quota that `Quota::with_window` returns, every stored TAT,
    every time and every cost: the emission interval is at least one nanosecond; no
    division by zero, no subtraction that wraps around and no lossy cast happens; and
    the limit, the remaining requests and the new TAT are within their bounds. -/
theorem check_gcra_safe {count : UInt32} {window : Duration} {q : Quota}
    (hq : Quota.withWindow count window = some q) (tat : Option Nanos) (now : Nanos)
    (cost : UInt32) :
    1 ≤ q.emissionIntervalNanos ∧
    checkedGcra tat now q.emissionIntervalNanos q.burstOffsetNanos cost =
      some (checkGcra tat now q.emissionIntervalNanos q.burstOffsetNanos cost) ∧
    (∀ newTat info,
      checkGcra tat now q.emissionIntervalNanos q.burstOffsetNanos cost = .ok (newTat, info) →
        info.remaining ≤ info.limit ∧ info.limit ≤ q.maxBurst ∧
        (q.emissionIntervalNanos.toNat * q.maxBurst.toNat < 2 ^ 64 → info.limit = q.maxBurst) ∧
        now ≤ newTat ∧ ∀ t, tat = some t → t ≤ newTat) ∧
    ∀ limited,
      checkGcra tat now q.emissionIntervalNanos q.burstOffsetNanos cost = .error limited →
        limited.limit ≤ q.maxBurst ∧
        (q.emissionIntervalNanos.toNat * q.maxBurst.toNat < 2 ^ 64 →
          limited.limit = q.maxBurst) := by
  obtain ⟨-, -, hlimited⟩ := (Quota.withWindow_eq_some_iff count window q).mp hq
  refine ⟨?_, checkedGcra_eq q hlimited tat now cost, ?_, ?_⟩
  · rw [UInt64.le_iff_toNat_le]
    exact q.emissionIntervalNanos_pos hlimited
  · intro newTat' info hok
    obtain ⟨-, heq⟩ := (checkGcra_ok_iff tat now _ _ cost _).mp hok
    obtain ⟨rfl, rfl⟩ := Prod.mk.inj heq
    refine ⟨remaining_le_limit q _, limit_le_maxBurst q, limit_eq_maxBurst q hlimited, ?_, ?_⟩
    · rw [UInt64.le_iff_toNat_le]
      exact now_le_newTat tat now _ cost
    · rintro t rfl
      exact stored_le_newTat t now _ cost
  · intro limited herr
    obtain ⟨-, rfl⟩ := (checkGcra_error_iff tat now _ _ cost _).mp herr
    exact ⟨limit_le_maxBurst q, limit_eq_maxBurst q hlimited⟩

/-- The quota of one request per 634 years, whose interval and burst offset saturate:
    its second request is checked at the end of time. -/
theorem check_gcra_safe_longWindow :
    Quota.withWindow 1 ⟨20000000000 * 10 ^ 9, by norm_num⟩ = some longWindowQuota ∧
      checkedGcra (some (UInt64.ofNat (2 ^ 64 - 1))) (UInt64.ofNat (2 ^ 64 - 1))
        longWindowQuota.emissionIntervalNanos longWindowQuota.burstOffsetNanos 1 =
      some (checkGcra (some (UInt64.ofNat (2 ^ 64 - 1))) (UInt64.ofNat (2 ^ 64 - 1))
        longWindowQuota.emissionIntervalNanos longWindowQuota.burstOffsetNanos 1) := by
  have hq : Quota.withWindow 1 ⟨20000000000 * 10 ^ 9, by norm_num⟩ = some longWindowQuota := by
    decide
  exact ⟨hq, (check_gcra_safe hq _ _ 1).2.1⟩

end TowerRateTier
