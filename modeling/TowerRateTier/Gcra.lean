import TowerRateTier.Quota

/-!
# The GCRA check

Model of `src/gcra.rs`. `checkGcra` is the whole decision of the limiter: it
compares the theoretical arrival time (TAT) of a bucket with the time of the
request. All `u64` operations are the saturating ones of the source; the three
plain subtractions are `UInt64`'s wrapping ones, as in a release build.

* `checkGcra_ok_iff`, `checkGcra_error_iff`: the decision and every field of
  the answer, in natural numbers.
* `newTat_exact_of_le`: an admitted request with `now + burst_offset < u64::MAX`
  was computed without saturation.
* `checkGcra_congr`: an absent TAT and one that is not after `now` are the same.
-/

namespace TowerRateTier

/-! ## Model -/

/-- Model of `RateLimitInfo` (lines 10–17). -/
@[ext] structure RateLimitInfo where
  limit : UInt32
  remaining : UInt32
  resetAfter : Duration
deriving DecidableEq, Repr

/-- Model of `RateLimited` (lines 23–31). -/
@[ext] structure RateLimited where
  limit : UInt32
  retryAfter : Duration
  resetAfter : Duration
deriving DecidableEq, Repr

/-- `Result<RateLimitInfo, RateLimited>`: the decision about one request. -/
abbrev Decision := Except RateLimited RateLimitInfo

/-- `ceil_secs` (lines 43–46). -/
def ceilSecs (duration : Duration) : UInt64 :=
  let roundUp : UInt64 := if duration.subsecNanos > 0 then 1 else 0
  duration.asSecs.saturatingAdd roundUp

/-- `RateLimited::retry_after_secs` (lines 37–39). -/
def RateLimited.retryAfterSecs (limited : RateLimited) : UInt64 := ceilSecs limited.retryAfter

/-- `current_tat` (line 81): an expired TAT behaves like no TAT at all. -/
def currentTat (tat : Option Nanos) (now : Nanos) : Nanos := max (tat.getD now) now

/-- `new_tat` (lines 82–83). -/
def newTat (tat : Option Nanos) (now emissionInterval : Nanos) (cost : UInt32) : Nanos :=
  let increment := emissionInterval.saturatingMul cost.toUInt64
  (currentTat tat now).saturatingAdd increment

/-- `check_gcra` (lines 72–105). `/` panics in the source when
    `emission_interval` is 0, which no limited quota has
    (`Quota.emissionIntervalNanos_pos`). -/
def checkGcra (tat : Option Nanos) (now emissionInterval burstOffset : Nanos) (cost : UInt32) :
    Except RateLimited (Nanos × RateLimitInfo) :=
  let limit := (burstOffset / emissionInterval).toUInt32
  let currentTat := currentTat tat now
  let newTat := newTat tat now emissionInterval cost
  let allowAt := newTat.saturatingSub burstOffset
  if allowAt > now then
    .error
      { limit
        retryAfter := .fromNanos (allowAt - now)
        resetAfter := .fromNanos (currentTat - now) }
  else
    let diff := burstOffset.saturatingSub (newTat - now)
    let remaining := (diff / emissionInterval).toUInt32
    .ok (newTat, { limit, remaining, resetAfter := .fromNanos (newTat - now) })

/-! ## The decision in natural numbers -/

theorem toNat_currentTat (tat : Option Nanos) (now : Nanos) :
    (currentTat tat now).toNat = max (tat.getD now).toNat now.toNat :=
  UInt64.toNat_max _ _

theorem now_le_currentTat (tat : Option Nanos) (now : Nanos) :
    now.toNat ≤ (currentTat tat now).toNat := by
  rw [toNat_currentTat]; exact le_max_right _ _

theorem toNat_newTat (tat : Option Nanos) (now ei : Nanos) (cost : UInt32) :
    (newTat tat now ei cost).toNat =
      min ((currentTat tat now).toNat + ei.toNat * cost.toNat) (2 ^ 64 - 1) := by
  simp only [newTat, UInt64.toNat_saturatingAdd, UInt64.toNat_saturatingMul,
    UInt32.toNat_toUInt64]
  omega

theorem currentTat_le_newTat (tat : Option Nanos) (now ei : Nanos) (cost : UInt32) :
    (currentTat tat now).toNat ≤ (newTat tat now ei cost).toNat := by
  have := (currentTat tat now).toNat_le
  rw [toNat_newTat]; omega

theorem now_le_newTat (tat : Option Nanos) (now ei : Nanos) (cost : UInt32) :
    now.toNat ≤ (newTat tat now ei cost).toNat :=
  (now_le_currentTat tat now).trans (currentTat_le_newTat tat now ei cost)

/-- The comparison `allow_at > now`, without the saturating subtraction. -/
theorem allowAt_gt_iff (t now bo : Nanos) :
    t.saturatingSub bo > now ↔ now.toNat + bo.toNat < t.toNat := by
  rw [gt_iff_lt, UInt64.lt_iff_toNat_lt, UInt64.toNat_saturatingSub]
  omega

/-- The answer to an admitted request whose new TAT is `newTat`. -/
def allowedInfo (now ei bo newTat : Nanos) : RateLimitInfo where
  limit := (bo / ei).toUInt32
  remaining := (bo.saturatingSub (newTat - now) / ei).toUInt32
  resetAfter := .fromNanos (newTat - now)

/-- The answer to a denied request. -/
def limitedInfo (tat : Option Nanos) (now ei bo : Nanos) (cost : UInt32) : RateLimited where
  limit := (bo / ei).toUInt32
  retryAfter := .fromNanos ((newTat tat now ei cost).saturatingSub bo - now)
  resetAfter := .fromNanos (currentTat tat now - now)

theorem checkGcra_eq (tat : Option Nanos) (now ei bo : Nanos) (cost : UInt32) :
    checkGcra tat now ei bo cost =
      if now.toNat + bo.toNat < (newTat tat now ei cost).toNat then
        .error (limitedInfo tat now ei bo cost)
      else .ok (newTat tat now ei cost, allowedInfo now ei bo (newTat tat now ei cost)) := by
  unfold checkGcra
  simp only [allowAt_gt_iff]
  rfl

theorem checkGcra_ok_iff (tat : Option Nanos) (now ei bo : Nanos) (cost : UInt32)
    (r : Nanos × RateLimitInfo) :
    checkGcra tat now ei bo cost = .ok r ↔
      (newTat tat now ei cost).toNat ≤ now.toNat + bo.toNat ∧
        r = (newTat tat now ei cost, allowedInfo now ei bo (newTat tat now ei cost)) := by
  rw [checkGcra_eq]
  split_ifs with h
  · simp only [false_iff, not_and]
    intro h'; omega
  · simp only [Except.ok.injEq]
    exact ⟨fun e => ⟨by omega, e.symm⟩, fun e => e.2.symm⟩

theorem checkGcra_error_iff (tat : Option Nanos) (now ei bo : Nanos) (cost : UInt32)
    (l : RateLimited) :
    checkGcra tat now ei bo cost = .error l ↔
      now.toNat + bo.toNat < (newTat tat now ei cost).toNat ∧
        l = limitedInfo tat now ei bo cost := by
  rw [checkGcra_eq]
  split_ifs with h
  · simp only [Except.error.injEq]
    exact ⟨fun e => ⟨h, e.symm⟩, fun e => e.2.symm⟩
  · simp only [false_iff, not_and]
    intro h'; omega

/-- `check_gcra` admits the request. -/
def Admits (tat : Option Nanos) (now ei bo : Nanos) (cost : UInt32) : Prop :=
  ∃ r, checkGcra tat now ei bo cost = .ok r

theorem admits_iff (tat : Option Nanos) (now ei bo : Nanos) (cost : UInt32) :
    Admits tat now ei bo cost ↔ (newTat tat now ei cost).toNat ≤ now.toNat + bo.toNat := by
  simp only [Admits, checkGcra_ok_iff]
  exact ⟨fun ⟨_, h, _⟩ => h, fun h => ⟨_, h, rfl⟩⟩

/-- Below `u64::MAX` an admitted request was computed without saturation. -/
theorem newTat_exact_of_le {tat : Option Nanos} {now ei bo : Nanos} {cost : UInt32}
    (hbo : now.toNat + bo.toNat < 2 ^ 64 - 1)
    (h : (newTat tat now ei cost).toNat ≤ now.toNat + bo.toNat) :
    (newTat tat now ei cost).toNat = (currentTat tat now).toNat + ei.toNat * cost.toNat := by
  rw [toNat_newTat] at h ⊢; omega

/-- In that range the decision is the exact inequality. -/
theorem admits_iff_exact {now bo : Nanos} (hbo : now.toNat + bo.toNat < 2 ^ 64 - 1)
    (tat : Option Nanos) (ei : Nanos) (cost : UInt32) :
    Admits tat now ei bo cost ↔
      (currentTat tat now).toNat + ei.toNat * cost.toNat ≤ now.toNat + bo.toNat := by
  rw [admits_iff, toNat_newTat]; omega

/-- `check_gcra` sees the stored TAT only through `current_tat`. -/
theorem checkGcra_congr {tat tat' : Option Nanos} {now : Nanos}
    (h : currentTat tat now = currentTat tat' now) (ei bo : Nanos) (cost : UInt32) :
    checkGcra tat now ei bo cost = checkGcra tat' now ei bo cost := by
  unfold checkGcra newTat
  rw [h]

/-- A TAT that is not after `now` is as good as none. -/
theorem currentTat_of_le {t now : Nanos} (h : t.toNat ≤ now.toNat) :
    currentTat (some t) now = currentTat none now := by
  rw [← UInt64.toNat_inj, toNat_currentTat, toNat_currentTat]
  simp only [Option.getD_some, Option.getD_none]; omega

end TowerRateTier
