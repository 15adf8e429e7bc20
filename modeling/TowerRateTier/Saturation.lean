import Mathlib
import TowerRateTier.Gcra

/-!
# Saturation in `check_gcra`

The saturating operations of `src/gcra.rs` and `src/quota.rs` against exact
arithmetic: a request should only be admitted if
`max(tat, now) + e * cost ≤ now + e * max_burst` holds in `ℕ`, with
`e = ⌊window / max_burst⌋`.

* `exactlyBounded_iff`: for a quota and a time this holds of every TAT and cost
  if and only if `now + burst_offset` is below `u64::MAX` (or in one corner in
  which no cost exceeds the maximum burst). Otherwise the saturated sum can never
  exceed `now + burst_offset` and every request is admitted.
* `long_window_unlimited`: a window of more than 584 years.
-/

namespace TowerRateTier

instance (tat : Option Nanos) (now ei bo : Nanos) (cost : UInt32) :
    Decidable (Admits tat now ei bo cost) := decidable_of_iff _ (admits_iff tat now ei bo cost).symm

/-- If the request is admitted, then it is so in exact arithmetic. -/
def ExactlyBounded (q : Quota) (tat : Option Nanos) (now : Nanos) (cost : UInt32) : Prop :=
  Admits tat now q.emissionIntervalNanos q.burstOffsetNanos cost →
    max (tat.getD now).toNat now.toNat + q.exactInterval * cost.toNat ≤
      now.toNat + q.exactInterval * q.maxBurst.toNat

/-- Once `now + burst_offset` reaches `u64::MAX`, every request is admitted. -/
theorem admits_of_saturated {now bo : Nanos} (h : 2 ^ 64 - 1 ≤ now.toNat + bo.toNat)
    (tat : Option Nanos) (ei : Nanos) (cost : UInt32) : Admits tat now ei bo cost := by
  have := (newTat tat now ei cost).toNat_le
  rw [admits_iff]; omega

/-- Below that, saturation never helps a request. -/
theorem exactlyBounded_of_lt (q : Quota) (hq : q.isUnlimited = false) {now : Nanos}
    (h : now.toNat + q.burstOffsetNanos.toNat < 2 ^ 64 - 1) (tat : Option Nanos) (cost : UInt32) :
    ExactlyBounded q tat now cost := by
  intro ha
  obtain ⟨he, hb⟩ := q.burstOffset_exact hq (by omega)
  rw [admits_iff_exact h, toNat_currentTat, he, hb] at ha
  exact ha

/-- **Saturation.** For a limited quota and a time `now`, what `check_gcra`
    admits is bounded by exact arithmetic for every stored TAT and every cost if
    and only if `now + burst_offset < u64::MAX`, or `now = u64::MAX` and no cost
    exceeds the maximum burst. When `now + burst_offset` reaches `u64::MAX` every
    request is admitted. -/
theorem exactlyBounded_iff (q : Quota) (hq : q.isUnlimited = false) (now : Nanos) :
    ((∀ tat cost, ExactlyBounded q tat now cost) ↔
      now.toNat + q.burstOffsetNanos.toNat < 2 ^ 64 - 1 ∨
        (now.toNat = 2 ^ 64 - 1 ∧ q.maxBurst.toNat = 2 ^ 32 - 1)) ∧
    (¬ now.toNat + q.burstOffsetNanos.toNat < 2 ^ 64 - 1 →
      ∀ tat cost, Admits tat now q.emissionIntervalNanos q.burstOffsetNanos cost) := by
  have hepos := q.exactInterval_pos hq
  refine ⟨⟨fun h => ?_, ?_⟩, fun h tat cost => admits_of_saturated (by omega) tat _ cost⟩
  · by_contra hc
    obtain ⟨h1, h2⟩ := not_or.mp hc
    have hall := fun tat cost => h tat cost (admits_of_saturated (by omega) tat _ cost)
    have hmax : (UInt32.ofNatClamp (2 ^ 32 - 1)).toNat = 2 ^ 32 - 1 := by decide
    have hMAX : (UInt64.ofNatClamp (2 ^ 64 - 1)).toNat = 2 ^ 64 - 1 := by decide
    by_cases hm : q.maxBurst.toNat = 2 ^ 32 - 1
    · -- A TAT at the end of time, and the largest cost.
      have h3 := hall (some (UInt64.ofNatClamp (2 ^ 64 - 1))) (UInt32.ofNatClamp (2 ^ 32 - 1))
      rw [Option.getD_some, hmax, hMAX, hm] at h3
      have := now.toNat_le
      omega
    · -- A cost above the maximum burst.
      have h3 := hall none (UInt32.ofNatClamp (2 ^ 32 - 1))
      rw [Option.getD_none, hmax, max_self] at h3
      have := q.maxBurst.toNat_lt
      have hlt : q.exactInterval * q.maxBurst.toNat < q.exactInterval * (2 ^ 32 - 1) :=
        Nat.mul_lt_mul_of_pos_left (by omega) hepos
      omega
  · rintro (h | ⟨h1, h2⟩) tat cost
    · exact exactlyBounded_of_lt q hq h tat cost
    · intro _
      have h3 := (tat.getD now).toNat_le
      have h4 : q.exactInterval * cost.toNat ≤ q.exactInterval * q.maxBurst.toNat :=
        Nat.mul_le_mul_left _ (by have := cost.toNat_lt; omega)
      omega

/-- One request per 20 000 000 000 seconds, about 634 years: the interval and the
    burst offset saturate at `u64::MAX`. -/
def longWindowQuota : Quota :=
  ⟨1, ⟨20000000000 * 10 ^ 9, by norm_num⟩, Or.inr ⟨by decide, by decide⟩⟩

/-- The first request of such a quota leaves the TAT `u64::MAX`, and is admitted
    again at once; so is a request of cost 2. -/
theorem long_window_unlimited :
    Quota.withWindow 1 ⟨20000000000 * 10 ^ 9, by norm_num⟩ = some longWindowQuota ∧
      newTat none 0 longWindowQuota.emissionIntervalNanos 1 = UInt64.ofNat (2 ^ 64 - 1) ∧
      ¬ ExactlyBounded longWindowQuota (some (UInt64.ofNat (2 ^ 64 - 1))) 0 1 ∧
      ¬ ExactlyBounded longWindowQuota none 0 2 := by
  unfold ExactlyBounded
  decide

/-- Ten requests per second. -/
def tenPerSecond : Quota := ⟨10, .fromSecs 1, .ten_per_second⟩

/-- The condition holds of ten requests per second at time 0. -/
theorem exactlyBounded_per_second :
    tenPerSecond.burstOffsetNanos.toNat = 10 ^ 9 ∧
      ∀ tat cost, ExactlyBounded tenPerSecond tat 0 cost :=
  ⟨by decide, (exactlyBounded_iff tenPerSecond (by decide) 0).1.mpr (Or.inl (by decide))⟩

end TowerRateTier
