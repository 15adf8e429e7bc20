import TowerRateTier.Lib.Saturating

/-!
# Quotas

Model of `src/quota.rs` and of the part of `std::time::Duration` it uses.

A `Quota` is either unlimited or allows `maxBurst ≥ 1` requests per `window`,
and the window has at least one nanosecond per request: the constructors panic
on anything else, so `Quota` carries this as a field and every value is one the
constructors can return.
-/

namespace TowerRateTier

/-- `Nanos`: nanoseconds since an arbitrary epoch (`src/quota.rs` line 4). -/
abbrev Nanos := UInt64

/-! ## Durations -/

/-- `std::time::Duration`, a `u64` number of seconds and a number of nanoseconds
    below one second, as its total number of nanoseconds. -/
@[ext] structure Duration where
  asNanos : ℕ
  isLt : asNanos < 2 ^ 64 * 10 ^ 9
deriving DecidableEq, Repr

namespace Duration

/-- `Duration::ZERO`. -/
def zero : Duration := ⟨0, by norm_num⟩

/-- `Duration::from_nanos`. -/
def fromNanos (n : UInt64) : Duration := ⟨n.toNat, by have := n.toNat_lt; omega⟩

/-- `Duration::from_micros`. -/
def fromMicros (n : UInt64) : Duration := ⟨n.toNat * 1000, by have := n.toNat_lt; omega⟩

/-- `Duration::from_secs`. -/
def fromSecs (n : UInt64) : Duration := ⟨n.toNat * 10 ^ 9, by have := n.toNat_lt; omega⟩

/-- `Duration / u32`: exact division of the nanoseconds, rounded down. -/
def div (d : Duration) (rhs : UInt32) : Duration :=
  ⟨d.asNanos / rhs.toNat, lt_of_le_of_lt (Nat.div_le_self _ _) d.isLt⟩

/-- `Duration::as_secs`. -/
def asSecs (d : Duration) : UInt64 := UInt64.ofNat (d.asNanos / 10 ^ 9)

/-- `Duration::subsec_nanos`. -/
def subsecNanos (d : Duration) : UInt32 := UInt32.ofNat (d.asNanos % 10 ^ 9)

@[simp] theorem fromNanos_asNanos (n : UInt64) : (fromNanos n).asNanos = n.toNat := rfl
@[simp] theorem fromMicros_asNanos (n : UInt64) : (fromMicros n).asNanos = n.toNat * 1000 := rfl

end Duration

/-! ## The quota -/

/-- What the constructors of `Quota` guarantee: unlimited, or at least one
    request and at least one nanosecond per request. -/
def Quota.WellFormed (maxBurst : UInt32) (window : Duration) : Prop :=
  (maxBurst = 0 ∧ window = .zero) ∨ (0 < maxBurst.toNat ∧ maxBurst.toNat ≤ window.asNanos)

namespace Quota.WellFormed

/-! The rates of concrete quotas. -/

theorem two_per_twenty_nanos : WellFormed 2 (.fromNanos 20) := Or.inr ⟨by decide, by decide⟩

theorem two_per_second : WellFormed 2 (.fromSecs 1) := Or.inr ⟨by decide, by decide⟩

theorem ten_per_second : WellFormed 10 (.fromSecs 1) := Or.inr ⟨by decide, by decide⟩

end Quota.WellFormed

/-- Model of `Quota` (`src/quota.rs` lines 21–24). -/
@[ext] structure Quota where
  maxBurst : UInt32
  window : Duration
  wellFormed : Quota.WellFormed maxBurst window

namespace Quota

instance : DecidableEq Quota := fun a b =>
  decidable_of_iff (a.maxBurst = b.maxBurst ∧ a.window = b.window)
    ⟨fun h => Quota.ext h.1 h.2, fun h => by subst h; exact ⟨rfl, rfl⟩⟩

/-- `Quota::with_window` (lines 82–93); `none` where the source panics. -/
def withWindow (count : UInt32) (window : Duration) : Option Quota :=
  if h : 0 < count.toNat ∧ window ≠ .zero ∧ count.toNat ≤ window.asNanos then
    some ⟨count, window, Or.inr ⟨h.1, h.2.2⟩⟩
  else none

/-- `Quota::unlimited` (lines 96–101). -/
def unlimited : Quota := ⟨0, .zero, Or.inl ⟨rfl, rfl⟩⟩

/-- `Quota::is_unlimited` (lines 104–106). -/
def isUnlimited (q : Quota) : Bool := q.maxBurst == 0

/-- `Quota::replenish_interval` (lines 116–121). -/
def replenishInterval (q : Quota) : Duration :=
  if q.isUnlimited then .zero else q.window.div q.maxBurst

/-- `Quota::emission_interval_nanos` (lines 131–138). -/
def emissionIntervalNanos (q : Quota) : Nanos :=
  let nanos := q.replenishInterval.asNanos
  if nanos > 2 ^ 64 - 1 then UInt64.ofNat (2 ^ 64 - 1) else UInt64.ofNat nanos

/-- `Quota::burst_offset_nanos` (lines 143–146). -/
def burstOffsetNanos (q : Quota) : Nanos :=
  q.emissionIntervalNanos.saturatingMul q.maxBurst.toUInt64

/-! ## Limited quotas -/

theorem isUnlimited_eq_false_iff (q : Quota) : q.isUnlimited = false ↔ 0 < q.maxBurst.toNat := by
  rw [isUnlimited, beq_eq_false_iff_ne, ne_eq, ← UInt32.toNat_inj]
  simp [Nat.pos_iff_ne_zero]

/-- A limited quota has at least one nanosecond per request. -/
theorem maxBurst_le_window (q : Quota) (hq : q.isUnlimited = false) :
    q.maxBurst.toNat ≤ q.window.asNanos := by
  rw [isUnlimited_eq_false_iff] at hq
  rcases q.wellFormed with ⟨h, -⟩ | ⟨-, h⟩
  · simp [h] at hq
  · exact h

/-- `Quota::with_window` returns exactly the limited quotas. -/
theorem withWindow_eq_some_iff (count : UInt32) (window : Duration) (q : Quota) :
    withWindow count window = some q ↔
      q.maxBurst = count ∧ q.window = window ∧ q.isUnlimited = false := by
  unfold withWindow
  constructor
  · intro h
    split_ifs at h with hc
    cases h
    exact ⟨rfl, rfl, (isUnlimited_eq_false_iff _).mpr hc.1⟩
  · rintro ⟨rfl, rfl, hq⟩
    have h1 := (isUnlimited_eq_false_iff q).mp hq
    have h2 := q.maxBurst_le_window hq
    have h3 : q.window ≠ .zero := by
      intro h
      rw [h] at h2
      simp only [Duration.zero] at h2
      omega
    rw [dif_pos ⟨h1, h3, h2⟩]

/-- The emission interval before it saturates: `⌊window / max_burst⌋`. -/
def exactInterval (q : Quota) : ℕ := q.window.asNanos / q.maxBurst.toNat

theorem toNat_emissionIntervalNanos (q : Quota) :
    q.emissionIntervalNanos.toNat = min q.exactInterval (2 ^ 64 - 1) := by
  have hz : q.replenishInterval.asNanos = q.exactInterval := by
    unfold replenishInterval exactInterval
    split_ifs with h
    · have : q.maxBurst = 0 := by simpa [isUnlimited] using h
      simp [this, Duration.zero]
    · rfl
  unfold emissionIntervalNanos
  rw [hz]
  dsimp only
  split_ifs with h
  · rw [UInt64.toNat_ofNat_of_lt' (by norm_num)]; omega
  · rw [UInt64.toNat_ofNat_of_lt' (by simp only [UInt64.size]; omega)]; omega

theorem toNat_burstOffsetNanos (q : Quota) :
    q.burstOffsetNanos.toNat =
      min (q.emissionIntervalNanos.toNat * q.maxBurst.toNat) (2 ^ 64 - 1) := by
  simp [burstOffsetNanos]

theorem exactInterval_pos (q : Quota) (hq : q.isUnlimited = false) : 0 < q.exactInterval :=
  Nat.div_pos (q.maxBurst_le_window hq) ((isUnlimited_eq_false_iff q).mp hq)

/-- The emission interval of a limited quota is never zero. -/
theorem emissionIntervalNanos_pos (q : Quota) (hq : q.isUnlimited = false) :
    0 < q.emissionIntervalNanos.toNat := by
  have := q.exactInterval_pos hq
  rw [toNat_emissionIntervalNanos]; omega

/-- A burst offset below `u64::MAX` did not saturate, and neither did the
    emission interval. -/
theorem burstOffset_exact (q : Quota) (hq : q.isUnlimited = false)
    (h : q.burstOffsetNanos.toNat < 2 ^ 64 - 1) :
    q.emissionIntervalNanos.toNat = q.exactInterval ∧
      q.burstOffsetNanos.toNat = q.exactInterval * q.maxBurst.toNat := by
  have hpos := (isUnlimited_eq_false_iff q).mp hq
  rw [toNat_burstOffsetNanos] at h ⊢
  rw [toNat_emissionIntervalNanos] at h ⊢
  have hge : min q.exactInterval (2 ^ 64 - 1) ≤ min q.exactInterval (2 ^ 64 - 1) * q.maxBurst.toNat :=
    Nat.le_mul_of_pos_right _ hpos
  have he : min q.exactInterval (2 ^ 64 - 1) = q.exactInterval := by omega
  rw [he] at h ⊢
  exact ⟨rfl, by omega⟩

/-- Counting intervals within the burst offset never exceeds `max_burst`, so
    the casts to `u32` lose nothing. -/
theorem toNat_div_interval (q : Quota) {n : Nanos}
    (h : n.toNat ≤ q.burstOffsetNanos.toNat) :
    (n / q.emissionIntervalNanos).toUInt32.toNat = n.toNat / q.emissionIntervalNanos.toNat ∧
      n.toNat / q.emissionIntervalNanos.toNat ≤ q.maxBurst.toNat := by
  have hle : n.toNat / q.emissionIntervalNanos.toNat ≤ q.maxBurst.toNat := by
    apply Nat.div_le_of_le_mul
    rw [toNat_burstOffsetNanos] at h
    omega
  have := q.maxBurst.toNat_lt
  rw [UInt64.toNat_toUInt32, UInt64.toNat_div, Nat.mod_eq_of_lt (by omega)]
  exact ⟨rfl, hle⟩

end Quota

end TowerRateTier
