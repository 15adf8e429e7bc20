import Mathlib.Data.Nat.Notation
import Mathlib.Tactic.Linarith
import Mathlib.Tactic.NormNum
import Mathlib.Tactic.Ring

/-!
# Saturating and checked arithmetic on fixed-width unsigned integers

`a.saturatingAdd b`, `a.saturatingSub b` and `a.saturatingMul b` compute the
exact result in `ℕ` and clamp it to the range of the type. The `toNat_…`
lemmas are the only facts the proofs need: they turn a goal about machine words
into one about natural numbers, which `omega` closes.

`a.checkedSub b`, `a.checkedDiv b` and `a.checkedToUInt32` are `none` where the
exact result does not exist, and otherwise the wrapping operation
(`checkedSub_of_le`, `checkedDiv_of_pos`, `checkedToUInt32_of_lt`).
-/

namespace UInt64

theorem toNat_ofNatClamp (n : ℕ) : (UInt64.ofNatClamp n).toNat = min n (2 ^ 64 - 1) := by
  rcases Nat.lt_or_ge n UInt64.size with h | h
  · rw [UInt64.toNat_ofNatClamp_of_lt h]
    simp only [UInt64.size] at h; omega
  · rw [UInt64.toNat_ofNatClamp_of_le h]
    simp only [UInt64.size] at h ⊢; omega

/-- `u64::saturating_add`. -/
def saturatingAdd (a b : UInt64) : UInt64 := UInt64.ofNatClamp (a.toNat + b.toNat)

/-- `u64::saturating_sub`. -/
def saturatingSub (a b : UInt64) : UInt64 := UInt64.ofNatClamp (a.toNat - b.toNat)

/-- `u64::saturating_mul`. -/
def saturatingMul (a b : UInt64) : UInt64 := UInt64.ofNatClamp (a.toNat * b.toNat)

@[simp] theorem toNat_saturatingAdd (a b : UInt64) :
    (a.saturatingAdd b).toNat = min (a.toNat + b.toNat) (2 ^ 64 - 1) := toNat_ofNatClamp _

@[simp] theorem toNat_saturatingSub (a b : UInt64) :
    (a.saturatingSub b).toNat = a.toNat - b.toNat := by
  have := a.toNat_lt
  rw [saturatingSub, toNat_ofNatClamp]
  omega

@[simp] theorem toNat_saturatingMul (a b : UInt64) :
    (a.saturatingMul b).toNat = min (a.toNat * b.toNat) (2 ^ 64 - 1) := toNat_ofNatClamp _

theorem toNat_le (a : UInt64) : a.toNat ≤ 2 ^ 64 - 1 := by
  have := a.toNat_lt; omega

/-- `u64::checked_sub`. -/
def checkedSub (a b : UInt64) : Option UInt64 := if b ≤ a then some (a - b) else none

/-- `u64::checked_div`. -/
def checkedDiv (a b : UInt64) : Option UInt64 := if b = 0 then none else some (a / b)

/-- `u32::try_from`. -/
def checkedToUInt32 (a : UInt64) : Option UInt32 :=
  if a.toNat < 2 ^ 32 then some a.toUInt32 else none

theorem checkedSub_of_le {a b : UInt64} (h : b.toNat ≤ a.toNat) :
    a.checkedSub b = some (a - b) :=
  if_pos (UInt64.le_iff_toNat_le.mpr h)

theorem checkedDiv_of_pos (a : UInt64) {b : UInt64} (h : 0 < b.toNat) :
    a.checkedDiv b = some (a / b) := by
  apply if_neg
  rintro rfl
  exact absurd h (by decide)

theorem checkedToUInt32_of_lt {a : UInt64} (h : a.toNat < 2 ^ 32) :
    a.checkedToUInt32 = some a.toUInt32 :=
  if_pos h

end UInt64

namespace UInt32

theorem toNat_ofNatClamp (n : ℕ) : (UInt32.ofNatClamp n).toNat = min n (2 ^ 32 - 1) := by
  rcases Nat.lt_or_ge n UInt32.size with h | h
  · rw [UInt32.toNat_ofNatClamp_of_lt h]
    simp only [UInt32.size] at h; omega
  · rw [UInt32.toNat_ofNatClamp_of_le h]
    simp only [UInt32.size] at h ⊢; omega

/-- `u32::saturating_add`. -/
def saturatingAdd (a b : UInt32) : UInt32 := UInt32.ofNatClamp (a.toNat + b.toNat)

@[simp] theorem toNat_saturatingAdd (a b : UInt32) :
    (a.saturatingAdd b).toNat = min (a.toNat + b.toNat) (2 ^ 32 - 1) := toNat_ofNatClamp _

end UInt32
