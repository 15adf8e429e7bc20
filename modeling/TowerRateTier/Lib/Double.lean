import Mathlib.Data.Int.Log
import Mathlib.Data.Nat.Cast.Field
import Mathlib.Data.Rat.Floor
import Mathlib.Algebra.Order.Floor.Ring
import Mathlib.Tactic.Linarith
import Mathlib.Tactic.Ring
import Mathlib.Tactic.Positivity

/-!
# Rounding to IEEE 754 binary64

A finite double is a rational, and an operation on doubles is the exact
operation followed by `Double.round`, to the nearest double with ties to even.
Gradual underflow is part of `round`; overflow is not, since a user of this
module either bounds its operands or checks the result against `2¹⁰²⁴`.

* `round_intCast`: integers up to `2⁵³` are exact.
* `abs_round_sub_le`: the relative error of a normal result is at most `2⁻⁵³`.
* `floor_round_div`, `ceil_round_div`: a quotient of naturals with a numerator
  below `2⁵³` rounds down and up to the exact integer, although the quotient
  itself is inexact.
* `integerRounding_round`: an integer beyond `2⁵³` rounds to an integer that is
  not below `2⁵³`.
-/

namespace Double

/-! ## Definitions -/

/-- The nearest integer, ties to even. -/
def roundHalfEven (y : ℚ) : ℤ :=
  if y - ⌊y⌋ < 1 / 2 then ⌊y⌋
  else if 1 / 2 < y - ⌊y⌋ then ⌊y⌋ + 1
  else if ⌊y⌋ % 2 = 0 then ⌊y⌋ else ⌊y⌋ + 1

/-- The exponent of the last place of the double nearest to `x`: 53 significant
    bits, and never below the subnormal `2⁻¹⁰⁷⁴`. -/
def exponent (x : ℚ) : ℤ := max (Int.log 2 |x| - 52) (-1074)

/-- The double nearest to `x`. -/
def round (x : ℚ) : ℚ := roundHalfEven (x / 2 ^ exponent x) * 2 ^ exponent x

/-! ## Rounding to an integer -/

@[simp] theorem roundHalfEven_intCast (k : ℤ) : roundHalfEven k = k := by
  simp [roundHalfEven]

theorem abs_roundHalfEven_sub_le (y : ℚ) : |(roundHalfEven y : ℚ) - y| ≤ 1 / 2 := by
  have h0 := Int.floor_le y
  have h1 := Int.lt_floor_add_one y
  unfold roundHalfEven
  rw [abs_le]
  split_ifs <;> push_cast <;> constructor <;> linarith

/-- An integer that is not negative is a natural number. -/
theorem exists_natCast {x : ℚ} (hint : x = ⌊x⌋) (hnonneg : 0 ≤ x) : ∃ n : ℕ, x = n := by
  obtain ⟨n, hn⟩ := Int.eq_ofNat_of_zero_le (Int.floor_nonneg.mpr hnonneg)
  exact ⟨n, by rw [hint, hn, Int.cast_natCast]⟩

/-! ## Exactness and error -/

theorem zpow_ulp_pos (e : ℤ) : (0 : ℚ) < 2 ^ e := zpow_pos (by norm_num) e

/-- A multiple of its last place is a double. -/
theorem round_of_eq_mul {x : ℚ} {k : ℤ} (h : x = k * 2 ^ exponent x) : round x = x := by
  have hk : x / 2 ^ exponent x = k := by
    rw [div_eq_iff (zpow_ulp_pos _).ne']; exact h
  rw [round, hk, roundHalfEven_intCast, ← h]

theorem abs_round_sub_le_half_ulp (x : ℚ) : |round x - x| ≤ 2 ^ exponent x / 2 := by
  have he := zpow_ulp_pos (exponent x)
  have hx : x = x / 2 ^ exponent x * 2 ^ exponent x := (div_mul_cancel₀ x he.ne').symm
  have hr : round x - x =
      (roundHalfEven (x / 2 ^ exponent x) - x / 2 ^ exponent x) * 2 ^ exponent x := by
    rw [sub_mul, ← hx]; rfl
  rw [hr, abs_mul, abs_of_pos he]
  have := mul_le_mul_of_nonneg_right (abs_roundHalfEven_sub_le (x / 2 ^ exponent x)) he.le
  linarith

/-- The relative error of a result that does not underflow. -/
theorem abs_round_sub_le {x : ℚ} (hx : 2 ^ (-1022 : ℤ) ≤ |x|) :
    |round x - x| ≤ |x| / 2 ^ 53 := by
  have hpos : 0 < |x| := lt_of_lt_of_le (zpow_ulp_pos _) hx
  have hlog : -1022 ≤ Int.log 2 |x| :=
    (Int.zpow_le_iff_le_log one_lt_two hpos).mp (by exact_mod_cast hx)
  have he : exponent x = Int.log 2 |x| - 52 := by
    unfold exponent; omega
  have hle : (2 : ℚ) ^ Int.log 2 |x| ≤ |x| := by
    exact_mod_cast Int.zpow_log_le_self one_lt_two hpos
  have hulp : (2 : ℚ) ^ exponent x = 2 ^ Int.log 2 |x| / 2 ^ 52 := by
    rw [he, zpow_sub₀ (by norm_num)]; norm_num
  have := abs_round_sub_le_half_ulp x
  rw [hulp] at this
  linarith

theorem exponent_le_zero_of_abs_lt {x : ℚ} (h : |x| < 2 ^ 53) : exponent x ≤ 0 := by
  unfold exponent
  rcases (abs_nonneg x).eq_or_lt with h0 | h0
  · simp [← h0]
  · have : Int.log 2 |x| < 53 := (Int.lt_zpow_iff_log_lt one_lt_two h0).mp (by exact_mod_cast h)
    omega

theorem exponent_of_abs_eq {x : ℚ} (h : |x| = 2 ^ 53) : exponent x = 1 := by
  have : Int.log 2 |x| = 53 := by
    rw [h]; exact_mod_cast Int.log_zpow (R := ℚ) one_lt_two 53
  unfold exponent; omega

/-- Integers up to `2⁵³` are doubles. -/
theorem round_intCast {k : ℤ} (hk : |k| ≤ 2 ^ 53) : round k = k := by
  have hq : |(k : ℚ)| ≤ 2 ^ 53 := by exact_mod_cast hk
  rcases hq.lt_or_eq with h | h
  · have he := exponent_le_zero_of_abs_lt h
    obtain ⟨n, hn⟩ := Int.eq_ofNat_of_zero_le (show 0 ≤ -exponent (k : ℚ) by omega)
    apply round_of_eq_mul (k := k * 2 ^ n)
    have hz : exponent (k : ℚ) = -(n : ℤ) := by omega
    rw [hz, zpow_neg, zpow_natCast]
    push_cast
    rw [mul_assoc, mul_inv_cancel₀ (by positivity), mul_one]
  · have he := exponent_of_abs_eq h
    -- `2⁵³` has 54 bits, but it is even
    have hk2 : k = 2 ^ 53 ∨ k = -2 ^ 53 := by
      have hz : |k| = 2 ^ 53 := by exact_mod_cast h
      rcases abs_choice k with h' | h' <;> rw [h'] at hz <;> omega
    obtain ⟨m, hm⟩ : ∃ m : ℤ, k = m * 2 := ⟨k / 2, by omega⟩
    apply round_of_eq_mul (k := m)
    rw [he, hm]; push_cast; ring

theorem round_natCast {n : ℕ} (hn : n ≤ 2 ^ 53) : round n = n := by
  have := round_intCast (k := n) (by rw [abs_of_nonneg (by positivity)]; exact_mod_cast hn)
  exact_mod_cast this

/-- An integer is never rounded to a fraction. -/
theorem exists_round_intCast (k : ℤ) : ∃ m : ℤ, round k = m := by
  rcases le_or_gt |k| (2 ^ 53) with h | h
  · exact ⟨k, round_intCast h⟩
  · have hlarge : (2 : ℚ) ^ 53 < |(k : ℚ)| := by exact_mod_cast h
    have hpos : 0 < |(k : ℚ)| := lt_trans (by norm_num) hlarge
    have hlog : 53 ≤ Int.log 2 |(k : ℚ)| :=
      (Int.zpow_le_iff_le_log one_lt_two hpos).mp (by exact_mod_cast hlarge.le)
    obtain ⟨e, he⟩ := Int.eq_ofNat_of_zero_le (show 0 ≤ exponent (k : ℚ) by unfold exponent; omega)
    refine ⟨roundHalfEven (k / 2 ^ exponent (k : ℚ)) * 2 ^ e, ?_⟩
    rw [round, he, zpow_natCast]
    push_cast
    rfl

/-- The relative error of an integer. -/
theorem abs_round_intCast_sub_le (k : ℤ) : |round k - k| ≤ |(k : ℚ)| / 2 ^ 53 := by
  rcases eq_or_ne k 0 with rfl | hk
  · have hzero := round_intCast (k := 0) (by norm_num)
    rw [hzero]
    norm_num
  · have hone : (1 : ℚ) ≤ |(k : ℚ)| := by exact_mod_cast Int.one_le_abs hk
    have hnormal : (2 : ℚ) ^ (-1022 : ℤ) ≤ 1 := zpow_le_one_of_nonpos₀ (by norm_num) (by norm_num)
    exact abs_round_sub_le (hnormal.trans hone)

/-- A large integer does not round to a small one. -/
theorem le_round_natCast {n : ℕ} (hn : 2 ^ 53 ≤ n) : (2 : ℚ) ^ 53 ≤ round n := by
  rcases hn.eq_or_lt with rfl | hlt
  · exact_mod_cast (round_natCast (le_refl (2 ^ 53))).ge
  · obtain ⟨m, hm⟩ := exists_round_intCast n
    have herr := abs_round_intCast_sub_le n
    rw [hm, Int.cast_natCast, abs_of_nonneg (show (0 : ℚ) ≤ n by positivity)] at herr
    rw [Int.cast_natCast] at hm
    have hn' : (2 : ℚ) ^ 53 + 1 ≤ n := by exact_mod_cast hlt
    have hm' : (2 : ℚ) ^ 53 - 1 < m := by linarith [(abs_le.mp herr).1]
    have hint : 2 ^ 53 - 1 < m := by exact_mod_cast hm'
    rw [hm]
    exact_mod_cast Int.sub_one_lt_iff.mp hint

/-- A negative integer stays negative. -/
theorem round_intCast_neg {k : ℤ} (hk : k < 0) : round k < 0 := by
  have hneg : (k : ℚ) < 0 := by exact_mod_cast hk
  have herr := abs_round_intCast_sub_le k
  rw [abs_of_neg hneg] at herr
  linarith [(abs_le.mp herr).2]

/-! ## Quotients -/

/-- The distance of an inexact quotient from its double is less than the
    distance from the quotient to the next integer. -/
theorem abs_round_div_sub_lt {n d : ℕ} (hn : n < 2 ^ 53) (hn0 : 0 < n) (hd : 0 < d)
    (hd' : d ≤ 2 ^ 53) : |round (n / d) - n / d| < 1 / d := by
  have hdq : (0 : ℚ) < d := by exact_mod_cast hd
  have hpos : (0 : ℚ) < n / d := div_pos (by exact_mod_cast hn0) hdq
  have hnormal : (2 : ℚ) ^ (-1022 : ℤ) ≤ |(n : ℚ) / d| := by
    rw [abs_of_pos hpos]
    calc (2 : ℚ) ^ (-1022 : ℤ) ≤ 2 ^ (-53 : ℤ) := zpow_le_zpow_right₀ (by norm_num) (by norm_num)
      _ = 1 / 2 ^ 53 := by norm_num
      _ ≤ 1 / d := one_div_le_one_div_of_le hdq (by exact_mod_cast hd')
      _ ≤ n / d := by
        apply div_le_div_of_nonneg_right _ hdq.le
        exact_mod_cast hn0
  have herr := abs_round_sub_le hnormal
  rw [abs_of_pos hpos] at herr
  have hn53 : (n : ℚ) / 2 ^ 53 < 1 := by
    rw [div_lt_one (by positivity)]; exact_mod_cast hn
  calc |round (n / d) - n / d| ≤ n / d / 2 ^ 53 := herr
    _ = n / 2 ^ 53 * (1 / d) := by ring
    _ < 1 * (1 / d) := mul_lt_mul_of_pos_right hn53 (by positivity)
    _ = 1 / d := one_mul _

theorem round_div_of_dvd {n d : ℕ} (hn : n < 2 ^ 53) (hd : 0 < d) (h : d ∣ n) :
    round ((n : ℚ) / d) = (n / d : ℕ) := by
  rw [← Nat.cast_div h (by exact_mod_cast hd.ne')]
  exact round_natCast ((Nat.div_le_self n d).trans hn.le)

theorem div_eq_add_mod_div (n : ℕ) {d : ℕ} (hd : 0 < d) :
    (n : ℚ) / d = (n / d : ℕ) + (n % d : ℕ) / d := by
  have hdq : (d : ℚ) ≠ 0 := by exact_mod_cast hd.ne'
  have hn : (n : ℚ) = (n / d : ℕ) * d + (n % d : ℕ) := by
    exact_mod_cast (Nat.div_add_mod' n d).symm
  rw [div_eq_iff hdq, add_mul, div_mul_cancel₀ _ hdq]
  exact hn

/-- A quotient, rounded up. -/
theorem ceil_natCast_div (n : ℕ) {d : ℕ} (hd : 0 < d) :
    ⌈(n : ℚ) / d⌉ = (n / d + if d ∣ n then 0 else 1 : ℕ) := by
  have hdq : (0 : ℚ) < d := by exact_mod_cast hd
  by_cases h : d ∣ n
  · rw [← Nat.cast_div h hdq.ne', Int.ceil_natCast, if_pos h, Nat.add_zero]
  · have hmod : 0 < n % d := Nat.pos_of_ne_zero fun h0 => h (Nat.dvd_of_mod_eq_zero h0)
    have hpos : (0 : ℚ) < (n % d : ℕ) / d := div_pos (by exact_mod_cast hmod) hdq
    have hle : ((n % d : ℕ) : ℚ) / d ≤ 1 := by
      rw [div_le_one hdq]
      exact_mod_cast (Nat.mod_lt n hd).le
    rw [if_neg h, Int.ceil_eq_iff, div_eq_add_mod_div n hd, Int.cast_natCast, Nat.cast_add_one]
    constructor <;> linarith

/-- An inexact quotient stays strictly between the two integers around it. -/
theorem round_div_mem_Ioo {n d : ℕ} (hn : n < 2 ^ 53) (hd : 0 < d) (hd' : d ≤ 2 ^ 53)
    (h : ¬ d ∣ n) :
    ((n / d : ℕ) : ℚ) < round (n / d) ∧ round (n / d) < ((n / d : ℕ) : ℚ) + 1 := by
  have hmod : 0 < n % d := Nat.pos_of_ne_zero fun h0 => h (Nat.dvd_of_mod_eq_zero h0)
  have hn0 : 0 < n := Nat.pos_of_ne_zero fun h0 => h (h0 ▸ dvd_zero d)
  have herr := abs_lt.mp (abs_round_div_sub_lt hn hn0 hd hd')
  have hdq : (0 : ℚ) < d := by exact_mod_cast hd
  have h1 : (1 : ℚ) / d ≤ (n % d : ℕ) / d :=
    div_le_div_of_nonneg_right (by exact_mod_cast hmod) hdq.le
  have h2 : ((n % d : ℕ) : ℚ) / d + 1 / d ≤ 1 := by
    rw [← add_div, div_le_one hdq]
    exact_mod_cast Nat.mod_lt n hd
  have hsplit := div_eq_add_mod_div n hd
  constructor <;> linarith [herr.1, herr.2]

/-- A double quotient rounds down to the exact quotient. -/
theorem floor_round_div {n d : ℕ} (hn : n < 2 ^ 53) (hd : 0 < d) (hd' : d ≤ 2 ^ 53) :
    ⌊round ((n : ℚ) / d)⌋ = (n / d : ℕ) := by
  by_cases h : d ∣ n
  · rw [round_div_of_dvd hn hd h, Int.floor_natCast]
  · obtain ⟨h1, h2⟩ := round_div_mem_Ioo hn hd hd' h
    rw [Int.floor_eq_iff, Int.cast_natCast]
    exact ⟨h1.le, h2⟩

/-- A double quotient rounds up to the exact quotient, rounded up. -/
theorem ceil_round_div {n d : ℕ} (hn : n < 2 ^ 53) (hd : 0 < d) (hd' : d ≤ 2 ^ 53) :
    ⌈round ((n : ℚ) / d)⌉ = (n / d + if d ∣ n then 0 else 1 : ℕ) := by
  by_cases h : d ∣ n
  · rw [round_div_of_dvd hn hd h, Int.ceil_natCast, if_pos h, Nat.add_zero]
  · obtain ⟨h1, h2⟩ := round_div_mem_Ioo hn hd hd' h
    rw [if_neg h, Int.ceil_eq_iff, Int.cast_natCast, Nat.cast_add_one, add_sub_cancel_right]
    exact ⟨h1, h2.le⟩

/-! ## Integer programs -/

/-- A rounding under which integer arithmetic up to `2⁵³` is exact, and so are
    quotients that are rounded to an integer at once. -/
structure IntegerExact (fl : ℚ → ℚ) : Prop where
  intCast : ∀ k : ℤ, |k| ≤ 2 ^ 53 → fl k = k
  floor_div : ∀ n d : ℕ, n < 2 ^ 53 → 0 < d → d ≤ 2 ^ 53 → ⌊fl ((n : ℚ) / d)⌋ = (n / d : ℕ)
  ceil_div : ∀ n d : ℕ, n < 2 ^ 53 → 0 < d → d ≤ 2 ^ 53 →
    ⌈fl ((n : ℚ) / d)⌉ = (n / d + if d ∣ n then 0 else 1 : ℕ)

theorem integerExact_round : IntegerExact round where
  intCast _ := round_intCast
  floor_div _ _ := floor_round_div
  ceil_div _ _ := ceil_round_div

/-- A rounding that moreover keeps integers beyond `2⁵³` integers, and does not bring
    them back below. -/
structure IntegerRounding (fl : ℚ → ℚ) : Prop extends IntegerExact fl where
  isInt : ∀ k : ℤ, ∃ m : ℤ, fl k = m
  large : ∀ n : ℕ, 2 ^ 53 ≤ n → 2 ^ 53 ≤ fl n
  neg : ∀ k : ℤ, k < 0 → fl k < 0

theorem integerRounding_round : IntegerRounding round where
  toIntegerExact := integerExact_round
  isInt := exists_round_intCast
  large _ := le_round_natCast
  neg _ := round_intCast_neg

/-- Exact arithmetic. -/
theorem integerRounding_id : IntegerRounding id where
  intCast _ _ := rfl
  floor_div n d _ _ _ := by
    rw [id, Rat.floor_natCast_div_natCast, Int.natCast_ediv]
  ceil_div n _ _ hd _ := ceil_natCast_div n hd
  isInt k := ⟨k, rfl⟩
  large n hn := by
    rw [id]
    exact_mod_cast hn
  neg k hk := by
    rw [id]
    exact_mod_cast hk

namespace IntegerExact

variable {fl : ℚ → ℚ} (h : IntegerExact fl)

include h

theorem natCast {n : ℕ} (hn : n ≤ 2 ^ 53) : fl n = n := by
  have := h.intCast n (by rw [abs_of_nonneg (by positivity)]; exact_mod_cast hn)
  exact_mod_cast this

theorem add_natCast {a b : ℕ} (hab : a + b ≤ 2 ^ 53) : fl ((a : ℚ) + b) = ((a + b : ℕ) : ℚ) := by
  rw [← Nat.cast_add]
  exact h.natCast hab

theorem mul_natCast {a b : ℕ} (hab : a * b ≤ 2 ^ 53) : fl ((a : ℚ) * b) = ((a * b : ℕ) : ℚ) := by
  rw [← Nat.cast_mul]
  exact h.natCast hab

theorem sub_natCast {a b : ℕ} (ha : a ≤ 2 ^ 53) (hb : b ≤ a) :
    fl ((a : ℚ) - b) = ((a - b : ℕ) : ℚ) := by
  rw [← Nat.cast_sub hb]
  exact h.natCast (by omega)

/-- A difference that may be negative. -/
theorem sub_intCast {a b : ℕ} (hab : |(a : ℤ) - b| ≤ 2 ^ 53) :
    fl ((a : ℚ) - b) = ((a - b : ℤ) : ℚ) := by
  have hsub := h.intCast (a - b) hab
  rw [← hsub]
  push_cast
  rfl

end IntegerExact

/-- A natural number is exact, or it is large and stays so. -/
theorem IntegerRounding.natCast_cases {fl : ℚ → ℚ} (h : IntegerRounding fl) (m : ℕ) :
    m ≤ 2 ^ 53 ∧ fl m = m ∨ 2 ^ 53 < m ∧ ∃ k : ℕ, fl m = k ∧ 2 ^ 53 ≤ k := by
  rcases Nat.lt_or_ge (2 ^ 53) m with hlt | hge
  · right
    have hlarge := h.large m hlt.le
    obtain ⟨k, hk⟩ := h.isInt m
    rw [Int.cast_natCast] at hk
    rw [hk] at hlarge
    have hk' : 2 ^ 53 ≤ k := by exact_mod_cast hlarge
    obtain ⟨j, rfl⟩ := Int.eq_ofNat_of_zero_le (show 0 ≤ k by omega)
    exact ⟨hlt, j, by rw [hk, Int.cast_natCast], by exact_mod_cast hk'⟩
  · exact Or.inl ⟨hge, h.natCast hge⟩

end Double
