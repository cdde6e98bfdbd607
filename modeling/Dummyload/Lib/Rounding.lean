import Mathlib.Algebra.Order.Archimedean.Basic
import Mathlib.Data.Int.Log
import Mathlib.Data.Rat.Floor
import Mathlib.Tactic.Linarith
import Mathlib.Tactic.FieldSimp
import Mathlib.Tactic.Ring

/-!
# Dummyload.Lib.Rounding

Rounding of rationals to binary floating-point numbers with `p` significant bits, to
the nearest and in a tie to the even one. The exponent is not bounded: the numbers
it is used for are far from both ends of the range.

The relative error is at most `2 ^ (-p)` (`abs_round_sub_le`), integers of `p` bits
are exact (`round_intCast`), and so the rounded quotient of two integers lies
between the same two integers as the quotient itself (`floor_round_div`).
-/

namespace Lib.Rounding

/-! ### To an integer -/

/-- The nearest integer, of two the even one. -/
def nearestEven (x : ℚ) : ℤ :=
  if x - ⌊x⌋ < 1 / 2 then ⌊x⌋
  else if 1 / 2 < x - ⌊x⌋ then ⌊x⌋ + 1
  else ⌊x⌋ + ⌊x⌋ % 2

/-- Towards zero. -/
def trunc (x : ℚ) : ℤ := if 0 ≤ x then ⌊x⌋ else ⌈x⌉

@[simp] theorem nearestEven_intCast (k : ℤ) : nearestEven k = k := by
  simp [nearestEven]

theorem abs_nearestEven_sub_le (x : ℚ) : |(nearestEven x : ℚ) - x| ≤ 1 / 2 := by
  have hlo := Int.floor_le x
  have hhi := Int.lt_floor_add_one x
  unfold nearestEven
  split
  · rw [abs_le]
    constructor <;> linarith
  · split
    · push_cast
      rw [abs_le]
      constructor <;> linarith
    · -- a tie: the remainder is 0 or 1
      have htie : x - ⌊x⌋ = 1 / 2 := by linarith
      rcases Int.emod_two_eq_zero_or_one ⌊x⌋ with heven | hodd
      · rw [heven, add_zero, abs_le]
        constructor <;> linarith
      · rw [hodd]
        push_cast
        rw [abs_le]
        constructor <;> linarith

theorem trunc_of_nonneg {x : ℚ} (h : 0 ≤ x) : trunc x = ⌊x⌋ := if_pos h

/-! ### To `p` significant bits -/

/-- The unit in the last place of numbers of the size of `x`. -/
def ulp (p : ℕ) (x : ℚ) : ℚ := 2 ^ (Int.log 2 |x| + 1 - p)

/-- The nearest number of `p` significant bits. -/
def round (p : ℕ) (x : ℚ) : ℚ := nearestEven (x / ulp p x) * ulp p x

theorem ulp_pos (p : ℕ) (x : ℚ) : 0 < ulp p x := zpow_pos (by norm_num) _

theorem ulp_le (p : ℕ) {x : ℚ} (hx : x ≠ 0) : ulp p x ≤ 2 * |x| / 2 ^ p := by
  have hlog : (2 : ℚ) ^ Int.log 2 |x| ≤ |x| :=
    Int.zpow_log_le_self (by norm_num) (abs_pos.mpr hx)
  have htwo : (2 : ℚ) ≠ 0 := by norm_num
  rw [ulp, zpow_sub₀ htwo, zpow_add₀ htwo, zpow_one, zpow_natCast, mul_comm]
  gcongr

@[simp] theorem round_zero (p : ℕ) : round p 0 = 0 := by
  have hzero : nearestEven 0 = 0 := nearestEven_intCast 0
  rw [round, zero_div, hzero, Int.cast_zero, zero_mul]

/-- The error is half a unit in the last place at most. -/
theorem abs_round_sub_le (p : ℕ) (x : ℚ) : |round p x - x| ≤ |x| / 2 ^ p := by
  by_cases hx : x = 0
  · simp [hx]
  · have hpos := ulp_pos p x
    have herr := abs_nearestEven_sub_le (x / ulp p x)
    have hscale : round p x - x = (nearestEven (x / ulp p x) - x / ulp p x) * ulp p x := by
      rw [round, sub_mul, div_mul_cancel₀ x hpos.ne']
    calc |round p x - x|
        = |(nearestEven (x / ulp p x) : ℚ) - x / ulp p x| * ulp p x := by
          rw [hscale, abs_mul, abs_of_pos hpos]
      _ ≤ 1 / 2 * ulp p x := by gcongr
      _ ≤ 1 / 2 * (2 * |x| / 2 ^ p) := by
          have := ulp_le p hx
          gcongr
      _ = |x| / 2 ^ p := by ring

/-- Integers of `p` bits are exact. -/
theorem round_intCast {p : ℕ} {n : ℤ} (h : |n| < 2 ^ p) : round p n = n := by
  by_cases hn : n = 0
  · simp [hn]
  · have hpos : (0 : ℚ) < |(n : ℚ)| := abs_pos.mpr (by exact_mod_cast hn)
    have hlog : Int.log 2 |(n : ℚ)| < p := by
      have hle : (2 : ℚ) ^ Int.log 2 |(n : ℚ)| ≤ |(n : ℚ)| :=
        Int.zpow_log_le_self (by norm_num) hpos
      have hlt : |(n : ℚ)| < (2 : ℚ) ^ (p : ℤ) := by
        rw [zpow_natCast]
        exact_mod_cast h
      exact (zpow_lt_zpow_iff_right₀ (by norm_num : (1 : ℚ) < 2)).mp (hle.trans_lt hlt)
    -- the unit is the inverse of a power of two, so `n` is a multiple of it
    obtain ⟨k, hk⟩ : ∃ k : ℕ, (p : ℤ) - (Int.log 2 |(n : ℚ)| + 1) = k :=
      ⟨_, (Int.toNat_of_nonneg (by omega)).symm⟩
    have hulp : ulp p n = ((2 : ℚ) ^ k)⁻¹ := by
      rw [ulp, ← zpow_natCast, ← zpow_neg, ← hk, neg_sub]
    have hint : (n : ℚ) / ulp p n = ((n * 2 ^ k : ℤ) : ℚ) := by
      rw [hulp, div_inv_eq_mul]
      push_cast
      rfl
    rw [round, hint, nearestEven_intCast, ← hint, div_mul_cancel₀ _ (ulp_pos p n).ne']

/-- Rounding a quotient of integers does not take it past an integer. -/
theorem floor_round_div {p : ℕ} {n a : ℤ} (hn : 0 ≤ n) (hlt : n < 2 ^ p) (ha : 0 < a) :
    ⌊round p ((n : ℚ) / a)⌋ = n / a := by
  have haq : (0 : ℚ) < a := by exact_mod_cast ha
  have hnq : (0 : ℚ) ≤ n := by exact_mod_cast hn
  have hx : (0 : ℚ) ≤ n / a := by positivity
  have herr := abs_le.mp (abs_round_sub_le p ((n : ℚ) / a))
  -- the error is less than the distance of two quotients with this denominator
  have hsmall : |(n : ℚ) / a| / 2 ^ p < 1 / a := by
    have hltq : (n : ℚ) < 2 ^ p := by exact_mod_cast hlt
    rw [abs_of_nonneg hx, div_div, div_lt_div_iff₀ (by positivity) haq]
    nlinarith
  have hdiv : n = a * (n / a) + n % a := (Int.mul_ediv_add_emod n a).symm
  have hquot : (n : ℚ) / a = (n / a : ℤ) + (n % a : ℤ) / a := by
    rw [eq_comm, ← sub_eq_zero]
    have : (n : ℚ) = a * (n / a : ℤ) + (n % a : ℤ) := by exact_mod_cast hdiv
    field_simp
    linarith
  rw [Int.floor_eq_iff]
  constructor
  · rcases (Int.emod_nonneg n ha.ne').eq_or_lt with hzero | hpos
    · have hexact : (n : ℚ) / a = (n / a : ℤ) := by
        rw [hquot, ← hzero, Int.cast_zero, zero_div, add_zero]
      have hbits : |n / a| < 2 ^ p := by
        rw [abs_of_nonneg (Int.ediv_nonneg hn ha.le)]
        exact (Int.ediv_le_self a hn).trans_lt hlt
      rw [hexact, round_intCast hbits]
    · have hone : (1 : ℚ) / a ≤ (n % a : ℤ) / a := by
        gcongr
        exact_mod_cast hpos
      linarith
  · have hlast : ((n % a : ℤ) : ℚ) / a ≤ 1 - 1 / a := by
      have hle : ((n % a : ℤ) : ℚ) ≤ a - 1 := by
        have := Int.emod_lt_of_pos n ha
        exact_mod_cast (by omega : n % a ≤ a - 1)
      rw [div_le_iff₀ haq]
      field_simp
      exact hle
    linarith

end Lib.Rounding
