import Mathlib.Algebra.Order.Ring.Abs
import Mathlib.Data.Int.Log
import Mathlib.Data.Rat.Floor
import Mathlib.Tactic.FieldSimp
import Mathlib.Tactic.Linarith
import Mathlib.Tactic.NormNum
import Mathlib.Tactic.Ring

/-! Rounding to 53 significant bits, to nearest and ties to even, on the
rationals: the arithmetic of `binary64` away from overflow and underflow. -/

namespace Fire2.Binary64

def roundEven (q : ℚ) : ℤ :=
  let k := ⌊q⌋
  if q - k < 1 / 2 then k else if 1 / 2 < q - k then k + 1 else k + k % 2

def ulp (q : ℚ) : ℚ := 2 ^ (Int.log 2 |q| - 52)

def nearest (q : ℚ) : ℚ := roundEven (q / ulp q) * ulp q

section RoundEven
variable {q : ℚ} {k : ℤ}

theorem roundEven_error (q : ℚ) : |(roundEven q : ℚ) - q| ≤ 1 / 2 := by
  have low := Int.floor_le q
  have high := Int.lt_floor_add_one q
  have bit : ⌊q⌋ % 2 = 0 ∨ ⌊q⌋ % 2 = 1 := Int.emod_two_eq_zero_or_one _
  unfold roundEven
  dsimp only
  rw [abs_le]
  split_ifs
  · constructor <;> linarith
  · push_cast
    constructor <;> linarith
  · rcases bit with even | odd
    · rw [even]
      push_cast
      constructor <;> linarith
    · rw [odd]
      push_cast
      constructor <;> linarith

theorem roundEven_eq (near : |q - k| < 1 / 2) : roundEven q = k := by
  have error := abs_le.1 (roundEven_error q)
  have near := abs_lt.1 near
  have above : (roundEven q : ℚ) < (k + 1 : ℤ) := by
    push_cast
    linarith
  have below : ((k - 1 : ℤ) : ℚ) < roundEven q := by
    push_cast
    linarith
  have above := Int.cast_lt.1 above
  have below := Int.cast_lt.1 below
  omega

theorem roundEven_intCast (k : ℤ) : roundEven k = k := roundEven_eq (by simp)

theorem roundEven_nonneg (h : 0 ≤ q) : 0 ≤ roundEven q := by
  have floor : 0 ≤ ⌊q⌋ := Int.floor_nonneg.2 h
  unfold roundEven
  dsimp only
  split_ifs <;> omega

end RoundEven

section Round
variable {q : ℚ} {k : ℕ}

theorem ulp_pos (q : ℚ) : 0 < ulp q := zpow_pos two_pos _

theorem nearest_nonneg (h : 0 ≤ q) : 0 ≤ nearest q := by
  have scaled : 0 ≤ q / ulp q := div_nonneg h (ulp_pos q).le
  have whole : (0 : ℚ) ≤ roundEven (q / ulp q) := by exact_mod_cast roundEven_nonneg scaled
  exact mul_nonneg whole (ulp_pos q).le

theorem nearest_error (q : ℚ) : |nearest q - q| ≤ ulp q / 2 := by
  have pos := ulp_pos q
  have scaled : nearest q - q = (roundEven (q / ulp q) - q / ulp q) * ulp q := by
    rw [nearest, sub_mul, div_mul_cancel₀ q pos.ne']
  rw [scaled, abs_mul, abs_of_pos pos]
  calc |(roundEven (q / ulp q) : ℚ) - q / ulp q| * ulp q
      ≤ 1 / 2 * ulp q := by gcongr; exact roundEven_error _
    _ = ulp q / 2 := by ring

theorem nearest_intCast {n : ℤ} (small : |n| < 2 ^ 53) : nearest n = n := by
  by_cases zero : n = 0
  · simp [nearest, zero, roundEven]
  · have log : Int.log 2 |(n : ℚ)| = Nat.log 2 n.natAbs := by
      rw [← Int.cast_abs, Int.abs_eq_natAbs, Int.cast_natCast, Int.log_natCast]
    have bits : Nat.log 2 n.natAbs ≤ 52 := by
      rw [Int.abs_eq_natAbs] at small
      refine Nat.le_of_lt_succ (Nat.log_lt_of_lt_pow (Int.natAbs_ne_zero.2 zero) ?_)
      exact_mod_cast small
    -- the scaled integer is an integer again
    have unit : ulp n = (2 ^ (52 - Nat.log 2 n.natAbs))⁻¹ := by
      rw [ulp, log, ← zpow_natCast, ← zpow_neg, Nat.cast_sub bits]
      congr 1
      push_cast
      ring
    have scaled : (n : ℚ) / ulp n = ((n * 2 ^ (52 - Nat.log 2 n.natAbs) : ℤ) : ℚ) := by
      rw [unit, div_inv_eq_mul]
      push_cast
      rfl
    rw [nearest, scaled, roundEven_intCast, ← scaled, div_mul_cancel₀ _ (ulp_pos _).ne']

theorem ulp_le (nonzero : q ≠ 0) (h : |q| < 2 ^ k) : ulp q ≤ 2 ^ ((k : ℤ) - 53) := by
  have log : Int.log 2 |q| < k := by
    refine (Int.lt_zpow_iff_log_lt one_lt_two (abs_pos.2 nonzero)).1 ?_
    exact_mod_cast h
  refine zpow_le_zpow_right₀ one_le_two ?_
  omega

theorem nearest_error_le (small : k < 53) (h : |q| ≤ 2 ^ k) :
    |nearest q - q| ≤ 2 ^ ((k : ℤ) - 54) := by
  have exact {n : ℤ} (n_small : |n| < 2 ^ 53) : |nearest (n : ℚ) - n| ≤ 2 ^ ((k : ℤ) - 54) := by
    rw [nearest_intCast n_small, sub_self, abs_zero]
    exact (zpow_pos two_pos _).le
  rcases h.lt_or_eq with less | eq
  · by_cases zero : q = 0
    · rw [zero]
      exact_mod_cast exact (n := 0) (by norm_num)
    · have half : (2 : ℚ) ^ ((k : ℤ) - 53) = 2 ^ ((k : ℤ) - 54) * 2 := by
        rw [← zpow_add_one₀ two_ne_zero]
        congr 1
        ring
      have unit := ulp_le zero less
      have error := nearest_error q
      linarith
  · have power : |(2 : ℤ) ^ k| < 2 ^ 53 := by
      rw [abs_of_nonneg (by positivity)]
      exact pow_lt_pow_right₀ one_lt_two small
    rcases eq_or_eq_neg_of_abs_eq eq with rfl | rfl
    · exact_mod_cast exact power
    · exact_mod_cast exact (n := -2 ^ k) (by rwa [abs_neg])

end Round

end Fire2.Binary64
