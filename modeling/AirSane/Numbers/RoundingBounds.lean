import AirSane.Numbers.Rounding
import Mathlib.Tactic.Ring

/-! # Bounds on rounded numbers

Rounding goes past no number of the format. It moves a number by half a last digit
at most, and what is half a last digit above a power of two comes back to it.
-/

namespace Numbers

section
variable {K : Type*} [Field K] [LinearOrder K] [IsStrictOrderedRing K] [FloorRing K]
variable {x : K} {n : ℤ}

theorem roundHalfEven_le_add (x : K) : (roundHalfEven x : K) ≤ x + 1 / 2 := by
  rw [roundHalfEven]
  split_ifs
  · have h := Int.floor_le x
    linarith
  · rw [round_eq]
    exact Int.floor_le _

/-- An even number takes what is half above it. -/
theorem roundHalfEven_le_iff (hn : Even n) : roundHalfEven x ≤ n ↔ x ≤ n + 1 / 2 := by
  rw [roundHalfEven]
  split_ifs with hx
  · have hfloor : x = ⌊x⌋ + 1 / 2 := by
      rw [← hx.1]
      exact (Int.floor_add_fract x).symm
    nth_rewrite 2 [hfloor]
    rw [add_le_add_iff_right, Int.cast_le]
  · have hne : x ≠ n + 1 / 2 := by
      rintro rfl
      apply hx
      have hhalf : ⌊(n : K) + 1 / 2⌋ = n := by
        rw [Int.floor_intCast_add, Int.floor_eq_zero_iff.2, add_zero]
        constructor <;> norm_num
      rw [Int.fract, hhalf]
      exact ⟨by ring, hn⟩
    rw [round_eq, ← Int.lt_add_one_iff, Int.floor_lt]
    push_cast
    constructor
    · intro h
      linarith
    · intro h
      have hlt := lt_of_le_of_ne h hne
      linarith

end

section
variable {K : Type*} [Field K] [LinearOrder K] [IsStrictOrderedRing K] [FloorRing K]
variable {F : Format} {m : K} {e k : ℤ} {a : ℕ}

theorem lt_zpow_of_lt (ha : a < 2 ^ F.precision) (e : ℤ) :
    (a : K) * 2 ^ e < 2 ^ (F.precision + e) := by
  rw [zpow_add₀ (by norm_num), zpow_natCast]
  exact mul_lt_mul_of_pos_right (by exact_mod_cast ha) (two_zpow_pos e)

/-- What is at most a number of the format stays so. -/
theorem round_le_of_le (ha : a < 2 ^ F.precision) (he : F.minExponent ≤ e) (hm : 0 ≤ m)
    (h : m ≤ a * 2 ^ e) : F.round m ≤ a * 2 ^ e := by
  rcases hm.eq_or_lt with rfl | hpos
  · rw [round_zero]
    exact h
  · have hlog : Int.log 2 m < F.precision + e := by
      rw [← Int.lt_zpow_iff_log_lt one_lt_two hpos]
      exact_mod_cast h.trans_lt (lt_zpow_of_lt ha e)
    have hexp : F.exponent m ≤ e := max_le (by omega) he
    have heq : (a : K) * 2 ^ e = ((a * 2 ^ (e - F.exponent m).toNat : ℤ) : K) * 2 ^ F.exponent m := by
      rw [Int.cast_mul, mul_assoc, ← zpow_eq_mul hexp, Int.cast_natCast]
    have hdiv : m / 2 ^ F.exponent m ≤ ((a * 2 ^ (e - F.exponent m).toNat : ℤ) : K) := by
      rw [div_le_iff₀ (two_zpow_pos _), ← heq]
      exact h
    rw [Format.round, heq]
    exact mul_le_mul_of_nonneg_right (by exact_mod_cast roundHalfEven_le hdiv) (two_zpow_pos _).le

/-- Numbers of the format stay what they are. -/
theorem round_mul_zpow (ha : a < 2 ^ F.precision) (he : F.minExponent ≤ e) :
    F.round ((a : K) * 2 ^ e) = a * 2 ^ e := by
  rcases Nat.eq_zero_or_pos a with rfl | hpos
  · rw [Nat.cast_zero, zero_mul, round_zero]
  · set m := (a : K) * 2 ^ e with hm
    have hm0 : 0 < m := mul_pos (by exact_mod_cast hpos) (two_zpow_pos e)
    have hlog : Int.log 2 m < F.precision + e := by
      have hlt := lt_zpow_of_lt (K := K) ha e
      rw [← Int.lt_zpow_iff_log_lt one_lt_two hm0]
      exact_mod_cast hlt
    have hexp : F.exponent m ≤ e := max_le (by omega) he
    have heq : m = ((a * 2 ^ (e - F.exponent m).toNat : ℤ) : K) * 2 ^ F.exponent m := by
      rw [Int.cast_mul, mul_assoc, ← zpow_eq_mul hexp, Int.cast_natCast]
    have hdiv : m / 2 ^ F.exponent m = ((a * 2 ^ (e - F.exponent m).toNat : ℤ) : K) := by
      rw [div_eq_iff (two_zpow_pos _).ne']
      exact heq
    rw [Format.round, hdiv, roundHalfEven_intCast, ← heq]

/-- What is half a last digit above a power of two comes back to it. -/
theorem round_le_of_le_half (hp : 2 ≤ F.precision) (hk : F.minExponent ≤ k + 1 - F.precision)
    (hm : 0 ≤ m) (h : m ≤ 2 ^ k + 2 ^ (k - F.precision)) : F.round m ≤ 2 ^ k := by
  rcases le_or_gt m (2 ^ k) with hle | hlt
  · exact round_le (by omega) (by omega) hm hle
  · have hpos : 0 < m := (two_zpow_pos k).trans hlt
    have hup : m < 2 ^ (k + 1) := by
      have hstep : (2 : K) ^ (k - F.precision) < 2 ^ k := zpow_lt_zpow_right₀ one_lt_two (by omega)
      rw [zpow_add_one₀ (by norm_num)]
      linarith
    have hlog : Int.log 2 m = k := by
      apply le_antisymm
      · rw [← Int.lt_add_one_iff, ← Int.lt_zpow_iff_log_lt one_lt_two hpos]
        exact_mod_cast hup
      · rw [← Int.zpow_le_iff_le_log one_lt_two hpos]
        exact_mod_cast hlt.le
    have he : F.exponent m = k + 1 - F.precision := by
      rw [Format.exponent, hlog]
      exact max_eq_left hk
    have hk' : F.exponent m ≤ k := by omega
    have heven : Even (2 ^ (k - F.exponent m).toNat : ℤ) :=
      (even_two).pow_of_ne_zero (by omega)
    have hhalf : (2 : K) ^ (k - F.precision) = 1 / 2 * 2 ^ F.exponent m := by
      rw [he, show k + 1 - (F.precision : ℤ) = k - F.precision + 1 by ring,
        zpow_add_one₀ (by norm_num)]
      ring
    have hdiv : m / 2 ^ F.exponent m ≤ ((2 ^ (k - F.exponent m).toNat : ℤ) : K) + 1 / 2 := by
      rw [div_le_iff₀ (two_zpow_pos _), add_mul, ← zpow_eq_mul hk', ← hhalf]
      exact h
    rw [Format.round, zpow_eq_mul hk']
    exact mul_le_mul_of_nonneg_right
      (by exact_mod_cast (roundHalfEven_le_iff heven).2 hdiv) (two_zpow_pos _).le

/-- A number with all its digits grows by the share of half a last digit at most. -/
theorem round_le_mul (hm : 0 < m) (h : F.minExponent ≤ Int.log 2 m + 1 - F.precision) :
    F.round m ≤ m * (1 + 2 ^ (-F.precision : ℤ)) := by
  have he : F.exponent m = Int.log 2 m + 1 - F.precision := max_eq_left h
  have hround := mul_le_mul_of_nonneg_right (roundHalfEven_le_add (m / 2 ^ F.exponent m))
    (two_zpow_pos (F.exponent m)).le
  have hhalf : (1 / 2 : K) * 2 ^ F.exponent m = 2 ^ Int.log 2 m * 2 ^ (-F.precision : ℤ) := by
    rw [he, ← zpow_add₀ (by norm_num),
      show Int.log 2 m + 1 - (F.precision : ℤ) = Int.log 2 m + -F.precision + 1 by ring,
      zpow_add_one₀ (by norm_num)]
    ring
  have hdigits := mul_le_mul_of_nonneg_right (zpow_log_le hm)
    (two_zpow_pos (K := K) (-F.precision)).le
  rw [add_mul, div_mul_cancel₀ _ (two_zpow_pos _).ne', hhalf] at hround
  rw [Format.round, mul_add, mul_one]
  linarith

end

end Numbers
