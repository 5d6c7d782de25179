import Mathlib.Algebra.Order.Round
import Mathlib.Data.Int.Log
import Mathlib.Tactic.FieldSimp
import Mathlib.Tactic.Linarith

/-! # Rounding to a binary precision

Magnitudes are rounded to the nearest number with a bounded number of binary
digits, the even one of two, and a least exponent for the last digit. A number
with an even last digit is reached from half a last digit below it.
-/

namespace Numbers

theorem zpow_eq_mul {K : Type*} [Field K] [CharZero K] {e k : ℤ} (h : e ≤ k) :
    (2 : K) ^ k = ((2 ^ (k - e).toNat : ℤ) : K) * 2 ^ e := by
  have hk : k = ((k - e).toNat : ℤ) + e := by omega
  nth_rewrite 1 [hk]
  rw [zpow_add₀ (by norm_num), zpow_natCast]
  push_cast
  rfl

section
variable {K : Type*} [Field K] [LinearOrder K] [IsStrictOrderedRing K] [FloorRing K]

/-- The nearest integer, the even one of two. -/
def roundHalfEven (x : K) : ℤ := if Int.fract x = 1 / 2 ∧ Even ⌊x⌋ then ⌊x⌋ else round x

variable {x : K} {n : ℤ}

theorem roundHalfEven_intCast : roundHalfEven (n : K) = n := by
  rw [roundHalfEven, Int.fract_intCast, round_intCast, if_neg]
  rintro ⟨h, -⟩
  norm_num at h

theorem roundHalfEven_le (h : x ≤ n) : roundHalfEven x ≤ n := by
  rw [roundHalfEven]
  split_ifs
  · exact_mod_cast (Int.floor_le x).trans h
  · rw [round_eq, ← Int.lt_add_one_iff, Int.floor_lt]
    push_cast
    linarith

theorem le_roundHalfEven (h : n ≤ x) : n ≤ roundHalfEven x := by
  rw [roundHalfEven]
  split_ifs
  · exact Int.le_floor.2 h
  · rw [round_eq, Int.le_floor]
    linarith

/-- An even number takes what is half below it. -/
theorem le_roundHalfEven_iff (hn : Even n) : n ≤ roundHalfEven x ↔ n - 1 / 2 ≤ x := by
  rw [roundHalfEven]
  split_ifs with hx
  · have hfloor : x = ⌊x⌋ + 1 / 2 := by
      rw [← hx.1]
      exact (Int.floor_add_fract x).symm
    have hne : n ≠ ⌊x⌋ + 1 := fun h => by
      have hodd := hn
      rw [h, Int.even_add_one] at hodd
      exact hodd hx.2
    have hiff : n - 1 / 2 ≤ x ↔ n ≤ ⌊x⌋ + 1 := by
      rw [sub_le_iff_le_add]
      nth_rewrite 1 [hfloor]
      rw [add_assoc, add_halves]
      exact_mod_cast Iff.rfl
    rw [hiff]
    omega
  · rw [round_eq, Int.le_floor, sub_le_iff_le_add]

end

/-- The number of binary digits, and the least exponent of the last one. -/
structure Format where
  precision : ℕ
  minExponent : ℤ

section
variable {K : Type*} [Field K] [LinearOrder K] [IsStrictOrderedRing K] [FloorRing K]
variable (F : Format)

/-- The exponent of the last digit of a magnitude. -/
def Format.exponent (m : K) : ℤ := max (Int.log 2 m + 1 - F.precision) F.minExponent

def Format.round (m : K) : K := roundHalfEven (m / 2 ^ F.exponent m) * 2 ^ F.exponent m

variable {F} {m : K} {k : ℤ}

theorem two_zpow_pos (k : ℤ) : (0 : K) < 2 ^ k := zpow_pos two_pos k

theorem round_zero : F.round (0 : K) = 0 := by
  have h : roundHalfEven (0 : K) = 0 := by exact_mod_cast roundHalfEven_intCast (K := K) (n := 0)
  rw [Format.round, zero_div, h, Int.cast_zero, zero_mul]

theorem round_nonneg (hm : 0 ≤ m) : 0 ≤ F.round m := by
  have hdiv : ((0 : ℤ) : K) ≤ m / 2 ^ F.exponent m := by
    rw [Int.cast_zero]
    exact div_nonneg hm (two_zpow_pos _).le
  exact mul_nonneg (by exact_mod_cast le_roundHalfEven hdiv) (two_zpow_pos _).le

theorem zpow_log_le (hm : 0 < m) : (2 : K) ^ Int.log 2 m ≤ m := by
  exact_mod_cast Int.zpow_log_le_self one_lt_two hm

theorem round_le (hp : 1 ≤ F.precision) (hk : F.minExponent ≤ k) (hm : 0 ≤ m) (h : m ≤ 2 ^ k) :
    F.round m ≤ 2 ^ k := by
  rcases hm.eq_or_lt with rfl | hpos
  · rw [round_zero]
    exact (two_zpow_pos k).le
  · have hlog : Int.log 2 m ≤ k := by
      have hmono := Int.log_mono_right (b := 2) hpos h
      rwa [show (2 : K) ^ k = ((2 : ℕ) : K) ^ k by rw [Nat.cast_ofNat],
        Int.log_zpow one_lt_two] at hmono
    have he : F.exponent m ≤ k := max_le (by omega) hk
    have hdiv : m / 2 ^ F.exponent m ≤ ((2 ^ (k - F.exponent m).toNat : ℤ) : K) := by
      rw [div_le_iff₀ (two_zpow_pos _), ← zpow_eq_mul he]
      exact h
    rw [Format.round, zpow_eq_mul he]
    exact mul_le_mul_of_nonneg_right (by exact_mod_cast roundHalfEven_le hdiv) (two_zpow_pos _).le

theorem le_round (hp : 1 ≤ F.precision) (hk : F.minExponent ≤ k + 1 - F.precision)
    (h : 2 ^ k ≤ m) : 2 ^ k ≤ F.round m := by
  have hpos : 0 < m := (two_zpow_pos k).trans_le h
  have hlog : k ≤ Int.log 2 m := by
    have hmono := Int.log_mono_right (b := 2) (two_zpow_pos k) h
    rwa [show (2 : K) ^ k = ((2 : ℕ) : K) ^ k by rw [Nat.cast_ofNat],
      Int.log_zpow one_lt_two] at hmono
  have he : F.exponent m ≤ Int.log 2 m := max_le (by omega) (by omega)
  have hdiv : ((2 ^ (Int.log 2 m - F.exponent m).toNat : ℤ) : K) ≤ m / 2 ^ F.exponent m := by
    rw [le_div_iff₀ (two_zpow_pos _), ← zpow_eq_mul he]
    exact zpow_log_le hpos
  calc (2 : K) ^ k ≤ 2 ^ Int.log 2 m := zpow_le_zpow_right₀ one_le_two hlog
    _ = ((2 ^ (Int.log 2 m - F.exponent m).toNat : ℤ) : K) * 2 ^ F.exponent m := zpow_eq_mul he
    _ ≤ F.round m :=
      mul_le_mul_of_nonneg_right (by exact_mod_cast le_roundHalfEven hdiv) (two_zpow_pos _).le

/-- Natural numbers with no more digits than the format has stay what they are. -/
theorem round_natCast {n : ℕ} (hmin : F.minExponent ≤ 0) (h : n < 2 ^ F.precision) :
    F.round (n : K) = n := by
  rcases Nat.eq_zero_or_pos n with rfl | hpos
  · rw [Nat.cast_zero, round_zero]
  · have hlog : Int.log 2 (n : K) < F.precision := by
      rw [Int.log_natCast]
      exact_mod_cast Nat.log_lt_of_lt_pow hpos.ne' h
    have he : F.exponent (n : K) ≤ 0 := max_le (by omega) hmin
    have hdiv : (n : K) / 2 ^ F.exponent (n : K) =
        ((n * 2 ^ (0 - F.exponent (n : K)).toNat : ℤ) : K) := by
      rw [div_eq_iff (two_zpow_pos _).ne', Int.cast_mul, mul_assoc, ← zpow_eq_mul he, zpow_zero,
        mul_one, Int.cast_natCast]
    rw [Format.round, hdiv, roundHalfEven_intCast, ← hdiv, div_mul_cancel₀ _ (two_zpow_pos _).ne']

/-- A number with an even last digit takes what is half a last digit below it. -/
theorem le_round_iff {n : ℤ} (hp : 1 ≤ F.precision) (hmin : F.minExponent ≤ k + 1 - F.precision)
    (hn : Even n) (hm : 0 ≤ m) (hlow : (2 : K) ^ k < n * 2 ^ (k + 1 - F.precision))
    (hhigh : n * 2 ^ (k + 1 - F.precision) ≤ (2 : K) ^ (k + 1)) :
    n * 2 ^ (k + 1 - F.precision) ≤ F.round m ↔ (n - 1 / 2) * 2 ^ (k + 1 - F.precision) ≤ m := by
  have hpos := two_zpow_pos (K := K) (k + 1 - F.precision)
  rcases lt_or_ge m (2 ^ k) with hlt | hge
  · have hround := round_le (K := K) hp (by omega) hm hlt.le
    have hint : ((2 ^ (k - (k + 1 - F.precision)).toNat : ℤ) : K) < n := by
      rw [zpow_eq_mul (show k + 1 - (F.precision : ℤ) ≤ k by omega)] at hlow
      exact lt_of_mul_lt_mul_right hlow hpos.le
    have hnext : ((2 ^ (k - (k + 1 - F.precision)).toNat : ℤ) : K) + 1 ≤ n := by
      have h : (2 ^ (k - (k + 1 - F.precision)).toNat : ℤ) + 1 ≤ n :=
        Int.add_one_le_of_lt (Int.cast_lt.1 hint)
      exact_mod_cast h
    have hk := zpow_eq_mul (K := K) (show k + 1 - (F.precision : ℤ) ≤ k by omega)
    constructor
    · intro h
      exact absurd (h.trans hround) hlow.not_ge
    · intro h
      have hle : (2 : K) ^ k ≤ (n - 1 / 2) * 2 ^ (k + 1 - F.precision) := by
        rw [hk]
        exact mul_le_mul_of_nonneg_right (by linarith) hpos.le
      exact absurd (hle.trans h) hlt.not_ge
  · rcases lt_or_ge m (2 ^ (k + 1)) with hlt' | hge'
    · have hmpos : 0 < m := (two_zpow_pos k).trans_le hge
      have hlog : Int.log 2 m = k := by
        apply le_antisymm
        · rw [← Int.lt_add_one_iff, ← Int.lt_zpow_iff_log_lt one_lt_two hmpos]
          exact_mod_cast hlt'
        · rw [← Int.zpow_le_iff_le_log one_lt_two hmpos]
          exact_mod_cast hge
      have he : F.exponent m = k + 1 - F.precision := by
        rw [Format.exponent, hlog]
        exact max_eq_left hmin
      rw [Format.round, he, mul_le_mul_iff_left₀ hpos, Int.cast_le, le_roundHalfEven_iff hn,
        le_div_iff₀ hpos]
    · have hround := le_round (K := K) (F := F) hp (by omega) hge'
      have hle : (n - 1 / 2) * 2 ^ (k + 1 - F.precision) ≤ n * (2 : K) ^ (k + 1 - F.precision) :=
        mul_le_mul_of_nonneg_right (by linarith) hpos.le
      exact ⟨fun _ => hle.trans (hhigh.trans hge'), fun _ => hhigh.trans hround⟩

end

end Numbers
