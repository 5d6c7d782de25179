import AirSane.ScanJob.GammaTable
import AirSane.ScanJob.GraySynthesis

/-! # The gamma curve

The gamma table of a depth as a function of samples. It takes the largest sample to
itself, and zero too unless the gamma is zero, which leaves only the largest sample.
The weights of `synthesizeGray` are numbers of type `float`.
-/

namespace AirSane
open Numbers ScanJob

namespace Arithmetic

/-- The float of `synthesizeGray`, before it becomes a sample. -/
def weighted (single : ℚ → Double) (top : ℚ) (r g b : ℕ) : Double :=
  let rweight := single (2126 / 10000)
  let gweight := single (7152 / 10000)
  let bweight := single (722 / 10000)
  let f := ((rweight.mul single (single r)).add single (gweight.mul single (single g))).add single
    (bweight.mul single (single b))
  Extended.min (.finite top) (f.add single (.finite (1 / 2)))

def luminance (F : Arithmetic) (top r g b : ℕ) : ℕ := (F.toInt (weighted F.single top r g b)).toNat

/-- The gamma curve for a number of bits, as `initGammaTable` computes it. -/
def curve (F : Arithmetic) (gamma : Double) (bits v : ℕ) : ℕ :=
  if (F.toFloat gamma).equal (.finite 1) then v
  else (F.toUInt16 (F.gammaValue (F.toFloat gamma) (2 ^ bits) v)).toNat

variable (machine : Double → ℤ) {pow : Double → Double → Double} {g : Double} {n i : ℕ}

theorem rounded_natCast (h : n < 2 ^ 16) :
    (ieee machine pow).rounded (.finite n) = .finite n := by
  have hround := round_mul_zpow (K := ℚ) (F := binary64) (a := 2 * n + 1) (e := -1)
    (show 2 * n + 1 < 2 ^ 53 by omega) (by decide)
  have hhalf : ((2 * n + 1 : ℕ) : ℚ) * 2 ^ (-1 : ℤ) = n + 1 / 2 := by
    push_cast
    rw [zpow_neg_one]
    ring
  have hle : (n : ℚ) + 1 / 2 ≤ 2 ^ 16 := by
    have hn : (n : ℚ) + 1 ≤ 2 ^ 16 := by exact_mod_cast h
    linarith
  have hfloor : ⌊(n : ℚ) + 1 / 2⌋ = n := by
    rw [Int.floor_natCast_add, Int.floor_eq_zero_iff.2 (by constructor <;> norm_num), add_zero]
  rw [hhalf] at hround
  rw [rounded, Extended.add_finite, double_finite machine pow (by positivity) hle, hround,
    Extended.floor_finite, hfloor, Int.cast_natCast]

/-- An entry from what `pow` makes of it, at zero and one. -/
theorem gammaValue_of_pow {z : ℕ} (hz : z ≤ 1) (hn : n < 2 ^ 16)
    (h : pow (((ieee machine pow).single i).mul (ieee machine pow).single
      ((ieee machine pow).scale (n + 1))) g = .finite z) :
    (ieee machine pow).gammaValue g (n + 1) i = .finite (z * n : ℕ) := by
  have hle : z * n ≤ n := by
    have hmul := Nat.mul_le_mul_right n hz
    omega
  have hsize : (((n + 1 : ℕ) : ℤ) - 1 : ℤ) = (n : ℤ) := by push_cast; ring
  have hpow : (ieee machine pow).pow (((ieee machine pow).single i).mul (ieee machine pow).single
      ((ieee machine pow).scale (n + 1))) g = .finite z := h
  rw [gammaValue, hpow, toFloat_finite, single_natCast machine pow (show z ≤ 2 ^ 16 by omega),
    hsize, Int.cast_natCast, single_natCast machine pow hn.le, Extended.mul_finite, ← Nat.cast_mul,
    single_natCast machine pow (show z * n ≤ 2 ^ 16 by omega),
    rounded_natCast machine (show z * n < 2 ^ 16 by omega), toFloat_finite,
    single_natCast machine pow (show z * n ≤ 2 ^ 16 by omega)]

theorem toUInt16_natCast (F : Arithmetic) (hn : n < 2 ^ 16) :
    (F.toUInt16 (.finite n)).toNat = n := by
  have htruncate : truncate (n : ℚ) = n := by simp [truncate]
  rw [toUInt16, htruncate, if_pos ⟨by omega, by exact_mod_cast hn⟩, Int.toNat_natCast,
    UInt16.toNat_ofNat_of_lt' hn]

end Arithmetic

namespace ScanJob

/-- The largest sample. -/
def Width.top : Width → ℕ
  | .byte => 255
  | .word => 65535

theorem Width.two_pow_bits {w : Width} : 2 ^ (8 * w.size) = w.top + 1 := by cases w <;> rfl

theorem Width.top_lt {w : Width} : w.top < 2 ^ 16 := by cases w <;> decide

theorem Width.top_pos {w : Width} : 0 < w.top := by cases w <;> decide

end ScanJob

namespace Arithmetic
variable (machine : Double → ℤ) {pow : Double → Double → Double} {g : Double} {w : Width} {i v : ℕ}

theorem curve_one (F : Arithmetic) (h : (F.toFloat g).equal (.finite 1) = true) {bits : ℕ} :
    F.curve g bits v = v := if_pos h

theorem curve_of_pow {z : ℕ} (hg : ((ieee machine pow).toFloat g).equal (.finite 1) = false)
    (hz : z ≤ 1) (h : pow (((ieee machine pow).single i).mul (ieee machine pow).single
      ((ieee machine pow).scale (w.top + 1))) ((ieee machine pow).toFloat g) = .finite z) :
    (ieee machine pow).curve g (8 * w.size) i = z * w.top := by
  have hle : z * w.top ≤ w.top := by
    have hmul := Nat.mul_le_mul_right w.top hz
    omega
  rw [curve, hg, if_neg Bool.false_ne_true, Width.two_pow_bits, gammaValue_of_pow machine hz Width.top_lt h]
  exact toUInt16_natCast _ (hle.trans_lt Width.top_lt)

/-- The largest sample is a fixed point. -/
theorem curve_top (hp : PowLaws pow) (g : Double) :
    (ieee machine pow).curve g (8 * w.size) w.top = w.top := by
  rcases hg : ((ieee machine pow).toFloat g).equal (.finite 1) with _ | _
  · have hone : ((ieee machine pow).single w.top).mul (ieee machine pow).single
        ((ieee machine pow).scale (w.top + 1)) = .finite 1 := by
      have hclosed : ((toFormat binary32 128 w.top).mul (toFormat binary32 128)
          ((Extended.finite 1).div (toFormat binary32 128)
            (toFormat binary32 128 ((w.top + 1 : ℕ) - 1 : ℤ)))) = .finite 1 := by
        cases w <;> decide +kernel
      exact hclosed
    rw [curve_of_pow machine hg le_rfl (by rw [hone, hp.one, Nat.cast_one]), one_mul]
  · exact curve_one _ hg

/-- Zero is one too for a positive gamma. -/
theorem curve_zero (hp : PowLaws pow)
    (hg : (Extended.finite 0).less ((ieee machine pow).toFloat g) = true) :
    (ieee machine pow).curve g (8 * w.size) 0 = 0 := by
  rcases hone : ((ieee machine pow).toFloat g).equal (.finite 1) with _ | _
  · obtain ⟨sc, hsc, -, -⟩ := scale_eq machine pow (Width.top_pos (w := w)) Width.top_lt.le
    have hzero : (ieee machine pow).single 0 = .finite 0 := by
      exact_mod_cast single_natCast machine pow (n := 0) (by decide)
    have hmul : ((ieee machine pow).single ((0 : ℕ) : ℚ)).mul (ieee machine pow).single
        ((ieee machine pow).scale (w.top + 1)) = .finite 0 := by
      rw [hsc, Nat.cast_zero, hzero, Extended.mul_finite, zero_mul, hzero]
    rw [curve_of_pow machine hone zero_le_one (by rw [hmul, hp.zero_positive _ hg, Nat.cast_zero]),
      zero_mul]
  · exact curve_one _ hone

theorem NonNegative.less_of_ne {y : Double} (hy : NonNegative y) (hne : y ≠ .finite 0) :
    (Extended.finite 0).less y = true := by
  rcases y with _ | s | x
  · exact absurd rfl hy.1
  · simpa [NonNegative, Extended.less] using hy
  · have hx : 0 ≤ x := by simpa [NonNegative, Extended.less] using hy
    have hx0 : 0 ≠ x := fun h => hne (by rw [h])
    simpa [Extended.less] using lt_of_le_of_ne hx hx0

/-- A gamma of zero leaves only the largest sample. -/
theorem curve_of_zero (hp : PowLaws pow) (hg : (ieee machine pow).toFloat g = .finite 0) (v : ℕ) :
    (ieee machine pow).curve g (8 * w.size) v = w.top := by
  have hone : ((ieee machine pow).toFloat g).equal (.finite 1) = false := by
    rw [hg]
    decide +kernel
  rw [curve_of_pow machine hone le_rfl (by rw [hg, hp.exponent_zero, Nat.cast_one]), one_mul]

theorem curve_le (hp : PowLaws pow) (hg : ((ieee machine pow).toFloat g).equal (.finite 1) = true ∨
    NonNegative ((ieee machine pow).toFloat g)) (hv : v ≤ w.top) :
    (ieee machine pow).curve g (8 * w.size) v ≤ w.top := by
  rcases hone : ((ieee machine pow).toFloat g).equal (.finite 1) with _ | _
  · rw [hone] at hg
    obtain ⟨x, hx, hle⟩ := gammaValue_eq machine hp (hg.resolve_left Bool.false_ne_true)
      (Width.top_pos (w := w)) Width.top_lt hv
    rw [curve, hone, if_neg Bool.false_ne_true, Width.two_pow_bits, hx,
      toUInt16_natCast _ (hle.trans_lt Width.top_lt)]
    exact hle
  · rwa [curve_one _ hone]

theorem luminance_of_weighted {top r g b : ℕ} {x : ℚ} {n : ℕ}
    (h : weighted (toFormat binary32 128) top r g b = .finite x) (hx : truncate x = n)
    (hn : n < 2 ^ 31) : (ieee machine pow).luminance top r g b = n := by
  have hw : weighted (ieee machine pow).single top r g b = .finite x := h
  rw [luminance, hw, toInt, hx, if_pos ⟨by omega, by exact_mod_cast hn⟩, Int.toNat_natCast]

theorem luminance_top : (ieee machine pow).luminance w.top w.top w.top w.top = w.top := by
  refine luminance_of_weighted machine (x := w.top) ?_ (by simp [truncate]) (by cases w <;> decide)
  cases w <;> decide +kernel

end Arithmetic

end AirSane
