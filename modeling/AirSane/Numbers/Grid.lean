import Mathlib.Algebra.Order.Floor.Ring
import Mathlib.Algebra.Order.Field.Basic
import Mathlib.Tactic.Linarith
import Mathlib.Tactic.Positivity

/-! # Grids

The values from a first one on, in equal steps, and the largest of them that is not
above a given value.
-/

namespace Numbers

/-- The values of a grid. -/
def grid {K : Type*} [Semiring K] (first step : K) : Set K := {y | ∃ m : ℕ, y = first + m * step}

theorem first_mem_grid {K : Type*} [Semiring K] {first step : K} : first ∈ grid first step :=
  ⟨0, by rw [Nat.cast_zero, zero_mul, add_zero]⟩

section
variable {K : Type*} [Field K] [LinearOrder K] [IsStrictOrderedRing K] [FloorRing K]
variable {first step x y : K}

/-- Rounding down to a grid, also below its first value. -/
def floorGrid (first step x : K) : K := first + ⌊(x - first) / step⌋ * step

theorem floorGrid_le (hs : 0 < step) : floorGrid first step x ≤ x := by
  have h := mul_le_mul_of_nonneg_right (Int.floor_le ((x - first) / step)) hs.le
  rw [div_mul_cancel₀ _ hs.ne'] at h
  rw [floorGrid]
  linarith

theorem lt_floorGrid_add (hs : 0 < step) : x < floorGrid first step x + step := by
  have h := mul_lt_mul_of_pos_right (Int.lt_floor_add_one ((x - first) / step)) hs
  rw [div_mul_cancel₀ _ hs.ne', add_mul, one_mul] at h
  rw [floorGrid]
  linarith

theorem floorGrid_mono (hs : 0 < step) (h : x ≤ y) :
    floorGrid first step x ≤ floorGrid first step y := by
  have hfloor : ⌊(x - first) / step⌋ ≤ ⌊(y - first) / step⌋ :=
    Int.floor_le_floor (div_le_div_of_nonneg_right (by linarith) hs.le)
  have hcast : (⌊(x - first) / step⌋ : K) ≤ ⌊(y - first) / step⌋ := by exact_mod_cast hfloor
  have hmul := mul_le_mul_of_nonneg_right hcast hs.le
  rw [floorGrid, floorGrid]
  linarith

/-- From the first value on it is the largest one that is not above. -/
theorem isGreatest_floorGrid (hs : 0 < step) (h : first ≤ x) :
    IsGreatest {y | y ∈ grid first step ∧ y ≤ x} (floorGrid first step x) := by
  refine ⟨⟨?_, floorGrid_le hs⟩, ?_⟩
  · have hfloor : 0 ≤ ⌊(x - first) / step⌋ := Int.floor_nonneg.2 (div_nonneg (by linarith) hs.le)
    obtain ⟨m, hm⟩ := Int.eq_ofNat_of_zero_le hfloor
    exact ⟨m, by rw [floorGrid, hm, Int.cast_natCast]⟩
  · rintro y ⟨⟨m, rfl⟩, hy⟩
    have hm : ((m : ℤ) : K) ≤ (x - first) / step := by
      rw [le_div_iff₀ hs, Int.cast_natCast]
      linarith
    have hcast : (m : K) ≤ ⌊(x - first) / step⌋ := by exact_mod_cast Int.le_floor.2 hm
    have hmul := mul_le_mul_of_nonneg_right hcast hs.le
    rw [floorGrid]
    linarith

theorem first_le_floorGrid (hs : 0 < step) (h : first ≤ x) : first ≤ floorGrid first step x :=
  (isGreatest_floorGrid hs h).2 ⟨first_mem_grid, h⟩

end

end Numbers
