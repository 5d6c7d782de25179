import AirSane.Numbers.Grid
import Mathlib.Data.List.Sort
import Mathlib.Algebra.Order.Archimedean.Basic
import Mathlib.Data.Rat.Floor

/-! # Discrete resolutions

`discretizeResolutions` in exact arithmetic: the first resolution, the doublings of
75 dpi rounded down to the steps of the scanner, and the last resolution that is
such a step.
-/

namespace AirSane
open Numbers

def roundToNearestStep (value min step : ℚ) : ℚ := min + ⌊(value - min) / step⌋ * step

/-- A resolution goes to the end of the list if it is larger than the last one. -/
def pushLarger (resolutions : List ℚ) (r2 : ℚ) : List ℚ :=
  if r2 > resolutions.getLast?.getD 0 then resolutions ++ [r2] else resolutions

/-- The loop of `discretizeResolutions`, from a resolution on. -/
def doubleResolutions (min max step : ℚ) : ℕ → ℚ → List ℚ → Option (List ℚ)
  | 0, _, _ => none
  | fuel + 1, r, resolutions =>
    let r2 := roundToNearestStep r min step
    if r2 ≤ max then doubleResolutions min max step fuel (r * 2) (pushLarger resolutions r2)
    else some resolutions

def discretizeResolutions (fuel : ℕ) (min max step : ℚ) : Option (List ℚ) :=
  let step := if step < 1 then 1 else step
  (doubleResolutions min max step fuel 75 [min]).map fun resolutions =>
    pushLarger resolutions (roundToNearestStep max min step)

/-- What there is after some doublings. -/
structure Doubled (min max step : ℚ) (k : ℕ) (resolutions : List ℚ) : Prop where
  head : resolutions.head? = some min
  increasing : resolutions.Pairwise (· < ·)
  grid : ∀ r ∈ resolutions, r ∈ grid min step ∧ r ≤ max
  found : ∀ r ∈ resolutions, r = min ∨ ∃ j < k, r = floorGrid min step (75 * 2 ^ j)
  complete : ∀ j < k, min ≤ 75 * 2 ^ j → floorGrid min step (75 * 2 ^ j) ∈ resolutions

/-- The list of resolutions between two of them in steps. -/
structure Discretized (min max step : ℚ) (resolutions : List ℚ) : Prop where
  increasing : resolutions.Pairwise (· < ·)
  head : resolutions.head? = some min
  grid : ∀ r ∈ resolutions, r ∈ grid min step ∧ min ≤ r ∧ r ≤ max
  last : ∃ r, resolutions.getLast? = some r ∧ IsGreatest {y | y ∈ Numbers.grid min step ∧ y ≤ max} r
  complete : ∀ k : ℕ, min ≤ 75 * 2 ^ k → ∀ r,
    IsGreatest {y | y ∈ Numbers.grid min step ∧ y ≤ 75 * 2 ^ k} r → r ≤ max → r ∈ resolutions

section
variable {min max step r : ℚ} {resolutions : List ℚ} {k : ℕ}

theorem roundToNearestStep_eq : roundToNearestStep r min step = floorGrid min step r := rfl

theorem mem_pushLarger {x : ℚ} (hx : x ∈ resolutions) : x ∈ pushLarger resolutions r := by
  rw [pushLarger]
  split_ifs
  · exact List.mem_append_left _ hx
  · exact hx

theorem of_mem_pushLarger {x : ℚ} (hx : x ∈ pushLarger resolutions r) :
    x ∈ resolutions ∨ x = r ∧ resolutions.getLast?.getD 0 < r := by
  rw [pushLarger] at hx
  split_ifs at hx with hr
  · rw [List.mem_append, List.mem_singleton] at hx
    exact hx.imp_right fun h => ⟨h, hr⟩
  · exact .inl hx

theorem getLast_mem (h : resolutions ≠ []) : resolutions.getLast?.getD 0 ∈ resolutions := by
  rw [List.getLast?_eq_some_getLast h]
  exact List.getLast_mem h

/-- The last of increasing resolutions is the largest. -/
theorem le_getLast (h : resolutions.Pairwise (· < ·)) {x : ℚ} (hx : x ∈ resolutions) :
    x ≤ resolutions.getLast?.getD 0 := by
  rcases List.eq_nil_or_concat resolutions with rfl | ⟨l, y, rfl⟩
  · cases hx
  · rw [List.concat_eq_append] at h hx ⊢
    rw [List.getLast?_concat, Option.getD_some]
    rw [List.pairwise_append] at h
    rw [List.mem_append, List.mem_singleton] at hx
    rcases hx with hx | rfl
    · exact (h.2.2 x hx y (List.mem_singleton_self y)).le
    · exact le_rfl

theorem pairwise_pushLarger (h : resolutions.Pairwise (· < ·)) :
    (pushLarger resolutions r).Pairwise (· < ·) := by
  rw [pushLarger]
  split_ifs with hr
  · rw [List.pairwise_append]
    refine ⟨h, List.pairwise_singleton _ _, fun x hx y hy => ?_⟩
    rw [List.mem_singleton.1 hy]
    exact (le_getLast h hx).trans_lt hr
  · exact h

theorem head?_pushLarger (h : resolutions.head? = some min) :
    (pushLarger resolutions r).head? = some min := by
  rw [pushLarger]
  split_ifs
  · rw [List.head?_append, h, Option.some_or]
  · exact h

/-- A resolution that is not smaller than any comes last. -/
theorem getLast?_pushLarger (hne : resolutions ≠ []) (h : ∀ x ∈ resolutions, x ≤ r) :
    (pushLarger resolutions r).getLast? = some r := by
  rw [pushLarger]
  split_ifs with hr
  · exact List.getLast?_concat
  · have hlast : resolutions.getLast?.getD 0 = r :=
      le_antisymm (h _ (getLast_mem hne)) (not_lt.1 hr)
    rw [List.getLast?_eq_some_getLast hne, Option.getD_some] at hlast
    rw [List.getLast?_eq_some_getLast hne, hlast]

theorem self_mem_pushLarger (hne : resolutions ≠ []) (h : ∀ x ∈ resolutions, x ≤ r) :
    r ∈ pushLarger resolutions r := List.mem_of_getLast? (getLast?_pushLarger hne h)

namespace Doubled

theorem ne_nil (h : Doubled min max step k resolutions) : resolutions ≠ [] := by
  rintro rfl
  cases h.head

theorem min_mem (h : Doubled min max step k resolutions) : min ∈ resolutions :=
  List.mem_of_head? h.head

theorem start (h : min ≤ max) : Doubled min max step 0 [min] where
  head := rfl
  increasing := List.pairwise_singleton _ _
  grid r hr := by
    rw [List.mem_singleton.1 hr]
    exact ⟨first_mem_grid, h⟩
  found r hr := .inl (List.mem_singleton.1 hr)
  complete j hj := absurd hj (Nat.not_lt_zero j)

theorem mono_two_pow {j k : ℕ} (h : j ≤ k) : (75 : ℚ) * 2 ^ j ≤ 75 * 2 ^ k :=
  mul_le_mul_of_nonneg_left (pow_le_pow_right₀ (by norm_num) h) (by norm_num)

/-- What has been found is not larger than what comes next. -/
theorem le_next (hs : 0 < step) (h : Doubled min max step k resolutions)
    (hk : min ≤ 75 * 2 ^ k) : ∀ x ∈ resolutions, x ≤ floorGrid min step (75 * 2 ^ k) := by
  intro x hx
  rcases h.found x hx with rfl | ⟨j, hj, rfl⟩
  · exact first_le_floorGrid hs hk
  · exact floorGrid_mono hs (mono_two_pow hj.le)

theorem next (hs : 0 < step) (h : Doubled min max step k resolutions)
    (hr : floorGrid min step (75 * 2 ^ k) ≤ max) :
    Doubled min max step (k + 1) (pushLarger resolutions (floorGrid min step (75 * 2 ^ k))) where
  head := head?_pushLarger h.head
  increasing := pairwise_pushLarger h.increasing
  grid r hmem := by
    rcases of_mem_pushLarger hmem with hmem | ⟨rfl, hlast⟩
    · exact h.grid r hmem
    · have hmin : min ≤ 75 * 2 ^ k :=
        ((le_getLast h.increasing h.min_mem).trans hlast.le).trans (floorGrid_le hs)
      exact ⟨(isGreatest_floorGrid hs hmin).1.1, hr⟩
  found r hmem := by
    rcases of_mem_pushLarger hmem with hmem | ⟨rfl, -⟩
    · exact (h.found r hmem).imp_right fun ⟨j, hj, heq⟩ => ⟨j, hj.trans k.lt_succ_self, heq⟩
    · exact .inr ⟨k, k.lt_succ_self, rfl⟩
  complete j hj hmin := by
    rcases Nat.lt_succ_iff_lt_or_eq.1 hj with hj | rfl
    · exact mem_pushLarger (h.complete j hj hmin)
    · exact self_mem_pushLarger h.ne_nil (h.le_next hs hmin)

end Doubled

/-- The loop ends, as the doublings pass the last resolution. -/
theorem doubleResolutions_spec (hs : 0 < step) (d : ℕ) {k : ℕ} {resolutions : List ℚ}
    (h : Doubled min max step k resolutions)
    (hd : max < floorGrid min step (75 * 2 ^ (k + d))) :
    ∃ k' l, Doubled min max step k' l ∧ max < floorGrid min step (75 * 2 ^ k') ∧
      ∀ fuel > d, doubleResolutions min max step fuel (75 * 2 ^ k) resolutions = some l := by
  induction d generalizing k resolutions with
  | zero =>
    refine ⟨k, resolutions, h, hd, fun fuel hfuel => ?_⟩
    obtain ⟨fuel, rfl⟩ := Nat.exists_eq_add_one.2 hfuel
    rw [doubleResolutions, roundToNearestStep_eq]
    exact if_neg hd.not_ge
  | succ d ih =>
    by_cases hr : floorGrid min step (75 * 2 ^ k) ≤ max
    · obtain ⟨k', l, hl, hlast, hrun⟩ := ih (h.next hs hr) (by rwa [Nat.add_right_comm])
      refine ⟨k', l, hl, hlast, fun fuel hfuel => ?_⟩
      obtain ⟨fuel, rfl⟩ := Nat.exists_eq_add_one.2 (Nat.zero_lt_of_lt hfuel)
      rw [doubleResolutions, roundToNearestStep_eq]
      refine (if_pos hr).trans ?_
      rw [mul_assoc, ← pow_succ]
      exact hrun fuel (by omega)
    · refine ⟨k, resolutions, h, not_le.1 hr, fun fuel hfuel => ?_⟩
      obtain ⟨fuel, rfl⟩ := Nat.exists_eq_add_one.2 (Nat.zero_lt_of_lt hfuel)
      rw [doubleResolutions, roundToNearestStep_eq]
      exact if_neg hr

/-- After the loop there is the last resolution left. -/
theorem Doubled.discretized (hs : 0 < step) (hle : min ≤ max) (h : Doubled min max step k resolutions)
    (hk : max < floorGrid min step (75 * 2 ^ k)) :
    Discretized min max step (pushLarger resolutions (roundToNearestStep max min step)) := by
  have hgreatest := isGreatest_floorGrid hs hle
  have hlast : ∀ x ∈ resolutions, x ≤ floorGrid min step max := fun x hx =>
    hgreatest.2 (h.grid x hx)
  rw [roundToNearestStep_eq]
  refine ⟨pairwise_pushLarger h.increasing, head?_pushLarger h.head, fun r hr => ?_,
    ⟨_, getLast?_pushLarger h.ne_nil hlast, hgreatest⟩, fun j hj r hr hrmax => ?_⟩
  · rcases of_mem_pushLarger hr with hr | ⟨rfl, -⟩
    · obtain ⟨⟨m, hm⟩, hrmax⟩ := h.grid r hr
      have hmul : 0 ≤ (m : ℚ) * step := mul_nonneg m.cast_nonneg hs.le
      exact ⟨⟨m, hm⟩, by linarith, hrmax⟩
    · exact ⟨hgreatest.1.1, first_le_floorGrid hs hle, hgreatest.1.2⟩
  · obtain rfl := hr.unique (isGreatest_floorGrid hs hj)
    have hjk : j < k := by
      by_contra hkj
      exact absurd (hk.trans_le (floorGrid_mono hs (mono_two_pow (not_lt.1 hkj)))) hrmax.not_gt
    exact mem_pushLarger (h.complete j hjk hj)

theorem exists_floorGrid_gt (hs : 0 < step) (min max : ℚ) :
    ∃ k : ℕ, max < floorGrid min step (75 * 2 ^ k) := by
  obtain ⟨k, hk⟩ := pow_unbounded_of_one_lt (max + step) (one_lt_two : (1 : ℚ) < 2)
  have hpos : (0 : ℚ) < 2 ^ k := by positivity
  have hlt : 75 * 2 ^ k < floorGrid min step (75 * 2 ^ k) + step := lt_floorGrid_add hs
  exact ⟨k, by linarith⟩

/-- The list is made in finitely many steps, and it has what it should have. -/
theorem discretizeResolutions_spec (min max step : ℚ) (h : min ≤ max) :
    ∃ resolutions, (∃ n, ∀ fuel ≥ n, discretizeResolutions fuel min max step = some resolutions) ∧
      Discretized min max (if step < 1 then 1 else step) resolutions := by
  have hs : 0 < if step < 1 then 1 else step := by
    split_ifs with hstep
    · exact one_pos
    · linarith
  generalize hstep : (if step < 1 then 1 else step) = step' at hs
  obtain ⟨d, hd⟩ := exists_floorGrid_gt hs min max
  obtain ⟨k, l, hl, hlast, hrun⟩ := doubleResolutions_spec hs d (Doubled.start h)
    (by rwa [Nat.zero_add])
  refine ⟨_, ⟨d + 1, fun fuel hfuel => ?_⟩, hl.discretized hs h hlast⟩
  rw [pow_zero, mul_one] at hrun
  simp only [discretizeResolutions, hstep, hrun fuel hfuel, Option.map_some]

/-- From 100 to 600 dpi in steps of 30. -/
theorem discretizeResolutions_spec_100 :
    ∃ resolutions, (∃ n, ∀ fuel ≥ n, discretizeResolutions fuel 100 600 30 = some resolutions) ∧
      Discretized 100 600 (if (30 : ℚ) < 1 then 1 else 30) resolutions :=
  discretizeResolutions_spec 100 600 30 (by norm_num)

example : discretizeResolutions 5 100 600 30 = some [100, 130, 280, 580] := by decide +kernel

end

end AirSane
