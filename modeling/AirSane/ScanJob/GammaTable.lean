import AirSane.Numbers.RoundingBounds
import AirSane.ScanJob.Determined
import AirSane.ScanJob.Doubles

/-! # Gamma tables

The depth of a color mode is a shift count, a size and a divisor of the gamma
table. A table of one to sixteen bits has entries of sixteen bits for every gamma
that is not negative; `pow` is known by what its documentation says.
-/

namespace AirSane
open Text Numbers

/-- What `pow` does with zero and between zero and one. -/
structure PowLaws (pow : Double → Double → Double) : Prop where
  zero_nan : pow (.finite 0) .nan = .nan
  zero_negative : ∀ y, y.less (.finite 0) = true → pow (.finite 0) y = .infinite false
  zero_positive : ∀ y, (Extended.finite 0).less y = true → pow (.finite 0) y = .finite 0
  one : ∀ y, pow (.finite 1) y = .finite 1
  exponent_zero : ∀ x, pow x (.finite 0) = .finite 1
  unit : ∀ x y, 0 ≤ x → x ≤ 1 → y ≠ .nan → y.less (.finite 0) = false →
    ∃ z, pow (.finite x) y = .finite z ∧ 0 ≤ z ∧ z ≤ 1

namespace Arithmetic
variable (machine : Double → ℤ) (pow : Double → Double → Double) {x : ℚ}

theorem toFormat_finite {G : Numbers.Format} {top : ℕ} (hp : 1 ≤ G.precision)
    (hmin : G.minExponent ≤ 0) (htop : 16 < top) (hx : 0 ≤ x) (h : x ≤ 2 ^ 16) :
    toFormat G top x = .finite (G.round x) := by
  have hround : G.round x ≤ (2 : ℚ) ^ (16 : ℤ) :=
    round_le hp (by omega) hx (by exact_mod_cast h)
  have hlt : G.round x < 2 ^ top := by
    refine hround.trans_lt ?_
    exact_mod_cast pow_lt_pow_right₀ (by norm_num : (1 : ℚ) < 2) htop
  rw [toFormat, abs_of_nonneg hx, if_neg hlt.not_ge, if_neg hx.not_gt]

theorem single_finite (hx : 0 ≤ x) (h : x ≤ 2 ^ 16) :
    (ieee machine pow).single x = .finite (binary32.round x) :=
  toFormat_finite (by decide) (by decide) (by decide) hx h

theorem double_finite (hx : 0 ≤ x) (h : x ≤ 2 ^ 16) :
    (ieee machine pow).double x = .finite (binary64.round x) :=
  toFormat_finite (by decide) (by decide) (by decide) hx h

theorem single_natCast {n : ℕ} (h : n ≤ 2 ^ 16) :
    (ieee machine pow).single n = .finite n := by
  rw [single_finite machine pow (Nat.cast_nonneg n) (by exact_mod_cast h),
    round_natCast (by decide) (show n < 2 ^ 24 by omega)]

/-- The reciprocal of the largest index, at most half a last digit too large. -/
theorem scale_eq {n : ℕ} (hn : 0 < n) (h : n ≤ 2 ^ 16) :
    ∃ sc, (ieee machine pow).scale (n + 1) = .finite sc ∧ 0 ≤ sc ∧ n * sc ≤ 1 + 1 / 2 ^ 24 := by
  have hpos : (0 : ℚ) < n := by exact_mod_cast hn
  have hinv : (0 : ℚ) ≤ 1 / n := by positivity
  refine ⟨binary32.round (1 / n : ℚ), ?_, round_nonneg hinv, ?_⟩
  · have hcast : (((n + 1 : ℕ) : ℤ) - 1 : ℤ) = (n : ℤ) := by push_cast; ring
    have hle : (1 : ℚ) / n ≤ 2 ^ 16 := by
      rw [div_le_iff₀ hpos]
      have hone : (1 : ℚ) ≤ n := by exact_mod_cast hn
      linarith
    rw [scale, hcast, Int.cast_natCast, single_natCast machine pow h, Extended.div_finite hpos.ne',
      single_finite machine pow hinv hle]
  · have hlog : (-16 : ℤ) ≤ Int.log 2 (1 / n : ℚ) := by
      rw [← Int.zpow_le_iff_le_log one_lt_two (by positivity)]
      rw [le_div_iff₀ hpos]
      have hle : (n : ℚ) ≤ 2 ^ 16 := by exact_mod_cast h
      norm_num
      linarith
    have hround := round_le_mul (F := binary32) (m := (1 / n : ℚ)) (by positivity)
      (show (-149 : ℤ) ≤ _ + 1 - (24 : ℕ) by push_cast; omega)
    have hmul := mul_le_mul_of_nonneg_left hround hpos.le
    have hone : (n : ℚ) * (1 / n * (1 + 2 ^ (-binary32.precision : ℤ))) = 1 + 1 / 2 ^ 24 := by
      field_simp
      norm_num [binary32]
    linarith

/-- A number that is not negative. -/
def NonNegative (y : Double) : Prop := y ≠ .nan ∧ y.less (.finite 0) = false

theorem single_unit (h0 : 0 ≤ x) (h : x ≤ 1 + 1 / 2 ^ 24) :
    ∃ y, (ieee machine pow).single x = .finite y ∧ 0 ≤ y ∧ y ≤ 1 := by
  have hle : x ≤ 2 ^ 16 := h.trans (by norm_num)
  have hone : x ≤ (2 : ℚ) ^ (0 : ℤ) + 2 ^ ((0 : ℤ) - (binary32.precision : ℤ)) := by
    rw [show (0 : ℤ) - (binary32.precision : ℤ) = -24 from rfl]
    exact h.trans (by norm_num)
  have hround := round_le_of_le_half (F := binary32) (k := 0) (by decide) (by decide) h0 hone
  rw [zpow_zero] at hround
  exact ⟨_, single_finite machine pow h0 hle, round_nonneg h0, hround⟩

variable {pow}

/-- An entry of a table that ends at a number of sixteen bits is not larger than that. -/
theorem gammaValue_eq (hp : PowLaws pow) {g : Double} (hg : NonNegative g) {n i : ℕ} (hn : 0 < n)
    (h : n < 2 ^ 16) (hi : i ≤ n) :
    ∃ v : ℕ, (ieee machine pow).gammaValue g (n + 1) i = .finite v ∧ v ≤ n := by
  rcases scale_eq machine pow hn h.le with ⟨sc, hsc, hsc0, hsc1⟩
  have hi' : (i : ℚ) * sc ≤ 1 + 1 / 2 ^ 24 :=
    (mul_le_mul_of_nonneg_right (by exact_mod_cast hi) hsc0).trans hsc1
  rcases single_unit machine pow (by positivity) hi' with ⟨y, hy, hy0, hy1⟩
  rcases hp.unit y g hy0 hy1 hg.1 hg.2 with ⟨z, hz, hz0, hz1⟩
  rcases single_unit machine pow hz0 (hz1.trans (by norm_num))
    with ⟨z', hz', hz'0, hz'1⟩
  have hn' : (n : ℚ) ≤ 2 ^ 16 := by exact_mod_cast h.le
  have hzn : z' * n ≤ n := by
    have hmul := mul_le_mul_of_nonneg_right hz'1 (Nat.cast_nonneg (α := ℚ) n)
    rwa [one_mul] at hmul
  have hzn0 : 0 ≤ z' * n := by positivity
  have hw := round_le_of_le (F := binary32) (a := n) (e := 0) (m := z' * n)
    (show n < 2 ^ 24 by omega) (by decide) hzn0 (by simpa using hzn)
  have hw0 : 0 ≤ binary32.round (z' * n) := round_nonneg hzn0
  rw [zpow_zero, mul_one] at hw
  have hhalf : binary32.round (z' * n) + 1 / 2 ≤ ((2 * n + 1 : ℕ) : ℚ) * 2 ^ (-1 : ℤ) := by
    push_cast
    rw [zpow_neg_one]
    linarith
  have hv := round_le_of_le (F := binary64) (a := 2 * n + 1) (e := -1)
    (show 2 * n + 1 < 2 ^ 53 by omega) (by decide) (by positivity) hhalf
  have hv0 : 0 ≤ binary64.round (binary32.round (z' * n) + 1 / 2) :=
    round_nonneg (by positivity)
  have hfloor : ⌊binary64.round (binary32.round (z' * n) + 1 / 2)⌋ < (n : ℤ) + 1 := by
    rw [Int.floor_lt]
    refine hv.trans_lt ?_
    push_cast
    rw [zpow_neg_one]
    linarith
  have hfloor0 : 0 ≤ ⌊binary64.round (binary32.round (z' * n) + 1 / 2)⌋ := Int.floor_nonneg.2 hv0
  obtain ⟨v, hcast⟩ := Int.eq_ofNat_of_zero_le hfloor0
  refine ⟨v, ?_, by omega⟩
  have hsize : (((n + 1 : ℕ) : ℤ) - 1 : ℤ) = (n : ℤ) := by push_cast; ring
  have hdouble : (ieee machine pow).double (binary32.round (z' * n) + 1 / 2) =
      .finite (binary64.round (binary32.round (z' * n) + 1 / 2)) :=
    double_finite machine pow (by positivity) (by
      have h16 : (n : ℚ) + 1 ≤ 2 ^ 16 := by exact_mod_cast h
      linarith)
  have hpow : (ieee machine pow).pow (.finite y) g = .finite z := hz
  rw [gammaValue, hsc, single_natCast machine pow (show i ≤ 2 ^ 16 by omega)]
  simp only [Extended.mul_finite, hy, hpow, toFloat_finite, hz', hsize, Int.cast_natCast,
    single_natCast machine pow h.le]
  rw [single_finite machine pow hzn0 (hzn.trans hn'), rounded, Extended.add_finite, hdouble,
    Extended.floor_finite, hcast, Int.cast_natCast, toFloat_finite]
  exact single_natCast machine pow (show v ≤ 2 ^ 16 by omega)

/-- The first entry of a table for a gamma that is negative or not a number has no
value. -/
theorem gammaValue_zero (hp : PowLaws pow) {g : Double} (hg : ¬ NonNegative g) {n : ℕ} (hn : 0 < n)
    (h : n < 2 ^ 16) (x : ℚ) : (ieee machine pow).gammaValue g (n + 1) 0 ≠ .finite x := by
  rcases scale_eq machine pow hn h.le with ⟨sc, hsc, -, -⟩
  have hsize : (((n + 1 : ℕ) : ℤ) - 1 : ℤ) = (n : ℤ) := by push_cast; ring
  have hzero : (ieee machine pow).single 0 = .finite 0 := by
    exact_mod_cast single_natCast machine pow (n := 0) (by decide)
  have hpos : (0 : ℚ) < n := by exact_mod_cast hn
  rw [gammaValue, hsc, Nat.cast_zero, hzero, Extended.mul_finite, zero_mul, hzero, hsize,
    Int.cast_natCast, single_natCast machine pow h.le]
  rw [NonNegative, not_and_or, not_not, Bool.not_eq_false] at hg
  rcases hg with rfl | hg
  · have hpow : (ieee machine pow).pow (.finite 0) .nan = .nan := hp.zero_nan
    simp [hpow, rounded]
  · have hpow : (ieee machine pow).pow (.finite 0) g = .infinite false := hp.zero_negative g hg
    simp [hpow, rounded, Extended.mul_infinite hpos.ne']

end Arithmetic

namespace ScanJob

def Options.gamma {D : Type} (options : Options D) (colorScan : Bool) : D :=
  if colorScan then options.color_gamma else options.gray_gamma

/-- The flag of a job by the ticket, and by what was in memory for no mode it knows. -/
def requestsColor {D : Type} (xml : Octets) (u : Memory D) : Bool :=
  match colorMode xml with
  | some (c, _) => if c = ascii "RGB" then true else if c = ascii "Grayscale" then false
    else u.mColorScan
  | none => u.mColorScan

/-- The depth of a job by the ticket: as the digits say for a mode that the scanner has. -/
def requestedDepth (scanner : ScannerDescription) (xml : Octets) : ℤ :=
  match colorMode xml with
  | some (c, digits) =>
    if c = ascii "RGB" ∧ scanner.colorScanModeName ≠ [] then decimalValue digits / 3
    else if c = ascii "Grayscale" ∧ scanner.grayScanModeName ≠ [] then decimalValue digits
    else 8
  | none => 8

/-- A table of gamma values is an object of its size, with entries of sixteen bits. -/
structure TableDefined (F : Arithmetic) (gammaVal : Double) (bitDepth : ℤ) : Prop where
  depth : 1 ≤ bitDepth ∧ bitDepth ≤ 16
  size : InInt (2 ^ bitDepth.toNat)
  divisor : (2 : ℤ) ^ bitDepth.toNat - 1 ≠ 0
  allocation : 2 ^ bitDepth.toNat ≤ 65536
  entries : ∀ i < 2 ^ bitDepth.toNat, ∃ v : ℕ, v < 2 ^ 16 ∧
    F.gammaValue gammaVal (2 ^ bitDepth.toNat) i = .finite v

/-- `atoi` has a value for the digits of the color mode, and so has the table of a job. -/
structure GammaDefined (F : Arithmetic) (xml : Octets) (j : Job Double) : Prop where
  digits : ∀ c digits, colorMode xml = some (c, digits) → InInt (decimalValue digits)
  table : (F.toFloat (j.mDeviceOptions.gamma j.mColorScan)).equal (.finite 1) = false →
    TableDefined F (F.toFloat (j.mDeviceOptions.gamma j.mColorScan)) j.mBitDepth

section
variable {D : Type} {A : Doubles D} {scanner : ScannerDescription} {xml : Octets} {u : Memory D}
variable {autoselectFormat : Bool} {options : Options D} {j : Job D}

theorem setColorMode_mColorScan (hj : j.mColorScan = u.mColorScan) :
    (j.setColorMode scanner xml).mColorScan = requestsColor xml u := by
  rw [Job.setColorMode, requestsColor]
  rcases colorMode xml with _ | ⟨c, digits⟩
  · exact hj
  · by_cases hrgb : c = ascii "RGB"
    · simp [hrgb]
    · by_cases hgray : c = ascii "Grayscale"
      · simp [hgray, ascii]
      · simp [hrgb, hgray, hj]

theorem choose_constructed_mColorScan :
    ((Job.constructed A u).choose A scanner xml).mColorScan = requestsColor xml u := by
  rw [Job.choose, defaultColorMode_mColorScan]
  exact setColorMode_mColorScan rfl

theorem defaultColorMode_mBitDepth : (j.defaultColorMode scanner).mBitDepth =
    if j.mColorMode = [] then 8 else j.mBitDepth := by
  rw [Job.defaultColorMode]
  split_ifs <;> rfl

theorem setColorMode_mBitDepth (hj : j.mColorMode = []) :
    (if (j.setColorMode scanner xml).mColorMode = [] then 8
      else (j.setColorMode scanner xml).mBitDepth) = requestedDepth scanner xml := by
  rw [Job.setColorMode, requestedDepth]
  rcases colorMode xml with _ | ⟨c, digits⟩
  · exact if_pos hj
  · by_cases hrgb : c = ascii "RGB"
    · by_cases hmode : scanner.colorScanModeName = [] <;> simp [hrgb, hmode, ascii]
    · by_cases hgray : c = ascii "Grayscale"
      · by_cases hmode : scanner.grayScanModeName = [] <;> simp [hgray, hmode, ascii]
      · simp [hrgb, hgray, hj]

theorem choose_constructed_mBitDepth : ((Job.constructed A u).choose A scanner xml).mBitDepth =
    requestedDepth scanner xml := by
  rw [Job.choose, defaultColorMode_mBitDepth]
  exact setColorMode_mBitDepth rfl

theorem setInputSource_mBitDepth :
    (j.setInputSource A scanner xml).mBitDepth = j.mBitDepth := by
  rw [Job.setInputSource]
  split_ifs <;> rfl

theorem init_mBitDepth : (j.init A scanner xml autoselectFormat options).mBitDepth =
    (j.choose A scanner xml).mBitDepth := by
  rcases setState_eq (A := A) with ⟨state, reason, h⟩
  rw [Job.init, h]
  exact setInputSource_mBitDepth

theorem init_mDeviceOptions : (j.init A scanner xml autoselectFormat options).mDeviceOptions =
    options := by
  rcases setState_eq (A := A) with ⟨state, reason, h⟩
  rw [Job.init, h]
  rfl

end

section
variable {machine : Double → ℤ} {pow : Double → Double → Double}

/-- A table has a value for one to sixteen bits, unless the gamma is negative or not a
number. -/
theorem tableDefined_iff (hp : PowLaws pow) {g : Double} {bitDepth : ℤ} :
    TableDefined (.ieee machine pow) g bitDepth ↔
      (1 ≤ bitDepth ∧ bitDepth ≤ 16) ∧ Arithmetic.NonNegative g := by
  constructor
  · intro h
    refine ⟨h.depth, ?_⟩
    by_contra hg
    obtain ⟨n, hn⟩ : ∃ n, 2 ^ bitDepth.toNat = n + 1 := Nat.exists_eq_add_one.2 (by positivity)
    have hdivisor := h.divisor
    have hallocation := h.allocation
    have hcast : (2 : ℤ) ^ bitDepth.toNat = n + 1 := by exact_mod_cast hn
    obtain ⟨v, -, hv⟩ := h.entries 0 (by positivity)
    rw [hn] at hv
    exact Arithmetic.gammaValue_zero machine hp hg (by omega) (by omega) v hv
  · rintro ⟨⟨h1, h16⟩, hg⟩
    have hle : 2 ^ bitDepth.toNat ≤ 65536 :=
      Nat.pow_le_pow_right (by decide) (show bitDepth.toNat ≤ 16 by omega)
    have hge : 2 ≤ 2 ^ bitDepth.toNat :=
      Nat.le_self_pow (show bitDepth.toNat ≠ 0 by omega) 2
    have hcast : ((2 ^ bitDepth.toNat : ℕ) : ℤ) = 2 ^ bitDepth.toNat := by push_cast; rfl
    obtain ⟨n, hn⟩ : ∃ n, 2 ^ bitDepth.toNat = n + 1 := Nat.exists_eq_add_one.2 (by positivity)
    refine ⟨⟨h1, h16⟩, ?_, by omega, hle, fun i hi => ?_⟩
    · rw [InInt]
      omega
    · rw [hn] at hi ⊢
      obtain ⟨v, hv, hvn⟩ := Arithmetic.gammaValue_eq machine hp hg (n := n) (i := i)
        (by omega) (by omega) (by omega)
      exact ⟨v, by omega, hv⟩

/-- The table of a ticket's job has a value if the digits of the color mode are a depth
and the gamma is not negative, or one, for which there is no table. -/
theorem gammaDefined_iff (machine : Double → ℤ) (pow : Double → Double → Double)
    (hp : PowLaws pow) (scanner : ScannerDescription) (xml : Octets) (autoselectFormat : Bool)
    (options : Options Double) (u : Memory Double) :
    let F := Arithmetic.ieee machine pow
    GammaDefined F xml ((Job.constructed F.doubles u).init F.doubles scanner xml autoselectFormat
        options) ↔
      (∀ c digits, colorMode xml = some (c, digits) → InInt (decimalValue digits)) ∧
        ((F.toFloat (options.gamma (requestsColor xml u))).equal (.finite 1) = true ∨
          (1 ≤ requestedDepth scanner xml ∧ requestedDepth scanner xml ≤ 16) ∧
            Arithmetic.NonNegative (F.toFloat (options.gamma (requestsColor xml u)))) := by
  intro F
  set j := (Job.constructed F.doubles u).init F.doubles scanner xml autoselectFormat options with hj
  have hdepth : j.mBitDepth = requestedDepth scanner xml := by
    rw [hj, init_mBitDepth, choose_constructed_mBitDepth]
  have hcolor : j.mColorScan = requestsColor xml u := by
    rw [hj, init_mColorScan, choose_constructed_mColorScan]
  have hoptions : j.mDeviceOptions = options := init_mDeviceOptions
  constructor
  · rintro ⟨hdigits, htable⟩
    refine ⟨hdigits, ?_⟩
    rw [hoptions, hcolor, hdepth] at htable
    rcases hone : (F.toFloat (options.gamma (requestsColor xml u))).equal (.finite 1) with _ | _
    · exact .inr ((tableDefined_iff hp).1 (htable hone))
    · exact .inl rfl
  · rintro ⟨hdigits, hone | hdefined⟩
    · refine ⟨hdigits, fun hne => ?_⟩
      rw [hoptions, hcolor, hone] at hne
      exact absurd hne (by decide)
    · refine ⟨hdigits, fun _ => ?_⟩
      rw [hoptions, hcolor, hdepth]
      exact (tableDefined_iff hp).2 hdefined

end

/-- A power that is exact for whole exponents. -/
def wholePower (x y : Double) : Double :=
  if y = .finite 0 ∨ x = .finite 1 then .finite 1
  else match x, y with
    | .finite x, .finite y =>
      if x = 0 then if y < 0 then .infinite false else .finite 0 else .finite (x ^ ⌈y⌉)
    | .finite x, .infinite s =>
      if |x| < 1 then if s then .infinite false else .finite 0
      else if s then .finite 0 else .infinite false
    | _, _ => .nan

theorem powLaws_wholePower : PowLaws wholePower where
  zero_nan := rfl
  zero_negative y hy := by
    rcases y with _ | s | y
    · simp [Extended.less] at hy
    · simp_all [Extended.less, wholePower]
    · have hlt : y < 0 := by simpa [Extended.less] using hy
      simp [wholePower, hlt.ne, hlt]
  zero_positive y hy := by
    rcases y with _ | s | y
    · simp [Extended.less] at hy
    · simp_all [Extended.less, wholePower]
    · have hlt : 0 < y := by simpa [Extended.less] using hy
      simp [wholePower, hlt.ne', hlt.not_gt]
  one y := by simp [wholePower]
  exponent_zero x := by simp [wholePower]
  unit x y h0 h1 hnan hneg := by
    by_cases hone : y = .finite 0 ∨ Extended.finite x = .finite 1
    · exact ⟨1, by simp only [wholePower, hone, if_true], by norm_num, le_rfl⟩
    · have hlt : x < 1 := lt_of_le_of_ne h1 fun h => hone (.inr (by rw [h]))
      rcases y with _ | s | y
      · exact absurd rfl hnan
      · have hs : s = false := by simpa [Extended.less] using hneg
        have habs : |x| < 1 := by rwa [abs_of_nonneg h0]
        exact ⟨0, by simp [wholePower, hlt.ne, habs, hs], le_rfl, by norm_num⟩
      · have hy : 0 ≤ y := by simpa [Extended.less] using hneg
        by_cases hx : x = 0
        · exact ⟨0, by simp_all [wholePower, hy.not_gt], le_rfl, by norm_num⟩
        · refine ⟨x ^ ⌈y⌉, by simp_all [wholePower], zpow_nonneg h0 _, ?_⟩
          obtain ⟨n, hn⟩ := Int.eq_ofNat_of_zero_le (Int.ceil_nonneg hy)
          rw [hn, zpow_natCast]
          exact pow_le_one₀ h0 h1

/-- Eight bits of gray, with a gamma of two. -/
theorem gammaDefined_iff_grayscale8 :
    let F := Arithmetic.ieee (fun _ => 0) wholePower
    let xml := ascii "<scan:ColorMode>Grayscale8</scan:ColorMode>"
    let options : Options Double := ⟨.finite 2, .finite 2, false, []⟩
    let u := Memory.zero F.doubles
    (GammaDefined F xml ((Job.constructed F.doubles u).init F.doubles .flatbed xml false options) ↔
      (∀ c digits, colorMode xml = some (c, digits) → InInt (decimalValue digits)) ∧
        ((F.toFloat (options.gamma (requestsColor xml u))).equal (.finite 1) = true ∨
          (1 ≤ requestedDepth .flatbed xml ∧ requestedDepth .flatbed xml ≤ 16) ∧
            Arithmetic.NonNegative (F.toFloat (options.gamma (requestsColor xml u))))) ∧
      requestedDepth .flatbed xml = 8 := by
  intro F xml options u
  exact ⟨gammaDefined_iff _ _ powLaws_wholePower _ _ _ _ _, by decide +kernel⟩

/-- Thirty-one bits of gray are a table of negative size. -/
theorem not_gammaDefined_grayscale31 :
    let F := Arithmetic.ieee (fun _ => 0) wholePower
    let xml := ascii "<scan:ColorMode>Grayscale31</scan:ColorMode>"
    ¬ GammaDefined F xml ((Job.constructed F.doubles (.zero F.doubles)).init F.doubles .flatbed xml
      false ⟨.finite 2, .finite 2, false, []⟩) := by
  intro F xml h
  have hsixteen := (h.table (by decide +kernel)).depth.2
  revert hsixteen
  decide +kernel

end ScanJob

end AirSane
