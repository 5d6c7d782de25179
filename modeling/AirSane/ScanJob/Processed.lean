import AirSane.ScanJob.GammaCurve

/-! # Lines as they are processed

What the gamma table and the depth of a job make of a line, by the samples of the
line, and what is known of the curve and of the weights for it.
-/

namespace AirSane.ScanJob
open Lists Numbers

/-- A job with the table and the weights for a gamma. -/
def Settings.configured (s : Settings) (F : Arithmetic) (gamma : Double) : Settings :=
  { s with
    gammaTable := initGammaTable F.doubles gamma s.bitDepth
    luminance := F.luminance (if s.bitDepth = 8 then 255 else 65535) }

/-- A sample of a line for the encoder, by the samples of the line. -/
def encoded (F : Arithmetic) (gamma : Double) (w : Width) (gray : Bool) (line : List UInt8)
    (i : ℕ) : ℕ :=
  let sample := fun i => F.curve gamma (8 * w.size) (w.sampleAt line i)
  if gray then F.luminance w.top (sample (3 * i)) (sample (3 * i + 1)) (sample (3 * i + 2))
  else sample i

/-- A line through the gamma curve. -/
def gammaed (F : Arithmetic) (gamma : Double) (w : Width) (line : List UInt8) : List UInt8 :=
  replaced (w.byteOf fun i => F.curve gamma (8 * w.size) (w.sampleAt line i))
    (w.size * (line.length / w.size)) line

section
variable {F : Arithmetic} {g : Double} {w : Width} {line : List UInt8} {s : Settings} {i k m : ℕ}

@[simp] theorem length_gammaed : (gammaed F g w line).length = line.length := length_replaced

theorem byteAt_lt : byteAt line k < 256 := UInt8.toNat_lt _

/-- The samples of a line are its bytes. -/
theorem byteOf_sampleAt (k : ℕ) : w.byteOf (w.sampleAt line) k = line.getD k 0 := by
  cases w with
  | byte => exact byteOf_byte.trans (UInt8.ofNat_toNat ..)
  | word =>
    rcases Nat.even_or_odd' k with ⟨j, rfl | rfl⟩
    · have hmod : wordAt line j % 256 = byteAt line (2 * j) := by
        have hlt : byteAt line (2 * j) < 256 := byteAt_lt
        rw [wordAt]
        omega
      apply UInt8.toNat_inj.1
      rw [byteOf_word_low, UInt8.toNat_ofNat']
      exact hmod
    · have hdiv : wordAt line j / 256 % 256 = byteAt line (2 * j + 1) := by
        have hlow : byteAt line (2 * j) < 256 := byteAt_lt
        have hhigh : byteAt line (2 * j + 1) < 256 := byteAt_lt
        rw [wordAt]
        omega
      apply UInt8.toNat_inj.1
      rw [byteOf_word_high, UInt8.toNat_ofNat']
      exact hdiv

theorem sampleAt_le : w.sampleAt line i ≤ w.top := by
  cases w with
  | byte => exact Nat.le_of_lt_succ byteAt_lt
  | word =>
    have hlow : byteAt line (2 * i) < 256 := byteAt_lt
    have hhigh : byteAt line (2 * i + 1) < 256 := byteAt_lt
    rw [Width.sampleAt, wordAt, Width.top]
    omega

/-- A curve that leaves the samples of a line alone leaves the line alone. -/
theorem gammaed_eq_self (h : ∀ i, F.curve g (8 * w.size) (w.sampleAt line i) = w.sampleAt line i) :
    gammaed F g w line = line := by
  have hvalue : (fun i => F.curve g (8 * w.size) (w.sampleAt line i)) = w.sampleAt line := funext h
  rw [gammaed, hvalue]
  apply List.ext_getElem?
  intro k
  rw [getElem?_replaced]
  split_ifs
  · rw [byteOf_sampleAt]
    by_cases hk : k < line.length
    · rw [List.getElem?_eq_getElem hk, List.getD_eq_getElem _ _ hk]
      rfl
    · rw [List.getElem?_eq_none (Nat.not_lt.1 hk)]
      rfl
  · rfl

theorem length_initGammaTable (bitDepth : ℤ) (h : (F.toFloat g).equal (.finite 1) = false) :
    (initGammaTable F.doubles g bitDepth).length = 2 ^ bitDepth.toNat := by
  have heq : F.doubles.eq (F.doubles.toFloat g) (F.doubles.ofInt 1) = false := by
    rw [← h]
    rfl
  rw [initGammaTable, heq, if_neg Bool.false_ne_true, List.length_map, List.length_range]

theorem getD_initGammaTable {n : ℕ} {bitDepth : ℤ} (hb : bitDepth = n)
    (h : (F.toFloat g).equal (.finite 1) = false) (hi : i < 2 ^ n) :
    ((initGammaTable F.doubles g bitDepth).getD i 0).toNat = F.curve g n i := by
  have heq : F.doubles.eq (F.doubles.toFloat g) (F.doubles.ofInt 1) = false := by
    rw [← h]
    rfl
  rw [initGammaTable, heq, if_neg Bool.false_ne_true, Arithmetic.curve, h,
    if_neg Bool.false_ne_true, hb, Int.toNat_natCast, List.getD_eq_getElem?_getD, List.getElem?_map,
    List.getElem?_range hi]
  rfl

theorem initGammaTable_one (bitDepth : ℤ) (h : (F.toFloat g).equal (.finite 1) = true) :
    initGammaTable F.doubles g bitDepth = [] := by
  have heq : F.doubles.eq (F.doubles.toFloat g) (F.doubles.ofInt 1) = true := by
    rw [← h]
    rfl
  rw [initGammaTable, heq, if_pos rfl]

theorem setSample_gamma {bitDepth : ℤ} (hb : bitDepth = (8 * w.size : ℕ))
    (hone : (F.toFloat g).equal (.finite 1) = false) (i : ℕ) :
    let value := fun i => F.curve g (8 * w.size) (w.sampleAt line i)
    w.setSample (replaced (w.byteOf value) (w.size * i) line) i
      ((initGammaTable F.doubles g bitDepth).getD
        (w.sampleAt (replaced (w.byteOf value) (w.size * i) line) i) 0).toNat =
      replaced (w.byteOf value) (w.size * (i + 1)) line := by
  intro value
  have hlt : w.sampleAt line i < 2 ^ (8 * w.size) := by
    rw [Width.two_pow_bits]
    exact Nat.lt_succ_of_le sampleAt_le
  rw [sampleAt_replaced le_rfl, getD_initGammaTable hb hone hlt]
  exact setSample_replaced

namespace Settings

theorem configured_synthesizes : (s.configured F g).synthesizes = s.synthesizes := rfl

theorem applyGamma_nil (h : s.gammaTable = []) : s.applyGamma line = line := by
  rw [applyGamma, h]
  rfl

/-- Where the requested depth is that of the samples, the table is the curve. -/
theorem applyGamma_configured (hw : Width.ofBitDepth s.bitDepth = some w) :
    (s.configured F g).applyGamma line = gammaed F g w line := by
  rcases hone : (F.toFloat g).equal (.finite 1) with _ | _
  · rw [Width.ofBitDepth] at hw
    split_ifs at hw with h8 h16
    · cases hw
      have hlen : (s.configured F g).gammaTable.length = 2 ^ 8 := by
        rw [configured, length_initGammaTable _ hone, h8]
        rfl
      rw [applyGamma, if_pos hlen, gammaed, Width.size, Nat.div_one]
      exact foldl_replaced (setSample_gamma (w := .byte) h8 hone) _
    · cases hw
      have hlen : (s.configured F g).gammaTable.length = 2 ^ 16 := by
        rw [configured, length_initGammaTable _ hone, h16]
        rfl
      rw [applyGamma, if_neg (by rw [hlen]; decide), if_pos hlen, gammaed, Width.size]
      exact foldl_replaced (setSample_gamma (w := .word) h16 hone) _
  · rw [applyGamma_nil (initGammaTable_one _ hone), gammaed_eq_self fun i => F.curve_one hone]

/-- A table of any other size is not used. -/
theorem applyGamma_configured_none (hw : Width.ofBitDepth s.bitDepth = none) :
    (s.configured F g).applyGamma line = line := by
  rw [Width.ofBitDepth] at hw
  split_ifs at hw with h8 h16
  rcases hone : (F.toFloat g).equal (.finite 1) with _ | _
  · have hlen : (s.configured F g).gammaTable.length = 2 ^ s.bitDepth.toNat :=
      length_initGammaTable _ hone
    have hne (n : ℕ) (hn : n ≠ 0) (hb : s.bitDepth ≠ n) :
        (s.configured F g).gammaTable.length ≠ 2 ^ n := by
      rw [hlen]
      intro h
      have heq := Nat.pow_right_injective le_rfl h
      omega
    rw [applyGamma, if_neg (hne 8 (by decide) h8), if_neg (hne 16 (by decide) h16)]
  · exact applyGamma_nil (initGammaTable_one _ hone)

theorem ofBitDepth_luminance (hw : Width.ofBitDepth s.bitDepth = some w) :
    (s.configured F g).luminance = F.luminance w.top := by
  rw [Width.ofBitDepth] at hw
  rw [configured]
  split_ifs at hw ⊢ <;> cases hw <;> rfl

theorem processed_none (hw : Width.ofBitDepth s.bitDepth = none) :
    (s.configured F g).processed line = line := by
  have hgray (l : List UInt8) : (s.configured F g).synthesizeGray l = l := by
    rw [Width.ofBitDepth] at hw
    rw [synthesizeGray]
    split_ifs at hw with h8 h16
    exact (if_neg h8).trans (if_neg h16)
  rw [processed, hgray, applyGamma_configured_none hw, ite_self]

theorem processed_plain (hw : Width.ofBitDepth s.bitDepth = some w) (hs : s.synthesizes = false) :
    (s.configured F g).processed line = gammaed F g w line := by
  rw [processed, configured_synthesizes, hs, if_neg Bool.false_ne_true, applyGamma_configured hw]

/-- A byte of a line that has become gray. -/
theorem processed_gray (hw : Width.ofBitDepth s.bitDepth = some w) (hs : s.synthesizes = true)
    (hk : 3 * (k + 1) ≤ line.length) : ((s.configured F g).processed line).getD k 0 =
      w.byteOf (grayOf (F.luminance w.top) w (gammaed F g w line)) k := by
  have hceil : k < w.size * ((line.length + (3 * w.size - 1)) / (3 * w.size)) := by
    cases w <;> simp only [Width.size] <;> omega
  have hbit : Width.ofBitDepth (s.configured F g).bitDepth = some w := hw
  rw [processed, configured_synthesizes, hs, if_pos rfl, applyGamma_configured hw,
    synthesizeGray_eq hbit, ofBitDepth_luminance hw, grayed, length_gammaed,
    getD_replaced_of_lt hceil (by rw [length_gammaed]; omega)]

end Settings

/-- What is known of a gamma curve and of the weights. -/
structure Regular (F : Arithmetic) (g : Double) : Prop where
  le : ∀ (w : Width) v, v ≤ w.top → F.curve g (8 * w.size) v ≤ w.top
  top : ∀ w : Width, F.curve g (8 * w.size) w.top = w.top
  zero : F.toFloat g ≠ .finite 0 → ∀ w : Width, F.curve g (8 * w.size) 0 = 0
  constant : F.toFloat g = .finite 0 → ∀ (w : Width) v, F.curve g (8 * w.size) v = w.top
  white : ∀ w : Width, F.luminance w.top w.top w.top w.top = w.top
  red : F.luminance 255 255 0 0 = 54
  yellow : F.luminance 255 255 255 0 = 237
  red16 : F.luminance 65535 65535 0 0 = 13933
  yellow16 : F.luminance 65535 65535 65535 0 = 60803

theorem regular_ieee {machine : Double → ℤ} {pow : Double → Double → Double} (hp : PowLaws pow)
    (hg : ((Arithmetic.ieee machine pow).toFloat g).equal (.finite 1) = true ∨
      Arithmetic.NonNegative ((Arithmetic.ieee machine pow).toFloat g)) :
    Regular (.ieee machine pow) g where
  le w v hv := Arithmetic.curve_le machine hp hg hv
  top w := Arithmetic.curve_top machine hp g
  zero hne w := by
    rcases hg with hone | hnonneg
    · exact Arithmetic.curve_one _ hone
    · exact Arithmetic.curve_zero machine hp (hnonneg.less_of_ne hne)
  constant h w v := Arithmetic.curve_of_zero machine hp h v
  white w := Arithmetic.luminance_top machine
  red := Arithmetic.luminance_of_weighted machine (x := 3585671 / 65536) (by decide +kernel)
    (by decide +kernel) (by decide)
  yellow := Arithmetic.luminance_of_weighted machine (x := 15537865 / 65536) (by decide +kernel)
    (by decide +kernel) (by decide)
  red16 := Arithmetic.luminance_of_weighted machine (x := 7133819 / 512) (by decide +kernel)
    (by decide +kernel) (by decide)
  yellow16 := Arithmetic.luminance_of_weighted machine (x := 486431 / 8) (by decide +kernel)
    (by decide +kernel) (by decide)

end

end AirSane.ScanJob
