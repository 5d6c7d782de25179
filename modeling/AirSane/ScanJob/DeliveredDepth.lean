import AirSane.ScanJob.Processed

/-! # The depth of the delivered samples

A line goes to the encoder as the gamma table and the depth of the job make of it,
where the encoder has the depth of the frame. The two are the same thing if the
depths are, and otherwise only for curves that do not tell the bytes of a sample
apart, or have one value.
-/

namespace AirSane.ScanJob
open Lists Numbers

/-- The job has a gamma table, and what the encoder reads of a line that comes from the
scanner is made from samples of the frame's depth. -/
structure AtDeliveredDepth (F : Arithmetic) (gamma : Double) (s : Settings) (kind : EncoderKind)
    (p : SaneParameters) : Prop where
  table : (F.toFloat gamma).equal (.finite 1) = false →
    TableDefined F (F.toFloat gamma) s.bitDepth
  lines : ∀ w, Width.ofBitDepth p.depth = some w → ∀ line : List UInt8,
    (line.length : ℤ) = p.bytesPerLine →
      ((s.configured F gamma).processed line).take (s.setUp kind p).bytesPerLine.toNat =
        (List.range (s.setUp kind p).bytesPerLine.toNat).map
          (w.byteOf (encoded F gamma w s.synthesizes line))

section
variable {F : Arithmetic} {g : Double} {w : Width} {line : List UInt8} {s : Settings}
  {i k m L n v : ℕ}

theorem bitDepth_eq (hw : Width.ofBitDepth s.bitDepth = some w) :
    s.bitDepth = (8 * w.size : ℕ) := by
  rw [Width.ofBitDepth] at hw
  split_ifs at hw with h8 h16 <;> cases hw
  · exact h8
  · exact h16

/-- The bytes of so much of every line are those of its samples. -/
def Lines (F : Arithmetic) (g : Double) (s : Settings) (w : Width) (L n : ℕ) : Prop :=
  ∀ line : List UInt8, line.length = L → ∀ k < n,
    ((s.configured F g).processed line).getD k 0 = w.byteOf (encoded F g w s.synthesizes line) k

theorem sampleAt_gammaed (h : Regular F g) (hi : w.size * (i + 1) ≤ line.length) :
    w.sampleAt (gammaed F g w line) i = F.curve g (8 * w.size) (w.sampleAt line i) := by
  have hle : w.size * (i + 1) ≤ w.size * (line.length / w.size) := by
    refine Nat.mul_le_mul_left _ ((Nat.le_div_iff_mul_le Width.size_pos).2 ?_)
    rwa [Nat.mul_comm]
  have hpow : 256 ^ w.size = w.top + 1 := by cases w <;> rfl
  rw [gammaed, sampleAt_replaced_of_lt hle hi, hpow]
  exact Nat.mod_eq_of_lt (Nat.lt_succ_of_le (h.le w _ sampleAt_le))

theorem getD_gammaed (hw : w.size ∣ line.length) (hk : k < line.length) :
    (gammaed F g w line).getD k 0 =
      w.byteOf (fun i => F.curve g (8 * w.size) (w.sampleAt line i)) k :=
  getD_replaced_of_lt (by rwa [Nat.mul_div_cancel' hw]) hk

/-- With the depth of the frame the table is the curve and the weights are those of the
samples. -/
theorem lines_same (h : Regular F g) (hw : Width.ofBitDepth s.bitDepth = some w)
    (hn : w.size ∣ n) (hL : if s.synthesizes then 3 * n ≤ L else n = L) : Lines F g s w L n := by
  rintro line rfl k hk
  rcases hs : s.synthesizes with _ | _
  · rw [hs, if_neg Bool.false_ne_true] at hL
    subst hL
    rw [Settings.processed_plain hw hs]
    exact getD_gammaed hn hk
  · rw [hs, if_pos rfl] at hL
    rw [Settings.processed_gray hw hs (by omega), Width.byteOf, Width.byteOf]
    congr 2
    have hj : w.size * (3 * (k / w.size) + 3) ≤ line.length := by
      obtain ⟨m, rfl⟩ := hn
      have hlt : k / w.size < m := Nat.div_lt_of_lt_mul hk
      have hmul : w.size * (3 * (k / w.size) + 3) = 3 * (w.size * (k / w.size + 1)) := by ring
      have hmono := Nat.mul_le_mul_left w.size (show k / w.size + 1 ≤ m from hlt)
      omega
    have hle (i : ℕ) (hi : i < 3 * (k / w.size) + 3) : w.size * (i + 1) ≤ line.length :=
      (Nat.mul_le_mul_left _ hi).trans hj
    rw [grayOf, sampleAt_gammaed h (hle _ (by omega)), sampleAt_gammaed h (hle _ (by omega)),
      sampleAt_gammaed h (hle _ (by omega))]
    rfl

/-- A curve that changes no sample. -/
def Unchanged (F : Arithmetic) (g : Double) (w : Width) : Prop :=
  ∀ v ≤ w.top, F.curve g (8 * w.size) v = v

/-- A curve for words that is the one for bytes on both of their bytes. -/
def Bytewise (F : Arithmetic) (g : Double) : Prop :=
  ∀ low ≤ 255, ∀ high ≤ 255,
    F.curve g 16 (low + 256 * high) = F.curve g 8 low + 256 * F.curve g 8 high

/-- A line of one sample, over and over. -/
def uniform (w : Width) (v L : ℕ) : List UInt8 := (List.range L).map (w.byteOf fun _ => v)

theorem length_uniform : (uniform w v L).length = L := by simp [uniform]

theorem getD_map_range {f : ℕ → UInt8} (hk : k < L) : ((List.range L).map f).getD k 0 = f k := by
  rw [List.getD_eq_getElem?_getD, List.getElem?_map, List.getElem?_range hk]
  rfl

theorem sampleAt_uniform (hv : v ≤ w.top) (hi : w.size * (i + 1) ≤ L) :
    w.sampleAt (uniform w v L) i = v := by
  cases w with
  | byte =>
    rw [Width.size] at hi
    rw [Width.top] at hv
    rw [Width.sampleAt, byteAt, uniform, getD_map_range (by omega), byteOf_byte, UInt8.toNat_ofNat']
    omega
  | word =>
    rw [Width.size] at hi
    rw [Width.top] at hv
    rw [Width.sampleAt, wordAt, byteAt, byteAt, uniform, getD_map_range (by omega),
      getD_map_range (by omega), byteOf_word_low, byteOf_word_high, UInt8.toNat_ofNat',
      UInt8.toNat_ofNat']
    omega

/-- The bytes of a sample that fits determine it. -/
theorem eq_of_byteOf {value value' : ℕ → ℕ} (hv : value 0 ≤ w.top) (hv' : value' 0 ≤ w.top)
    (h : ∀ k < w.size, w.byteOf value k = w.byteOf value' k) : value 0 = value' 0 := by
  cases w with
  | byte =>
    have hbyte := congrArg UInt8.toNat (h 0 (by decide))
    rw [byteOf_byte, byteOf_byte, UInt8.toNat_ofNat', UInt8.toNat_ofNat'] at hbyte
    rw [Width.top] at hv hv'
    omega
  | word =>
    have hlow := congrArg UInt8.toNat (h (2 * 0) (by decide))
    have hhigh := congrArg UInt8.toNat (h (2 * 0 + 1) (by decide))
    rw [byteOf_word_low, byteOf_word_low, UInt8.toNat_ofNat', UInt8.toNat_ofNat'] at hlow
    rw [byteOf_word_high, byteOf_word_high, UInt8.toNat_ofNat', UInt8.toNat_ofNat'] at hhigh
    rw [Width.top] at hv hv'
    omega

/-- Without a table of its size, a line stays what it is. -/
theorem lines_none_iff (h : Regular F g) (hw : Width.ofBitDepth s.bitDepth = none)
    (hs : s.synthesizes = false) (hL : w.size ∣ L) (hpos : 0 < L) :
    Lines F g s w L L ↔ Unchanged F g w := by
  have hle : w.size ≤ L := Nat.le_of_dvd hpos hL
  constructor
  · intro hlines v hv
    have hsample : w.sampleAt (uniform w v L) 0 = v :=
      sampleAt_uniform hv (by rwa [Nat.zero_add, Nat.mul_one])
    have hbytes (k : ℕ) (hk : k < w.size) := hlines (uniform w v L) length_uniform k (by omega)
    simp only [Settings.processed_none hw, hs, ← byteOf_sampleAt (w := w)] at hbytes
    have heq := eq_of_byteOf sampleAt_le
      (show encoded F g w false (uniform w v L) 0 ≤ w.top from h.le w _ sampleAt_le) hbytes
    rw [hsample] at heq
    change v = F.curve g (8 * w.size) (w.sampleAt (uniform w v L) 0) at heq
    rw [hsample] at heq
    exact heq.symm
  · intro hunchanged line _ k _
    have hvalue : encoded F g w false line = w.sampleAt line :=
      funext fun i => hunchanged _ sampleAt_le
    rw [Settings.processed_none hw, hs, hvalue, byteOf_sampleAt]

/-- The two curves have the same byte at a place of a line. -/
def CurvesAgree (F : Arithmetic) (g : Double) (line : List UInt8) (k : ℕ) : Prop :=
  Width.word.byteOf (fun i => F.curve g 16 (wordAt line i)) k =
    Width.byte.byteOf (fun i => F.curve g 8 (byteAt line i)) k

theorem Bytewise.curvesAgree (h : Regular F g) (hb : Bytewise F g) (k : ℕ) :
    CurvesAgree F g line k := by
  have hbyte (i : ℕ) : byteAt line i ≤ 255 := Nat.le_of_lt_succ byteAt_lt
  have hle (i : ℕ) : F.curve g 8 (byteAt line i) ≤ 255 := h.le .byte _ (hbyte i)
  apply UInt8.toNat_inj.1
  rcases Nat.even_or_odd' k with ⟨j, rfl | rfl⟩
  · have hlow := hle (2 * j)
    rw [byteOf_word_low, byteOf_byte, UInt8.toNat_ofNat', UInt8.toNat_ofNat', wordAt,
      hb _ (hbyte _) _ (hbyte _)]
    omega
  · have hlow := hle (2 * j)
    have hhigh := hle (2 * j + 1)
    rw [byteOf_word_high, byteOf_byte, UInt8.toNat_ofNat', UInt8.toNat_ofNat', wordAt,
      hb _ (hbyte _) _ (hbyte _)]
    omega

theorem bytewise_of_curvesAgree (h : Regular F g) (hL : 2 ≤ L)
    (ha : ∀ line : List UInt8, line.length = L → ∀ k < 2, CurvesAgree F g line k) :
    Bytewise F g := by
  intro low hlow high hhigh
  have hv : low + 256 * high ≤ Width.word.top := by
    rw [Width.top]
    omega
  have hword : wordAt (uniform .word (low + 256 * high) L) 0 = low + 256 * high :=
    sampleAt_uniform (w := .word) hv hL
  have hbyte (k : ℕ) (hk : k < L) : byteAt (uniform .word (low + 256 * high) L) k =
      (Width.word.byteOf (fun _ => low + 256 * high) k).toNat :=
    congrArg UInt8.toNat (getD_map_range hk)
  have hzero : byteAt (uniform .word (low + 256 * high) L) 0 = low := by
    rw [hbyte 0 (by omega), byteOf_word_low (i := 0), UInt8.toNat_ofNat']
    omega
  have hone : byteAt (uniform .word (low + 256 * high) L) 1 = high := by
    rw [hbyte 1 hL, byteOf_word_high (i := 0), UInt8.toNat_ofNat']
    omega
  have hfirst := congrArg UInt8.toNat
    (ha (uniform .word (low + 256 * high) L) length_uniform 0 (by decide))
  have hsecond := congrArg UInt8.toNat
    (ha (uniform .word (low + 256 * high) L) length_uniform 1 (by decide))
  rw [byteOf_word_low (i := 0), byteOf_byte, UInt8.toNat_ofNat', UInt8.toNat_ofNat', hword,
    hzero] at hfirst
  rw [byteOf_word_high (i := 0), byteOf_byte, UInt8.toNat_ofNat', UInt8.toNat_ofNat', hword,
    hone] at hsecond
  have hlow' : F.curve g 8 low ≤ 255 := h.le .byte low hlow
  have hhigh' : F.curve g 8 high ≤ 255 := h.le .byte high hhigh
  have hword' : F.curve g 16 (low + 256 * high) ≤ 65535 := h.le .word _ hv
  omega

/-- A table for bytes on samples of two. -/
theorem lines_byte_word_iff (h : Regular F g) (hw : Width.ofBitDepth s.bitDepth = some .byte)
    (hs : s.synthesizes = false) (hL : 2 ∣ L) (hpos : 0 < L) :
    Lines F g s .word L L ↔ Bytewise F g := by
  have hiff (line : List UInt8) (hline : line.length = L) (k : ℕ) (hk : k < L) :
      ((s.configured F g).processed line).getD k 0 =
          Width.word.byteOf (encoded F g .word s.synthesizes line) k ↔ CurvesAgree F g line k := by
    rw [Settings.processed_plain hw hs, hs, getD_gammaed (by simp [Width.size]) (by omega)]
    exact eq_comm
  constructor
  · intro hlines
    refine bytewise_of_curvesAgree h (Nat.le_of_dvd hpos hL) fun line hline k hk => ?_
    have hkL : k < L := hk.trans_le (Nat.le_of_dvd hpos hL)
    exact (hiff line hline k hkL).1 (hlines line hline k hkL)
  · exact fun hb line hline k hk => (hiff line hline k hk).2 (hb.curvesAgree h k)

/-- A table for words on samples of a byte: a last byte alone is left out. -/
theorem lines_word_byte_iff (h : Regular F g) (hw : Width.ofBitDepth s.bitDepth = some .word)
    (hs : s.synthesizes = false) :
    Lines F g s .byte L L ↔ (2 ≤ L → Bytewise F g) ∧ (Odd L → Unchanged F g .byte) := by
  have hword (line : List UInt8) (k : ℕ) (hk : k < 2 * (line.length / 2)) :
      ((s.configured F g).processed line).getD k 0 =
          Width.byte.byteOf (encoded F g .byte s.synthesizes line) k ↔ CurvesAgree F g line k := by
    rw [Settings.processed_plain hw hs, hs, gammaed, Width.size,
      getD_replaced_of_lt hk (by omega)]
    exact Iff.rfl
  have hlast (line : List UInt8) (k : ℕ) (hk : 2 * (line.length / 2) ≤ k) :
      ((s.configured F g).processed line).getD k 0 =
          Width.byte.byteOf (encoded F g .byte s.synthesizes line) k ↔
        UInt8.ofNat (byteAt line k) = UInt8.ofNat (F.curve g 8 (byteAt line k)) := by
    rw [Settings.processed_plain hw hs, hs, gammaed, Width.size, getD_replaced hk, byteOf_byte,
      byteAt, UInt8.ofNat_toNat]
    exact Iff.rfl
  constructor
  · intro hlines
    refine ⟨fun hL => ?_, fun hodd v hv => ?_⟩
    · refine bytewise_of_curvesAgree h hL fun line hline k hk => ?_
      exact (hword line k (by omega)).1 (hlines line hline k (by omega))
    · obtain ⟨j, rfl⟩ := hodd
      have hbyte : byteAt (uniform .byte v (2 * j + 1)) (2 * j) = v :=
        sampleAt_uniform (w := .byte) hv (by rw [Width.size]; omega)
      have heq := congrArg UInt8.toNat
        ((hlast (uniform .byte v (2 * j + 1)) (2 * j) (by rw [length_uniform]; omega)).1
          (hlines _ length_uniform (2 * j) (by omega)))
      rw [hbyte, UInt8.toNat_ofNat', UInt8.toNat_ofNat'] at heq
      have hle := h.le .byte v hv
      simp only [Width.size, Width.top, Nat.mul_one] at hle hv ⊢
      omega
  · rintro ⟨hb, hu⟩ line rfl k hk
    rcases Nat.lt_or_ge k (2 * (line.length / 2)) with hlt | hge
    · exact (hword line k hlt).2 ((hb (by omega)).curvesAgree h k)
    · have hodd : Odd line.length := Nat.odd_iff.2 (by omega)
      refine (hlast line k hge).2 ?_
      have hcurve := hu hodd (byteAt line k) (Nat.le_of_lt_succ byteAt_lt)
      rw [Width.size, Nat.mul_one] at hcurve
      rw [hcurve]

/-- A dark line with some bright bytes at its beginning. -/
def bright (m L : ℕ) : List UInt8 := (List.range L).map fun k => if k < m then 255 else 0

theorem length_bright : (bright m L).length = L := by simp [bright]

theorem byteAt_bright (hm : m ≤ L) (k : ℕ) :
    byteAt (bright m L) k = if k < m then 255 else 0 := by
  rw [byteAt]
  by_cases hk : k < L
  · rw [bright, getD_map_range hk]
    split_ifs <;> rfl
  · have hlen : (bright m L).length ≤ k := by rw [length_bright]; omega
    rw [List.getD_eq_default _ _ hlen, if_neg (by omega)]
    rfl

theorem sampleAt_bright (hm : m ≤ L) (heven : w.size ∣ m) (i : ℕ) :
    w.sampleAt (bright m L) i = if w.size * i < m then w.top else 0 := by
  cases w with
  | byte => simpa only [Width.sampleAt, Width.size, Width.top, Nat.one_mul] using byteAt_bright hm i
  | word =>
    obtain ⟨j, rfl⟩ := heven
    have hsize : Width.word.size = 2 := rfl
    rw [Width.sampleAt, wordAt, byteAt_bright hm, byteAt_bright hm, hsize]
    rcases Nat.lt_or_ge i j with hij | hij
    · rw [if_pos (by omega), if_pos (by omega), if_pos (by omega)]
      rfl
    · rw [if_neg (by omega), if_neg (by omega), if_neg (by omega)]

theorem byteOf_zero {value : ℕ → ℕ} : w.byteOf value 0 = UInt8.ofNat (value 0) := by
  cases w with
  | byte => exact byteOf_byte
  | word => exact byteOf_word_low (i := 0)

/-- Samples at both ends of the range are fixed points, but for a gamma of zero. -/
theorem curve_bright (h : Regular F g) (hg : F.toFloat g ≠ .finite 0) (hm : m ≤ L)
    (heven : w.size ∣ m) (i : ℕ) : F.curve g (8 * w.size) (w.sampleAt (bright m L) i) =
      w.sampleAt (bright m L) i := by
  rw [sampleAt_bright hm heven]
  split_ifs
  · exact h.top w
  · exact h.zero hg w

/-- Two bright bytes are yellow as bytes and red as words. -/
theorem grayOf_bright (h : Regular F g) (hL : 2 ≤ L) : grayOf (F.luminance w.top) w (bright 2 L) 0 =
    match w with
    | .byte => 237
    | .word => 13933 := by
  have hsize : w.size ∣ 2 := by cases w <;> decide
  rw [grayOf, sampleAt_bright hL hsize, sampleAt_bright hL hsize, sampleAt_bright hL hsize]
  cases w with
  | byte => exact h.yellow
  | word => exact h.red16

theorem encoded_bright (h : Regular F g) (hg : F.toFloat g ≠ .finite 0) (hm : m ≤ L)
    (heven : w.size ∣ m) (i : ℕ) :
    encoded F g w true (bright m L) i = grayOf (F.luminance w.top) w (bright m L) i := by
  simp only [encoded, curve_bright h hg hm heven, if_true, grayOf]

/-- Other weights, or none, are seen in a line with a bright sample. -/
theorem not_lines_gray (h : Regular F g) (hg : F.toFloat g ≠ .finite 0)
    (hw : Width.ofBitDepth s.bitDepth ≠ some w) (hs : s.synthesizes = true) (hn : 0 < n)
    (hL : 3 * n ≤ L) : ¬ Lines F g s w L n := by
  intro hlines
  rcases hw' : Width.ofBitDepth s.bitDepth with _ | w'
  · have hsize : w.size ≤ L := by cases w <;> simp only [Width.size] <;> omega
    have hzero := congrArg UInt8.toNat (hlines (bright w.size L) length_bright 0 hn)
    rw [Settings.processed_none hw', hs, byteOf_zero, encoded_bright h hg hsize dvd_rfl, grayOf,
      sampleAt_bright hsize dvd_rfl, sampleAt_bright hsize dvd_rfl, sampleAt_bright hsize dvd_rfl,
      bright, getD_map_range (by omega), UInt8.toNat_ofNat'] at hzero
    cases w with
    | byte =>
      have hred : F.luminance 255 255 0 0 = 54 := h.red
      simp [Width.size, Width.top, hred] at hzero
    | word =>
      have hred : F.luminance 65535 65535 0 0 = 13933 := h.red16
      simp [Width.size, Width.top, hred] at hzero
  · have hsize (w : Width) : w.size ∣ 2 := by cases w <;> decide
    have hzero := congrArg UInt8.toNat (hlines (bright 2 L) length_bright 0 hn)
    rw [Settings.processed_gray hw' hs (by rw [length_bright]; omega), hs, byteOf_zero, byteOf_zero,
      gammaed_eq_self (curve_bright h hg (by omega) (hsize w')),
      encoded_bright h hg (by omega) (hsize w), grayOf_bright h (by omega),
      grayOf_bright h (by omega)] at hzero
    cases w <;> cases w' <;> simp_all

/-- A gamma of zero makes every line white, and what is left of a table for words on an
odd number of bytes is not. -/
theorem encoded_white (h : Regular F g) (hg : F.toFloat g = .finite 0) (i : ℕ) :
    encoded F g w true line i = w.top := by
  simp only [encoded, h.constant hg, h.white, if_true]

theorem byteOf_top {value : ℕ → ℕ} (hv : value (k / w.size) = w.top) : w.byteOf value k = 255 := by
  rw [Width.byteOf, hv]
  cases w with
  | byte => simp [Width.size, Width.top, Nat.mod_one]
  | word =>
    rw [Width.size, Width.top]
    rcases Nat.mod_two_eq_zero_or_one k with hk | hk <;> rw [hk] <;> rfl

theorem sampleAt_gammaed_white (h : Regular F g) (hg : F.toFloat g = .finite 0)
    (hi : w.size * (i + 1) ≤ line.length) : w.sampleAt (gammaed F g w line) i = w.top := by
  rw [sampleAt_gammaed h hi, h.constant hg]

/-- A group of white samples. -/
theorem grayOf_white (h : Regular F g) (hg : F.toFloat g = .finite 0)
    (hi : w.size * (3 * i + 3) ≤ line.length) :
    grayOf (F.luminance w.top) w (gammaed F g w line) i = w.top := by
  have hle (j : ℕ) (hj : j < 3 * i + 3) : w.size * (j + 1) ≤ line.length :=
    (Nat.mul_le_mul_left _ hj).trans hi
  rw [grayOf, sampleAt_gammaed_white h hg (hle _ (by omega)),
    sampleAt_gammaed_white h hg (hle _ (by omega)), sampleAt_gammaed_white h hg (hle _ (by omega)),
    h.white]

/-- Every byte is white where the groups of the requested depth are complete. -/
theorem lines_white {w' : Width} (h : Regular F g) (hg : F.toFloat g = .finite 0)
    (hw : Width.ofBitDepth s.bitDepth = some w') (hs : s.synthesizes = true) (hn : w'.size ∣ n)
    (hL : 3 * n ≤ L) : Lines F g s w L n := by
  rintro line rfl k hk
  have hgroup : w'.size * (3 * (k / w'.size) + 3) ≤ line.length := by
    obtain ⟨m, rfl⟩ := hn
    have hlt : k / w'.size < m := Nat.div_lt_of_lt_mul hk
    have hmul : w'.size * (3 * (k / w'.size) + 3) = 3 * (w'.size * (k / w'.size + 1)) := by ring
    have hmono := Nat.mul_le_mul_left w'.size (show k / w'.size + 1 ≤ m from hlt)
    omega
  rw [Settings.processed_gray hw hs (by omega), hs, byteOf_top (grayOf_white h hg hgroup),
    byteOf_top (encoded_white h hg _)]

/-- Behind the words of a dark line there is nothing bright. -/
theorem sampleAt_gammaed_dark (hi : L < 2 * (i + 1)) :
    Width.word.sampleAt (gammaed F g .word (bright 0 L)) i = 0 := by
  have hbyte (k : ℕ) (hk : 2 * (L / 2) ≤ k) :
      byteAt (gammaed F g .word (bright 0 L)) k = 0 := by
    have hlen : Width.word.size * ((bright 0 L).length / Width.word.size) ≤ k := by
      rwa [length_bright]
    have hdark := byteAt_bright (Nat.zero_le L) k
    rw [byteAt, gammaed, getD_replaced hlen]
    exact hdark.trans (if_neg (Nat.not_lt_zero k))
  rw [Width.sampleAt, wordAt, hbyte _ (by omega), hbyte _ (by omega)]

/-- The last of an odd number of gray bytes comes from a group that is not complete. -/
theorem not_lines_odd (h : Regular F g) (hg : F.toFloat g = .finite 0)
    (hw : Width.ofBitDepth s.bitDepth = some .word) (hs : s.synthesizes = true) {j : ℕ}
    (hL : (2 * j + 1) * 3 ≤ L) (hlt : L < (2 * j + 1) * 3 + 3) :
    ¬ Lines F g s .byte L (2 * j + 1) := by
  intro hlines
  have hlast := congrArg UInt8.toNat (hlines (bright 0 L) length_bright (2 * j) (by omega))
  have hsample (i : ℕ) (hi : 2 * (i + 1) ≤ L) :
      Width.word.sampleAt (gammaed F g .word (bright 0 L)) i = 65535 :=
    sampleAt_gammaed_white h hg (by rw [length_bright]; exact hi)
  have hsecond : F.luminance 65535 65535 (Width.word.sampleAt (gammaed F g .word (bright 0 L))
      (3 * j + 1)) 0 % 256 ≠ 255 := by
    rcases Nat.lt_or_ge L (2 * (3 * j + 1 + 1)) with hshort | hlong
    · rw [sampleAt_gammaed_dark hshort, h.red16]
      decide
    · rw [hsample _ hlong, h.yellow16]
      decide
  rw [Settings.processed_gray hw hs (by rw [length_bright]; omega), hs, byteOf_word_low,
    byteOf_top (encoded_white h hg _), UInt8.toNat_ofNat', grayOf, hsample _ (by omega),
    sampleAt_gammaed_dark (i := 3 * j + 2) (by omega)] at hlast
  exact hsecond hlast

theorem not_lines_dark (h : Regular F g) (hg : F.toFloat g = .finite 0)
    (hw : Width.ofBitDepth s.bitDepth = none) (hs : s.synthesizes = true) (hn : 0 < n)
    (hL : 0 < L) : ¬ Lines F g s w L n := by
  intro hlines
  have hzero := congrArg UInt8.toNat (hlines (bright 0 L) length_bright 0 hn)
  rw [Settings.processed_none hw, hs, byteOf_top (encoded_white h hg _), bright,
    getD_map_range hL] at hzero
  exact absurd hzero (by decide)

/-- Where gray is computed at another depth. -/
theorem lines_gray_iff (h : Regular F g) (hne : Width.ofBitDepth s.bitDepth ≠ some w)
    (hs : s.synthesizes = true) (hpos : 0 < n) (hw : w.size ∣ n) (hL : n = L / 3) :
    Lines F g s w L n ↔
      F.toFloat g = .finite 0 ∧ (s.bitDepth = 8 ∨ s.bitDepth = 16 ∧ Even n) := by
  constructor
  · intro hlines
    by_cases hg : F.toFloat g = .finite 0
    · refine ⟨hg, ?_⟩
      rcases hw' : Width.ofBitDepth s.bitDepth with _ | _ | _
      · exact absurd hlines (not_lines_dark h hg hw' hs hpos (by omega))
      · exact .inl (bitDepth_eq hw')
      · refine .inr ⟨bitDepth_eq hw', ?_⟩
        by_contra hodd
        obtain ⟨j, rfl⟩ := Nat.not_even_iff_odd.1 hodd
        cases w with
        | byte => exact not_lines_odd h hg hw' hs (by omega) (by omega) hlines
        | word => exact hne hw'
    · exact absurd hlines (not_lines_gray h hg hne hs hpos (by omega))
  · rintro ⟨hg, h8 | ⟨h16, heven⟩⟩
    · exact lines_white h hg (by rw [h8]; rfl) hs (show Width.byte.size ∣ n from one_dvd n)
        (by omega)
    · exact lines_white h hg (by rw [h16]; rfl) hs (show Width.word.size ∣ n from heven.two_dvd)
        (by omega)

theorem length_processed : ((s.configured F g).processed line).length = line.length := by
  rcases hw : Width.ofBitDepth s.bitDepth with _ | w
  · rw [Settings.processed_none hw]
  · rcases hs : s.synthesizes with _ | _
    · rw [Settings.processed_plain hw hs, length_gammaed]
    · have hbit : Width.ofBitDepth (s.configured F g).bitDepth = some w := hw
      rw [Settings.processed, Settings.configured_synthesizes, hs, if_pos rfl,
        Settings.applyGamma_configured hw, Settings.synthesizeGray_eq hbit, length_grayed,
        length_gammaed]

/-- The requested depth makes no difference: gray comes out white all the same, or the
curve is the same for whole samples as it is for what the table takes for samples. -/
def DepthIrrelevant (F : Arithmetic) (gamma : Double) (s : Settings) (depth : ℤ) (n : ℕ) : Prop :=
  if s.synthesizes then
    F.toFloat gamma = .finite 0 ∧ (s.bitDepth = 8 ∨ s.bitDepth = 16 ∧ Even n)
  else if s.bitDepth = 8 ∨ s.bitDepth = 16 then
    (2 ≤ n → Bytewise F gamma) ∧ (Odd n → Unchanged F gamma .byte)
  else ∀ w, Width.ofBitDepth depth = some w → Unchanged F gamma w

/-- Lines of a depth other than the requested one. -/
theorem lines_iff (h : Regular F g) {depth : ℤ} (hd : Width.ofBitDepth depth = some w)
    (hne : s.bitDepth ≠ depth) (hpos : 0 < n) (hw : w.size ∣ n)
    (hL : n = if s.synthesizes then L / 3 else L) :
    Lines F g s w L n ↔ DepthIrrelevant F g s depth n := by
  have hdepth : depth = (8 * w.size : ℕ) := bitDepth_eq (s := { s with bitDepth := depth }) hd
  have hne' : Width.ofBitDepth s.bitDepth ≠ some w := by
    intro heq
    exact hne ((bitDepth_eq heq).trans hdepth.symm)
  rcases hs : s.synthesizes with _ | _
  · rw [hs, if_neg Bool.false_ne_true] at hL
    subst hL
    rw [DepthIrrelevant, hs, if_neg Bool.false_ne_true]
    rcases hb : Width.ofBitDepth s.bitDepth with _ | w'
    · have hother : ¬ (s.bitDepth = 8 ∨ s.bitDepth = 16) := by
        rintro (h8 | h16)
        · rw [h8] at hb
          exact absurd hb (by decide)
        · rw [h16] at hb
          exact absurd hb (by decide)
      rw [if_neg hother, lines_none_iff h hb hs hw hpos]
      constructor
      · intro hu w' hw'
        rw [hd, Option.some_inj] at hw'
        exact hw' ▸ hu
      · exact fun hu => hu w hd
    · have hone : s.bitDepth = 8 ∨ s.bitDepth = 16 := by
        have heq := bitDepth_eq hb
        cases w'
        · exact .inl heq
        · exact .inr heq
      rw [if_pos hone]
      cases w' <;> cases w
      · exact absurd hb hne'
      · have heven : Even n := even_iff_two_dvd.2 hw
        rw [lines_byte_word_iff h hb hs hw hpos]
        constructor
        · exact fun hb => ⟨fun _ => hb, fun hodd => absurd heven (Nat.not_even_iff_odd.2 hodd)⟩
        · exact fun hu => hu.1 (Nat.le_of_dvd hpos hw)
      · exact lines_word_byte_iff h hb hs
      · exact absurd hb hne'
  · rw [hs, if_pos rfl] at hL
    rw [DepthIrrelevant, hs, if_pos rfl]
    exact lines_gray_iff h hne' hs hpos hw hL

/-- The length of a line for the encoder is a number of samples. -/
theorem size_dvd_bytesPerLine (kind : EncoderKind) (p : SaneParameters)
    (hd : Width.ofBitDepth p.depth = some w) : (w.size : ℤ) ∣ (s.setUp kind p).bytesPerLine := by
  cases w with
  | byte => exact one_dvd _
  | word =>
    have h16 : p.depth = 16 := bitDepth_eq (s := { s with bitDepth := p.depth }) hd
    obtain ⟨q, hq⟩ : (8 * 2 : ℤ) ∣
        Encoder.int32 (Encoder.componentsOf s.colorspace * p.pixelsPerLine * p.depth) := by
      rw [Encoder.int32, Int.bmod_eq_self_sub_mul_bdiv, h16]
      exact dvd_sub (dvd_mul_left _ _) (dvd_mul_of_dvd_left (by decide) _)
    refine ⟨q, ?_⟩
    have hlen : (s.setUp kind p).bytesPerLine = (8 * (2 * q)).tdiv 8 := by
      rw [← mul_assoc, ← hq]
      rfl
    rw [hlen, Int.mul_tdiv_cancel_left _ (by decide)]
    rfl

theorem lines_all_iff (h : Regular F g) {depth bytes : ℤ} (hd : Width.ofBitDepth depth = some w)
    (hw : w.size ∣ n) (hneg : bytes < 0 → n = 0)
    (hlen : ∀ L : ℕ, (L : ℤ) = bytes → n = if s.synthesizes then L / 3 else L) :
    (∀ w, Width.ofBitDepth depth = some w → ∀ line : List UInt8, (line.length : ℤ) = bytes →
      ((s.configured F g).processed line).take n =
        (List.range n).map (w.byteOf (encoded F g w s.synthesizes line))) ↔
      (n = 0 ∨ s.bitDepth = depth ∨ DepthIrrelevant F g s depth n) := by
  rcases Nat.eq_zero_or_pos n with rfl | hpos
  · exact ⟨fun _ => .inl rfl, fun _ _ _ _ _ => rfl⟩
  · obtain ⟨L, rfl⟩ : ∃ L : ℕ, bytes = L := Int.eq_ofNat_of_zero_le (by omega)
    have hL := hlen L rfl
    have hle : n ≤ L := by
      rw [hL]
      split_ifs <;> omega
    have hall : (∀ w, Width.ofBitDepth depth = some w → ∀ line : List UInt8,
        (line.length : ℤ) = L → ((s.configured F g).processed line).take n =
          (List.range n).map (w.byteOf (encoded F g w s.synthesizes line))) ↔ Lines F g s w L n := by
      constructor
      · intro hall line hline
        refine (take_eq_map_range_iff ?_).1 (hall w hd line (by rw [hline]))
        rwa [length_processed, hline]
      · intro hlines w' hw' line hline
        rw [hd, Option.some_inj] at hw'
        subst hw'
        have hlen' : line.length = L := by exact_mod_cast hline
        refine (take_eq_map_range_iff ?_).2 (hlines line hlen')
        rwa [length_processed, hlen']
    rw [hall, or_iff_right hpos.ne']
    by_cases hb : s.bitDepth = depth
    · refine iff_of_true (lines_same h (by rw [hb, hd]) hw ?_) (.inl hb)
      split_ifs at hL ⊢ <;> omega
    · rw [or_iff_right hb]
      exact lines_iff h hd hb hpos hw hL

/-- Lines reach the encoder as samples of the frame's depth if that is the requested one,
and at another depth only if the curve hides it. -/
theorem atDeliveredDepth_iff (machine : Double → ℤ) (pow : Double → Double → Double)
    (hp : PowLaws pow) (gamma : Double) (s : Settings) (kind : EncoderKind) (p : SaneParameters)
    (hl : s.LineLengthsAgree p) (hd : p.depth = 8 ∨ p.depth = 16) :
    let F := Arithmetic.ieee machine pow
    let n := (s.setUp kind p).bytesPerLine.toNat
    AtDeliveredDepth F gamma s kind p ↔
      ((F.toFloat gamma).equal (.finite 1) = true ∨
          (1 ≤ s.bitDepth ∧ s.bitDepth ≤ 16) ∧ Arithmetic.NonNegative (F.toFloat gamma)) ∧
        (n = 0 ∨ s.bitDepth = p.depth ∨ DepthIrrelevant F gamma s p.depth n) := by
  intro F n
  obtain ⟨w, hw⟩ : ∃ w, Width.ofBitDepth p.depth = some w := by
    rcases hd with hd | hd
    · exact ⟨.byte, by rw [hd]; rfl⟩
    · exact ⟨.word, by rw [hd]; rfl⟩
  have htable : ((F.toFloat gamma).equal (.finite 1) = false →
      TableDefined F (F.toFloat gamma) s.bitDepth) ↔ ((F.toFloat gamma).equal (.finite 1) = true ∨
        (1 ≤ s.bitDepth ∧ s.bitDepth ≤ 16) ∧ Arithmetic.NonNegative (F.toFloat gamma)) := by
    rw [tableDefined_iff hp, ← Bool.not_eq_true, ← or_iff_not_imp_left]
  have hbytes : (s.setUp kind p).bytesPerLine = s.expectedBytesPerLine p := hl
  have hdvd : w.size ∣ n := by
    rcases le_or_gt (s.setUp kind p).bytesPerLine 0 with hle | hgt
    · rw [show n = 0 from Int.toNat_of_nonpos hle]
      exact dvd_zero _
    · have hcast : (n : ℤ) = (s.setUp kind p).bytesPerLine := Int.toNat_of_nonneg hgt.le
      rw [← Int.natCast_dvd_natCast, hcast]
      exact size_dvd_bytesPerLine kind p hw
  have hlen (L : ℕ) (hL : (L : ℤ) = p.bytesPerLine) :
      n = if s.synthesizes then L / 3 else L := by
    have htoNat : n = (s.expectedBytesPerLine p).toNat := congrArg Int.toNat hbytes
    rw [htoNat, Settings.expectedBytesPerLine, ← hL]
    split_ifs
    · rw [Int.tdiv_eq_ediv_of_nonneg (Int.natCast_nonneg L)]
      omega
    · exact Int.toNat_natCast L
  have hneg (hlt : p.bytesPerLine < 0) : n = 0 := by
    have htoNat : n = (s.expectedBytesPerLine p).toNat := congrArg Int.toNat hbytes
    rw [htoNat, Settings.expectedBytesPerLine]
    split_ifs
    · have hneg : -p.bytesPerLine.tdiv 3 = (-p.bytesPerLine).tdiv 3 := (Int.neg_tdiv ..).symm
      have hpos := Int.tdiv_nonneg (a := -p.bytesPerLine) (b := 3) (by omega) (by decide)
      exact Int.toNat_of_nonpos (by omega)
    · exact Int.toNat_of_nonpos hlt.le
  constructor
  · rintro ⟨ht, hlines⟩
    have hr := regular_ieee hp ((htable.1 ht).imp_right And.right)
    exact ⟨htable.1 ht, (lines_all_iff hr hw hdvd hneg hlen).1 hlines⟩
  · rintro ⟨ht, hcond⟩
    have hr := regular_ieee hp (ht.imp_right And.right)
    exact ⟨htable.2 ht, (lines_all_iff hr hw hdvd hneg hlen).2 hcond⟩

/-- Two gray pixels of a byte, for a gamma of two. -/
theorem atDeliveredDepth_iff_gray :
    let F := Arithmetic.ieee (fun _ => 0) wholePower
    let s := Settings.gray .single MIME_TYPE_PNG
    let p : SaneParameters := ⟨2, 2, 2, 8⟩
    let n := (s.setUp .png p).bytesPerLine.toNat
    AtDeliveredDepth F (.finite 2) s .png p ↔
      ((F.toFloat (.finite 2)).equal (.finite 1) = true ∨
          (1 ≤ s.bitDepth ∧ s.bitDepth ≤ 16) ∧ Arithmetic.NonNegative (F.toFloat (.finite 2))) ∧
        (n = 0 ∨ s.bitDepth = p.depth ∨ DepthIrrelevant F (.finite 2) s p.depth n) := by
  intro F s p n
  exact atDeliveredDepth_iff _ _ powLaws_wholePower _ s .png p (by decide) (.inl rfl)

/-- A pixel of two bytes where one was asked for: the table takes them for two pixels. -/
theorem not_atDeliveredDepth_word :
    let F := Arithmetic.ieee (fun _ => 0) wholePower
    let s := Settings.gray .single MIME_TYPE_PNG
    let p : SaneParameters := ⟨2, 1, 2, 16⟩
    (s.LineLengthsAgree p ∧ s.bitDepth = 8) ∧ ¬ AtDeliveredDepth F (.finite 2) s .png p := by
  intro F s p
  refine ⟨⟨by decide, rfl⟩, fun h => ?_⟩
  have hline := h.lines .word rfl [255, 128] rfl
  revert hline
  decide +kernel

end

end AirSane.ScanJob
