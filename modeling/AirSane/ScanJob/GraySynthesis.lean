import AirSane.Lists.Replaced
import AirSane.ScanJob.FinishTransfer

/-! # Gray from color, in place

`synthesizeGray` with the bounds of its buffer: a read or write outside is a fault.
A sample is written behind the samples it is computed from, so that all that is read
is the line that came from the scanner. The loop stops where its input pointer has
passed the end, which is after a fault if the last group is not complete.
-/

namespace AirSane.ScanJob
open Lists

/-- What the union of pointers in the source points to. -/
inductive Width where
  | byte
  | word
  deriving DecidableEq

namespace Width

def size : Width → ℕ
  | .byte => 1
  | .word => 2

def ofBitDepth (bitDepth : ℤ) : Option Width :=
  if bitDepth = 8 then some .byte else if bitDepth = 16 then some .word else none

def sampleAt (data : List UInt8) (i : ℕ) : Width → ℕ
  | .byte => byteAt data i
  | .word => wordAt data i

def setSample (data : List UInt8) (i x : ℕ) : Width → List UInt8
  | .byte => data.set i (UInt8.ofNat x)
  | .word => setWord data i x

variable (w : Width) (data : List UInt8)

/-- A read at a pointer that many samples in. -/
def load? (i : ℕ) : Option ℕ :=
  if w.size * (i + 1) ≤ data.length then some (w.sampleAt data i) else none

/-- An assignment there. -/
def store? (i x : ℕ) : Option (List UInt8) :=
  if w.size * (i + 1) ≤ data.length then some (w.setSample data i x) else none

end Width

section
variable (luminance : ℕ → ℕ → ℕ → ℕ) (w : Width)

/-- What the loop of `synthesizeGray` does before it moves its pointers. -/
def grayPass (input out : ℕ) (data : List UInt8) : Option (List UInt8) := do
  let r ← w.load? data input
  let g ← w.load? data (input + 1)
  let b ← w.load? data (input + 2)
  w.store? data out (luminance r g b)

variable {luminance w} {data d : List UInt8} {input out i x : ℕ}

theorem Width.size_pos : 0 < w.size := by cases w <;> decide

theorem length_setSample : (w.setSample data i x).length = data.length := by
  cases w <;> simp [Width.setSample, setWord]

theorem length_grayPass (h : grayPass luminance w input out data = some d) :
    d.length = data.length := by
  simp only [grayPass, Option.bind_eq_bind, Option.bind_eq_some_iff] at h
  obtain ⟨r, -, g, -, b, -, hd⟩ := h
  rw [Width.store?, Option.ite_none_right_eq_some] at hd
  rw [← Option.some.inj hd.2, length_setSample]

variable (luminance w)

/-- The loop, while the input pointer is in front of the end. -/
def grayLoop (input out : ℕ) (data : List UInt8) : Option (List UInt8) :=
  if w.size * input < data.length then
    match h : grayPass luminance w input out data with
    | some d => grayLoop (input + 3) (out + 1) d
    | none => none
  else some data
termination_by data.length - w.size * input
decreasing_by
  have hsize : 0 < w.size := Width.size_pos
  rw [length_grayPass h, Nat.mul_add]
  omega

end

/-- `synthesizeGray`, with a result unless there is a fault. -/
def Settings.synthesizeGray? (s : Settings) (data : List UInt8) : Option (List UInt8) :=
  match Width.ofBitDepth s.bitDepth with
  | some w => grayLoop s.luminance w 0 0 data
  | none => some data

section
variable {luminance : ℕ → ℕ → ℕ → ℕ} {w : Width} {line : List UInt8} {value : ℕ → ℕ} {m i : ℕ}

/-- A byte of a line of samples. -/
def Width.byteOf (w : Width) (value : ℕ → ℕ) (k : ℕ) : UInt8 :=
  UInt8.ofNat (value (k / w.size) / 256 ^ (k % w.size))

theorem byteOf_byte : Width.byte.byteOf value i = UInt8.ofNat (value i) := by
  simp [Width.byteOf, Width.size, Nat.mod_one]

theorem byteOf_word_low : Width.word.byteOf value (2 * i) = UInt8.ofNat (value i) := by
  simp [Width.byteOf, Width.size]

theorem byteOf_word_high :
    Width.word.byteOf value (2 * i + 1) = UInt8.ofNat (value i / 256) := by
  have hdiv : (2 * i + 1) / 2 = i := by omega
  have hmod : (2 * i + 1) % 2 = 1 := by omega
  rw [Width.byteOf, Width.size, hdiv, hmod, pow_one]

theorem sampleAt_replaced {new : ℕ → UInt8} (h : m ≤ w.size * i) :
    w.sampleAt (replaced new m line) i = w.sampleAt line i := by
  cases w with
  | byte =>
    rw [Width.size, one_mul] at h
    simp only [Width.sampleAt, byteAt, getD_replaced h]
  | word =>
    rw [Width.size] at h
    simp only [Width.sampleAt, wordAt, byteAt, getD_replaced h,
      getD_replaced (show m ≤ 2 * i + 1 by omega)]

theorem setSample_replaced :
    w.setSample (replaced (w.byteOf value) (w.size * i) line) i (value i) =
      replaced (w.byteOf value) (w.size * (i + 1)) line := by
  cases w with
  | byte =>
    rw [Width.setSample, Width.size, one_mul, one_mul, ← byteOf_byte, set_replaced]
  | word =>
    rw [Width.setSample, setWord, Width.size, ← byteOf_word_low, ← byteOf_word_high, set_replaced,
      set_replaced]
    rfl

theorem grayLoop_eq (input out : ℕ) (data : List UInt8) : grayLoop luminance w input out data =
    if w.size * input < data.length then
      (grayPass luminance w input out data).bind (grayLoop luminance w (input + 3) (out + 1))
    else some data := by
  rw [grayLoop]
  split_ifs
  · split <;> simp_all
  · rfl

/-- Sample `i` of gray from a line. -/
def grayOf (luminance : ℕ → ℕ → ℕ → ℕ) (w : Width) (line : List UInt8) (i : ℕ) : ℕ :=
  luminance (w.sampleAt line (3 * i)) (w.sampleAt line (3 * i + 1)) (w.sampleAt line (3 * i + 2))

/-- The line after some samples of gray. -/
def grayed (luminance : ℕ → ℕ → ℕ → ℕ) (w : Width) (line : List UInt8) (i : ℕ) : List UInt8 :=
  replaced (w.byteOf (grayOf luminance w line)) (w.size * i) line

@[simp] theorem length_grayed : (grayed luminance w line i).length = line.length :=
  length_replaced

/-- The samples of the next group have not been written yet. -/
theorem sampleAt_grayed {j : ℕ} (h : 3 * i ≤ j) :
    w.sampleAt (grayed luminance w line i) j = w.sampleAt line j :=
  sampleAt_replaced (Nat.mul_le_mul_left _ (by omega))

theorem load?_grayed {j : ℕ} (h : 3 * i ≤ j) :
    w.load? (grayed luminance w line i) j = w.load? line j := by
  rw [Width.load?, Width.load?, length_grayed, sampleAt_grayed h]

theorem store?_grayed (h : w.size * (i + 1) ≤ line.length) :
    w.store? (grayed luminance w line i) i (grayOf luminance w line i) =
      some (grayed luminance w line (i + 1)) := by
  rw [Width.store?, length_grayed, if_pos h]
  exact congrArg some setSample_replaced

/-- A complete group becomes a sample. -/
theorem grayPass_grayed (h : w.size * (3 * i + 3) ≤ line.length) :
    grayPass luminance w (3 * i) i (grayed luminance w line i) =
      some (grayed luminance w line (i + 1)) := by
  have hle (j : ℕ) (hj : j ≤ 3 * i + 3) : w.size * j ≤ line.length :=
    (Nat.mul_le_mul_left _ hj).trans h
  have hload (j : ℕ) (hj : j < 3 * i + 3) : w.load? line j = some (w.sampleAt line j) :=
    if_pos (hle (j + 1) hj)
  simp only [grayPass, load?_grayed (show 3 * i ≤ 3 * i by omega),
    load?_grayed (show 3 * i ≤ 3 * i + 1 by omega), load?_grayed (show 3 * i ≤ 3 * i + 2 by omega),
    hload (3 * i) (by omega), hload (3 * i + 1) (by omega), hload (3 * i + 2) (by omega),
    Option.bind_eq_bind, Option.bind_some]
  exact store?_grayed (hle (i + 1) (by omega))

/-- A group that is not complete is read past the end. -/
theorem grayPass_fault {data : List UInt8} {input out : ℕ}
    (h : data.length < w.size * (input + 3)) : grayPass luminance w input out data = none := by
  have hload : w.load? data (input + 2) = none := if_neg h.not_ge
  simp [grayPass, hload]

/-- From any group on, the loop ends with all of them done, or at a fault. -/
theorem grayLoop_grayed {n : ℕ} (hn : n = line.length / (3 * w.size)) (hi : i ≤ n) :
    grayLoop luminance w (3 * i) i (grayed luminance w line i) =
      if 3 * w.size ∣ line.length then some (grayed luminance w line n) else none := by
  have hsize : 0 < 3 * w.size := Nat.mul_pos (by decide) Width.size_pos
  have hdiv := Nat.div_add_mod line.length (3 * w.size)
  have hmod := Nat.mod_lt line.length hsize
  rw [← hn] at hdiv
  induction hi using Nat.decreasingInduction with
  | self =>
    have hmul : w.size * (3 * n) = 3 * w.size * n := by ring
    have hmul' : w.size * (3 * n + 3) = 3 * w.size * n + 3 * w.size := by ring
    rw [grayLoop_eq, length_grayed]
    by_cases hdvd : 3 * w.size ∣ line.length
    · have h0 := Nat.mod_eq_zero_of_dvd hdvd
      rw [if_neg (by omega), if_pos hdvd]
    · have h0 : line.length % (3 * w.size) ≠ 0 := fun h => hdvd (Nat.dvd_of_mod_eq_zero h)
      rw [if_pos (by omega), if_neg hdvd, grayPass_fault (by rw [length_grayed]; omega)]
      rfl
  | of_succ i hin ih =>
    have hle : w.size * (3 * i + 3) ≤ line.length := by
      have hmul : w.size * (3 * i + 3) = 3 * w.size * (i + 1) := by ring
      have hmono := Nat.mul_le_mul_left (3 * w.size) (show i + 1 ≤ n from hin)
      omega
    have hlt : w.size * (3 * i) < line.length :=
      (Nat.mul_lt_mul_of_pos_left (by omega : 3 * i < 3 * i + 3) Width.size_pos).trans_le hle
    rw [grayLoop_eq, length_grayed, if_pos hlt, grayPass_grayed hle]
    exact ih

theorem sampleAt_replaced_of_lt (h : w.size * (i + 1) ≤ m) (hi : w.size * (i + 1) ≤ line.length) :
    w.sampleAt (replaced (w.byteOf value) m line) i = value i % 256 ^ w.size := by
  cases w with
  | byte =>
    rw [Width.size, one_mul] at h hi
    rw [Width.sampleAt, byteAt, getD_replaced_of_lt (show i < m by omega) hi, byteOf_byte,
      UInt8.toNat_ofNat']
    rfl
  | word =>
    rw [Width.size] at h hi
    rw [Width.sampleAt, wordAt, byteAt, byteAt,
      getD_replaced_of_lt (show 2 * i < m by omega) (show 2 * i < line.length by omega),
      getD_replaced_of_lt (show 2 * i + 1 < m by omega) (show 2 * i + 1 < line.length by omega),
      byteOf_word_low, byteOf_word_high, UInt8.toNat_ofNat', UInt8.toNat_ofNat', Width.size]
    omega

end

namespace Settings
variable {s : Settings} {w : Width} {line : List UInt8}

theorem synthesizeGray?_eq (hw : Width.ofBitDepth s.bitDepth = some w) :
    s.synthesizeGray? line = if 3 * w.size ∣ line.length then
      some (grayed s.luminance w line (line.length / (3 * w.size))) else none := by
  have hzero : grayed s.luminance w line 0 = line := by
    rw [grayed, Nat.mul_zero, replaced_zero]
  rw [synthesizeGray?, hw]
  calc grayLoop s.luminance w 0 0 line
      = grayLoop s.luminance w (3 * 0) 0 (grayed s.luminance w line 0) := by
        rw [hzero, Nat.mul_zero]
    _ = _ := grayLoop_grayed rfl (Nat.zero_le _)

/-- Without the bounds, the pass goes on to the end of the last group. -/
theorem synthesizeGray_eq (hw : Width.ofBitDepth s.bitDepth = some w) :
    s.synthesizeGray line =
      grayed s.luminance w line ((line.length + (3 * w.size - 1)) / (3 * w.size)) := by
  have hstep (w : Width) (i : ℕ) : w.setSample (grayed s.luminance w line i) i
      (s.luminance (w.sampleAt (grayed s.luminance w line i) (3 * i))
        (w.sampleAt (grayed s.luminance w line i) (3 * i + 1))
        (w.sampleAt (grayed s.luminance w line i) (3 * i + 2))) =
      grayed s.luminance w line (i + 1) := by
    rw [sampleAt_grayed (by omega), sampleAt_grayed (by omega), sampleAt_grayed (by omega)]
    exact setSample_replaced
  rw [Width.ofBitDepth] at hw
  rw [synthesizeGray]
  split_ifs at hw ⊢
  · cases hw
    exact foldl_replaced (hstep .byte) _
  · cases hw
    exact foldl_replaced (hstep .word) _

/-- Within the bounds it is the same pass. -/
theorem synthesizeGray_of_some {d : List UInt8} (h : s.synthesizeGray? line = some d) :
    s.synthesizeGray line = d := by
  cases hw : Width.ofBitDepth s.bitDepth with
  | none =>
    rw [synthesizeGray?, hw] at h
    obtain rfl := Option.some.inj h
    rw [Width.ofBitDepth] at hw
    rw [synthesizeGray]
    split_ifs at hw ⊢
    rfl
  | some w =>
    have hsize : 0 < 3 * w.size := Nat.mul_pos (by decide) Width.size_pos
    rw [synthesizeGray?_eq hw, Option.ite_none_right_eq_some] at h
    obtain ⟨⟨n, hn⟩, h⟩ := h
    have hceil : (line.length + (3 * w.size - 1)) / (3 * w.size) = line.length / (3 * w.size) := by
      rw [hn, Nat.mul_div_cancel_left n hsize, Nat.mul_add_div hsize,
        Nat.div_eq_of_lt (by omega), Nat.add_zero]
    rw [synthesizeGray_eq hw, hceil]
    exact Option.some.inj h

/-- A line becomes gray without a fault, and its samples are those of its colors. -/
def GraySynthesized (s : Settings) (bytesPerLine : ℤ) (line : List UInt8) : Prop :=
  ∃ w, Width.ofBitDepth s.bitDepth = some w ∧ ∃ d, s.synthesizeGray? line = some d ∧
    ∀ i : ℕ, w.size * i < bytesPerLine → w.sampleAt d i =
      s.luminance (w.sampleAt line (3 * i)) (w.sampleAt line (3 * i + 1))
        (w.sampleAt line (3 * i + 2)) % 2 ^ (8 * w.size)

theorem graySynthesized_iff_dvd (hw : Width.ofBitDepth s.bitDepth = some w) :
    s.GraySynthesized ((line.length : ℤ).tdiv 3) line ↔ 3 * w.size ∣ line.length := by
  have hsize : 0 < 3 * w.size := Nat.mul_pos (by decide) Width.size_pos
  have hpow : 2 ^ (8 * w.size) = 256 ^ w.size := by rw [pow_mul]; rfl
  constructor
  · rintro ⟨w', hw', d, hd, -⟩
    rw [hw, Option.some_inj] at hw'
    subst hw'
    rw [synthesizeGray?_eq hw, Option.ite_none_right_eq_some] at hd
    exact hd.1
  · rintro ⟨n, hn⟩
    have hdiv : line.length / (3 * w.size) = n := by rw [hn, Nat.mul_div_cancel_left n hsize]
    refine ⟨w, hw, _, by rw [synthesizeGray?_eq hw, if_pos ⟨n, hn⟩], fun i hi => ?_⟩
    have hline : line.length = 3 * (w.size * n) := by rw [hn, Nat.mul_assoc]
    rw [Int.tdiv_eq_ediv_of_nonneg (Int.natCast_nonneg _)] at hi
    have hin : i < n := Nat.lt_of_mul_lt_mul_left (a := w.size) (by omega)
    have hle : w.size * (i + 1) ≤ w.size * n := Nat.mul_le_mul_left _ hin
    rw [hdiv, hpow, grayed, sampleAt_replaced_of_lt hle (by omega)]
    rfl

/-- A line that the encoder takes becomes gray inside its buffer if it has no bytes
behind its last group of samples. -/
theorem graySynthesized_iff (s : Settings) (kind : EncoderKind) (p : SaneParameters)
    (line : List UInt8) (hs : s.synthesizes = true) (hl : s.LineLengthsAgree p)
    (hd : p.depth = 8 ∨ p.depth = 16) (hb : s.bitDepth = p.depth)
    (hline : (line.length : ℤ) = p.bytesPerLine) :
    s.GraySynthesized (s.setUp kind p).bytesPerLine line ↔ 3 * (p.depth / 8) ∣ p.bytesPerLine := by
  have hbytes : (s.setUp kind p).bytesPerLine = (line.length : ℤ).tdiv 3 := by
    have hagree : (s.setUp kind p).bytesPerLine = s.expectedBytesPerLine p := hl
    rw [hagree, expectedBytesPerLine, if_pos hs, hline]
  rw [hbytes, ← hline]
  rcases hd with hd | hd
  · rw [graySynthesized_iff_dvd (w := .byte) (by rw [hb, hd]; rfl), hd]
    exact Int.natCast_dvd_natCast.symm
  · rw [graySynthesized_iff_dvd (w := .word) (by rw [hb, hd]; rfl), hd]
    exact Int.natCast_dvd_natCast.symm

/-- A pixel a line. -/
theorem graySynthesized_iff_pixel :
    let s := { Settings.gray .single MIME_TYPE_PNG with synthesize_gray := true }
    let p : SaneParameters := ⟨3, 1, 2, 8⟩
    s.GraySynthesized (s.setUp .png p).bytesPerLine [10, 20, 30] ↔
      3 * (p.depth / 8) ∣ p.bytesPerLine := by
  intro s p
  exact graySynthesized_iff s .png p [10, 20, 30] rfl (by decide) (.inl rfl) rfl rfl

/-- A pixel and a byte of padding a line. -/
theorem not_graySynthesized_padding :
    let s := { Settings.gray .single MIME_TYPE_PNG with synthesize_gray := true }
    let p : SaneParameters := ⟨4, 1, 2, 8⟩
    (s.synthesizes = true ∧ s.LineLengthsAgree p ∧ s.bitDepth = p.depth) ∧
      ¬ s.GraySynthesized (s.setUp .png p).bytesPerLine [10, 20, 30, 0] := by
  intro s p
  refine ⟨⟨rfl, by decide, rfl⟩, ?_⟩
  have hbytes : (s.setUp .png p).bytesPerLine = (4 : ℤ).tdiv 3 := by decide
  rw [hbytes]
  exact fun h => absurd ((graySynthesized_iff_dvd (w := .byte) rfl).1 h) (by decide)

end Settings

end AirSane.ScanJob
