import AirSane.Sanecpp.Options
import AirSane.Server.FailingSources
import AirSane.Server.Resolutions

/-! # The scan area in floating-point numbers

`InputSource::init` from the constraints of the area options, which may be
missing, and the two bounds that `init2` keeps of its sources.
-/

namespace AirSane
open Text Numbers Sanecpp

/-- A size at 300 dpi as the code computes it. -/
structure ScanArea where
  mMinWidth : Double
  mMaxWidth : Double
  mMinHeight : Double
  mMaxHeight : Double
  mMaxPhysicalWidth : Double
  mMaxPhysicalHeight : Double

namespace ScanArea
variable (F : Arithmetic)

/-- US Letter is the widest and A4 the highest of the two, in millimeters. -/
def default : ScanArea where
  mMinWidth := .finite 0
  mMaxWidth := .finite 216
  mMinHeight := .finite 0
  mMaxHeight := .finite 297
  mMaxPhysicalWidth := .finite 216
  mMaxPhysicalHeight := .finite 297

/-- The last loop of `InputSource::init`. -/
def scaled (a : ScanArea) (f : Double) : ScanArea where
  mMinWidth := F.rounded (a.mMinWidth.mul F.double f)
  mMaxWidth := F.rounded (a.mMaxWidth.mul F.double f)
  mMinHeight := F.rounded (a.mMinHeight.mul F.double f)
  mMaxHeight := F.rounded (a.mMaxHeight.mul F.double f)
  mMaxPhysicalWidth := F.rounded (a.mMaxPhysicalWidth.mul F.double f)
  mMaxPhysicalHeight := F.rounded (a.mMaxPhysicalHeight.mul F.double f)

/-- The conversions to integers. -/
def toArea (a : ScanArea) : Area where
  mMinWidth := F.toInt a.mMinWidth
  mMaxWidth := F.toInt a.mMaxWidth
  mMinHeight := F.toInt a.mMinHeight
  mMaxHeight := F.toInt a.mMaxHeight
  mMaxPhysicalWidth := F.toInt a.mMaxPhysicalWidth
  mMaxPhysicalHeight := F.toInt a.mMaxPhysicalHeight

end ScanArea

section
variable (F : Arithmetic) (opt : String → SaneOption)

/-- Whether the device has all four options of the scan area. -/
def hasArea : Bool :=
  !(opt SANE_NAME_SCAN_TL_X).is_null && !(opt SANE_NAME_SCAN_TL_Y).is_null &&
    !(opt SANE_NAME_SCAN_BR_X).is_null && !(opt SANE_NAME_SCAN_BR_Y).is_null

/-- The scan area in the unit of its options. -/
def optionArea : ScanArea where
  mMinWidth := Extended.max (.finite 0)
    (((opt SANE_NAME_SCAN_BR_X).min F).sub F.double ((opt SANE_NAME_SCAN_TL_X).max F))
  mMaxWidth := ((opt SANE_NAME_SCAN_BR_X).max F).sub F.double ((opt SANE_NAME_SCAN_TL_X).min F)
  mMinHeight := Extended.max (.finite 0)
    (((opt SANE_NAME_SCAN_BR_Y).min F).sub F.double ((opt SANE_NAME_SCAN_TL_Y).max F))
  mMaxHeight := ((opt SANE_NAME_SCAN_BR_Y).max F).sub F.double ((opt SANE_NAME_SCAN_TL_Y).min F)
  mMaxPhysicalWidth := (opt SANE_NAME_SCAN_BR_X).max F
  mMaxPhysicalHeight := (opt SANE_NAME_SCAN_BR_Y).max F

/-- Pixels at 300 dpi for a unit, if it is one of length. -/
def areaFactor : SaneUnit → Option Double
  | .mm => some ((Extended.finite 300).div F.double (F.double (254 / 10)))
  | .pixel => some ((Extended.finite 300).div F.double ((opt SANE_NAME_SCAN_RESOLUTION).numeric_value F))
  | _ => none

def areaUnit : SaneUnit := if hasArea opt then (opt SANE_NAME_SCAN_TL_X).unit else .mm

/-- The scan area before it is scaled. -/
def givenArea : ScanArea := if hasArea opt then optionArea F opt else .default

def ConsistentUnits : Prop :=
  hasArea opt → ∀ name ∈ [SANE_NAME_SCAN_TL_Y, SANE_NAME_SCAN_BR_X, SANE_NAME_SCAN_BR_Y],
    (opt name).unit = areaUnit opt

instance : Decidable (ConsistentUnits opt) := inferInstanceAs (Decidable (_ → _))

/-- `InputSource::init`, as far as it is about the scan area. -/
def scanArea : ScanArea × Option String :=
  if ConsistentUnits opt then
    match areaFactor F opt (areaUnit opt) with
    | some f => ((givenArea F opt).scaled F f, none)
    | none => (givenArea F opt, some "unexpected unit in scan area parameters")
  else (.default, some "inconsistent unit in scan area parameters")

/-- A side of the scan area has at least `c` pixels at 300 dpi. -/
def Spans (side : ScanArea → Double) (c : ℚ) : Prop :=
  ConsistentUnits opt ∧ ∃ f ∈ areaFactor F opt (areaUnit opt),
    (F.rounded ((side (givenArea F opt)).mul F.double f)).Reaches c

instance (side : ScanArea → Double) (c : ℚ) : Decidable (Spans F opt side c) :=
  inferInstanceAs (Decidable (_ ∧ _))

variable {F opt} {side : ScanArea → Double} {c : ℚ}

theorem spans_iff (hside : ∀ a f, side (ScanArea.scaled F a f) = F.rounded ((side a).mul F.double f)) :
    Spans F opt side c ↔ (scanArea F opt).2 = none ∧ (side (scanArea F opt).1).Reaches c := by
  rw [Spans, scanArea]
  by_cases hu : ConsistentUnits opt
  · rw [if_pos hu]
    cases hf : areaFactor F opt (areaUnit opt) with
    | none => simp [hu]
    | some f => simp [hu, hside]
  · rw [if_neg hu]
    simp [hu]

/-- Without a bound for each of its edges the width is not a number. -/
theorem not_spans_of_unbounded (ha : hasArea opt)
    (hbound : (opt SANE_NAME_SCAN_BR_X).max F = .nan ∨ (opt SANE_NAME_SCAN_TL_X).min F = .nan) :
    ¬ Spans F opt (·.mMaxWidth) c := by
  have hwidth : (givenArea F opt).mMaxWidth = .nan := by
    rw [givenArea, if_pos ha, optionArea]
    rcases hbound with h | h <;> simp [h, Extended.sub]
  rintro ⟨-, f, -, hr⟩
  simp [hwidth, Arithmetic.rounded] at hr

end

/-- The options of a device whose source can be set. -/
structure OptionTable (S : Type) where
  option : S → String → SaneOption
  /-- The value of the source option. -/
  source : S → Octets
  setSource : Octets → S → S

section
variable {S : Type} (F : Arithmetic) (t : OptionTable S)

/-- The resolutions of `init2`. The doublings of 75 dpi pass every `int` within 64 steps. -/
def OptionTable.resolutions (s : S) : Option Resolutions :=
  let resolution := t.option s SANE_NAME_SCAN_RESOLUTION
  if resolution.is_null then none
  else
    let mMinResDpi := F.toInt (resolution.min F)
    let mMaxResDpi := F.toInt (resolution.max F)
    let mResStepDpi := F.toInt (resolution.quant F)
    let discrete := (resolution.allowed_numeric_values F).map F.toInt
    some ⟨mMinResDpi, mMaxResDpi, mResStepDpi, if discrete ≠ [] then discrete else
      ((discretizeResolutions 64 mMinResDpi mMaxResDpi mResStepDpi).getD []).map Int.floor⟩

/-- What `init2` reads of the options. -/
def OptionTable.backend : Backend S where
  resolution := t.resolutions F
  modes s := (t.option s SANE_NAME_SCAN_MODE).allowed_string_values
  sources s := (t.option s SANE_NAME_SCAN_SOURCE).allowed_string_values
  source := t.source
  setSource := t.setSource
  bitDepth s :=
    let depth := t.option s SANE_NAME_BIT_DEPTH
    if depth.is_null then none else some (F.toInt (depth.max F))
  area s := ((scanArea F (t.option s)).1.toArea F, (scanArea F (t.option s)).2)

/-- The device each time that `init2` reads a source from it. -/
def OptionTable.visited (device : S) : List S :=
  (t.backend F).visits (selections ((t.backend F).sources device)) device

/-- What a source without an error does to the bounds that `init2` keeps. -/
def OptionTable.addSize (bounds : Double × Double) (s : S) : Double × Double :=
  match scanArea F (t.option s) with
  | (_, some _) => bounds
  | (area, none) => (bounds.1.max area.mMaxWidth, bounds.2.max area.mMaxHeight)

/-- `mMaxWidthPx300dpi` and `mMaxHeightPx300dpi`, from their start in `init2` on. -/
def OptionTable.bounds (device : S) : Double × Double :=
  (t.visited F device).foldl (t.addSize F) (.finite 0, .finite 0)

variable {F t} {device : S} {c : ℚ}

/-- The sources of the bounds that count: those without an error. -/
theorem bounds_eq (device : S) : t.bounds F device =
    ((((t.visited F device).filter fun s => (scanArea F (t.option s)).2 = none).map fun s =>
        (scanArea F (t.option s)).1.mMaxWidth).foldl .max (.finite 0),
      (((t.visited F device).filter fun s => (scanArea F (t.option s)).2 = none).map fun s =>
        (scanArea F (t.option s)).1.mMaxHeight).foldl .max (.finite 0)) := by
  rw [OptionTable.bounds]
  generalize (Extended.finite 0 : Double) = x
  suffices h : ∀ l : List S, ∀ a b : Double, l.foldl (t.addSize F) (a, b) =
      (((l.filter fun s => (scanArea F (t.option s)).2 = none).map fun s =>
        (scanArea F (t.option s)).1.mMaxWidth).foldl .max a,
        ((l.filter fun s => (scanArea F (t.option s)).2 = none).map fun s =>
          (scanArea F (t.option s)).1.mMaxHeight).foldl .max b) from h _ x x
  intro l
  induction l with
  | nil => exact fun _ _ => rfl
  | cons s l ih =>
    intro a b
    rw [List.foldl_cons, OptionTable.addSize]
    rcases h : scanArea F (t.option s) with ⟨area, _ | e⟩
    · rw [ih]
      simp [h]
    · rw [ih]
      simp [h]

theorem reaches_largest (side : ScanArea → Double)
    (hside : ∀ a f, side (ScanArea.scaled F a f) = F.rounded ((side a).mul F.double f))
    (hc : 0 < c) (l : List S) :
    Extended.Reaches c (((l.filter fun s => (scanArea F (t.option s)).2 = none).map fun s =>
      side (scanArea F (t.option s)).1).foldl .max (.finite 0)) ↔
        ∃ s ∈ l, Spans F (t.option s) side c := by
  have hzero : (.finite 0 : Double) ≠ .nan := by simp
  rw [Extended.reaches_foldl_max hzero, Extended.reaches_finite, or_iff_right (not_le.2 hc)]
  simp [spans_iff hside, and_assoc]

theorem reaches_width (hc : 0 < c) : (t.bounds F device).1.Reaches c ↔
    ∃ s ∈ t.visited F device, Spans F (t.option s) (·.mMaxWidth) c := by
  rw [bounds_eq]
  exact reaches_largest (·.mMaxWidth) (fun _ _ => rfl) hc _

theorem reaches_height (hc : 0 < c) : (t.bounds F device).2.Reaches c ↔
    ∃ s ∈ t.visited F device, Spans F (t.option s) (·.mMaxHeight) c := by
  rw [bounds_eq]
  exact reaches_largest (·.mMaxHeight) (fun _ _ => rfl) hc _

/-- A size in pixels, unless it is infinite. -/
def IsSize (d : Double) : Prop := d = .infinite false ∨ ∃ n : ℤ, 0 ≤ n ∧ d = .finite n

theorem isSize_largest (side : ScanArea → Double)
    (hside : ∀ a f, side (ScanArea.scaled F a f) = F.rounded ((side a).mul F.double f)) (l : List S) :
    IsSize (((l.filter fun s => (scanArea F (t.option s)).2 = none).map fun s =>
      side (scanArea F (t.option s)).1).foldl .max (.finite 0)) := by
  have hzero : (.finite 0 : Double) ≠ .nan := by simp
  set sides := (l.filter fun s => (scanArea F (t.option s)).2 = none).map fun s =>
    side (scanArea F (t.option s)).1 with hsides
  have hreach : Extended.Reaches 0 (sides.foldl .max (.finite (0 : ℚ))) :=
    (Extended.reaches_foldl_max hzero sides).2 (.inl le_rfl)
  have hwhole : ∀ d ∈ (.finite 0 : Double) :: sides, ∀ x, d = .finite x → ∃ n : ℤ, x = n := by
    rintro d hd x rfl
    rcases List.mem_cons.1 hd with hd | hd
    · exact ⟨0, by simpa using hd⟩
    · rw [hsides, List.mem_map] at hd
      obtain ⟨s, hs, hd⟩ := hd
      obtain ⟨f, hf⟩ : ∃ f, scanArea F (t.option s) = ((givenArea F (t.option s)).scaled F f, none) := by
        have he : (scanArea F (t.option s)).2 = none := by simpa using (List.mem_filter.1 hs).2
        rw [scanArea] at he ⊢
        split_ifs at he ⊢
        cases hu : areaFactor F (t.option s) (areaUnit (t.option s)) with
        | none => simp [hu] at he
        | some f => exact ⟨f, rfl⟩
      rw [hf, hside, Arithmetic.rounded] at hd
      generalize ((side (givenArea F (t.option s))).mul F.double f).add F.double (.finite (1 / 2)) = e
        at hd
      cases e with
      | finite y => exact ⟨⌊y⌋, by simpa using hd.symm⟩
      | _ => simp at hd
  have hmem := Extended.foldl_max_mem (.finite (0 : ℚ)) sides
  generalize sides.foldl Extended.max (.finite 0) = d at hreach hmem
  cases d with
  | nan => exact absurd hreach Extended.not_reaches_nan
  | infinite s => exact .inl (by rw [Extended.reaches_infinite.1 hreach])
  | finite x =>
    obtain ⟨n, rfl⟩ := hwhole _ hmem x rfl
    exact .inr ⟨n, by exact_mod_cast Extended.reaches_finite.1 hreach, rfl⟩

theorem isSize_bounds (device : S) :
    IsSize (t.bounds F device).1 ∧ IsSize (t.bounds F device).2 := by
  rw [bounds_eq]
  exact ⟨isSize_largest (·.mMaxWidth) (fun _ _ => rfl) _,
    isSize_largest (·.mMaxHeight) (fun _ _ => rfl) _⟩

end

end AirSane
