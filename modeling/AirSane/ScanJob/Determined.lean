import AirSane.ScanJob.TicketInit

/-! # What the ticket determines

A job takes over what its memory held where `init` sets a field only for tickets
that it recognises. For the others no two jobs need to agree.
-/

namespace AirSane.ScanJob
open Text

variable {D : Type} {A : Doubles D} {scanner : ScannerDescription} {xml : Octets}
variable {autoselectFormat : Bool} {options : Options D} {j : Job D} {u : Memory D}

/-- The parts of a job's configuration that its scan depends on. -/
structure Job.Agrees (j j' : Job D) : Prop where
  kind : j.mKind = j'.mKind
  colorScan : j.mColorScan = j'.mColorScan
  colorMode : j.mColorMode = j'.mColorMode
  bitDepth : j.mBitDepth = j'.mBitDepth
  source : j.mScanSource = j'.mScanSource
  resolution : j.mRes_dpi = j'.mRes_dpi
  gammaTable : j.mGammaTable = j'.mGammaTable
  state : j.mState = j'.mState

/-- The ticket determines the configuration, whatever was in memory, and the flag
says whether the mode that is chosen is the color mode. -/
structure Determined (A : Doubles D) (scanner : ScannerDescription) (xml : Octets)
    (autoselectFormat : Bool) (options : Options D) : Prop where
  agrees : ∀ u u', ((Job.constructed A u).init A scanner xml autoselectFormat options).Agrees
    ((Job.constructed A u').init A scanner xml autoselectFormat options)
  flag : ∀ u, ((Job.constructed A u).init A scanner xml autoselectFormat options).mColorScan = true ↔
    ((Job.constructed A u).choose A scanner xml).mColorMode = scanner.colorScanModeName

/-- The color mode of a ticket is one that `init` knows, and the scanner has a mode
for it or is given the same one for the intent. -/
def ColorRecognised (scanner : ScannerDescription) (xml : Octets) : Prop :=
  ∃ c digits, colorMode xml = some (c, digits) ∧
    (c = ascii "RGB" ∧ (scanner.colorScanModeName ≠ [] ∨ intent xml = ascii "Photo") ∨
      c = ascii "Grayscale" ∧ (scanner.grayScanModeName ≠ [] ∨ intent xml ≠ ascii "Photo"))

def SourceRecognised (scanner : ScannerDescription) (xml : Octets) : Prop :=
  inputSource scanner xml = ascii "Platen" ∨ inputSource scanner xml = ascii "Feeder"

section
variable {digits : Octets}

theorem setColorMode_rgb (h : colorMode xml = some (ascii "RGB", digits)) :
    j.setColorMode scanner xml =
      { j with mColorMode := scanner.colorScanModeName, mColorScan := true,
               mBitDepth := decimalValue digits / 3 } := by
  rw [Job.setColorMode, h]
  rfl

theorem setColorMode_grayscale (h : colorMode xml = some (ascii "Grayscale", digits)) :
    j.setColorMode scanner xml =
      { j with mColorMode := scanner.grayScanModeName, mColorScan := false,
               mBitDepth := decimalValue digits } := by
  rw [Job.setColorMode, h]
  rfl

theorem setColorMode_other (h : ∀ digits, colorMode xml ≠ some (ascii "RGB", digits) ∧
    colorMode xml ≠ some (ascii "Grayscale", digits)) : j.setColorMode scanner xml = j := by
  rw [Job.setColorMode]
  rcases hp : colorMode xml with _ | ⟨c, digits⟩
  · rfl
  · have hrgb : c ≠ ascii "RGB" := by
      rintro rfl
      exact (h digits).1 hp
    have hgray : c ≠ ascii "Grayscale" := by
      rintro rfl
      exact (h digits).2 hp
    simp only [hrgb, hgray, if_false]

theorem setColorMode_mKind : (j.setColorMode scanner xml).mKind = j.mKind := by
  rw [Job.setColorMode]
  split
  · split_ifs <;> rfl
  · rfl

@[simp] theorem defaultColorMode_mColorScan :
    (j.defaultColorMode scanner).mColorScan = j.mColorScan := by
  rw [Job.defaultColorMode]
  split_ifs <;> rfl

@[simp] theorem defaultColorMode_mKind : (j.defaultColorMode scanner).mKind = j.mKind := by
  rw [Job.defaultColorMode]
  split_ifs <;> rfl

theorem defaultColorMode_mColorMode : (j.defaultColorMode scanner).mColorMode =
    if j.mColorMode = [] then
      if j.mIntent = ascii "Photo" then scanner.colorScanModeName else scanner.grayScanModeName
    else j.mColorMode := by
  rw [Job.defaultColorMode]
  split_ifs <;> rfl

/-- The mode and flag of a job, by the ticket's color mode. -/
theorem choose_rgb (h : colorMode xml = some (ascii "RGB", digits)) :
    (j.choose A scanner xml).mColorScan = true ∧ (j.choose A scanner xml).mColorMode =
      if scanner.colorScanModeName = [] ∧ intent xml ≠ ascii "Photo" then scanner.grayScanModeName
      else scanner.colorScanModeName := by
  rw [Job.choose, setColorMode_rgb h]
  constructor
  · exact defaultColorMode_mColorScan
  · rw [defaultColorMode_mColorMode]
    simp only [Job.setGeometry, Job.setIntent]
    by_cases hmode : scanner.colorScanModeName = []
    · by_cases hphoto : intent xml = ascii "Photo" <;> simp [hmode, hphoto]
    · simp [hmode]

theorem choose_grayscale (h : colorMode xml = some (ascii "Grayscale", digits)) :
    (j.choose A scanner xml).mColorScan = false ∧ (j.choose A scanner xml).mColorMode =
      if scanner.grayScanModeName = [] ∧ intent xml = ascii "Photo" then scanner.colorScanModeName
      else scanner.grayScanModeName := by
  rw [Job.choose, setColorMode_grayscale h]
  constructor
  · exact defaultColorMode_mColorScan
  · rw [defaultColorMode_mColorMode]
    simp only [Job.setGeometry, Job.setIntent]
    by_cases hmode : scanner.grayScanModeName = []
    · by_cases hphoto : intent xml = ascii "Photo" <;> simp [hmode, hphoto]
    · simp [hmode]

/-- For any other color mode the flag stays what it was. -/
theorem choose_other (h : ∀ digits, colorMode xml ≠ some (ascii "RGB", digits) ∧
    colorMode xml ≠ some (ascii "Grayscale", digits)) :
    (j.choose A scanner xml).mColorScan = j.mColorScan := by
  rw [Job.choose, setColorMode_other h]
  exact defaultColorMode_mColorScan

theorem choose_mKind : (j.choose A scanner xml).mKind = j.mKind := by
  rw [Job.choose, defaultColorMode_mKind, setColorMode_mKind]
  rfl

theorem setState_eq : ∃ state reason,
    j.setState A scanner xml = { j with mState := state, mStateReason := reason } := by
  rw [Job.setState]
  split_ifs
  · exact ⟨_, _, rfl⟩
  · exact ⟨_, _, rfl⟩

theorem setInputSource_mColorScan :
    (j.setInputSource A scanner xml).mColorScan = j.mColorScan := by
  rw [Job.setInputSource]
  split_ifs <;> rfl

theorem init_mColorScan : (j.init A scanner xml autoselectFormat options).mColorScan =
    (j.choose A scanner xml).mColorScan := by
  rcases setState_eq (A := A) with ⟨state, reason, h⟩
  rw [Job.init, h]
  exact setInputSource_mColorScan

/-- For an input source that there is not, the kind stays what it was. -/
theorem init_mKind (h : ¬ SourceRecognised scanner xml) :
    (j.init A scanner xml autoselectFormat options).mKind = j.mKind := by
  rw [SourceRecognised, not_or] at h
  rcases setState_eq (A := A) with ⟨state, reason, hstate⟩
  rw [Job.init, hstate, Job.setInputSource, if_neg h.1, if_neg h.2]
  exact choose_mKind

end

/-- Memory with nothing in it. -/
def Memory.zero (A : Doubles D) : Memory D :=
  ⟨0, 0, false, false, A.nan, A.nan, A.nan, A.nan, 0, 0⟩

/-- A job with other memory where `init` has not set it yet. -/
def Job.with (j : Job D) (u : Memory D) : Job D :=
  { j with mDuplex := u.mDuplex, mKind := u.mKind, mImagesCompleted := u.mImagesCompleted }

theorem defaultColorMode_with :
    (j.with u).defaultColorMode scanner = (j.defaultColorMode scanner).with u := by
  rw [Job.defaultColorMode, Job.defaultColorMode]
  have hmode : (j.with u).mColorMode = j.mColorMode := rfl
  have hintent : (j.with u).mIntent = j.mIntent := rfl
  rw [hmode, hintent]
  split_ifs <;> rfl

/-- With a color mode that it knows, only what is set later depends on memory. -/
theorem choose_constructed {c digits : Octets} (h : colorMode xml = some (c, digits))
    (hc : c = ascii "RGB" ∨ c = ascii "Grayscale") :
    (Job.constructed A u).choose A scanner xml =
      ((Job.constructed A (.zero A)).choose A scanner xml).with u := by
  rcases hc with rfl | rfl
  · rw [Job.choose, Job.choose, setColorMode_rgb h, setColorMode_rgb h, ← defaultColorMode_with]
    rfl
  · rw [Job.choose, Job.choose, setColorMode_grayscale h, setColorMode_grayscale h,
      ← defaultColorMode_with]
    rfl

theorem setDocumentFormat_with : (j.with u).setDocumentFormat xml autoselectFormat =
    (j.setDocumentFormat xml autoselectFormat).with u := rfl

@[simp] theorem with_mDocumentFormat : (j.with u).mDocumentFormat = j.mDocumentFormat := rfl

theorem agrees_init (hc : ColorRecognised scanner xml) (hs : SourceRecognised scanner xml)
    (u' : Memory D) : ((Job.constructed A u).init A scanner xml autoselectFormat options).Agrees
      ((Job.constructed A u').init A scanner xml autoselectFormat options) := by
  rcases hc with ⟨c, digits, h, hname⟩
  have hc : c = ascii "RGB" ∨ c = ascii "Grayscale" := hname.imp And.left And.left
  have hne : ascii "Feeder" ≠ ascii "Platen" := by decide
  rw [Job.init, Job.init, choose_constructed h hc, choose_constructed (u := u') h hc,
    setDocumentFormat_with, setDocumentFormat_with, Job.setState, Job.setState]
  rcases hs with hs | hs
  · simp only [Job.setInputSource, hs, if_true]
    split_ifs <;> exact ⟨rfl, rfl, rfl, rfl, rfl, rfl, rfl, rfl⟩
  · simp only [Job.setInputSource, hs, hne, if_true, if_false, with_mDocumentFormat]
    split_ifs <;> exact ⟨rfl, rfl, rfl, rfl, rfl, rfl, rfl, rfl⟩

/-- The ticket determines the configuration exactly if its color mode and its
input source are recognised. -/
theorem determined_iff (hne : scanner.grayScanModeName ≠ scanner.colorScanModeName) :
    Determined A scanner xml autoselectFormat options ↔
      ColorRecognised scanner xml ∧ SourceRecognised scanner xml := by
  constructor
  · rintro ⟨hagrees, hflag⟩
    constructor
    · by_cases hrgb : ∃ digits, colorMode xml = some (ascii "RGB", digits)
      · rcases hrgb with ⟨digits, h⟩
        refine ⟨_, digits, h, .inl ⟨rfl, ?_⟩⟩
        by_contra hno
        rw [not_or, not_not] at hno
        have hmode := hflag (.zero A)
        rw [init_mColorScan, (choose_rgb h).1, (choose_rgb h).2, if_pos hno] at hmode
        exact hne (hmode.1 rfl)
      · by_cases hgray : ∃ digits, colorMode xml = some (ascii "Grayscale", digits)
        · rcases hgray with ⟨digits, h⟩
          refine ⟨_, digits, h, .inr ⟨rfl, ?_⟩⟩
          by_contra hno
          rw [not_or, not_not, not_not] at hno
          have hmode := hflag (.zero A)
          rw [init_mColorScan, (choose_grayscale h).1, (choose_grayscale h).2, if_pos hno] at hmode
          exact Bool.false_ne_true (hmode.2 rfl)
        · have hother (j : Job D) : (j.choose A scanner xml).mColorScan = j.mColorScan :=
            choose_other fun digits => ⟨fun h => hrgb ⟨digits, h⟩, fun h => hgray ⟨digits, h⟩⟩
          have hscan := (hagrees (.zero A) { Memory.zero A with mColorScan := true }).colorScan
          rw [init_mColorScan, init_mColorScan, hother, hother] at hscan
          exact absurd hscan Bool.false_ne_true
    · by_contra hs
      have hkind := (hagrees (.zero A) { Memory.zero A with mKind := 1 }).kind
      rw [init_mKind hs, init_mKind hs] at hkind
      cases hkind
  · rintro ⟨hc, hs⟩
    constructor
    · exact fun u u' => agrees_init hc hs u'
    · intro u
      rw [init_mColorScan]
      rcases hc with ⟨c, digits, h, ⟨rfl, hname⟩ | ⟨rfl, hname⟩⟩
      · have hmode : ¬ (scanner.colorScanModeName = [] ∧ intent xml ≠ ascii "Photo") := by tauto
        simp [(choose_rgb h).1, (choose_rgb h).2, hmode]
      · have hmode : ¬ (scanner.grayScanModeName = [] ∧ intent xml = ascii "Photo") := by tauto
        simp [(choose_grayscale h).1, (choose_grayscale h).2, hmode, hne]

/-- Whole numbers, for tickets that have no others. -/
def Doubles.whole : Doubles (Option ℤ) where
  extract s := if s ≠ [] ∧ s.all isDecimal then some (some (decimalValue s)) else none
  nan := none
  isnan d := d.isNone
  ofInt := some
  toInt d := d.getD 0
  eq a b := a.isSome && a = b
  mul a b := a.bind fun x => b.map (x * ·)
  div a b := a.bind fun x => b.map (x / ·)
  rounded d := d
  toFloat d := d
  gammaEntry _ _ _ := 0

def ScannerDescription.flatbed : ScannerDescription :=
  ⟨true, ascii "Flatbed", [], [], ascii "Gray", ascii "Color", 2550, 3508⟩

def Options.plain : Options (Option ℤ) := ⟨some 1, some 1, false, []⟩

theorem determined_iff_color :
    Determined .whole .flatbed (ascii "<scan:ColorMode>RGB24</scan:ColorMode>") false .plain ↔
      ColorRecognised .flatbed (ascii "<scan:ColorMode>RGB24</scan:ColorMode>") ∧
        SourceRecognised .flatbed (ascii "<scan:ColorMode>RGB24</scan:ColorMode>") :=
  determined_iff (by decide)

/-- A ticket for a black and white scan. -/
theorem not_determined_blackAndWhite : ¬ Determined .whole .flatbed
    (ascii "<scan:ColorMode>BlackAndWhite1</scan:ColorMode>") false .plain := by
  intro h
  have hmode : colorMode (ascii "<scan:ColorMode>BlackAndWhite1</scan:ColorMode>") =
      some (ascii "BlackAndWhite", ascii "1") := by decide +kernel
  have hrgb : ascii "BlackAndWhite" ≠ ascii "RGB" := by decide
  have hgray : ascii "BlackAndWhite" ≠ ascii "Grayscale" := by decide
  have hother (j : Job (Option ℤ)) : (j.choose .whole .flatbed
      (ascii "<scan:ColorMode>BlackAndWhite1</scan:ColorMode>")).mColorScan = j.mColorScan := by
    apply choose_other
    intro digits
    simp [hmode, hrgb, hgray]
  have hscan := (h.agrees (.zero .whole) { Memory.zero .whole with mColorScan := true }).colorScan
  rw [init_mColorScan, init_mColorScan, hother, hother] at hscan
  exact Bool.false_ne_true hscan

end AirSane.ScanJob
