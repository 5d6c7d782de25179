import AirSane.ScanJob.Ticket
import AirSane.ScanJob.World

/-! # Jobs from tickets

`ScanJob::Private::init` with all that it reads of the ticket, the scanner and
the device options, from a job as its constructor leaves it: texts are empty, and
numbers and flags hold anything. Floating-point numbers are a parameter.
-/

namespace AirSane.ScanJob
open Text

/-- What the code does with numbers of type `double`. -/
structure Doubles (D : Type) where
  /-- What `>>` extracts. -/
  extract : Octets → Option D
  nan : D
  isnan : D → Bool
  ofInt : ℤ → D
  toInt : D → ℤ
  eq : D → D → Bool
  mul : D → D → D
  div : D → D → D
  /-- `floor(d + 0.5)`. -/
  rounded : D → D
  /-- The conversion to `float`. -/
  toFloat : D → D
  /-- Entry `i` of a gamma table of this size. -/
  gammaEntry : D → ℕ → ℕ → UInt16

variable {D : Type} (A : Doubles D)

/-- `strtod_c`. -/
def Doubles.strtod_c (s : Octets) : D :=
  match A.extract s with
  | some d => d
  | none =>
    if s = ascii "yes" ∨ s = ascii "true" then A.ofInt 1
    else if s = ascii "no" ∨ s = ascii "false" then A.ofInt 0
    else A.nan

def getNumber (xml name : Octets) : D := A.strtod_c (getString xml name)

/-- What `init` asks a scanner. -/
structure ScannerDescription where
  hasPlaten : Bool
  platenSourceName : Octets
  adfSimplexSourceName : Octets
  adfDuplexSourceName : Octets
  grayScanModeName : Octets
  colorScanModeName : Octets
  maxWidthPx300dpi : ℤ
  maxHeightPx300dpi : ℤ

/-- `OptionsFile::Options`, as far as a job uses them. -/
structure Options (D : Type) where
  gray_gamma : D
  color_gamma : D
  synthesize_gray : Bool
  sane_options : List (Octets × Octets)

/-- The fields of `ScanJob::Private` that `init` sets. -/
structure Job (D : Type) where
  mState : State
  mStateReason : String
  mScanSource : Octets
  mIntent : Octets
  mDocumentFormat : Octets
  mColorMode : Octets
  mBitDepth : ℤ
  mRes_dpi : ℤ
  mColorScan : Bool
  mDuplex : Bool
  mLeft_px : D
  mTop_px : D
  mWidth_px : D
  mHeight_px : D
  mKind : ℤ
  mImagesCompleted : ℤ
  mDeviceOptions : Options D
  mGammaTable : List UInt16

/-- What is in the memory of a job that its constructor does not set. -/
structure Memory (D : Type) where
  mBitDepth : ℤ
  mRes_dpi : ℤ
  mColorScan : Bool
  mDuplex : Bool
  mLeft_px : D
  mTop_px : D
  mWidth_px : D
  mHeight_px : D
  mKind : ℤ
  mImagesCompleted : ℤ

/-- `ScanJob::ScanJob`. -/
def Job.constructed (u : Memory D) : Job D where
  mState := .pending
  mStateReason := PWG_NONE
  mScanSource := []
  mIntent := []
  mDocumentFormat := []
  mColorMode := []
  mBitDepth := u.mBitDepth
  mRes_dpi := u.mRes_dpi
  mColorScan := u.mColorScan
  mDuplex := u.mDuplex
  mLeft_px := u.mLeft_px
  mTop_px := u.mTop_px
  mWidth_px := u.mWidth_px
  mHeight_px := u.mHeight_px
  mKind := u.mKind
  mImagesCompleted := u.mImagesCompleted
  mDeviceOptions := ⟨A.ofInt 1, A.ofInt 1, false, []⟩
  mGammaTable := []

def Kind.code : Kind → ℤ
  | .single => 0
  | .adfSingle => 1
  | .adfConcat => 2

def isDecimal (b : UInt8) : Bool := 48 ≤ b && b ≤ 57

def decimalValue (ds : Octets) : ℕ := ds.foldl (fun acc b => 10 * acc + (b.toNat - 48)) 0

/-- `([A-Za-z]+)([0-9]+)` on a whole text. -/
def lettersAndDigits (text : Octets) : Option (Octets × Octets) :=
  let letters := text.takeWhile isLetter
  let digits := text.dropWhile isLetter
  if letters ≠ [] ∧ digits ≠ [] ∧ digits.all isDecimal then some (letters, digits) else none

/-- The intent of a ticket, `Photo` by default. -/
def intent (xml : Octets) : Octets :=
  let requested := getString xml (ascii "Intent")
  if requested = [] then ascii "Photo" else requested

/-- The color mode of a ticket, as name and number of bits. -/
def colorMode (xml : Octets) : Option (Octets × Octets) :=
  lettersAndDigits (getString xml (ascii "ColorMode"))

section
variable (scanner : ScannerDescription) (xml : Octets)

/-- The color mode that the ticket asks for, with flag and depth. -/
def Job.setColorMode (j : Job D) : Job D :=
  match colorMode xml with
  | some (c, digits) =>
    if c = ascii "RGB" then
      { j with mColorMode := scanner.colorScanModeName, mColorScan := true,
               mBitDepth := decimalValue digits / 3 }
    else if c = ascii "Grayscale" then
      { j with mColorMode := scanner.grayScanModeName, mColorScan := false,
               mBitDepth := decimalValue digits }
    else j
  | none => j

/-- The color mode by the intent, for a job that has none. -/
def Job.defaultColorMode (j : Job D) : Job D :=
  if j.mColorMode = [] then
    { j with
      mColorMode := if j.mIntent = ascii "Photo" then scanner.colorScanModeName
        else scanner.grayScanModeName
      mBitDepth := 8 }
  else j

def Job.setGeometry (j : Job D) : Job D :=
  let number := getNumber A xml
  let orZero := fun d => if A.isnan d then A.ofInt 0 else d
  let res := A.rounded (number (ascii "XResolution"))
  let res_dpi := if A.isnan res then A.ofInt 300 else res
  let px_per_unit :=
    if getString xml (ascii "ContentRegionUnits") = ascii "escl:ThreeHundredthsOfInches" then
      A.div res_dpi (A.ofInt 300)
    else A.ofInt 1
  let width := A.mul (number (ascii "Width")) px_per_unit
  let height := A.mul (number (ascii "Height")) px_per_unit
  { j with
    mLeft_px := A.mul (orZero (number (ascii "XOffset"))) px_per_unit
    mTop_px := A.mul (orZero (number (ascii "YOffset"))) px_per_unit
    mRes_dpi := A.toInt res_dpi
    mWidth_px := if A.isnan width then A.ofInt scanner.maxWidthPx300dpi else width
    mHeight_px := if A.isnan height then A.ofInt scanner.maxHeightPx300dpi else height }

def Job.setDocumentFormat (autoselectFormat : Bool) (j : Job D) : Job D :=
  let format := getString xml (ascii "DocumentFormat")
  let requested := if format = [] then getString xml (ascii "DocumentFormatExt") else format
  let chosen :=
    if requested ≠ [] then requested
    else if j.mIntent = ascii "Document" ∨ j.mIntent = ascii "Text" then
      ascii MIME_TYPE_PDF
    else if j.mIntent = ascii "Photo" then ascii MIME_TYPE_JPEG
    else []
  { j with
    mDocumentFormat :=
      if chosen = [] ∨ autoselectFormat then ascii MIME_TYPE_PNG else chosen }

/-- The input source that the ticket asks for, or the scanner's first one. -/
def inputSource : Octets :=
  let requested := getString xml (ascii "InputSource")
  if requested = [] then if scanner.hasPlaten then ascii "Platen" else ascii "Feeder"
  else requested

def Job.setInputSource (j : Job D) : Job D :=
  if inputSource scanner xml = ascii "Platen" then
    { j with mScanSource := scanner.platenSourceName, mKind := Kind.single.code }
  else if inputSource scanner xml = ascii "Feeder" then
    let duplex := A.eq (getNumber A xml (ascii "Duplex")) (A.ofInt 1)
    let concatIfPossible := A.eq (getNumber A xml (ascii "ConcatIfPossible")) (A.ofInt 1)
    { j with
      mDuplex := duplex
      mScanSource := if duplex then scanner.adfDuplexSourceName else scanner.adfSimplexSourceName
      mKind := if concatIfPossible ∧ j.mDocumentFormat = ascii MIME_TYPE_PDF then
        Kind.adfConcat.code else Kind.adfSingle.code }
  else j

/-- `initGammaTable`. -/
def initGammaTable (gammaVal : D) (bitDepth : ℤ) : List UInt16 :=
  if A.eq (A.toFloat gammaVal) (A.ofInt 1) then []
  else
    let size := 2 ^ bitDepth.toNat
    (List.range size).map (A.gammaEntry (A.toFloat gammaVal) size)

def Job.applyDeviceOptions (options : Options D) (j : Job D) : Job D :=
  let gamma := if j.mColorScan then options.color_gamma else options.gray_gamma
  { j with
    mDeviceOptions := options
    mGammaTable := initGammaTable A gamma j.mBitDepth
    mColorMode :=
      if j.mColorScan then j.mColorMode
      else if options.synthesize_gray then scanner.colorScanModeName
      else scanner.grayScanModeName }

/-- The ticket has one resolution and an input source that there is. -/
def validTicket : Bool :=
  let number := getNumber A xml
  let res_dpi := number (ascii "XResolution")
  (A.isnan res_dpi || A.eq res_dpi (number (ascii "YResolution"))) &&
    inputSource scanner xml ∈ [ascii "Platen", ascii "Feeder"]

def Job.setState (j : Job D) : Job D :=
  if validTicket A scanner xml then
    { j with mState := .pending, mStateReason := PWG_JOB_QUEUED }
  else { j with mState := .aborted, mStateReason := PWG_INVALID_SCAN_TICKET }

def Job.setIntent (j : Job D) : Job D := { j with mIntent := intent xml }

/-- `init` up to the choice of the color mode. -/
def Job.choose (j : Job D) : Job D :=
  let j := (j.setIntent xml).setGeometry A scanner xml
  (({ j with mBitDepth := 0 } : Job D).setColorMode scanner xml).defaultColorMode scanner

/-- `ScanJob::Private::init`. -/
def Job.init (autoselectFormat : Bool) (options : Options D) (j : Job D) : Job D :=
  let j := (j.choose A scanner xml).setDocumentFormat xml autoselectFormat
  let j := ({ j with mImagesCompleted := 0 } : Job D).setInputSource A scanner xml
  (j.applyDeviceOptions A scanner options).setState A scanner xml

end

end AirSane.ScanJob
