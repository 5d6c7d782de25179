import AirSane.Server.Discovery
import AirSane.ImageFormats.Encoder
import Mathlib.Data.List.Infix

/-! # The input sources of a scanner

`Scanner::Private::init2` from the options of an open device on, and the
capabilities document that is written of what it finds. A device is a state that
setting its source changes; its numeric options are a parameter, rounded as the
code rounds them.
-/

namespace AirSane
open Text

/-- A size at 300 dpi. -/
structure Area where
  mMinWidth : ℤ
  mMaxWidth : ℤ
  mMinHeight : ℤ
  mMaxHeight : ℤ
  mMaxPhysicalWidth : ℤ
  mMaxPhysicalHeight : ℤ

structure Resolutions where
  mMinResDpi : ℤ
  mMaxResDpi : ℤ
  mResStepDpi : ℤ
  mDiscreteResolutions : List ℤ

/-- What the options of an open device say. -/
structure Backend (S : Type) where
  resolution : S → Option Resolutions
  modes : S → List Octets
  sources : S → List Octets
  source : S → Octets
  setSource : Octets → S → S
  bitDepth : S → Option ℤ
  /-- The scan area, or an error about its units. -/
  area : S → Area × Option String

/-- A source that is in the list is the source after it was set, and the list
stays what it was. -/
def Backend.Keeps {S : Type} (b : Backend S) : Prop :=
  ∀ s, ∀ v ∈ b.sources s, b.source (b.setSource v s) = v ∧ b.sources (b.setSource v s) = b.sources s

/-- The device after its source was set, if it has a name. -/
def Backend.select {S : Type} (b : Backend S) (name : Option Octets) (s : S) : S :=
  match name with
  | some v => b.setSource v s
  | none => s

/-- The first candidate that is among the names. -/
def firstOf (candidates : List String) (names : List Octets) : Option Octets :=
  (candidates.map ascii).find? fun n => names.any (· == n)

def contains (name : Octets) (part : String) : Bool := decide (ascii part <:+: name)

def findFlatbedName (names : List Octets) : Octets :=
  (firstOf ["Flatbed", "FlatBed", "Platen", "Auto", "Normal"] names).getD []

def findAdfSimplexName (names : List Octets) : Octets :=
  ((firstOf ["Automatic Document Feeder", "ADF Simplex", "ADF Front", "ADF"] names).or
    (names.find? (contains · "Automatic Document Feeder"))).getD []

def findAdfDuplexName (names : List Octets) : Octets :=
  ((firstOf ["ADF Duplex"] names).or
    (names.find? fun n => contains n "Automatic Document Feeder" && contains n "Duplex")).getD []

def findGrayName (names : List Octets) : Octets :=
  ((firstOf ["True Gray", "Gray"] names).or (names.find? (contains · "Gray"))).getD []

def findColorName (names : List Octets) : Octets :=
  ((firstOf ["Color"] names).or (names.find? (contains · "Color"))).getD []

/-- `Scanner::Private::InputSource`. -/
structure InputSource where
  mSourceName : Octets
  mSupportedIntents : List String
  mMaxBits : ℤ
  area : Area

/-- The fields of `Scanner::Private` that `init2` sets, with the state of the
device and the last error. -/
structure Init2 (S : Type) where
  device : S
  err : Option String
  maxBits : ℤ
  mResolutions : Resolutions
  mDocumentFormats : List Octets
  mTxtColorSpaces : List Octets
  mColorModes : List String
  mGrayScanModeName : Octets
  mColorScanModeName : Octets
  mMaxWidthPx300dpi : ℤ
  mMaxHeightPx300dpi : ℤ
  mInputSources : List String
  mpPlaten : Option InputSource
  mpAdfSimplex : Option InputSource
  mpAdfDuplex : Option InputSource

section
variable {S : Type} (b : Backend S)

/-- `InputSource::init`. -/
def InputSource.init (s : S) : InputSource × Option String :=
  (⟨b.source s, [], (b.bitDepth s).getD 8, (b.area s).1⟩, (b.area s).2)

/-- One of the three blocks of `init2`: the source is set and read from the device,
and what it comes to replaces an error before. -/
def Init2.addSource (name : Option Octets) (intents : List String)
    (place : InputSource → Init2 S → Init2 S) (i : Init2 S) : Init2 S :=
  let device := b.select name i.device
  let source := (InputSource.init b device).1
  match (InputSource.init b device).2 with
  | some e => place source { i with device := device, err := some e }
  | none => place { source with mSupportedIntents := intents }
      { i with
        device := device
        err := none
        maxBits := max i.maxBits source.mMaxBits
        mMaxWidthPx300dpi := max i.mMaxWidthPx300dpi source.area.mMaxWidth
        mMaxHeightPx300dpi := max i.mMaxHeightPx300dpi source.area.mMaxHeight }

/-- What `init2` reads before it comes to the sources. -/
def Init2.start (device : S) (resolutions : Resolutions) : Init2 S :=
  let offered := b.modes device
  let modes := if offered = [] then [ascii "Gray", ascii "Color"] else offered
  let color := findColorName modes
  let gray := if findGrayName modes = [] ∧ color = [] then ascii "Gray" else findGrayName modes
  { device := device
    err := none
    maxBits := 8
    mResolutions := resolutions
    mDocumentFormats := [ascii MIME_TYPE_PDF, ascii MIME_TYPE_JPEG, ascii MIME_TYPE_PNG]
    mTxtColorSpaces := (if gray = [] then [] else [ascii "grayscale"]) ++
      if color = [] then [] else [ascii "color"]
    mColorModes := (if gray = [] then [] else ["Grayscale8"]) ++ if color = [] then [] else ["RGB24"]
    mGrayScanModeName := gray
    mColorScanModeName := color
    mMaxWidthPx300dpi := 0
    mMaxHeightPx300dpi := 0
    mInputSources := []
    mpPlaten := none
    mpAdfSimplex := none
    mpAdfDuplex := none }

/-- The flatbed, or the device's only source if none is known by name. -/
def Init2.addPlaten (sources : List Octets) (i : Init2 S) : Init2 S :=
  let flatbedName := findFlatbedName sources
  let only := findAdfSimplexName sources = [] ∧ findAdfDuplexName sources = [] ∧ flatbedName = []
  if flatbedName ≠ [] ∨ only then
    { i with mInputSources := i.mInputSources ++ ["Platen"] }.addSource b
      (if only then none else some flatbedName) ["Preview", "TextAndGraphic", "Photo"]
      fun source i => { i with mpPlaten := some source }
  else i

def Init2.addFeeder (sources : List Octets) (i : Init2 S) : Init2 S :=
  if findAdfSimplexName sources ≠ [] ∨ findAdfDuplexName sources ≠ [] then
    { i with mInputSources := i.mInputSources ++ ["Feeder"] }
  else i

def Init2.addAdfSimplex (sources : List Octets) (i : Init2 S) : Init2 S :=
  if findAdfSimplexName sources ≠ [] then
    i.addSource b (some (findAdfSimplexName sources)) ["TextAndGraphic", "Photo"]
      fun source i => { i with mpAdfSimplex := some source }
  else i

def Init2.addAdfDuplex (sources : List Octets) (i : Init2 S) : Init2 S :=
  if findAdfDuplexName sources ≠ [] then
    i.addSource b (some (findAdfDuplexName sources)) ["TextAndGraphic", "Photo"]
      fun source i => { i with mpAdfDuplex := some source }
  else i

def Init2.addDeepModes (i : Init2 S) : Init2 S :=
  if i.maxBits = 16 then
    { i with
      mColorModes := i.mColorModes ++ (if "Grayscale8" ∈ i.mColorModes then ["Grayscale16"] else []) ++
        if "RGB24" ∈ i.mColorModes then ["RGB48"] else [] }
  else i

/-- `Scanner::Private::init2`, on a device with its options applied if it could be
opened. -/
def init2 (opened : Option S) : Except String (Init2 S) :=
  match opened with
  | none => .error "failed to open device"
  | some device =>
    match b.resolution device with
    | none => .error "missing SANE parameter: resolution"
    | some resolutions =>
      let sources := b.sources device
      let i := ((((Init2.start b device resolutions).addPlaten b sources).addFeeder sources).addAdfSimplex
        b sources).addAdfDuplex b sources
      match i.err with
      | some e => .error e
      | none => .ok i.addDeepModes

end

/-- What the server uses of an initialised scanner. -/
def Init2.data {S : Type} (i : Init2 S) (icon note : Octets) : ScannerData where
  mDocumentFormats := i.mDocumentFormats
  mTxtColorSpaces := i.mTxtColorSpaces
  hasPlaten := i.mpPlaten.isSome
  hasAdf := i.mpAdfSimplex.isSome
  hasDuplexAdf := i.mpAdfDuplex.isSome
  icon := icon
  note := note

end AirSane
