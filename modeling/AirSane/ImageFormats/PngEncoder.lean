import AirSane.ImageFormats.PdfEncoder
import AirSane.Programs.Ownership

/-! # The PNG encoder

`PngEncoder` holds the struct that libpng writes an image with. The struct is made
for the first line of the image and destroyed after the last one.
-/

namespace AirSane
open Text Web Programs

def PNG_COLOR_TYPE_GRAY : ℕ := 0
def PNG_COLOR_TYPE_RGB : ℕ := 2

/-- The calls into libpng that may fail. -/
inductive PngCall where
  | create_write_struct
  | create_info_struct
  | set_IHDR (width height bitDepth : ℤ) (colorType : ℕ)
  | set_pHYs (x y : ℕ)
  | write_info
  | set_flush (nrows : ℕ)
  | write_row (row : Octets)
  | write_end
  deriving DecidableEq, Repr

/-- The info struct is among the arguments. -/
def PngCall.takesInfo : PngCall → Bool
  | .set_IHDR .. | .set_pHYs .. | .write_info => true
  | _ => false

/-- What comes of the calls: no struct instead of one, an error instead of a return. -/
abbrev PngAnswers := PngCall → Bool

def pngColorType : Colorspace → ℕ
  | .unknown => 0
  | .grayscale => PNG_COLOR_TYPE_GRAY
  | .rgb => PNG_COLOR_TYPE_RGB

/-- Dots per inch in dots per meter, as a `uint32_t`. -/
def pxPerM (dpi : ℤ) : ℕ := (((Encoder.int32 (dpi * 10000)).tdiv 254) % 2 ^ 32).toNat

structure PngEncoder where
  /-- The base class. -/
  encoder : Encoder
  mpPng : Option ℕ
  mpInfo : Bool
  mpStream : Bool
  /-- The size of the buffer for 16-bit data. -/
  mLineBuffer : ℕ
  /-- The structs made so far; the next one gets this number. -/
  structs : ℕ
  /-- What has been done with the structs. -/
  calls : List (OwnerCall ℕ)

namespace PngEncoder

/-- `PngEncoder::PngEncoder`. -/
def new : PngEncoder where
  encoder := .new .png
  mpPng := none
  mpInfo := false
  mpStream := false
  mLineBuffer := 0
  structs := 0
  calls := []

/-- `PngEncoder::~PngEncoder` deletes what the encoder keeps of libpng's pointers. -/
def destructor (p : PngEncoder) : List (OwnerCall ℕ) := p.calls

/-- The next part, unless this one threw. -/
def andThen (a : PngEncoder × Bool) (f : PngEncoder → PngEncoder × Bool) : PngEncoder × Bool :=
  if a.2 then f a.1 else a

/-- The words of a line. -/
def lineWords (e : Encoder) : ℤ := Encoder.int32 (e.width * e.components)

/-- The buffer for 16-bit data; a vector cannot have a negative size. -/
def resizeLineBuffer (p : PngEncoder) : Option PngEncoder :=
  if p.encoder.bitDepth = 16 then
    if lineWords p.encoder < 0 then none
    else some { p with mLineBuffer := (lineWords p.encoder).toNat }
  else some { p with mLineBuffer := 0 }

section
variable (answers : PngAnswers)

/-- Without a struct, or an info struct that it takes, a call returns at once. -/
def returns (p : PngEncoder) (c : PngCall) : Bool :=
  p.mpPng.isNone || (c.takesInfo && !p.mpInfo) || answers c

def createWriteStruct (p : PngEncoder) : PngEncoder :=
  if answers .create_write_struct then
    { p with
      mpInfo := answers .create_info_struct
      mpPng := some p.structs
      structs := p.structs + 1
      calls := p.calls ++ [.create (some p.structs)] }
  else { p with mpInfo := false, mpPng := none, calls := p.calls ++ [.create none] }

def headerCalls (e : Encoder) : List PngCall :=
  [.set_IHDR e.width e.height e.bitDepth (pngColorType e.colorspace),
    .set_pHYs (pxPerM e.dpi) (pxPerM e.dpi), .write_info, .set_flush 10]

def onImageBegin (p : PngEncoder) : PngEncoder × Bool :=
  if 0 < p.encoder.currentImage then (p, false)
  else if p.encoder.orientationDegrees ≠ 0 then (p, false)
  else match p.resizeLineBuffer with
    | none => (p, false)
    | some p =>
      let p := { p.createWriteStruct answers with mpStream := p.encoder.destination }
      (p, (headerCalls p.encoder).all (p.returns answers))

def onWriteLine (line : Octets) (p : PngEncoder) : PngEncoder × Bool :=
  let row := if p.mLineBuffer = 0 then line else htons (line.take (2 * p.mLineBuffer))
  ({ p with calls := p.calls ++ [.use p.mpPng] }, p.returns answers (.write_row row))

/-- Only after `png_write_end` has returned the struct is destroyed. -/
def onImageEnd (p : PngEncoder) : PngEncoder × Bool :=
  if p.returns answers .write_end then
    ({ p with
      mpPng := none
      mpInfo := false
      mpStream := false
      calls := p.calls ++ [.destroy p.mpPng] }, true)
  else (p, false)

/-- The counters of `writeLine`, and what follows the last line. -/
def finishLine (p : PngEncoder) : PngEncoder × Bool :=
  let p := { p with encoder := p.encoder.advance }
  if p.encoder.currentLine = 0 ∧ p.encoder.destination then p.onImageEnd answers else (p, true)

/-- `ImageEncoder::writeLine`; nothing is done for the beginning of a document. -/
def writeLine (line : Octets) (p : PngEncoder) : PngEncoder × Bool :=
  let begun := if p.encoder.currentLine = 0 ∧ p.encoder.destination then p.onImageBegin answers
    else (p, true)
  let written := andThen begun fun p =>
    if p.encoder.destination then p.onWriteLine answers line else (p, true)
  andThen written (finishLine answers)

end

/-- The functions of the base class, and the values they are given. -/
inductive Op where
  | setWidth (w : ℤ)
  | setHeight (h : ℤ)
  | setBitDepth (b : ℤ)
  | setResolutionDpi (dpi : ℤ)
  | setOrientationDegrees (d : ℤ)
  | setColorspace (cs : Colorspace)
  | setDestination (os : Bool)
  | writeLine (line : Octets)
  | endDocument

/-- A setter assigns before it finds that an image is being written. -/
def change (e : Encoder) (p : PngEncoder) : PngEncoder × Bool :=
  if e.currentLine ≠ 0 then ({ p with encoder := e }, false)
  else ({ p with encoder := e.refresh }, true)

/-- A function and whether it came back. -/
def step (answers : PngAnswers) (p : PngEncoder) : Op → PngEncoder × Bool
  | .setWidth w => p.change { p.encoder with width := w }
  | .setHeight h => p.change { p.encoder with height := h }
  | .setBitDepth b => p.change { p.encoder with bitDepth := b }
  | .setResolutionDpi dpi => p.change { p.encoder with dpi := dpi }
  | .setOrientationDegrees d =>
    ({ p with encoder := { p.encoder with orientationDegrees := d } }, true)
  | .setColorspace cs => p.change { p.encoder with colorspace := cs }
  | .setDestination os => p.change { p.encoder with destination := os }
  | .writeLine line => p.writeLine answers line
  | .endDocument => (p, true)

/-- Calls one after another, whether or not the ones before threw. -/
def run (p : PngEncoder) (ops : List (Op × PngAnswers)) : PngEncoder :=
  ops.foldl (fun p op => (p.step op.2 op.1).1) p

end PngEncoder
end AirSane
