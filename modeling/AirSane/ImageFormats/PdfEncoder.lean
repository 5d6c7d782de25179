import AirSane.Basic.Uuid
import AirSane.ImageFormats.Encoder
import AirSane.Text.NumberedObjects
import AirSane.Web.Response

/-! # The PDF encoder

`PdfEncoder` on a stream that sends in chunks. Objects are numbered by one
counter that the callbacks advance, and the place of each is noted when its
definition is written.
-/

namespace AirSane
open Text Web

/-- A stream, as what it has sent and the buffer that holds the rest. -/
structure Destination where
  sent : Octets
  buf : Chunkbuf
  counted : buf.mTotalWritten = sent.length

namespace Destination

def content (os : Destination) : Octets := os.sent ++ os.buf.str

def write (os : Destination) (s : Octets) : Destination := ⟨os.sent, os.buf.write s, os.counted⟩

def flush (os : Destination) : Destination where
  sent := os.sent ++ os.buf.str
  buf := os.buf.sync
  counted := by simp [Chunkbuf.sync, os.counted]

def tellp (os : Destination) : ℕ := os.buf.tellp

@[simp] theorem content_write (os : Destination) (s : Octets) :
    (os.write s).content = os.content ++ s := by
  simp [content, write, Chunkbuf.write]

@[simp] theorem content_flush (os : Destination) : os.flush.content = os.content := by
  simp [content, flush, Chunkbuf.sync]

/-- The position is that of the end of the content, sent or not. -/
theorem tellp_eq (os : Destination) : os.tellp = os.content.length := by
  simp [tellp, Chunkbuf.tellp, content, os.counted]

end Destination

/-- What a document takes from its surroundings: what UUIDs are made of, the
`pdfDate` of its beginning, the time of its end, and how 72 / dpi * px prints. -/
structure PdfContext where
  hashing : Hashing
  creationDate : Octets
  time : ℤ
  pdfunits : ℤ → ℤ → Octets

structure PdfEncoder where
  mObjects : List (ℕ × ℕ)
  mBegin : ℕ
  mStartxref : ℕ
  mInfoDict : Dictionary
  mInfoString : Octets
  mObj : ℕ
  /-- The size of the buffer for 16-bit data. -/
  mLineBuffer : ℕ
  os : Destination

def pdfNameEncode (s : Octets) : Octets :=
  s.flatMap fun c => if c ∈ ascii "\n\r\t " then ascii "#20" else [c]

def pdfStringEncode (s : Octets) : Octets :=
  s.flatMap fun c =>
    if c = 10 then ascii "\\n"
    else if c = 9 then ascii "\\t"
    else if c = 13 then ascii "\\r"
    else if c = 8 then ascii "\\b"
    else if c = 12 then ascii "\\f"
    else if c ∈ ascii "()\\" then ascii "\\" ++ [c]
    else [c]

def infoEntry (entry : Octets × Octets) : Octets :=
  if entry.1 ≠ [] ∧ entry.2 ≠ [] then
    ascii "/" ++ pdfNameEncode entry.1 ++ ascii " (" ++ pdfStringEncode entry.2 ++ ascii ")\n"
  else []

/-- The first two lines, the second one with bytes that are no characters. -/
def pdfHeader : Octets :=
  ascii "%PDF-1.4\n%" ++ [0xc3, 0xa2, 0xc3, 0xa3, 0xc3, 0x8f, 0xc3, 0x93] ++ ascii "\n"

/-- A reference to an object. -/
def reference (id : ℕ) : Octets := numeral 10 id ++ ascii " 0 R"

def csname (components : ℤ) : Octets :=
  ascii <| match components with
    | 1 => "DeviceGray"
    | 3 => "DeviceRGB"
    | 4 => "DeviceCMYK"
    | _ => "unknown"

/-- `htons` for each word of a line. -/
def htons : Octets → Octets
  | a :: b :: s => b :: a :: htons s
  | s => s

/-- The loop over the numbers of the pages. -/
def kids : ℕ → ℕ → ℕ → List ℕ
  | 0, _, _ => []
  | fuel + 1, i, mObj => if i < mObj then i :: kids fuel (i + 3) mObj else []

section
variable (ctx : PdfContext) (e : Encoder)

def pageText (contents strip : ℕ) : Octets :=
  ascii "<<\n/Type/Page\n/Contents " ++ reference contents ++ ascii "\n/Rotate " ++
    integer e.orientationDegrees ++ ascii "\n/MediaBox [ 0 0 " ++ ctx.pdfunits e.dpi e.width ++
    ascii " " ++ ctx.pdfunits e.dpi e.height ++
    ascii " ]\n/Parent 1 0 R\n/Resources << /XObject << /strip0 " ++ reference strip ++
    ascii " >> >>\n>>\nendobj\n"

def imageText : Octets :=
  ascii "\n<<\n/Type /XObject\n/Subtype /Image\n/Width " ++ integer e.width ++
    ascii "\n/Height " ++ integer e.height ++ ascii "\n/ColorSpace /" ++ csname e.components ++
    ascii "\n/BitsPerComponent " ++ integer e.bitDepth ++ ascii "\n/Length " ++
    integer (Encoder.int32 (e.height * e.bytesPerLine)) ++ ascii "\n>>\nstream\n"

def endImageText : Octets := ascii "\nendstream\nendobj\n"

def pagedef : Octets :=
  ctx.pdfunits e.dpi e.width ++ ascii " 0 0 " ++ ctx.pdfunits e.dpi e.height ++
    ascii " 0 0 cm\n/strip0 Do\n"

def contentsText : Octets :=
  ascii "\n<<\n/Length " ++ numeral 10 (pagedef ctx e).length ++ ascii "\n>>\nstream\n" ++
    pagedef ctx e ++ ascii "endstream\n\nendobj\n"

def pagesText (count : ℤ) (pages : List ℕ) : Octets :=
  ascii "\n<<\n/Type/Pages\n/Count " ++ integer count ++ ascii "\n/Kids [\n" ++
    (pages.flatMap fun id => reference id ++ ascii "\n") ++ ascii "\n]\n>>\nendobj\n"

def catalogText : Octets := ascii "<<\n/Type/Catalog\n/Pages 1 0 R\n>>\nendobj\n"

def infoText (mInfoString : Octets) : Octets := ascii "<<\n" ++ mInfoString ++ ascii ">>\nendobj\n"

/-- The cross-reference table. -/
def xrefText (table : List (ℕ × ℕ)) : Octets :=
  ascii "xref\n0 " ++ numeral 10 (table.length + 1) ++ ascii "\n0000000000 65535 f \n" ++
    table.flatMap fun obj => tenDigits obj.2 ++ ascii " 00000 n \n"

def trailerText (size root info : ℕ) (fileid : Octets) : Octets :=
  ascii "trailer\n<<\n/Size " ++ numeral 10 size ++ ascii "\n/Root " ++ reference root ++
    ascii "\n/Info " ++ reference info ++ ascii "\n/ID [\n<" ++ fileid ++ ascii ">\n<" ++ fileid ++
    ascii ">\n]\n>>\n"

def startxrefText (startxref : ℕ) : Octets :=
  ascii "%PDF-raster-1.0\nstartxref\n" ++ numeral 10 startxref ++ ascii "\n%%EOF\n"

/-- The digits of a UUID. -/
def fileid (mInfoString : Octets) : Octets :=
  (Uuid.initFromString ctx.hashing (mInfoString ++ integer ctx.time)).toString.filter (· ≠ 45)

/-- The size of the buffer for the lines of 16-bit images. -/
def lineBufferSize : ℕ := if e.bitDepth = 16 then (e.components * e.width).toNat else 0

/-- What is written of a line, which has at least `bytesPerLine` bytes. -/
def lineBytes (mLineBuffer : ℕ) (line : Octets) : Octets :=
  if mLineBuffer ≠ 0 then (htons (line.take (2 * mLineBuffer))).take e.bytesPerLine.toNat
  else line.take e.bytesPerLine.toNat

namespace PdfEncoder

/-- `<<` for text, and for `defobj`. -/
def emit (p : PdfEncoder) : Piece → PdfEncoder
  | .text s => { p with os := p.os.write s }
  | .defobj id =>
    { p with
      mObjects := p.mObjects ++ [(id, p.os.tellp - p.mBegin)]
      os := p.os.write (Piece.define id) }

def emits (p : PdfEncoder) (ps : List Piece) : PdfEncoder := ps.foldl emit p

/-- `PdfEncoder::onDocumentBegin`, which throws without a resolution. -/
def onDocumentBegin (p : PdfEncoder) : Option PdfEncoder :=
  let mInfoDict := p.mInfoDict.assign (ascii "CreationDate") ctx.creationDate
  if e.dpi = 0 then none
  else some
    { mObjects := []
      mBegin := p.os.tellp
      mStartxref := p.mStartxref
      mInfoDict := mInfoDict
      mInfoString := mInfoDict.flatMap infoEntry
      mObj := 1
      mLineBuffer := lineBufferSize e
      os := p.os.write pdfHeader }

def onImageBegin (p : PdfEncoder) : PdfEncoder :=
  { p.emits [.defobj (p.mObj + 1), .text (pageText ctx e (p.mObj + 1 + 2) (p.mObj + 1 + 1)),
      .defobj (p.mObj + 2), .text (imageText e)] with mObj := p.mObj + 2 }

def onWriteLine (p : PdfEncoder) (line : Octets) : PdfEncoder :=
  p.emit (.text (lineBytes e p.mLineBuffer line))

def onImageEnd (p : PdfEncoder) : PdfEncoder :=
  { p.emits [.text endImageText, .defobj (p.mObj + 1), .text (contentsText ctx e)] with
    mObj := p.mObj + 1 }

def onDocumentEnd (p : PdfEncoder) : PdfEncoder :=
  let fileid := fileid ctx p.mInfoString
  let p := { p.emits [.defobj 1, .text (pagesText e.currentImage (kids p.mObj 2 p.mObj)),
      .defobj (p.mObj + 1), .text catalogText,
      .defobj (p.mObj + 2), .text (infoText p.mInfoString)] with mObj := p.mObj + 2 }
  let mStartxref := p.os.tellp - p.mBegin
  let mObjects := sortById p.mObjects
  { p with
    mStartxref := mStartxref
    mObjects := mObjects
    os := p.os.write (xrefText mObjects ++
      trailerText (mObjects.length + 1) (p.mObj - 1) p.mObj fileid ++ startxrefText mStartxref) }

def call (p : PdfEncoder) : Callback → Option PdfEncoder
  | .onDocumentBegin => p.onDocumentBegin ctx e
  | .onImageBegin => some (p.onImageBegin ctx e)
  | .onWriteLine line => some (p.onWriteLine e line)
  | .onImageEnd => some (p.onImageEnd ctx e)
  | .onDocumentEnd => some (p.onDocumentEnd ctx e)

end PdfEncoder

end

/-- The base class and the derived one. -/
structure PdfWriter where
  encoder : Encoder
  pdf : PdfEncoder

/-- A line, or a flush of the stream. -/
inductive DocumentOp where
  | line (s : Octets)
  | flush

def DocumentOp.written : DocumentOp → Option Octets
  | .line s => some s
  | .flush => none

namespace PdfWriter

/-- `ImageEncoder::writeLine`. -/
def writeLine (ctx : PdfContext) (w : PdfWriter) (line : Octets) : Option PdfWriter :=
  ((w.encoder.lineCalls line).foldlM (fun (p : PdfEncoder) cb => p.call ctx w.encoder cb) w.pdf).map fun p =>
    ⟨w.encoder.advance, p⟩

def step (ctx : PdfContext) (w : PdfWriter) : DocumentOp → Option PdfWriter
  | .line s => w.writeLine ctx s
  | .flush => some ⟨w.encoder, { w.pdf with os := w.pdf.os.flush }⟩

/-- `ImageEncoder::endDocument`, on the stream. -/
def endDocument (ctx : PdfContext) (w : PdfWriter) : Option PdfWriter :=
  (w.pdf.call ctx w.encoder .onDocumentEnd).map fun p => ⟨w.encoder, p⟩

/-- A whole document. -/
def document (ctx : PdfContext) (w : PdfWriter) (ops : List DocumentOp) : Option PdfWriter :=
  ops.foldlM (fun w op => w.step ctx op) w >>= fun w => w.endDocument ctx

end PdfWriter
end AirSane
