import AirSane.ScanJob.World

/-! # In-place processing of a scan line

Samples of sixteen bits are read and written in little-endian host order. Both
passes of the source walk one buffer; positions past its end read as zero here.
-/

namespace AirSane.ScanJob

def byteAt (data : List UInt8) (i : ℕ) : ℕ := (data.getD i 0).toNat

def wordAt (data : List UInt8) (i : ℕ) : ℕ := byteAt data (2 * i) + 256 * byteAt data (2 * i + 1)

def setWord (data : List UInt8) (i : ℕ) (x : ℕ) : List UInt8 :=
  (data.set (2 * i) (UInt8.ofNat x)).set (2 * i + 1) (UInt8.ofNat (x / 256))

namespace Settings

/-- `ScanJob::Private::applyGamma`: the table's size selects the sample width. -/
def applyGamma (s : Settings) (data : List UInt8) : List UInt8 :=
  if s.gammaTable.length = 2 ^ 8 then
    (List.range data.length).foldl (fun d i =>
      d.set i (UInt8.ofNat (s.gammaTable.getD (byteAt d i) 0).toNat)) data
  else if s.gammaTable.length = 2 ^ 16 then
    (List.range (data.length / 2)).foldl (fun d i =>
      setWord d i (s.gammaTable.getD (wordAt d i) 0).toNat) data
  else data

/-- `ScanJob::Private::synthesizeGray`: the input pointer advances by three
samples for each sample written, until it passes the end of the buffer. -/
def synthesizeGray (s : Settings) (data : List UInt8) : List UInt8 :=
  if s.bitDepth = 8 then
    (List.range ((data.length + 2) / 3)).foldl (fun d i => d.set i (UInt8.ofNat
      (s.luminance (byteAt d (3 * i)) (byteAt d (3 * i + 1)) (byteAt d (3 * i + 2))))) data
  else if s.bitDepth = 16 then
    (List.range ((data.length + 5) / 6)).foldl (fun d i => setWord d i
      (s.luminance (wordAt d (3 * i)) (wordAt d (3 * i + 1)) (wordAt d (3 * i + 2)))) data
  else data

/-- Whether gray is computed from colour data. -/
def synthesizes (s : Settings) : Bool := !s.colorScan && s.synthesize_gray

/-- The line handed to the encoder for a line read from the session. -/
def processed (s : Settings) (line : List UInt8) : List UInt8 :=
  if s.synthesizes then s.synthesizeGray (s.applyGamma line) else s.applyGamma line

end Settings
end AirSane.ScanJob
