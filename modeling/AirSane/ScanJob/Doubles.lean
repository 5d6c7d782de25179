import AirSane.Numbers.Extended
import AirSane.Basic.Strtonum
import AirSane.ScanJob.TicketInit

/-! # The numbers of a ticket

Values of type `double` are rational numbers, infinities and what is not a
number. Exact arithmetic rounds nothing; what `pow` computes and what a machine
makes of a number that does not fit into an `int` are parameters.
-/

namespace AirSane
open Text Numbers

abbrev Double := Extended ℚ

/-- Rounding to the two floating-point types, and what the standard leaves open. -/
structure Arithmetic where
  double : ℚ → Double
  single : ℚ → Double
  machine : Double → ℤ
  pow : Double → Double → Double

def binary32 : Numbers.Format := ⟨24, -149⟩

namespace Arithmetic
variable (F : Arithmetic)

/-- What `>>` extracts: a number too large for the type is not taken. -/
def extract (s : Octets) : Option Double :=
  match scan (s.dropWhile isspace) with
  | none => none
  | some l => match F.double (if l.negative then -l.magnitude else l.magnitude) with
    | .finite x => some (.finite x)
    | _ => none

/-- The conversion to `int`. -/
def toInt : Double → ℤ
  | .finite x => if InInt (truncate x) then truncate x else F.machine (.finite x)
  | a => F.machine a

/-- `floor(d + 0.5)`. -/
def rounded (d : Double) : Double := (d.add F.double (.finite (1 / 2))).floor

/-- The conversion to `float`. -/
def toFloat : Double → Double
  | .finite x => F.single x
  | a => a

/-- `1.0f / (size - 1)`. -/
def scale (size : ℕ) : Double := (Extended.finite 1).div F.single (F.single (size - 1 : ℤ))

/-- What the loop of `initGammaTable` computes for an index. -/
def gammaValue (gammaVal : Double) (size i : ℕ) : Double :=
  let f := (F.single i).mul F.single (F.scale size)
  let f := F.toFloat (F.pow f gammaVal)
  let f := f.mul F.single (F.single (size - 1 : ℤ))
  F.toFloat (F.rounded f)

/-- The conversion to `uint16_t`. -/
def toUInt16 : Double → UInt16
  | .finite x => if 0 ≤ truncate x ∧ truncate x < 2 ^ 16 then UInt16.ofNat (truncate x).toNat
    else UInt16.ofNat (F.machine (.finite x)).toNat
  | a => UInt16.ofNat (F.machine a).toNat

/-- The arithmetic of `ScanJob::Private::init`. -/
def doubles : ScanJob.Doubles Double where
  extract := F.extract
  nan := .nan
  isnan := Extended.isnan
  ofInt n := .finite n
  toInt := F.toInt
  eq := Extended.equal
  mul := Extended.mul F.double
  div := Extended.div F.double
  rounded := F.rounded
  toFloat := F.toFloat
  gammaEntry gammaVal size i := F.toUInt16 (F.gammaValue gammaVal size i)

/-- Nothing is rounded. -/
def exact (machine : Double → ℤ) (pow : Double → Double → Double) : Arithmetic where
  double := .finite
  single := .finite
  machine := machine
  pow := pow

/-- The resolution that `init` takes from a ticket. -/
def resolution (xml : Octets) : Double :=
  let res_dpi := F.rounded (ScanJob.getNumber F.doubles xml (ascii "XResolution"))
  if res_dpi.isnan then .finite 300 else res_dpi

/-- Rounding to a format, with infinities from a power of two on. -/
def toFormat (G : Numbers.Format) (top : ℕ) (x : ℚ) : Double :=
  if 2 ^ top ≤ G.round |x| then .infinite (x < 0)
  else .finite (if x < 0 then -G.round |x| else G.round |x|)

/-- The arithmetic of IEEE 754. -/
def ieee (machine : Double → ℤ) (pow : Double → Double → Double) : Arithmetic where
  double := toFormat binary64 1024
  single := toFormat binary32 128
  machine := machine
  pow := pow

@[simp] theorem toFloat_nan : F.toFloat .nan = .nan := rfl
@[simp] theorem toFloat_infinite (s : Bool) : F.toFloat (.infinite s) = .infinite s := rfl
@[simp] theorem toFloat_finite (x : ℚ) : F.toFloat (.finite x) = F.single x := rfl

variable {F} {xml name : Octets}

theorem getString_ne_nil (h : ScanJob.getNumber F.doubles xml name ≠ .nan) :
    ScanJob.getString xml name ≠ [] := by
  intro hnil
  apply h
  rw [ScanJob.getNumber, hnil]
  rfl

end Arithmetic

/-- A positive number without a fraction, in the range of `int`. -/
def IsResolution (d : Double) : Prop := ∃ n : ℤ, d = .finite n ∧ 0 < n ∧ n < 2 ^ 31

end AirSane
