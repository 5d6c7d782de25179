import Mathlib.Data.Rat.Floor

/-! # The vocabulary of the SANE interface

Statuses, units and frame parameters as `sane.h` declares them. Words are
unbounded integers; a status outside the enumeration is a possible answer of a
backend and takes the `default` branches.
-/

namespace AirSane

inductive SaneStatus where
  | good | unsupported | cancelled | deviceBusy | inval | eof | jammed | noDocs
  | coverOpen | ioError | noMem | accessDenied
  | other (code : ℕ)
  deriving DecidableEq, Repr

inductive SaneUnit where
  | none | pixel | bit | mm | dpi | percent | microsecond
  deriving DecidableEq, Repr

/-- The fields of `SANE_Parameters` that the server reads. -/
structure SaneParameters where
  bytesPerLine : ℤ
  pixelsPerLine : ℤ
  lines : ℤ
  depth : ℤ
  deriving DecidableEq, Repr

/-- What `memset` leaves in a fresh session. -/
def SaneParameters.zero : SaneParameters := ⟨0, 0, 0, 0⟩

/-- A frame of two gray lines of one byte. -/
def SaneParameters.gray : SaneParameters := ⟨1, 1, 2, 8⟩

/-- A device handle; the k-th successful or failed open of a run gets handle k. -/
abbrev Handle := ℕ

inductive OptionValue where
  | text (s : String)
  | number (x : ℚ)
  deriving DecidableEq, Repr

/-- Option names from `saneopts.h`. -/
def SANE_NAME_SCAN_SOURCE := "source"
def SANE_NAME_SCAN_MODE := "mode"
def SANE_NAME_BIT_DEPTH := "depth"
def SANE_NAME_SCAN_RESOLUTION := "resolution"
def SANE_NAME_SCAN_X_RESOLUTION := "x-resolution"
def SANE_NAME_SCAN_Y_RESOLUTION := "y-resolution"
def SANE_NAME_SCAN_TL_X := "tl-x"
def SANE_NAME_SCAN_TL_Y := "tl-y"
def SANE_NAME_SCAN_BR_X := "br-x"
def SANE_NAME_SCAN_BR_Y := "br-y"

end AirSane
