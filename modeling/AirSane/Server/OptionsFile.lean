import AirSane.ScanJob.TicketInit
import AirSane.Web.Request
import Mathlib.Data.List.DropRight

/-! # The options file

`OptionsFile` reads lines of a name and a value, in sections for devices behind
those that are for all scanners. The options for a scanner are taken from what applies
to it, in the order of the file.
-/

namespace AirSane
open Text Web

/-- A name and its value. -/
abbrev RawOption := Octets × Octets

structure OptionsFile where
  mFileName : Octets
  mGlobalOptions : List RawOption
  mDeviceOptions : List (Octets × List RawOption)

/-- `OptionsFile::Options`. -/
structure OptionsFile.Options (D : Type) extends ScanJob.Options D where
  icon : Octets
  note : Octets

/-- What the file asks a scanner. -/
structure ScannerName where
  saneName : Octets
  makeAndModel : Octets

/-- What the standard library makes of texts: whether a text matches a regular
expression, and the number that a text begins with. -/
structure OptionsContext (D : Type) where
  regex_match : Octets → Octets → Bool
  atof : Octets → D

namespace OptionsFile

def HASH : UInt8 := 35
def SLASH : UInt8 := 47

theorem getline_length {s line rest : Octets} (h : getline s = some (line, rest)) :
    rest.length < s.length := by
  unfold getline at h
  split_ifs at h with hs
  obtain ⟨-, rfl⟩ := Prod.mk.inj (Option.some.inj h)
  have hpos := List.length_pos_of_ne_nil hs
  have hle := (List.dropWhile_sublist (· ≠ LF) (l := s)).length_le
  rw [List.length_drop]
  omega

/-- The lines that the loop over the file takes, from their first characters on. -/
def lines (s : Octets) : List Octets :=
  match _h : getline (s.dropWhile isspace) with
  | none => []
  | some (line, rest) => line :: lines rest
termination_by s.length
decreasing_by exact (getline_length _h).trans_le (List.dropWhile_sublist _).length_le

/-- The name and the value in a line. -/
def readLine (line : Octets) : RawOption :=
  let name := (line.dropWhile isspace).takeWhile fun b => !isspace b
  let rest := (line.dropWhile isspace).dropWhile fun b => !isspace b
  let value := (getline (rest.dropWhile isspace)).elim [] Prod.fst
  (name, value.rdropWhile isspace)

/-- The file as far as it has been read, and the section that the next option is for. -/
structure Reading where
  file : OptionsFile
  pDeviceSection : Option ℕ

def Reading.addOption (r : Reading) (option : RawOption) : Reading :=
  if option.1 = ascii "device" then
    { file := { r.file with mDeviceOptions := r.file.mDeviceOptions ++ [(option.2, [])] }
      pDeviceSection := some r.file.mDeviceOptions.length }
  else match r.pDeviceSection with
    | some i =>
      { r with file := { r.file with
          mDeviceOptions := r.file.mDeviceOptions.modify i fun s => (s.1, s.2 ++ [option]) } }
    | none =>
      { r with file := { r.file with mGlobalOptions := r.file.mGlobalOptions ++ [option] } }

def Reading.addLine (r : Reading) (line : Octets) : Reading :=
  if line = [] ∨ line.head? = some HASH then r else r.addOption (readLine line)

/-- `OptionsFile::OptionsFile`, with the content of the file. -/
def read (fileName content : Octets) : OptionsFile :=
  ((lines content).foldl Reading.addLine ⟨⟨fileName, [], []⟩, none⟩).file

/-- The directory of a file, or nothing. -/
def path (fileName : Octets) : Octets := fileName.rdropWhile (· ≠ SLASH)

section
variable {D : Type} (ctx : OptionsContext D)

def isMatch (scanner : ScannerName) (pattern : Octets) : Bool :=
  ctx.regex_match scanner.saneName pattern || ctx.regex_match scanner.makeAndModel pattern

variable [One D]

def defaults : Options D where
  icon := []
  note := []
  gray_gamma := 1
  color_gamma := 1
  synthesize_gray := false
  sane_options := []

/-- An icon that is not given by its whole path. -/
def iconPath (fileName value : Octets) : Octets :=
  if value.head? ≠ some SLASH then path fileName ++ value else value

def c_str (s : Octets) : Octets := s.takeWhile (· ≠ 0)

/-- One option, behind the ones before it. -/
def process (fileName : Octets) (p : Options D) (option : RawOption) : Options D :=
  if option.1 = ascii "icon" then { p with icon := iconPath fileName option.2 }
  else if option.1 = ascii "note" ∨ option.1 = ascii "location" then { p with note := option.2 }
  else if option.1 = ascii "gray-gamma" then { p with gray_gamma := ctx.atof (c_str option.2) }
  else if option.1 = ascii "color-gamma" then { p with color_gamma := ctx.atof (c_str option.2) }
  else if option.1 = ascii "synthesize-gray" then
    { p with synthesize_gray := option.2 = ascii "true" || option.2 = ascii "yes" }
  else { p with sane_options := p.sane_options ++ [option] }

def scannerOptions (f : OptionsFile) (scanner : ScannerName) : Options D :=
  let rawOptions := f.mDeviceOptions.foldl
    (fun raw s => if isMatch ctx scanner s.1 then raw ++ s.2 else raw) f.mGlobalOptions
  rawOptions.foldl (process ctx f.mFileName) defaults

end

end OptionsFile
end AirSane
