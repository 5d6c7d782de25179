import AirSane.ScanJob.Doubles
import AirSane.Sanecpp.Types

/-! # Options of a device

`sanecpp::option`: a descriptor, which may be missing, and what the backend
answers when it is asked for the value. A bound that is not there is not a number.
-/

namespace AirSane.Sanecpp
open Text Numbers

/-- `SANE_Value_Type`. -/
inductive ValueType where
  | bool | int | fixed | string | button | group
  deriving DecidableEq

inductive Constraint where
  | none
  | range (min max quant : ℤ)
  | wordList (words : List ℤ)
  | stringList (strings : List Octets)

/-- `SANE_Option_Descriptor`, with its size in bytes. -/
structure OptionDescriptor where
  type : ValueType
  unit : SaneUnit
  size : ℕ
  constraint : Constraint

/-- `value` is the first word of what `sane_control_option` answers, if it answers. -/
structure SaneOption where
  m_desc : Option OptionDescriptor
  value : Option ℤ

namespace SaneOption
variable (F : Arithmetic) (o : SaneOption)

def missing : SaneOption := ⟨none, none⟩

def is_null : Bool := o.m_desc.isNone

def is_string : Bool := o.m_desc.any (·.type = .string)

def is_numeric : Bool := o.m_desc.any fun d => d.type = .int || d.type = .fixed || d.type = .bool

/-- The number of words that a value has. -/
def array_size : ℕ :=
  match o.m_desc with
  | none => 0
  | some d => match d.type with
    | .button | .group => 0
    | .string => 1
    | .int | .fixed | .bool => d.size / 4

def unit : SaneUnit := (o.m_desc.map (·.unit)).getD .none

def unfix (v : Double) : Double := v.div F.double (.finite (2 ^ 16))

/-- A value of the type that a descriptor declares. -/
def ofType (d : OptionDescriptor) (v : Double) : Double := if d.type = .fixed then unfix F v else v

def min : Double :=
  match o.m_desc with
  | none => .nan
  | some d => ofType F d (match d.constraint with
    | .none | .stringList _ => .nan
    | .range min _ _ => .finite min
    | .wordList words => words.foldl (fun v w => v.min (.finite w)) (.infinite false))

def max : Double :=
  match o.m_desc with
  | none => .nan
  | some d => ofType F d (match d.constraint with
    | .none | .stringList _ => .nan
    | .range _ max _ => .finite max
    | .wordList words => words.foldl (fun v w => v.max (.finite w)) (.infinite true))

def quant : Double :=
  match o.m_desc with
  | none => .nan
  | some d => match d.constraint with
    | .range _ _ quant => ofType F d (.finite quant)
    | _ => .nan

def numeric_value : Double :=
  match o.m_desc, o.value with
  | some d, some w => if o.is_numeric ∧ 0 < o.array_size then ofType F d (.finite w) else .nan
  | _, _ => .nan

def allowed_numeric_values : List Double :=
  match o.m_desc with
  | none => []
  | some d => match d.constraint with
    | .wordList words => if o.is_numeric then words.map fun w => ofType F d (.finite w) else []
    | _ => []

/-- The list ends at the first empty string. -/
def allowed_string_values : List Octets :=
  match o.m_desc with
  | none => []
  | some d => match d.constraint with
    | .stringList strings => if o.is_string then strings.takeWhile (· ≠ []) else []
    | _ => []

end SaneOption
end AirSane.Sanecpp
