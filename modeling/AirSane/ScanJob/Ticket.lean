import AirSane.Text.Octets
import Mathlib.Data.List.Infix

/-! # Scan tickets

How `ScanSettingsXml` finds a setting: the leftmost place of the ticket where an
element begins that has the setting's name behind any prefix of letters, holds
text without markup, and is closed by its own name.
-/

namespace AirSane.ScanJob
open Text

def LT : UInt8 := 60
def GT : UInt8 := 62
def SLASH : UInt8 := 47

/-- `[a-zA-Z]`. -/
def isLetter (b : UInt8) : Bool := (65 ≤ b && b ≤ 90) || (97 ≤ b && b ≤ 122)

/-- The match of `<([a-zA-Z]+:name)>([^<]*)</\1>` at the beginning of a text, if
there is one: what its second group holds. Letters and text are taken as far as
they go, since neither can stand before what has to follow. -/
def settingAt (name xml : Octets) : Option Octets :=
  match xml with
  | [] => none
  | b :: rest =>
    let letters := rest.takeWhile isLetter
    let tag := letters ++ 58 :: name
    let body := rest.drop (tag.length + 1)
    let value := body.takeWhile (· ≠ LT)
    if b = LT ∧ letters ≠ [] ∧ tag ++ [GT] <+: rest ∧
        [LT, SLASH] ++ tag ++ [GT] <+: body.drop value.length then
      some value
    else none

/-- `ScanSettingsXml::getString`. -/
def getString (xml name : Octets) : Octets := (xml.tails.findSome? (settingAt name)).getD []

end AirSane.ScanJob
