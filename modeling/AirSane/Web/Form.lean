import AirSane.Web.Body
import Mathlib.Data.List.Induction

/-! # Form data

`urldecode` and `HttpServer::Request::formData`: the dictionary that is made of
the body of a request.
-/

namespace AirSane.Web
open Text

def PERCENT : UInt8 := 37
def AMPERSAND : UInt8 := 38
def EQUALS : UInt8 := 61

/-- `strtol` to the base sixteen: white space, a sign, and `0x` before a digit are
passed over. -/
def strtol16 (s : Octets) : ℤ :=
  let signed := (s.takeWhile (· ≠ 0)).dropWhile isspace
  let unsigned := withoutSign signed
  let isDigit16 := fun b => (digitValue b).isSome
  let digits :=
    match unsigned with
    | 48 :: x :: d :: _ =>
      if (x = 120 ∨ x = 88) ∧ isDigit16 d then unsigned.drop 2 else unsigned
    | _ => unsigned
  let magnitude : ℤ := value 16 (digits.takeWhile isDigit16)
  if signed.head? = some MINUS then -magnitude else magnitude

/-- `hexdecode`, as a character. -/
def hexdecode (s : Octets) : UInt8 := UInt8.ofInt (strtol16 s)

def urldecode : Octets → Octets
  | [] => []
  | b :: s =>
    if b = PERCENT then
      match s with
      | 37 :: s => PERCENT :: urldecode s
      | x :: y :: s => hexdecode [x, y] :: urldecode s
      | s => urldecode s
    else if b = PLUS then 32 :: urldecode s
    else b :: urldecode s

/-- The pieces that `getline` takes off a text: no empty one stands at the end. -/
def formEntries (content : Octets) : List Octets :=
  let pieces := content.splitOn AMPERSAND
  if pieces.getLast? = some [] then pieces.dropLast else pieces

/-- The loop of `formData`. -/
def addEntry (d : Dictionary) (entry : Octets) : Dictionary :=
  d.assign (urldecode (entry.takeWhile (· ≠ EQUALS)))
    (urldecode ((entry.dropWhile (· ≠ EQUALS)).drop 1))

def parseForm (content : Octets) : Dictionary := (formEntries content).foldl addEntry []

/-- `Request::hasFormData`. -/
def Request.hasFormData (machine : Option ℚ → ℤ) (r : Request) : Bool :=
  r.mHeaders.getString HTTP_HEADER_CONTENT_TYPE = ascii "application/x-www-form-urlencoded" &&
    0 < r.contentLength machine

/-- `Request::formData`, on a request that was not asked for it before. -/
def Received.formData (machine : Option ℚ → ℤ) (r : Received) : Dictionary :=
  if r.hasFormData machine then parseForm (r.content machine).1 else []

theorem nodup_parseForm {content : Octets} : (Dictionary.keys (parseForm content)).Nodup := by
  rw [parseForm]
  induction formEntries content using List.reverseRecOn with
  | nil => exact List.nodup_nil
  | append_singleton entries entry ih =>
    rw [List.foldl_append]
    exact Dictionary.nodup_assign ih

end AirSane.Web
