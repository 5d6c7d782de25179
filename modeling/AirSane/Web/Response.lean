import AirSane.Basic.Dictionary
import AirSane.Text.Chunked
import Mathlib.Data.Int.Notation

/-! # HTTP responses

`HttpServer::Response` over the bytes that its stream has taken so far. The
stream does not fail. Content goes to the stream itself or through a buffer
that sends what it holds as one chunk when it is flushed, and the last chunk
when it is destroyed.
-/

namespace AirSane.Web
open Text

def ctolower (s : Octets) : Octets := s.map toLower
def ctrim (s : Octets) : Octets := s.filter fun b => !isspace b

def HTTP_HEADER_CONTENT_TYPE := ascii "content-type"
def HTTP_HEADER_CONTENT_LENGTH := ascii "content-length"
def HTTP_HEADER_LOCATION := ascii "location"
def HTTP_HEADER_CONNECTION := ascii "connection"
def HTTP_HEADER_TRANSFER_ENCODING := ascii "transfer-encoding"

/-- `<<` for an `int`. -/
def integer (n : ℤ) : Octets :=
  if n < 0 then ascii "-" ++ numeral 10 n.natAbs else numeral 10 n.toNat

/-- The value of a `size_t` that is passed as an `int`. -/
def sizeAsInt (n : ℕ) : ℤ := Int.bmod n 4294967296

def statusReason (status : ℤ) : Octets :=
  ascii <| match status with
    | 200 => "OK"
    | 201 => "Created"
    | 400 => "Bad Request"
    | 404 => "Not Found"
    | 405 => "Method Not Allowed"
    | 503 => "Service Unavailable"
    | _ => "Unknown Reason"

/-- `Chunkstream::chunkbuf`: the string it holds, and what it has sent before. -/
structure Chunkbuf where
  mTotalWritten : ℕ
  str : Octets

namespace Chunkbuf

/-- What `sync` writes to the stream. -/
def synced (b : Chunkbuf) : Octets :=
  if b.str = [] then [] else numeral 16 b.str.length ++ crlf ++ b.str ++ crlf

def sync (b : Chunkbuf) : Chunkbuf := ⟨b.mTotalWritten + b.str.length, []⟩

def write (b : Chunkbuf) (s : Octets) : Chunkbuf := { b with str := b.str ++ s }

/-- What the destructor writes. -/
def finished (b : Chunkbuf) : Octets := b.synced ++ ascii "0\r\n\r\n"

/-- `seekoff` for the current position of the output. -/
def tellp (b : Chunkbuf) : ℕ := b.mTotalWritten + b.str.length

end Chunkbuf

structure Response where
  mStream : Octets
  mSent : Bool
  mStatus : ℤ
  mHeaders : Dictionary
  mpChunkstream : Option Chunkbuf

/-- What is done to the stream that `send` returns. -/
inductive Output where
  | write (s : Octets)
  | flush

def payload (ops : List Output) : Octets :=
  (ops.map fun | .write s => s | .flush => []).flatten

def statusLine (status : ℤ) : Octets :=
  ascii "HTTP/1.1 " ++ integer status ++ ascii " " ++ statusReason status

def headerLine (h : Octets × Octets) : Octets := h.1 ++ ascii ": " ++ h.2

/-- The entries that `sendHeaders` prints. -/
def printed (d : Dictionary) : Dictionary := d.filter fun h => h.2 ≠ []

def headerBlock (status : ℤ) (d : Dictionary) : Octets :=
  statusLine status ++ crlf ++ ((printed d).map fun h => headerLine h ++ crlf).flatten ++ crlf

namespace Response

def new : Response := ⟨[], false, 200, [], none⟩

def setStatus (r : Response) (status : ℤ) : Response := { r with mStatus := status }

/-- `Response::setHeader`. -/
def setHeader (r : Response) (key v : Octets) : Response :=
  { r with mHeaders :=
      if ctrim v = [] then r.mHeaders.eraseKey key
      else r.mHeaders.assign (ctolower (ctrim key)) (ctrim v) }

def setHeaderInt (r : Response) (key : Octets) (v : ℤ) : Response := r.setHeader key (integer v)

def header (r : Response) (key : Octets) : Octets := r.mHeaders.getString (ctolower (ctrim key))

def deleteChunkstream (r : Response) : Response :=
  match r.mpChunkstream with
  | none => r
  | some b => { r with mpChunkstream := none, mStream := r.mStream ++ b.finished }

/-- The second half of `sendHeaders`. -/
def emitHeaders (r : Response) : Response :=
  { r with mStream := r.mStream ++ headerBlock r.mStatus r.mHeaders, mSent := true }

/-- `Response::sendHeaders`, which throws for a transfer encoding it does not
know. -/
def sendHeaders (r : Response) : Option Response :=
  let r := r.setHeader HTTP_HEADER_CONNECTION (ascii "close")
  let encoding := ctolower (r.header HTTP_HEADER_TRANSFER_ENCODING)
  if encoding = ascii "identity" then
    some (r.setHeader HTTP_HEADER_TRANSFER_ENCODING []).emitHeaders
  else if encoding = ascii "chunked" then
    some ({ r.deleteChunkstream with mpChunkstream := some ⟨0, []⟩ }.setHeader
      HTTP_HEADER_CONTENT_LENGTH []).emitHeaders
  else if encoding = [] then some r.emitHeaders
  else none

def send (r : Response) : Option Response :=
  (r.setHeader HTTP_HEADER_CONTENT_LENGTH []).sendHeaders

/-- An operation on the stream that `sendHeaders` returns. -/
def put (r : Response) (op : Output) : Response :=
  match r.mpChunkstream, op with
  | none, .write s => { r with mStream := r.mStream ++ s }
  | none, .flush => r
  | some b, .write s => { r with mpChunkstream := some (b.write s) }
  | some b, .flush => { r with mpChunkstream := some b.sync, mStream := r.mStream ++ b.synced }

def sendWithContent (r : Response) (s : Octets) : Option Response :=
  (r.setHeaderInt HTTP_HEADER_CONTENT_LENGTH (sizeAsInt s.length)).sendHeaders.map fun r =>
    (r.put (.write s)).put .flush

/-- The bytes on the connection after the destructor. -/
def destroy (r : Response) : Octets := r.deleteChunkstream.mStream

/-- A new response with a status and the result of some calls of `setHeader`. -/
def prepared (status : ℤ) (calls : List (Octets × Octets)) : Response :=
  calls.foldl (fun r c => r.setHeader c.1 c.2) (new.setStatus status)

end Response
end AirSane.Web
