import AirSane.ImageFormats.Encoder
import AirSane.Sanecpp.Types
import AirSane.Server.Discovery
import AirSane.Web.Framing
import AirSane.Web.Request
import Mathlib.Data.List.Infix

/-! # Requests

From a request that has been read to its answer: `handleRequest`, the router
`onRequest`, the requests of a scanner and the pages of the web interface. What
the calls on scanners and jobs come to, and the texts of pages, are inputs.
-/

namespace AirSane.Server
open Text Web

def HTTP_GET := ascii "GET"
def HTTP_POST := ascii "POST"
def HTTP_DELETE := ascii "DELETE"
def HTTP_HEADER_USER_AGENT := ascii "user-agent"
def HTTP_HEADER_CONTENT_DISPOSITION := ascii "content-disposition"
def HTTP_HEADER_REFRESH := ascii "refresh"

/-- A request with its body and the form data in it. -/
structure Message extends Request where
  content : Octets
  formData : Dictionary

/-- A job, and what its operations come to during a request. -/
structure Job where
  mUuid : Octets
  isFinished : Bool
  beginTransfer : Bool
  adfStatus : SaneStatus
  documentFormat : Octets
  /-- What `finishTransfer` does to the stream it is given. -/
  finishTransfer : List Output
  statusString : Octets
  statusReason : Octets

/-- `ScanJob::uri`. -/
def Job.uri (s : Scanner) (job : Job) : Octets := s.mUri ++ ascii "/ScanJobs/" ++ job.mUuid

/-- What a request finds out about scanners and jobs, and the texts of pages. -/
structure Answers where
  /-- The content of the icon file, if it can be opened. -/
  iconFile : Scanner → Option Octets
  scannerCapabilitiesXml : Scanner → Octets
  scannerStatusXml : Scanner → Octets
  createJob : Scanner → Octets → Bool → Option Job
  cancelJob : Scanner → Octets → Bool
  getJob : Scanner → Octets → Option Job
  scanJobTicket : Scanner → Dictionary → Octets
  mainPage : List ScannerEntry → Octets
  resetPage : Octets
  /-- When the reset page goes on to the main page. -/
  refresh : Octets
  /-- The scanner page for form data, an image to show and a status. -/
  scannerPage : Scanner → Dictionary → Octets → Octets → Octets
  errorPage : ℤ → Message → Octets

/-- A call on a scanner or one of its jobs. -/
inductive Call where
  | createJob (s : Scanner)
  | cancelJob (s : Scanner) (uuid : Octets)
  | getJob (s : Scanner) (uuid : Octets)
  | beginTransfer (s : Scanner) (uuid : Octets)
  | finishTransfer (s : Scanner) (uuid : Octets)
  | setTemporaryAdfStatus (s : Scanner) (status : SaneStatus)
  | terminate

/-- A response in the making, how many times `sendHeaders` has been executed on
it, and the calls made. -/
structure Exchange where
  response : Response
  sends : ℕ
  calls : List Call

namespace Exchange

def setStatus (x : Exchange) (status : ℤ) : Exchange :=
  { x with response := x.response.setStatus status }

def setHeader (x : Exchange) (key v : Octets) : Exchange :=
  { x with response := x.response.setHeader key v }

def call (x : Exchange) (c : Call) : Exchange := { x with calls := x.calls ++ [c] }

/-- An execution of `sendHeaders`, or the exception it throws. -/
def commit (x : Exchange) (r : Option Response) : Except Exchange Exchange :=
  match r with
  | none => .error x
  | some r => .ok { x with response := r, sends := x.sends + 1 }

def send (x : Exchange) : Except Exchange Exchange := x.commit x.response.send

def sendWithContent (x : Exchange) (s : Octets) : Except Exchange Exchange :=
  x.commit (x.response.sendWithContent s)

def puts (x : Exchange) (ops : List Output) : Exchange :=
  { x with response := x.response.puts ops }

section
variable (x : Exchange) (status : ℤ) (key v : Octets) (ops : List Output) (c : Call)

@[simp] theorem setHeader_sends : (x.setHeader key v).sends = x.sends := rfl
@[simp] theorem setHeader_calls : (x.setHeader key v).calls = x.calls := rfl
@[simp] theorem setStatus_calls : (x.setStatus status).calls = x.calls := rfl
@[simp] theorem puts_calls : (x.puts ops).calls = x.calls := rfl
@[simp] theorem call_calls : (x.call c).calls = x.calls ++ [c] := rfl

end
end Exchange

section
variable (ans : Answers) (cfg : Settings) (served : List ScannerEntry)

/-- `WebPage::render`, of a page that has been asked for its text. -/
def render (page : Except Exchange (Exchange × Octets)) : Except Exchange Exchange :=
  match page with
  | .error x => .error x
  | .ok (x, html) =>
    if x.response.mSent then .ok x
    else (x.setHeader HTTP_HEADER_CONTENT_TYPE (ascii "text/html")).sendWithContent html

def fileExtension (mimeType : Octets) : Octets :=
  if mimeType = ascii MIME_TYPE_JPEG then ascii ".jpg"
  else if mimeType = ascii MIME_TYPE_PDF then ascii ".pdf"
  else if mimeType = ascii MIME_TYPE_PNG then ascii ".png"
  else []

/-- The image that the scanner page shows for a preview. -/
def previewUri (s : Scanner) (job : Job) : Octets := job.uri s ++ ascii "/NextDocument"

/-- `ScannerPage::onRender`. -/
def scannerPageOnRender (s : Scanner) (d : Dictionary) (x : Exchange) :
    Except Exchange (Exchange × Octets) :=
  let preview := d.hasKey (ascii "preview")
  let download := d.hasKey (ascii "download")
  if preview || download then
    let x := x.call (.createJob s)
    match ans.createJob s (ans.scanJobTicket s d) false with
    | none => .ok (x, ans.scannerPage s d [] [])
    | some job =>
      let imageuri := if preview then previewUri s job else []
      if download then
        let x := x.call (.beginTransfer s job.mUuid)
        if job.beginTransfer then do
          let x ← (((x.setHeader HTTP_HEADER_CONTENT_DISPOSITION
            (ascii "attachment;filename=\"Scan" ++ fileExtension job.documentFormat ++ ascii "\"")
              ).setHeader HTTP_HEADER_CONTENT_TYPE job.documentFormat).setHeader
                HTTP_HEADER_TRANSFER_ENCODING (ascii "chunked")).send
          .ok ((x.puts job.finishTransfer).call (.finishTransfer s job.mUuid), [])
        else
          let statusinfo := ascii "Error: " ++ job.statusString ++ ascii ": " ++ job.statusReason
          .ok (x.setHeader HTTP_HEADER_REFRESH (ascii "5; url=/"),
            ans.scannerPage s d imageuri statusinfo)
      else .ok (x, ans.scannerPage s d imageuri [])
  else .ok (x, ans.scannerPage s d [] [])

/-- `GET` on a job's next document. -/
def nextDocument (s : Scanner) (job : Job) (x : Exchange) : Except Exchange Exchange :=
  if job.isFinished then (x.setStatus 404).send
  else
    let x := x.call (.beginTransfer s job.mUuid)
    if job.beginTransfer then do
      let x ← (((x.setStatus 200).setHeader HTTP_HEADER_CONTENT_TYPE job.documentFormat).setHeader
        HTTP_HEADER_TRANSFER_ENCODING (ascii "chunked")).send
      .ok ((x.puts job.finishTransfer).call (.finishTransfer s job.mUuid))
    else if job.adfStatus ≠ .good then
      ((x.call (.setTemporaryAdfStatus s job.adfStatus)).setStatus 409).send
    else (x.setStatus 503).send

def ScanJobsDir := ascii "/ScanJobs"

/-- `handleScannerRequest` from the search for `ScanJobsDir` on. The base class
leaves the requests that are not handled alone. -/
def handleJobRequest (s : Scanner) (partialUri : Octets) (request : Message) (x : Exchange) :
    Except Exchange Exchange :=
  if ¬ ScanJobsDir <+: partialUri then .ok x
  else
    let res := partialUri.drop ScanJobsDir.length
    if res.head? ≠ some 47 then .ok x
    else
      let res := res.drop 1
      if 47 ∉ res then
        if request.mMethod = HTTP_DELETE then
          let x := x.call (.cancelJob s res)
          if ans.cancelJob s res then (x.setStatus 200).send else .ok x
        else .ok x
      else if res.dropWhile (· ≠ 47) = ascii "/NextDocument" ∧ request.mMethod = HTTP_GET then
        let uuid := res.takeWhile (· ≠ 47)
        let x := x.call (.getJob s uuid)
        match ans.getJob s uuid with
        | none => .ok x
        | some job => nextDocument s job x
      else .ok x

def clientIsAirscan (request : Request) : Bool :=
  decide (ascii "AirScanScanner" <:+:
    request.mHeaders.getString (ctolower (ctrim HTTP_HEADER_USER_AGENT)))

/-- `Server::handleScannerRequest`. -/
def handleScannerRequest (entry : ScannerEntry) (partialUri : Octets) (request : Message)
    (x : Exchange) : Except Exchange Exchange :=
  let s := entry.pScanner
  if (partialUri = [] ∨ partialUri = ascii "/") ∧ cfg.mWebinterface = true then
    render (scannerPageOnRender ans s request.formData
      ((x.setStatus 200).setHeader HTTP_HEADER_CONTENT_TYPE (ascii "text/html")))
  else if partialUri = ascii "/ScannerIcon" ∧ request.mMethod = HTTP_GET then
    match ans.iconFile s with
    | some icon => do
      let x ← (x.setHeader HTTP_HEADER_CONTENT_TYPE (ascii MIME_TYPE_PNG)).send
      .ok (x.puts [.write icon, .flush])
    | none => (x.setStatus 404).send
  else if partialUri = ascii "/ScannerCapabilities" ∧ request.mMethod = HTTP_GET then do
    let x ← ((x.setStatus 200).setHeader HTTP_HEADER_CONTENT_TYPE (ascii "text/xml")).send
    .ok (x.puts [.write (ans.scannerCapabilitiesXml s)])
  else if partialUri = ascii "/ScannerStatus" ∧ request.mMethod = HTTP_GET then do
    let x ← ((x.setStatus 200).setHeader HTTP_HEADER_CONTENT_TYPE (ascii "text/xml")).send
    .ok (x.puts [.write (ans.scannerStatusXml s), .flush])
  else if partialUri = ScanJobsDir ∧ request.mMethod = HTTP_POST then
    let x := x.call (.createJob s)
    match ans.createJob s request.content (clientIsAirscan request.toRequest) with
    | some job => ((x.setStatus 201).setHeader HTTP_HEADER_LOCATION (job.uri s)).send
    | none => handleJobRequest ans s partialUri request x
  else handleJobRequest ans s partialUri request x

/-- The first scanner whose path the URI begins with, and the rest of the URI. -/
def dispatch (uri : Octets) : Option (ScannerEntry × Octets) :=
  (served.find? fun entry => decide (cfg.mBasePath ++ entry.pScanner.mUri <+: uri)).map fun entry =>
    (entry, uri.drop (cfg.mBasePath ++ entry.pScanner.mUri).length)

/-- The pages of the server itself. The router goes on after them. -/
def serverPages (uri : Octets) (x : Exchange) : Except Exchange Exchange :=
  if cfg.mWebinterface then
    if uri = cfg.mBasePath ++ ascii "/" then
      render (.ok ((x.setStatus 200).setHeader HTTP_HEADER_CONTENT_TYPE (ascii "text/html"),
        ans.mainPage served))
    else if uri = ascii "/reset" ∧ cfg.mResetoption = true then do
      let x ← render (.ok (((x.setStatus 200).setHeader HTTP_HEADER_CONTENT_TYPE
        (ascii "text/html")).setHeader HTTP_HEADER_REFRESH ans.refresh, ans.resetPage))
      .ok (x.call .terminate)
    else .ok x
  else .ok x

/-- `Server::onRequest`. -/
def onRequest (request : Message) (x : Exchange) : Except Exchange Exchange := do
  let x ← serverPages ans cfg served request.mUri x
  match dispatch cfg served request.mUri with
  | none => .ok x
  | some (entry, remainder) => handleScannerRequest ans cfg entry remainder request x

/-- `HttpServer::Private::handleRequest`, from the response on. -/
def handleRequest (request : Message) : Except Exchange Exchange :=
  let x : Exchange := ⟨.new, 0, []⟩
  if !request.mValid then
    render (.ok (x.setStatus 400, ans.errorPage 400 request))
  else do
    let x ← onRequest ans cfg served request x
    if x.response.mSent then .ok x
    else render (.ok (x.setStatus 404, ans.errorPage 404 request))

end
end AirSane.Server
