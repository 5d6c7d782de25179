import AirSane.Programs.Execution
import AirSane.Sanecpp.Types
import AirSane.ImageFormats.Encoder
import Mathlib.Logic.Function.Basic

/-! # The state a scan job works on

The atomic cells of `ScanJob::Private`, the session objects they point to, the
encoder and response stream of the transfer under way, and a log of what
happened at the boundary of the program. Backend, image libraries and network
are functions of that log, so they may react to everything done so far.
-/

namespace AirSane.ScanJob
open Programs

/-- `ScanJob::State`. -/
inductive State where
  | aborted | canceled | completed | pending | processing
  deriving DecidableEq, Repr

/-- `ScanJob::isFinished`. -/
def State.isFinished : State → Bool
  | .pending | .processing => false
  | .aborted | .canceled | .completed => true

/-- Job kinds. -/
inductive Kind where
  | single | adfSingle | adfConcat
  deriving DecidableEq, Repr

def PWG_NONE := "None"
def PWG_RESOURCES_ARE_NOT_READY := "ResourcesAreNotReady"
def PWG_JOB_QUEUED := "JobQueued"
def PWG_JOB_SCANNING := "JobScanning"
def PWG_JOB_COMPLETED_SUCCESSFULLY := "JobCompletedSuccessfully"
def PWG_JOB_CANCELED_BY_USER := "JobCanceledByUser"
def PWG_INVALID_SCAN_TICKET := "InvalidScanTicket"
def PWG_UNSUPPORTED_DOCUMENT_FORMAT := "UnsupportedDocumentFormat"
def PWG_DOCUMENT_PERMISSION_ERROR := "DocumentPermissionError"
def PWG_ERRORS_DETECTED := "ErrorsDetected"

/-- What `init` read from the ticket and the device options, constant afterwards.
`luminance` stands for the floating-point weighting of `synthesizeGray`. -/
structure Settings where
  kind : Kind
  documentFormat : String
  scanSource : String
  colorMode : String
  colorScan : Bool
  bitDepth : ℤ
  res_dpi : ℤ
  left_px : ℚ
  top_px : ℚ
  width_px : ℚ
  height_px : ℚ
  sane_options : List (String × String)
  synthesize_gray : Bool
  gammaTable : List UInt16
  luminance : ℕ → ℕ → ℕ → ℕ

/-- A small gray page at 300 dpi. -/
def Settings.gray (kind : Kind) (documentFormat : String) : Settings where
  kind := kind
  documentFormat := documentFormat
  scanSource := "Flatbed"
  colorMode := "Gray"
  colorScan := false
  bitDepth := 8
  res_dpi := 300
  left_px := 0
  top_px := 0
  width_px := 1
  height_px := 2
  sane_options := []
  synthesize_gray := false
  gammaTable := []
  luminance := fun r g b => (r + g + b) / 3

abbrev SessionId := ℕ

/-- `sanecpp::session`: a null device is one that could not be opened. -/
structure Session where
  device : Option Handle
  status : SaneStatus
  parameters : SaneParameters

/-- What is visible from outside: calls into SANE and what they answered,
returns of `openSession` and of the session functions, virtual calls on the
encoder and whether they came back without throwing, flushes of the response. -/
inductive Event where
  | saneOpen (h : Handle) (st : SaneStatus)
  | setOption (name : String) (v : OptionValue)
  | setNumericValue (name : String) (v : ℚ) (accepted : Bool)
  | optionUnit (name : String) (u : SaneUnit)
  | openSession (st : SaneStatus)
  | saneStart (device : Option Handle) (st : SaneStatus)
  | saneGetParameters (device : Option Handle) (st : SaneStatus) (p : SaneParameters)
  | saneRead (device : Option Handle) (st : SaneStatus) (bytes : List UInt8)
  | sessionRead (st : SaneStatus) (line : List UInt8)
  | saneCancel (h : Handle)
  | saneClose (h : Handle)
  | callback (cb : Callback) (completed : Bool)
  | flush (good : Bool)
  deriving DecidableEq

abbrev Log := List Event

/-- The surroundings: how the backend answers, whether libjpeg and libpng
report errors, whether writing to the response keeps the stream good. -/
structure Environment where
  saneOpen : Log → SaneStatus
  setNumericValue : Log → Bool
  optionUnit : Log → SaneUnit
  saneStart : Log → SaneStatus
  saneGetParameters : Log → SaneStatus × SaneParameters
  saneRead : Log → ℕ → SaneStatus × List UInt8
  library : Log → Bool
  stream : Log → Bool

/-- A backend that agrees to everything, answers `sane_start` and `sane_read`
from two scripts and has nothing more when they run out. -/
def Environment.scripted (p : SaneParameters) (starts : List SaneStatus)
    (reads : List (SaneStatus × List UInt8)) : Environment where
  saneOpen := fun _ => .good
  setNumericValue := fun _ => true
  optionUnit := fun _ => .pixel
  saneStart := fun log =>
    starts.getD (log.countP fun e => e matches .saneStart _ _) .noDocs
  saneGetParameters := fun _ => (.good, p)
  saneRead := fun log _ => reads.getD (log.countP fun e => e matches .saneRead _ _ _) (.eof, [])
  library := fun _ => true
  stream := fun _ => true

structure World where
  state : State
  stateReason : String
  adfStatus : SaneStatus
  imagesCompleted : ℕ
  session : Option SessionId
  sessions : SessionId → Session
  opened : ℕ
  encoder : Option Encoder
  streamGood : Bool
  log : Log

/-- A job as `init` leaves it: pending, or aborted for a ticket with an error. -/
def World.initial (accepted : Bool) : World where
  state := if accepted then .pending else .aborted
  stateReason := if accepted then PWG_JOB_QUEUED else PWG_INVALID_SCAN_TICKET
  adfStatus := .good
  imagesCompleted := 0
  session := none
  sessions := fun _ => ⟨none, .good, .zero⟩
  opened := 0
  encoder := none
  streamGood := true
  log := []

/-- The parameters of the frame that the job's session has started. -/
def World.frame (w : World) : SaneParameters :=
  (w.session.map fun i => (w.sessions i).parameters).getD .zero

/-- What happened since an earlier moment of a run. -/
def World.eventsSince (w' w : World) : Log := w'.log.drop w.log.length

theorem World.eventsSince_of_eq {w w' : World} {evs : Log} (h : w'.log = w.log ++ evs) :
    w'.eventsSince w = evs := by
  simp [World.eventsSince, h]

/-- The member functions reached through `mpSession->`. -/
inductive Member where
  | status | options | dump_options | start | read | parameters | cancel
  deriving DecidableEq

/-- The atomic accesses of the job's code to what it shares with others. -/
inductive Command where
  | testState (s : State)
  | storeState (s : State)
  | compareExchangeState (expected desired : State)
  | storeStateReason (r : String)
  | storeAdfStatus (st : SaneStatus)
  | loadImagesCompleted
  | incrementImagesCompleted
  | testSession
  | openScanner
  | derefSession (m : Member)
  | resetSession
  | sessionStatus (i : SessionId)
  | setOption (i : SessionId) (name : String) (v : OptionValue)
  | setNumericValue (i : SessionId) (name : String) (v : ℚ)
  | optionUnit (i : SessionId) (name : String)
  | saneStart (i : SessionId)
  | saneGetParameters (i : SessionId)
  | sessionParameters (i : SessionId)
  | saneRead (i : SessionId) (maxLength : ℕ)
  | storeSessionStatus (i : SessionId) (st : SaneStatus)
  | saneCancel (i : SessionId)
  | resetEncoder
  | newEncoder (kind : EncoderKind)
  | testEncoder
  | loadEncoder
  | storeEncoder (e : Encoder)
  | callback (cb : Callback)
  | attachStream (good : Bool)
  | testStream
  | flush
  | trace (e : Event)

abbrev Answer : Command → Type
  | .testState _ | .compareExchangeState _ _ | .testSession | .testEncoder => Bool
  | .loadImagesCompleted => ℕ
  | .derefSession _ => SessionId
  | .sessionStatus _ | .saneStart _ | .saneGetParameters _ => SaneStatus
  | .setNumericValue _ _ _ => Bool
  | .optionUnit _ _ => SaneUnit
  | .sessionParameters _ => SaneParameters
  | .saneRead _ _ => SaneStatus × List UInt8
  | .loadEncoder => Encoder
  | .callback _ | .testStream | .flush => Bool
  | _ => Unit

abbrev JobM := Program Command Answer

/-- One atomic access of the job's code. -/
abbrev access (c : Command) : JobM (Answer c) := .perform c

end AirSane.ScanJob
