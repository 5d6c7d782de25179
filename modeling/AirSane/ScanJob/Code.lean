import AirSane.ScanJob.Pixels

/-! # The program text of a scan job

The member functions of `sanecpp::session`, `ImageEncoder` and
`ScanJob::Private` that a transfer runs through, command by command. Loops and
the recursion of `updateStatus` take fuel.
-/

namespace AirSane.ScanJob
open Programs Program

section Session

/-- `session::start`. -/
def Session.start (i : SessionId) : JobM SaneStatus := do
  let st ← access (.saneStart i)
  if st = .good then access (.saneGetParameters i) else return st

/-- One pass of the loop in `session::read`: fill the buffer up to `size`. -/
def Session.readPass (i : SessionId) (size : ℕ) (buffer : List UInt8) :
    JobM (List UInt8 ⊕ (SaneStatus × List UInt8)) := do
  if buffer.length < size then
    let (st, bytes) ← access (.saneRead i (size - buffer.length))
    if st = .good then return .inl (buffer ++ bytes) else return .inr (st, buffer ++ bytes)
  else return .inr (.good, buffer)

/-- `session::read`. -/
def Session.read (fuel : ℕ) (i : SessionId) (size : ℕ) : JobM (SaneStatus × List UInt8) := do
  let r ← iterate (Session.readPass i size) fuel []
  access (.storeSessionStatus i r.1)
  access (.trace (.sessionRead r.1 r.2))
  return r

end Session

section ImageEncoder

/-- `ImageEncoder::onParamChange`. -/
def onParamChange : JobM Unit := do
  let e ← access .loadEncoder
  if e.currentLine ≠ 0 then .raise
  else access (.storeEncoder e.refresh)

/-- A setter stores its parameter before the change is checked. -/
def setParameter (set : Encoder → Encoder) : JobM Unit := do
  let e ← access .loadEncoder
  access (.storeEncoder (set e))
  onParamChange

def setWidth (w : ℤ) : JobM Unit := setParameter fun e => { e with width := w }
def setHeight (h : ℤ) : JobM Unit := setParameter fun e => { e with height := h }
def setBitDepth (b : ℤ) : JobM Unit := setParameter fun e => { e with bitDepth := b }
def setResolutionDpi (dpi : ℤ) : JobM Unit := setParameter fun e => { e with dpi := dpi }
def setColorspace (cs : Colorspace) : JobM Unit := setParameter fun e => { e with colorspace := cs }
def setDestination : JobM Unit := setParameter fun e => { e with destination := true }

/-- A virtual call that may throw. -/
def callback (cb : Callback) : JobM Unit := do
  if ← access (.callback cb) then return () else .raise

def callbackIf (c : Prop) [Decidable c] (cb : Callback) : JobM Unit :=
  if c then callback cb else return ()

/-- `ImageEncoder::writeLine`. -/
def writeLine (line : List UInt8) : JobM Unit := do
  let e ← access .loadEncoder
  callbackIf (e.currentLine = 0 ∧ e.currentImage = 0) .onDocumentBegin
  callbackIf (e.currentLine = 0 ∧ e.destination) .onImageBegin
  callbackIf e.destination (.onWriteLine line)
  access (.storeEncoder e.advance)
  callbackIf (e.advance.currentLine = 0 ∧ e.destination) .onImageEnd

/-- `ImageEncoder::endDocument`. -/
def endDocument : JobM Unit := do
  let e ← access .loadEncoder
  callbackIf e.destination .onDocumentEnd

end ImageEncoder

section ScanJob

def isProcessing : JobM Bool := access (.testState .processing)

/-- `ScanJob::Private::atomicTransition`. -/
def atomicTransition (source target : State) : JobM Bool :=
  access (.compareExchangeState source target)

/-- The two assignments that every change of state consists of. -/
def setState (s : State) (reason : String) : JobM Unit := do
  access (.storeState s)
  access (.storeStateReason reason)

/-- `ScanJob::Private::closeSession`. -/
def closeSession : JobM Unit := do
  if ← access .testSession then
    let i ← access (.derefSession .cancel)
    access (.saneCancel i)
  access .resetSession

variable (s : Settings)

/-- `ScanJob::Private::updateStatus`. -/
def updateStatus : ℕ → SaneStatus → JobM Unit
  | 0, _ => .spin
  | fuel + 1, status => do
    access (.storeAdfStatus .good)
    match status with
    | .good => setState .processing PWG_JOB_SCANNING
    | .inval => setState .aborted PWG_INVALID_SCAN_TICKET
    | .deviceBusy | .ioError | .noMem => setState .aborted PWG_RESOURCES_ARE_NOT_READY
    | .accessDenied => setState .aborted PWG_DOCUMENT_PERMISSION_ERROR
    | .jammed | .coverOpen =>
      setState .aborted PWG_RESOURCES_ARE_NOT_READY
      access (.storeAdfStatus status)
    | .cancelled => setState .aborted PWG_JOB_CANCELED_BY_USER
    | .eof => match s.kind with
      | .single =>
        if (← access .loadImagesCompleted) > 0 then
          setState .completed PWG_JOB_COMPLETED_SUCCESSFULLY
        else setState .pending PWG_NONE
        closeSession
      | .adfSingle => setState .pending PWG_NONE
      | .adfConcat =>
        let i ← access (.derefSession .start)
        updateStatus fuel (← Session.start i)
    | .noDocs =>
      if (← access .loadImagesCompleted) > 0 ∧ (s.kind = .adfSingle ∨ s.kind = .adfConcat) then
        setState .completed PWG_JOB_COMPLETED_SUCCESSFULLY
      else setState .aborted PWG_RESOURCES_ARE_NOT_READY
      access (.storeAdfStatus status)
      closeSession
    | .unsupported | .other _ => setState .aborted PWG_ERRORS_DETECTED
    if ← access (.testState .aborted) then closeSession

/-- The scan region of `openSession`, in the unit of the geometry options, as
left, top, right, bottom. -/
def Settings.region (unit : SaneUnit) : List ℚ :=
  let edges := [s.left_px, s.top_px, s.left_px + s.width_px, s.top_px + s.height_px]
  let scaled := match unit with
    | .mm => edges.map (· * ((254 : ℚ) / 10 / s.res_dpi))
    | _ => edges
  scaled.map fun x => ((x + 1 / 2).floor : ℚ)

/-- `opt[name].set_numeric_value` on the resolution options: x and y are tried
only where the common one is refused, y only where x is refused. -/
def setResolution (i : SessionId) : JobM Bool := do
  if ← access (.setNumericValue i SANE_NAME_SCAN_RESOLUTION s.res_dpi) then return true
  else if ← access (.setNumericValue i SANE_NAME_SCAN_X_RESOLUTION s.res_dpi) then return true
  else access (.setNumericValue i SANE_NAME_SCAN_Y_RESOLUTION s.res_dpi)

def assignOptions (i : SessionId) : List (String × OptionValue) → JobM Unit
  | [] => return ()
  | (name, v) :: rest => do
    access (.setOption i name v)
    assignOptions i rest

/-- The device options, then source, mode and depth, in the order some
backends depend on. -/
def Settings.leadingOptions : List (String × OptionValue) :=
  s.sane_options.map (fun o => (o.1, .text o.2)) ++
    [(SANE_NAME_SCAN_SOURCE, .text s.scanSource), (SANE_NAME_SCAN_MODE, .text s.colorMode),
      (SANE_NAME_BIT_DEPTH, .number s.bitDepth)]

/-- The scan region as four options. -/
def Settings.regionOptions (unit : SaneUnit) : List (String × OptionValue) :=
  ([SANE_NAME_SCAN_TL_X, SANE_NAME_SCAN_TL_Y, SANE_NAME_SCAN_BR_X, SANE_NAME_SCAN_BR_Y].zip
    (s.region unit)).map fun o => (o.1, .number o.2)

/-- The option settings of `openSession`, and whether they are acceptable. -/
def configure (i : SessionId) : JobM Bool := do
  assignOptions i s.leadingOptions
  let accepted ← setResolution s i
  let unit ← access (.optionUnit i SANE_NAME_SCAN_TL_X)
  assignOptions i (s.regionOptions unit)
  return accepted && (unit = .pixel || unit = .mm)

/-- `ScanJob::Private::openSession`. -/
def openSession : JobM SaneStatus := do
  if ← access .testSession then .crash
  access .openScanner
  let status ← access (.sessionStatus (← access (.derefSession .status)))
  let status ← if status = .good then do
      let i ← access (.derefSession .options)
      if ← configure s i then pure status else pure SaneStatus.inval
    else pure status
  access (.trace (.openSession status))
  return status

/-- `ScanJob::Private::startSession`. -/
def startSession (fuel : ℕ) : JobM Unit := do
  let i ← access (.derefSession .start)
  updateStatus s fuel (← Session.start i)

/-- What `beginTransfer` does about a missing session. The status of
`openSession` decides only whether the options are dumped. -/
def prepareSession : JobM Unit := do
  if ← access .testSession then return ()
  else if (← openSession s) = .good then
    let _ ← access (.derefSession .dump_options)

/-- `ScanJob::Private::beginTransfer`. -/
def beginTransfer (fuel : ℕ) : JobM Bool := do
  if ← atomicTransition .pending .processing then
    prepareSession s
    startSession s fuel
    let ok ← isProcessing
    if !ok then closeSession
    return ok
  else return false

/-- The first block of `finishTransfer`: an encoder for the document format. -/
def createEncoder : JobM Unit := do
  access .resetEncoder
  if ← isProcessing then
    match EncoderKind.ofDocumentFormat s.documentFormat with
    | some kind => access (.newEncoder kind)
    | none => setState .aborted PWG_UNSUPPORTED_DOCUMENT_FORMAT

/-- The line length the encoder must agree on with the backend. -/
def Settings.expectedBytesPerLine (p : SaneParameters) : ℤ :=
  if s.synthesizes then p.bytesPerLine.tdiv 3 else p.bytesPerLine

/-- The second block of `finishTransfer`: configure the encoder and compare
line lengths. -/
def setUpEncoder : JobM Unit := do
  if ← isProcessing then
    setResolutionDpi s.res_dpi
    setColorspace (if s.colorScan then .rgb else .grayscale)
    let p ← access (.sessionParameters (← access (.derefSession .parameters)))
    setWidth p.pixelsPerLine
    setHeight p.lines
    setBitDepth p.depth
    setDestination
    let e ← access .loadEncoder
    if e.bytesPerLine ≠ s.expectedBytesPerLine p then setState .aborted PWG_ERRORS_DETECTED

/-- The condition of the inner loop. -/
def continues (status : SaneStatus) : JobM Bool := do
  if status = .good then
    if ← access .testStream then isProcessing else return false
  else return false

/-- Writing one line and pushing it out; a stream that fails raises. -/
def sendLine (line : List UInt8) : JobM Unit := do
  writeLine (s.processed line)
  if ← access .flush then return () else .raise

/-- One pass of the inner loop, over the last status of the backend. -/
def linePass (fuel size : ℕ) (status : SaneStatus) : JobM (SaneStatus ⊕ SaneStatus) := do
  if ← continues status then
    let i ← access (.derefSession .read)
    let (st, line) ← Session.read fuel i size
    if st = .good then
      tryCatch (sendLine s line) (do
        setState .aborted PWG_ERRORS_DETECTED
        closeSession)
    return .inl st
  else return .inr status

/-- What follows the inner loop: count the image, act on the status that ended
it, and compare what was written with the image height. -/
def finishImage (fuel : ℕ) (status : SaneStatus) : JobM Unit := do
  if ← isProcessing then
    access .incrementImagesCompleted
    updateStatus s fuel status
    let e ← access .loadEncoder
    if e.linesLeftInCurrentImage ≠ e.height then setState .aborted PWG_ERRORS_DETECTED

/-- One pass of the outer loop. A negative line length cannot be allocated. -/
def imagePass (fuel : ℕ) (_ : Unit) : JobM (Unit ⊕ Unit) := do
  if ← isProcessing then
    let p ← access (.sessionParameters (← access (.derefSession .parameters)))
    if p.bytesPerLine < 0 then .crash
    else
      let status ← iterate (linePass s fuel p.bytesPerLine.toNat) fuel .good
      finishImage s fuel status
      return .inl ()
  else return .inr ()

/-- `ScanJob::Private::finishTransfer`, on a stream that is good or not. -/
def finishTransfer (fuel : ℕ) (streamGood : Bool) : JobM Unit := do
  access (.attachStream streamGood)
  createEncoder s
  setUpEncoder s
  iterate (imagePass s fuel) fuel ()
  if ← access .testEncoder then endDocument

/-- `ScanJob::cancel`. -/
def cancel : JobM Unit := do
  setState .canceled PWG_JOB_CANCELED_BY_USER
  closeSession

end ScanJob
end AirSane.ScanJob
