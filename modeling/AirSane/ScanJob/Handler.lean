import AirSane.ScanJob.World

/-! # What each command does

`exec` answers a command in a world. Dereferencing a null `mpSession` or a null
encoder pointer has no answer. Everything the backend, the libraries or the
network decide is read off the environment at the current log.
-/

namespace AirSane.ScanJob
open Programs

namespace World

def record (w : World) (e : Event) : World := { w with log := w.log ++ [e] }

def device (w : World) (i : SessionId) : Option Handle := (w.sessions i).device

def counted (w : World) : World := { w with imagesCompleted := w.imagesCompleted + 1 }

def setSession (w : World) (i : SessionId) (f : Session → Session) : World :=
  { w with sessions := Function.update w.sessions i (f (w.sessions i)) }

/-- `Scanner::open`: `sanecpp::open` inside the constructor of a new session,
which the job's pointer then owns. -/
def openSession (E : Environment) (w : World) : World :=
  let st := E.saneOpen w.log
  { w with
    session := some w.opened
    sessions := Function.update w.sessions w.opened
      ⟨if st = .good then some w.opened else none, st, .zero⟩
    opened := w.opened + 1
    log := w.log ++ [.saneOpen w.opened st] }

/-- `session::cancel`, which does nothing for a null device. -/
def cancelDevice (w : World) (i : SessionId) : World :=
  match w.device i with
  | some h => w.record (.saneCancel h)
  | none => w

/-- The deleter of a device handle. -/
def closeDevice (w : World) (i : SessionId) : World :=
  match w.device i with
  | some h => w.record (.saneClose h)
  | none => w

/-- `mpSession.reset()`: the job holds the only strong reference, so this runs
the destructor of the session, which cancels, and releases its device. -/
def resetSession (w : World) : World :=
  match w.session with
  | some i => { ((w.cancelDevice i).closeDevice i) with session := none }
  | none => w

def startDevice (E : Environment) (w : World) (i : SessionId) : World :=
  (w.setSession i fun s => { s with status := E.saneStart w.log }).record
    (.saneStart (w.device i) (E.saneStart w.log))

def fetchParameters (E : Environment) (w : World) (i : SessionId) : World :=
  let r := E.saneGetParameters w.log
  (w.setSession i fun s => { s with status := r.1, parameters := r.2 }).record
    (.saneGetParameters (w.device i) r.1 r.2)

/-- `sane_read` delivers at most `maxLength` bytes. -/
def readPiece (E : Environment) (w : World) (i : SessionId) (maxLength : ℕ) :
    (SaneStatus × List UInt8) × World :=
  let r := E.saneRead w.log maxLength
  ((r.1, r.2.take maxLength), w.record (.saneRead (w.device i) r.1 (r.2.take maxLength)))

end World

/-- A callback completes if its explicit checks pass and the image library, if
it calls one, reports no error. -/
def Encoder.completes (e : Encoder) (E : Environment) (log : Log) (cb : Callback) : Bool :=
  e.admits cb && (!e.callsLibrary cb || E.library log)

/-- A stream that has failed stays failed. -/
def Encoder.keepsStream (e : Encoder) (E : Environment) (log : Log) (cb : Callback) : Bool :=
  !e.overrides cb || E.stream log

def World.call (E : Environment) (w : World) (e : Encoder) (cb : Callback) : World :=
  { w with streamGood := w.streamGood && Encoder.keepsStream e E w.log cb }.record
    (.callback cb (Encoder.completes e E w.log cb))

def World.flushed (E : Environment) (w : World) : World :=
  { w with streamGood := w.streamGood && E.stream w.log }.record
    (.flush (w.streamGood && E.stream w.log))

def exec (E : Environment) : Handler Command Answer World
  | .testState s, w => some (decide (w.state = s), w)
  | .storeState s, w => some ((), { w with state := s })
  | .compareExchangeState expected desired, w =>
    if w.state = expected then some (true, { w with state := desired }) else some (false, w)
  | .storeStateReason r, w => some ((), { w with stateReason := r })
  | .storeAdfStatus st, w => some ((), { w with adfStatus := st })
  | .loadImagesCompleted, w => some (w.imagesCompleted, w)
  | .incrementImagesCompleted, w => some ((), w.counted)
  | .testSession, w => some (w.session.isSome, w)
  | .openScanner, w => some ((), w.openSession E)
  | .derefSession _, w => w.session.map (·, w)
  | .resetSession, w => some ((), w.resetSession)
  | .sessionStatus i, w => some ((w.sessions i).status, w)
  | .setOption _ name v, w => some ((), w.record (.setOption name v))
  | .setNumericValue _ name v, w =>
    some (E.setNumericValue w.log, w.record (.setNumericValue name v (E.setNumericValue w.log)))
  | .optionUnit _ name, w =>
    some (E.optionUnit w.log, w.record (.optionUnit name (E.optionUnit w.log)))
  | .saneStart i, w => some (E.saneStart w.log, w.startDevice E i)
  | .saneGetParameters i, w => some ((E.saneGetParameters w.log).1, w.fetchParameters E i)
  | .sessionParameters i, w => some ((w.sessions i).parameters, w)
  | .saneRead i maxLength, w => some (w.readPiece E i maxLength)
  | .storeSessionStatus i st, w => some ((), w.setSession i fun s => { s with status := st })
  | .saneCancel i, w => some ((), w.cancelDevice i)
  | .resetEncoder, w => some ((), { w with encoder := none })
  | .newEncoder kind, w => some ((), { w with encoder := some (.new kind) })
  | .testEncoder, w => some (w.encoder.isSome, w)
  | .loadEncoder, w => w.encoder.map (·, w)
  | .storeEncoder e, w => some ((), { w with encoder := some e })
  | .callback cb, w =>
    w.encoder.map fun e => (Encoder.completes e E w.log cb, w.call E e cb)
  | .attachStream good, w => some ((), { w with streamGood := good })
  | .testStream, w => some (w.streamGood, w)
  | .flush, w => some (w.streamGood && E.stream w.log, w.flushed E)
  | .trace e, w => some ((), w.record e)

end AirSane.ScanJob
