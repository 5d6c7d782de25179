import AirSane.ScanJob.World
import AirSane.Server.CapabilitiesDocument

/-! # The status document of a scanner

`Scanner::writeScannerStatusXml`, with the part about each job that
`ScanJob::writeJobInfoXml` writes, and what a client makes of it.
-/

namespace AirSane
open Text Xml ScanJob

/-- The reasons that jobs give for their states. -/
def stateReasons : List String :=
  [PWG_NONE, PWG_RESOURCES_ARE_NOT_READY, PWG_JOB_QUEUED, PWG_JOB_SCANNING,
    PWG_JOB_COMPLETED_SUCCESSFULLY, PWG_JOB_CANCELED_BY_USER, PWG_INVALID_SCAN_TICKET,
    PWG_UNSUPPORTED_DOCUMENT_FORMAT, PWG_DOCUMENT_PERMISSION_ERROR, PWG_ERRORS_DETECTED]

abbrev StateReason := { reason : String // reason ∈ stateReasons }

/-- What a job shows of itself. -/
structure JobRecord where
  mUuid : Uuid
  mCreated : ℤ
  mLastActive : ℤ
  mState : ScanJob.State
  mStateReason : StateReason
  mImagesCompleted : ℤ

namespace JobRecord

/-- `ScanJob::idleSeconds`. -/
def idleSeconds (time : ℤ) (job : JobRecord) : ℤ := time - job.mLastActive

def uri (s : Scanner) (job : JobRecord) : Octets :=
  s.mUri ++ ascii "/ScanJobs/" ++ job.mUuid.toString

/-- `ScanJob::Private::statusString`. -/
def statusString (job : JobRecord) : Octets :=
  ascii <| match job.mState with
    | .aborted => "Aborted"
    | .canceled => "Canceled"
    | .completed => "Completed"
    | .pending => "Pending"
    | .processing => "Processing"

def writeJobInfoXml (s : Scanner) (time : ℤ) (job : JobRecord) : List Piece :=
  block "scan:JobInfo" (leaf "pwg:JobUri" (job.uri s) ++
    leaf "pwg:JobUuid" job.mUuid.toString ++
    leaf "scan:Age" (Web.integer (time - job.mCreated)) ++
    leaf "pwg:JobState" job.statusString ++
    leaf "pwg:ImagesCompleted" (Web.integer job.mImagesCompleted) ++
    block "pwg:JobStateReasons" (leaf "pwg:JobStateReason" (ascii job.mStateReason.1)))

end JobRecord

/-- `Scanner::Private::statusString`. -/
def scannerStatusString (isOpen : Bool) : Octets :=
  ascii (if isOpen then "Processing" else "Idle")

/-- The text that `temporaryAdfStatusString` makes of the status that it resets. -/
def temporaryAdfStatusString : SaneStatus → Octets
  | .good => ascii "ScannerAdfLoaded"
  | .jammed => ascii "ScannerAdfJam"
  | .coverOpen => ascii "ScannerAdfDoorOpen"
  | .noDocs => ascii "ScannerAdfEmpty"
  | _ => []

/-- What the document is written of, beside the jobs. -/
structure ScannerState where
  isOpen : Bool
  hasFeeder : Bool
  mTemporaryAdfStatus : SaneStatus

namespace ScannerState

def writeScannerStatusXml (st : ScannerState) (s : Scanner) (time : ℤ) (jobs : List JobRecord) :
    List Piece :=
  .start "scan:ScannerStatus" (ascii ("xmlns:pwg='http://www.pwg.org/schemas/2010/12/sm'" ++
      " xmlns:scan='http://schemas.hp.com/imaging/escl/2011/05/03'")) ::
    (leaf "pwg:Version" (ascii "2.0") ++ leaf "pwg:State" (scannerStatusString st.isOpen) ++
      (if st.hasFeeder then
        leaf "scan:AdfState" (temporaryAdfStatusString st.mTemporaryAdfStatus) else []) ++
      block "scan:Jobs" (jobs.flatMap (JobRecord.writeJobInfoXml s time)) ++
      [.stop "scan:ScannerStatus"])

/-- Writing the document resets the status of the feeder that it tells. -/
def written (st : ScannerState) : ScannerState :=
  if st.hasFeeder then { st with mTemporaryAdfStatus := .good } else st

def statusDocument (st : ScannerState) (s : Scanner) (time : ℤ) (jobs : List JobRecord) : Octets :=
  xmlDeclaration ++ printXml (st.writeScannerStatusXml s time jobs)

end ScannerState

/-- What a client learns about a job. -/
structure JobInfo where
  jobUri : Octets
  jobUuid : Octets
  age : Octets
  jobState : Octets
  imagesCompleted : Octets
  jobStateReasons : List Octets

structure ScannerStatus where
  version : Octets
  state : Octets
  adfState : Option Octets
  jobs : List JobInfo

def readJobInfo : Reader JobInfo := do
  let jobUri ← valueOf (ascii "pwg:JobUri")
  let jobUuid ← valueOf (ascii "pwg:JobUuid")
  let age ← valueOf (ascii "scan:Age")
  let jobState ← valueOf (ascii "pwg:JobState")
  let imagesCompleted ← valueOf (ascii "pwg:ImagesCompleted")
  let reasons ← one (ascii "pwg:JobStateReasons") fun _ => valuesOf (ascii "pwg:JobStateReason")
  pure ⟨jobUri, jobUuid, age, jobState, imagesCompleted, reasons⟩

def readStatus : Reader ScannerStatus := do
  let version ← valueOf (ascii "pwg:Version")
  let state ← valueOf (ascii "pwg:State")
  let adfState ← Xml.optional (ascii "scan:AdfState") fun _ => value
  let jobs ← one (ascii "scan:Jobs") fun _ => many (ascii "scan:JobInfo") fun _ => readJobInfo
  pure ⟨version, state, adfState, jobs⟩

/-- What a client makes of a document. -/
def statusOf (document : Octets) : Option ScannerStatus :=
  (Xml.parse document).bind fun n =>
    all (one (ascii "scan:ScannerStatus") fun _ => readStatus) [n]

/-- What there is to know about a job. -/
def JobRecord.info (s : Scanner) (time : ℤ) (job : JobRecord) : JobInfo where
  jobUri := job.uri s
  jobUuid := job.mUuid.toString
  age := Web.integer (time - job.mCreated)
  jobState := job.statusString
  imagesCompleted := Web.integer job.mImagesCompleted
  jobStateReasons := [ascii job.mStateReason.1]

def ScannerState.status (st : ScannerState) (s : Scanner) (time : ℤ) (jobs : List JobRecord) :
    ScannerStatus where
  version := ascii "2.0"
  state := scannerStatusString st.isOpen
  adfState := if st.hasFeeder then some (temporaryAdfStatusString st.mTemporaryAdfStatus) else none
  jobs := jobs.map (JobRecord.info s time)

section
variable {s : Scanner} {time : ℤ} {job : JobRecord} {jobs : List JobRecord} {st : ScannerState}

theorem token_stateReason (r : StateReason) : Token (ascii r.1) := by
  have hall : ∀ r ∈ stateReasons, Token (ascii r) := by decide +kernel
  exact hall r.1 r.2

theorem JobRecord.token_statusString : Token job.statusString := by
  unfold statusString
  cases job.mState <;> decide +kernel

theorem JobRecord.token_uri (hs : Xml.Plain s.mUri) : Token (job.uri s) := by
  have hdir : Xml.Plain (ascii "/ScanJobs/") := by decide
  have huuid := job.mUuid.token_toString
  obtain ⟨b, hb, hwhite⟩ := List.all_eq_false.1 huuid.shown
  refine ⟨fun c hc => ?_, List.all_eq_false.2 ⟨b, List.mem_append_right _ hb, hwhite⟩⟩
  rcases List.mem_append.1 hc with hc | hc
  · exact (List.mem_append.1 hc).elim (hs c) (hdir c)
  · exact huuid.plain c hc

theorem JobRecord.single_writeJobInfoXml (hs : Xml.Plain s.mUri) :
    Single (job.writeJobInfoXml s time) "scan:JobInfo" (fun _ => readJobInfo)
      (job.info s time) := by
  have hreasons : Written (leaf "pwg:JobStateReason" (ascii job.mStateReason.1))
      (valuesOf (ascii "pwg:JobStateReason")) [ascii job.mStateReason.1] :=
    written_values (l := [ascii job.mStateReason.1]) (by decide)
      (List.forall_mem_singleton.2 (token_stateReason _))
  rw [writeJobInfoXml, ← List.append_nil (block "pwg:JobStateReasons" _)]
  refine Written.single ?_ (by decide)
  simp only [List.append_assoc]
  refine ((token_uri hs).leaf (by decide)).one ?_
  refine (job.mUuid.token_toString.leaf (by decide)).one ?_
  refine (token_integer.leaf (by decide)).one ?_
  refine (token_statusString.leaf (by decide)).one ?_
  refine (token_integer.leaf (by decide)).one ?_
  exact (hreasons.single (by decide)).one .nil

/-- An element without text. -/
theorem single_leaf_nil {name : String} (hn : Name (ascii name)) :
    Single (leaf name []) name (fun _ => value) [] :=
  ⟨[], [], .leaf hn .nil, rfl⟩

theorem single_adfState : Single
    (leaf "scan:AdfState" (temporaryAdfStatusString st.mTemporaryAdfStatus)) "scan:AdfState"
      (fun _ => value) (temporaryAdfStatusString st.mTemporaryAdfStatus) := by
  have htoken {s : Octets} (h : Token s) : Single (leaf "scan:AdfState" s) "scan:AdfState"
      (fun _ => value) s := h.leaf (by decide)
  cases st.mTemporaryAdfStatus with
  | good | jammed | coverOpen | noDocs => exact htoken (by decide)
  | _ => exact single_leaf_nil (by decide)

/-- A client that reads the status document of a scanner finds the jobs that it was
written of, in their order. -/
theorem ScannerState.statusOf_statusDocument (hs : Xml.Plain s.mUri) :
    statusOf (st.statusDocument s time jobs) = some (st.status s time jobs) := by
  have hversion : Token (ascii "2.0") := by decide
  have hstate : Token (scannerStatusString st.isOpen) := by
    cases st.isOpen <;> decide
  have hjobs : Single (block "scan:Jobs" (jobs.flatMap (JobRecord.writeJobInfoXml s time)))
      "scan:Jobs" (fun _ => many (ascii "scan:JobInfo") fun _ => readJobInfo)
      (jobs.map (JobRecord.info s time)) :=
    Written.single (Single.many fun job _ => job.single_writeJobInfoXml hs) (by decide)
  have hdocument : Single (st.writeScannerStatusXml s time jobs) "scan:ScannerStatus"
      (fun _ => readStatus) (st.status s time jobs) := by
    rw [writeScannerStatusXml, ← List.append_nil (block "scan:Jobs" _)]
    refine Written.element (l := [(ascii "xmlns:pwg",
      ascii "http://www.pwg.org/schemas/2010/12/sm"),
      (ascii "xmlns:scan", ascii "http://schemas.hp.com/imaging/escl/2011/05/03")])
      ?_ (by decide) (by decide +kernel) (by decide +kernel) (by decide)
    simp only [List.append_assoc]
    refine (hversion.leaf (by decide)).one ?_
    refine (hstate.leaf (by decide)).one ?_
    refine Written.optionally _ (fun a ha => ?_) (fun h => ?_) (hjobs.one .nil)
      (by rintro _ ⟨⟩; decide)
    · split_ifs at ha ⊢
      · obtain rfl := Option.some.inj ha
        exact single_adfState
      · cases ha
    · split_ifs at h ⊢
      rfl
  exact hdocument.document

end
end AirSane
