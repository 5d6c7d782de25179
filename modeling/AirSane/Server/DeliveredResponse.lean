import AirSane.Basic.FdbufOutput
import AirSane.ScanJob.DeliveredDocument
import AirSane.Server.OneResponse
import AirSane.Server.StableNames

/-! # What a client receives

A request for the next document of a job, from the router to the socket: the transfer
writes its document in chunks, the stream buffer puts them on the connection, and what
the client reads there are the pages that the backend has delivered.
-/

namespace AirSane
open Text Web

namespace PdfWriter
variable {ctx : PdfContext} {w w' : PdfWriter}

/-- What an event does to the stream that the document is written to. -/
def outputOf (w w' : PdfWriter) (e : ScanJob.Event) : List Output :=
  .write (w'.pdf.os.content.drop w.pdf.os.content.length) ::
    match e with
    | .flush _ => [.flush]
    | _ => []

/-- What the events of a transfer do to it. -/
def outputs (ctx : PdfContext) (w : PdfWriter) : ScanJob.Log → List Output
  | [] => []
  | e :: log => (w.event ctx e).elim [] fun w' => w.outputOf w' e ++ outputs ctx w' log

end PdfWriter

section
variable {ctx : PdfContext} {w w' : PdfWriter} {p p' : PdfEncoder} {e : Encoder} {cb : Callback}

theorem prefix_emits (p : PdfEncoder) (ps : List Text.Piece) :
    p.os.content <+: (p.emits ps).os.content := by
  induction ps generalizing p with
  | nil => exact List.prefix_rfl
  | cons x ps ih =>
    refine List.IsPrefix.trans ?_ (ih (p.emit x))
    cases x <;> simp [PdfEncoder.emit]

/-- The encoder only appends to its stream. -/
theorem prefix_call (h : p.call ctx e cb = some p') : p.os.content <+: p'.os.content := by
  cases cb with
  | onDocumentBegin =>
    simp only [PdfEncoder.call, PdfEncoder.onDocumentBegin] at h
    split_ifs at h
    cases h
    simp
  | onImageBegin | onImageEnd =>
    cases h
    exact prefix_emits p _
  | onWriteLine line =>
    cases h
    exact prefix_emits p [.text (lineBytes e p.mLineBuffer line)]
  | onDocumentEnd =>
    cases h
    simp only [PdfEncoder.onDocumentEnd, Destination.content_write]
    exact (prefix_emits p _).trans (List.prefix_append _ _)

theorem prefix_event {ev : ScanJob.Event} (h : w.event ctx ev = some w') :
    w.pdf.os.content <+: w'.pdf.os.content := by
  cases ev with
  | callback cb b =>
    cases b with
    | true =>
      obtain ⟨p, hp, rfl⟩ := Option.map_eq_some_iff.1 h
      exact prefix_call hp
    | false => cases h
  | flush b =>
    cases b with
    | true =>
      cases h
      simp
    | false =>
      cases h
      exact List.prefix_rfl
  | _ =>
    cases h
    exact List.prefix_rfl

theorem payload_outputOf {ev : ScanJob.Event} (h : w.event ctx ev = some w') :
    w.pdf.os.content ++ payload (w.outputOf w' ev) = w'.pdf.os.content := by
  obtain ⟨s, hs⟩ := prefix_event h
  rw [← hs]
  cases ev <;> simp [PdfWriter.outputOf, payload, ← hs]

theorem payload_append (a b : List Output) : payload (a ++ b) = payload a ++ payload b := by
  simp [payload]

/-- All that is written to the stream, in its order. -/
theorem payload_outputs {log : ScanJob.Log} (h : w.replay ctx log = some w') :
    w.pdf.os.content ++ payload (w.outputs ctx log) = w'.pdf.os.content := by
  induction log generalizing w with
  | nil =>
    obtain rfl : w = w' := Option.some.inj h
    exact List.append_nil _
  | cons ev log ih =>
    rw [PdfWriter.replay, List.foldlM_cons, Option.bind_eq_bind, Option.bind_eq_some_iff] at h
    obtain ⟨x, hx, h⟩ := h
    rw [PdfWriter.outputs, hx, Option.elim, payload_append, ← List.append_assoc,
      payload_outputOf hx]
    exact ih h

end

namespace Server
open ScanJob (Readable firstPage firstTransfer)

/-- The headers in front of a PDF document. -/
def documentHeaders : Dictionary :=
  [(HTTP_HEADER_CONTENT_TYPE, ascii MIME_TYPE_PDF),
    (HTTP_HEADER_TRANSFER_ENCODING, ascii "chunked"), (HTTP_HEADER_CONNECTION, ascii "close")]

/-- The response of a document before it is sent. -/
def documentResponse : Response :=
  .prepared 200 [(HTTP_HEADER_CONTENT_TYPE, ascii MIME_TYPE_PDF),
    (HTTP_HEADER_TRANSFER_ENCODING, ascii "chunked")]

/-- The header block of a document, and the buffer for its chunks. -/
theorem send_documentResponse : ∃ r, documentResponse.send = some r ∧
    r.mStream = headerBlock 200 documentHeaders ∧ r.mpChunkstream = some ⟨0, []⟩ ∧
    r.mSent = true := by
  have hsend : (documentResponse.send.map fun r => (r.mHeaders, r.mSent)) =
      some (documentHeaders, true) := by
    decide +kernel
  obtain ⟨r, hr, heq⟩ := Option.map_eq_some_iff.1 hsend
  obtain ⟨hheaders, hsent⟩ := Prod.mk.inj heq
  have hprepared := prepared_eq 200 [(HTTP_HEADER_CONTENT_TYPE, ascii MIME_TYPE_PDF),
    (HTTP_HEADER_TRANSFER_ENCODING, ascii "chunked")]
  have hnormal := normal_prepared 200 [(HTTP_HEADER_CONTENT_TYPE, ascii MIME_TYPE_PDF),
    (HTTP_HEADER_TRANSFER_ENCODING, ascii "chunked")]
  have hnormal' := normal_setHeader HTTP_HEADER_CONTENT_LENGTH [] hnormal
  have hchunked : encodingOf (documentResponse.setHeader HTTP_HEADER_CONTENT_LENGTH []).mHeaders =
      ascii "chunked" := by
    decide +kernel
  have hr' : (⟨[], false, 200, (documentResponse.setHeader HTTP_HEADER_CONTENT_LENGTH []).mHeaders,
      none⟩ : Response).sendHeaders = some r := by
    rw [← hr, Response.send, documentResponse, hprepared]
    rfl
  obtain ⟨-, hstream, hcase⟩ := sendHeaders_spec hnormal' hr'
  rcases hcase with ⟨-, hbuf, -, -⟩ | ⟨hno, -⟩
  · exact ⟨r, hr, by rw [hstream, hheaders], hbuf, hsent⟩
  · exact absurd hchunked hno

/-- What is written to a response leaves it sent. -/
theorem mSent_puts (r : Response) (ops : List Output) : (r.puts ops).mSent = r.mSent := by
  induction ops generalizing r with
  | nil => rfl
  | cons op ops ih =>
    refine (ih (r.put op)).trans ?_
    unfold Response.put
    split <;> rfl

section
variable {ans : Answers} {cfg : Settings} {served : List ScannerEntry} {request : Message}
  {entry : ScannerEntry} {job : Job} {s : Scanner} {uuid : Octets} {x : Exchange}

/-- The chunks of a document that a pending job has begun. -/
theorem nextDocument_document (hx : x.response = .new) (hf : job.isFinished = false)
    (hb : job.beginTransfer = true) (hformat : job.documentFormat = ascii MIME_TYPE_PDF) :
    ∃ (y : Exchange) (pieces : List Octets), nextDocument s job x = .ok y ∧
      y.response.mSent = true ∧ y.sends = x.sends + 1 ∧
      y.calls = x.calls ++ [.beginTransfer s job.mUuid, .finishTransfer s job.mUuid] ∧
      (∀ p ∈ pieces, p ≠ []) ∧ pieces.flatten = payload job.finishTransfer ∧
      y.response.destroy = headerBlock 200 documentHeaders ++ encodeChunks pieces := by
  obtain ⟨r, hr, hstream, hbuf, hsent⟩ := send_documentResponse
  obtain ⟨pieces, hne, hflat, hdestroy⟩ := destroy_puts_some hbuf job.finishTransfer
  have hresponse : ((((x.call (.beginTransfer s job.mUuid)).setStatus 200).setHeader
      HTTP_HEADER_CONTENT_TYPE job.documentFormat).setHeader HTTP_HEADER_TRANSFER_ENCODING
        (ascii "chunked")).response = documentResponse := by
    simp only [Exchange.setHeader, Exchange.setStatus, Exchange.call, hx, hformat]
    rfl
  have hsend : ((((x.call (.beginTransfer s job.mUuid)).setStatus 200).setHeader
      HTTP_HEADER_CONTENT_TYPE job.documentFormat).setHeader HTTP_HEADER_TRANSFER_ENCODING
        (ascii "chunked")).send =
      .ok ⟨r, x.sends + 1, x.calls ++ [.beginTransfer s job.mUuid]⟩ := by
    rw [Exchange.send, hresponse, hr]
    rfl
  refine ⟨((⟨r, x.sends + 1, x.calls ++ [.beginTransfer s job.mUuid]⟩ : Exchange).puts
    job.finishTransfer).call (.finishTransfer s job.mUuid), pieces, ?_, ?_, rfl, ?_, hne, hflat, ?_⟩
  · simp only [nextDocument, hf, hb, hsend]
    rfl
  · exact (mSent_puts _ _).trans hsent
  · simp
  · exact hdestroy.trans (by rw [hstream])

/-- The path of a job's next document, below its scanner. -/
def nextDocumentPath (uuid : Octets) : Octets :=
  ScanJobsDir ++ 47 :: (uuid ++ ascii "/NextDocument")

theorem handleJobRequest_nextDocument (huuid : 47 ∉ uuid) (hget : request.mMethod = HTTP_GET)
    (hjob : ans.getJob s uuid = some job) :
    handleJobRequest ans s (nextDocumentPath uuid) request x =
      nextDocument s job (x.call (.getJob s uuid)) := by
  have hrest : ∀ b ∈ uuid, decide (b ≠ 47) = true := fun b hb => by
    simpa using fun h : b = 47 => huuid (h ▸ hb)
  have hslash : ascii "/NextDocument" = 47 :: ascii "NextDocument" := by decide +kernel
  have hdrop : (uuid ++ ascii "/NextDocument").dropWhile (· ≠ 47) = ascii "/NextDocument" := by
    rw [List.dropWhile_append_of_pos hrest, hslash]
    rfl
  have htake : (uuid ++ ascii "/NextDocument").takeWhile (· ≠ 47) = uuid := by
    rw [List.takeWhile_append_of_pos hrest, hslash, List.takeWhile_cons_of_neg (by simp),
      List.append_nil]
  have hmem : 47 ∈ uuid ++ ascii "/NextDocument" := by simp [hslash]
  rw [handleJobRequest, nextDocumentPath, if_neg (not_not.2 (List.prefix_append _ _)),
    List.drop_left]
  simp only [List.head?_cons, List.drop_one, List.tail_cons, ne_eq, not_true_eq_false, if_false,
    hmem, hdrop, htake, hget, hjob, and_self, if_true]

/-- No other path of a scanner is that of a next document. -/
theorem handleScannerRequest_nextDocument (cfg : Settings) :
    handleScannerRequest ans cfg entry (nextDocumentPath uuid) request x =
      handleJobRequest ans entry.pScanner (nextDocumentPath uuid) request x := by
  have hlong : 23 ≤ (nextDocumentPath uuid).length := by
    simp only [nextDocumentPath, List.length_append, List.length_cons]
    have hdir : ScanJobsDir.length = 9 := by decide +kernel
    have hname : (ascii "/NextDocument").length = 13 := by decide +kernel
    omega
  have hne (t : Octets) (ht : t.length < 23) : nextDocumentPath uuid ≠ t := by
    rintro rfl
    omega
  have hcapabilities : nextDocumentPath uuid ≠ ascii "/ScannerCapabilities" :=
    hne _ (by decide +kernel)
  have hstatus : nextDocumentPath uuid ≠ ascii "/ScannerStatus" := hne _ (by decide +kernel)
  have hicon : nextDocumentPath uuid ≠ ascii "/ScannerIcon" := hne _ (by decide +kernel)
  have hdir : nextDocumentPath uuid ≠ ScanJobsDir := hne _ (by decide +kernel)
  have hnil : nextDocumentPath uuid ≠ [] := hne _ (by decide)
  have hroot : nextDocumentPath uuid ≠ ascii "/" := hne _ (by decide +kernel)
  simp only [handleScannerRequest, hcapabilities, hstatus, hicon, hdir, hnil, hroot, or_self,
    false_and, if_false]

/-- A path below a scanner is not a page of the server. -/
theorem serverPages_dispatch {path : Octets}
    (hd : dispatch cfg served request.mUri = some (entry, path)) (hlong : 6 < path.length) :
    serverPages ans cfg served request.mUri x = .ok x := by
  obtain ⟨e, he, heq⟩ := Option.map_eq_some_iff.1 hd
  obtain ⟨rfl, rfl⟩ := Prod.mk.inj heq
  have hprefix : cfg.mBasePath ++ e.pScanner.mUri <+: request.mUri := by
    simpa using List.find?_some he
  rw [List.length_drop, List.length_append] at hlong
  have hne (t : Octets) (ht : t.length ≤ cfg.mBasePath.length + 6) : request.mUri ≠ t := by
    rintro h
    rw [h] at hlong
    omega
  have hmain : request.mUri ≠ cfg.mBasePath ++ ascii "/" := by
    apply hne
    have hroot : (ascii "/").length = 1 := rfl
    rw [List.length_append]
    omega
  have hreset : request.mUri ≠ ascii "/reset" := by
    apply hne
    have hlen : (ascii "/reset").length = 6 := rfl
    omega
  simp only [serverPages, hmain, hreset, false_and, if_false, ite_self]

/-- A request for the next document of a pending job is answered by the document. -/
theorem handleRequest_nextDocument (hvalid : request.mValid = true)
    (hget : request.mMethod = HTTP_GET) (huuid : 47 ∉ uuid)
    (hd : dispatch cfg served request.mUri = some (entry, nextDocumentPath uuid))
    (hjob : ans.getJob entry.pScanner uuid = some job) (hf : job.isFinished = false)
    (hb : job.beginTransfer = true) (hformat : job.documentFormat = ascii MIME_TYPE_PDF) :
    ∃ (y : Exchange) (pieces : List Octets), handleRequest ans cfg served request = .ok y ∧
      y.sends = 1 ∧
      y.calls = [.getJob entry.pScanner uuid, .beginTransfer entry.pScanner job.mUuid,
        .finishTransfer entry.pScanner job.mUuid] ∧
      (∀ p ∈ pieces, p ≠ []) ∧ pieces.flatten = payload job.finishTransfer ∧
      y.response.destroy = headerBlock 200 documentHeaders ++ encodeChunks pieces := by
  obtain ⟨y, pieces, hnext, hsent, hsends, hcalls, hne, hflat, hdestroy⟩ :=
    nextDocument_document (s := entry.pScanner)
      (x := (⟨.new, 0, []⟩ : Exchange).call (.getJob entry.pScanner uuid)) rfl hf hb hformat
  have hlong : 6 < (nextDocumentPath uuid).length := by
    simp only [nextDocumentPath, List.length_append, List.length_cons]
    have hdir : ScanJobsDir.length = 9 := by decide +kernel
    omega
  have honRequest : onRequest ans cfg served request ⟨.new, 0, []⟩ = .ok y := by
    have hpages : serverPages ans cfg served request.mUri ⟨.new, 0, []⟩ = .ok ⟨.new, 0, []⟩ :=
      serverPages_dispatch hd hlong
    have hscanner := (handleScannerRequest_nextDocument cfg).trans
      ((handleJobRequest_nextDocument huuid hget hjob).trans hnext)
    rw [onRequest, hpages]
    simp only [hd, Except.bind, bind, hscanner]
  refine ⟨y, pieces, ?_, hsends, hcalls, hne, hflat, hdestroy⟩
  simp only [handleRequest, hvalid, honRequest, Except.bind, bind, hsent, Bool.not_true,
    Bool.false_eq_true, if_false, if_true]

end

/-- A job whose operations come to what they do in the model of a job: it is `w₀` when the
request comes, `w` after `beginTransfer` and `w'` after `finishTransfer`. -/
structure Performs (E : ScanJob.Environment) (ctx : PdfContext) (s : ScanJob.Settings)
    (p : PdfEncoder) (w₀ w w' : ScanJob.World) (job : Job) : Prop where
  isFinished : job.isFinished = w₀.state.isFinished
  documentFormat : job.documentFormat = ascii s.documentFormat
  beginTransfer : ∃ fuel, (ScanJob.beginTransfer s fuel).run (ScanJob.exec E) w₀ =
    (.ok job.beginTransfer, w)
  finishTransfer : ∃ fuel good, (ScanJob.finishTransfer s fuel good).run (ScanJob.exec E) w =
    (.ok (), w')
  output : job.finishTransfer = (ScanJob.pdfWriter s p w).outputs ctx (w'.eventsSince w)

section
variable {E : ScanJob.Environment} {ctx : PdfContext} {s : ScanJob.Settings} {p : PdfEncoder}
  {w₀ w w' : ScanJob.World} {job : Job}

/-- The document that a job writes is read back as the lines of the backend. -/
theorem Performs.readPages (h : Performs E ctx s p w₀ w w' job) (hread : Readable ctx s w w') :
    ∃ images : List (List Octets),
      (∀ lines ∈ images, (lines.length : ℤ) = w.frame.lines) ∧
      images.flatten = (ScanJob.delivered (w'.eventsSince w)).map s.processed ∧
      Pdf.readPages (payload job.finishTransfer) =
        some (images.map (pageOf ctx (s.setUp .pdf w.frame))) := by
  obtain ⟨fuel, good, hrun⟩ := h.finishTransfer
  obtain ⟨x, images, hreplay, hbetween, hcount, hfull, hflat⟩ :=
    ScanJob.finishTransfer_between p hrun hread
  obtain ⟨bytes, hcontent, hpages, -⟩ := hbetween.readPages hcount hread.scans hread.measures
    hread.bits hread.bytes hfull (hread.long hflat)
  have hpayload : payload job.finishTransfer = bytes := by
    rw [h.output]
    exact List.append_cancel_left ((payload_outputs hreplay).trans hcontent)
  exact ⟨images, hfull, hflat, hpayload ▸ hpages⟩

end

/-- A server with one scanner at `/eSCL`, and one job. -/
def Answers.of (job : Job) : Answers where
  iconFile _ := none
  scannerCapabilitiesXml _ := []
  scannerStatusXml _ := []
  createJob _ _ _ := none
  cancelJob _ _ := false
  getJob _ uuid := if uuid = job.mUuid then some job else none
  scanJobTicket _ _ := []
  mainPage _ := []
  resetPage := []
  refresh := []
  scannerPage _ _ _ _ := []
  errorPage _ _ := []

def compatibleEntry : ScannerEntry :=
  announcedEntry .standard { Scanner.blank with mUri := ascii "/eSCL" } []

/-- The job of two lines of one gray pixel. -/
def Job.gray : Job :=
  let E := ScanJob.Environment.scripted .gray [.good] [(.good, [1]), (.good, [2])]
  let s := ScanJob.Settings.gray .single MIME_TYPE_PDF
  { mUuid := ascii "1"
    isFinished := false
    beginTransfer := true
    adfStatus := .good
    documentFormat := ascii MIME_TYPE_PDF
    finishTransfer := (ScanJob.pdfWriter s .titled (firstPage E s)).outputs .standard
      ((firstTransfer E s).2.eventsSince (firstPage E s))
    statusString := []
    statusReason := [] }

def Message.nextDocument (uuid : Octets) : Message where
  mValid := true
  mMethod := HTTP_GET
  mUri := ascii "/eSCL" ++ nextDocumentPath uuid
  mProtocol := ascii "HTTP/1.1"
  mHeaders := []
  rest := []
  content := []
  formData := []

theorem performs_gray :
    let E := ScanJob.Environment.scripted .gray [.good] [(.good, [1]), (.good, [2])]
    let s := ScanJob.Settings.gray .single MIME_TYPE_PDF
    Performs E .standard s .titled (.initial true) (firstPage E s) (firstTransfer E s).2 .gray where
  isFinished := by decide +kernel
  documentFormat := rfl
  beginTransfer := ⟨9, ScanJob.run_firstPage (by decide +kernel)⟩
  finishTransfer := ⟨9, true, ScanJob.run_firstTransfer (by decide +kernel)⟩
  output := rfl

end Server
end AirSane
