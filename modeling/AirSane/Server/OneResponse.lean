import AirSane.Server.Requests

/-! # One request, one response

A response that has not been sent is sent by whoever answers, and a response
that has been sent is left alone: the pages of the server are not paths of a
scanner, and nothing follows an answer of a scanner.
-/

namespace AirSane.Server
open Text Web

/-- Nothing has been sent, and the transfer-encoding is one that can be. -/
structure Unsent (x : Exchange) : Prop where
  sends : x.sends = 0
  response : ∃ status d, x.response = ⟨[], false, status, d, none⟩ ∧
    encodingOf d ∈ [[], ascii "identity", ascii "chunked"]

/-- One header block has been sent, and then content. -/
structure SentOnce (x : Exchange) : Prop where
  sends : x.sends = 1
  sent : x.response.mSent = true
  block : ∃ status d body, x.response.mStream = headerBlock status d ++ body

/-- No exception, and one response. -/
def Answered (r : Except Exchange Exchange) : Prop := ∃ x, r = .ok x ∧ SentOnce x

/-- No exception, and no response. -/
def Passed (r : Except Exchange Exchange) : Prop := ∃ x, r = .ok x ∧ Unsent x

section
variable {x x' : Exchange} {key v : Octets} {status : ℤ} {c : Call} {ops : List Output}
  {r r' : Response}

theorem unsent_setStatus (status : ℤ) (h : Unsent x) : Unsent (x.setStatus status) := by
  obtain ⟨status', d, hr, hd⟩ := h.response
  exact ⟨h.sends, status, d, by rw [Exchange.setStatus, hr]; rfl, hd⟩

theorem unsent_call (h : Unsent x) : Unsent (x.call c) := ⟨h.sends, h.response⟩

theorem encodingOf_setHeader (hk : ctolower (ctrim key) = key)
    (hne : HTTP_HEADER_TRANSFER_ENCODING ≠ key) :
    encodingOf (r.setHeader key v).mHeaders = encodingOf r.mHeaders := by
  unfold Response.setHeader encodingOf
  dsimp only
  split
  · rw [Dictionary.getString_eraseKey_ne hne]
  · rw [hk, Dictionary.getString_assign_ne hne]

theorem unsent_setHeader (h : Unsent x) (hk : ctolower (ctrim key) = key)
    (hne : HTTP_HEADER_TRANSFER_ENCODING ≠ key) : Unsent (x.setHeader key v) := by
  obtain ⟨status, d, hr, hd⟩ := h.response
  refine ⟨h.sends, status, (x.response.setHeader key v).mHeaders, ?_, ?_⟩
  · simp only [Exchange.setHeader, Response.setHeader, hr]
  · rw [encodingOf_setHeader hk hne, hr]
    exact hd

theorem unsent_chunked (h : Unsent x) :
    Unsent (x.setHeader HTTP_HEADER_TRANSFER_ENCODING (ascii "chunked")) := by
  obtain ⟨status, d, hr, -⟩ := h.response
  have hclean := setHeader_clean (r := x.response) (v := ascii "chunked") key_transferEncoding
    (by decide +kernel) (by decide)
  refine ⟨h.sends, status, d.assign HTTP_HEADER_TRANSFER_ENCODING (ascii "chunked"), ?_, ?_⟩
  · rw [Exchange.setHeader, hclean, hr]
  · rw [encodingOf, Dictionary.getString_assign_self]
    decide +kernel

theorem sendHeaders_sent {d : Dictionary}
    (h : (⟨[], false, status, d, none⟩ : Response).sendHeaders = some r) :
    r.mSent = true ∧ ∃ d', r.mStream = headerBlock status d' := by
  simp only [Response.sendHeaders, setHeader_close, setHeader_nil, Response.deleteChunkstream] at h
  split at h
  · obtain rfl := Option.some.inj h
    exact ⟨rfl, _, rfl⟩
  · split at h
    · obtain rfl := Option.some.inj h
      exact ⟨rfl, _, rfl⟩
    · split at h
      · obtain rfl := Option.some.inj h
        exact ⟨rfl, _, rfl⟩
      · cases h

theorem sentOnce_put {op : Output} (h : SentOnce x) :
    SentOnce { x with response := x.response.put op } := by
  obtain ⟨status, d, body, hs⟩ := h.block
  refine ⟨h.sends, ?_, ?_⟩
  · unfold Response.put
    split <;> exact h.sent
  · unfold Response.put
    split
    · exact ⟨status, d, _, by rw [hs, List.append_assoc]⟩
    · exact ⟨status, d, body, hs⟩
    · exact ⟨status, d, body, hs⟩
    · exact ⟨status, d, _, by rw [hs, List.append_assoc]⟩

theorem sentOnce_puts (ops : List Output) (h : SentOnce x) : SentOnce (x.puts ops) := by
  induction ops generalizing x with
  | nil => exact h
  | cons op ops ih => exact ih (sentOnce_put h)

theorem sentOnce_call (h : SentOnce x) : SentOnce (x.call c) := ⟨h.sends, h.sent, h.block⟩

/-- A response that has not been sent can be. -/
theorem sendHeaders_unsent (h : Unsent x) : ∃ r, x.response.sendHeaders = some r ∧
    SentOnce { x with response := r, sends := x.sends + 1 } := by
  obtain ⟨status, d, hr, hd⟩ := h.response
  obtain ⟨r, hsend⟩ := sendHeaders_isSome status hd
  obtain ⟨hsent, d', hstream⟩ := sendHeaders_sent hsend
  refine ⟨r, by rw [hr, hsend], by rw [h.sends], hsent, status, d', [], ?_⟩
  rw [List.append_nil]
  exact hstream

theorem key_contentDisposition :
    ctolower (ctrim HTTP_HEADER_CONTENT_DISPOSITION) = HTTP_HEADER_CONTENT_DISPOSITION := by
  decide +kernel

theorem key_contentType : ctolower (ctrim HTTP_HEADER_CONTENT_TYPE) = HTTP_HEADER_CONTENT_TYPE := by
  decide +kernel

/-- The headers are sent with some content-length, and content follows. -/
theorem commit_answered (h : Unsent x) (v : Octets) (ops : List Output) :
    Answered (x.commit ((x.response.setHeader HTTP_HEADER_CONTENT_LENGTH v).sendHeaders.map
      fun r => r.puts ops)) := by
  obtain ⟨r, hr, hsent⟩ := sendHeaders_unsent
    (unsent_setHeader (v := v) h key_contentLength (by decide))
  refine ⟨_, ?_, sentOnce_puts ops hsent⟩
  simp only [Exchange.setHeader] at hr
  rw [hr]
  rfl

theorem send_answered (h : Unsent x) : Answered x.send := by
  have hnil : (fun r : Response => r.puts []) = id := rfl
  have hcommit := commit_answered h [] []
  rw [hnil, Option.map_id_fun, id] at hcommit
  exact hcommit

theorem sendWithContent_answered (h : Unsent x) (s : Octets) : Answered (x.sendWithContent s) := by
  unfold Exchange.sendWithContent Response.sendWithContent Response.setHeaderInt
  exact commit_answered h _ [.write s, .flush]

/-- A page is answered by `render`, if not by itself. -/
theorem render_answered {page : Except Exchange (Exchange × Octets)}
    (h : ∃ x html, page = .ok (x, html) ∧ (Unsent x ∨ SentOnce x)) : Answered (render page) := by
  obtain ⟨x, html, rfl, hx | hx⟩ := h
  · have hsent : x.response.mSent = false := by
      obtain ⟨status, d, hr, -⟩ := hx.response
      rw [hr]
    simp only [render, hsent, Bool.false_eq_true, if_false]
    exact sendWithContent_answered (unsent_setHeader hx key_contentType (by decide)) html
  · simp only [render, hx.sent, if_true]
    exact ⟨x, rfl, hx⟩

/-- What is done with an answered response after sending it. -/
theorem answered_bind {f : Exchange → Except Exchange Exchange} {m : Except Exchange Exchange}
    (h : Answered m) (hf : ∀ x, SentOnce x → Answered (f x)) : Answered (m >>= f) := by
  obtain ⟨x, rfl, hx⟩ := h
  exact hf x hx

end

section
variable {ans : Answers} {cfg : Settings} {served : List ScannerEntry} {s : Scanner} {job : Job}
  {x : Exchange} {d : Dictionary} {request : Message} {partialUri : Octets}

theorem scannerPage_ok (h : Unsent x) :
    ∃ x' html, scannerPageOnRender ans s d x = .ok (x', html) ∧ (Unsent x' ∨ SentOnce x') := by
  unfold scannerPageOnRender
  dsimp only
  split
  · cases hjob : ans.createJob s (ans.scanJobTicket s d) false with
    | none => exact ⟨_, _, rfl, .inl (unsent_call h)⟩
    | some job =>
      dsimp only
      split
      · split
        · obtain ⟨x', hx', hsent⟩ := send_answered (unsent_chunked (unsent_setHeader
            (v := job.documentFormat) (unsent_setHeader
              (v := ascii "attachment;filename=\"Scan" ++ fileExtension job.documentFormat ++ ascii "\"")
              (unsent_call (c := .beginTransfer s job.mUuid)
                (unsent_call (c := .createJob s) h))
              key_contentDisposition (by decide))
            key_contentType (by decide)))
          rw [hx']
          exact ⟨_, _, rfl, .inr (sentOnce_call (sentOnce_puts _ hsent))⟩
        · refine ⟨_, _, rfl, .inl (unsent_setHeader ?_ (by decide +kernel) (by decide))⟩
          exact unsent_call (unsent_call h)
      · exact ⟨_, _, rfl, .inl (unsent_call h)⟩
  · exact ⟨_, _, rfl, .inl h⟩

theorem nextDocument_answered (h : Unsent x) : Answered (nextDocument s job x) := by
  unfold nextDocument
  dsimp only
  split
  · exact send_answered (unsent_setStatus _ h)
  · split
    · apply answered_bind
      · apply send_answered
        apply unsent_chunked
        exact unsent_setHeader (unsent_setStatus _ (unsent_call h)) key_contentType (by decide)
      · exact fun x' hx' => ⟨_, rfl, sentOnce_call (sentOnce_puts _ hx')⟩
    · split
      · exact send_answered (unsent_setStatus _ (unsent_call (unsent_call h)))
      · exact send_answered (unsent_setStatus _ (unsent_call h))

theorem handleJobRequest_cases (h : Unsent x) :
    Answered (handleJobRequest ans s partialUri request x) ∨
      Passed (handleJobRequest ans s partialUri request x) := by
  unfold handleJobRequest
  dsimp only
  split
  · exact .inr ⟨x, rfl, h⟩
  · split
    · exact .inr ⟨x, rfl, h⟩
    · split
      · split
        · split
          · exact .inl (send_answered (unsent_setStatus _ (unsent_call h)))
          · exact .inr ⟨_, rfl, unsent_call h⟩
        · exact .inr ⟨x, rfl, h⟩
      · split
        · split
          · exact .inr ⟨_, rfl, unsent_call h⟩
          · exact .inl (nextDocument_answered (unsent_call h))
        · exact .inr ⟨x, rfl, h⟩

theorem handleScannerRequest_cases {entry : ScannerEntry} (h : Unsent x) :
    Answered (handleScannerRequest ans cfg entry partialUri request x) ∨
      Passed (handleScannerRequest ans cfg entry partialUri request x) := by
  unfold handleScannerRequest
  dsimp only
  split
  · left
    apply render_answered
    apply scannerPage_ok
    exact unsent_setHeader (unsent_setStatus _ h) key_contentType (by decide)
  · split
    · left
      split
      · apply answered_bind
        · exact send_answered (unsent_setHeader h key_contentType (by decide))
        · exact fun x' hx' => ⟨_, rfl, sentOnce_puts _ hx'⟩
      · exact send_answered (unsent_setStatus _ h)
    · have hxml : ∀ ops : List Output, Answered
          (((x.setStatus 200).setHeader HTTP_HEADER_CONTENT_TYPE (ascii "text/xml")).send >>=
            fun x => .ok (x.puts ops)) := by
        intro ops
        apply answered_bind
        · exact send_answered (unsent_setHeader (unsent_setStatus _ h) key_contentType (by decide))
        · exact fun x' hx' => ⟨_, rfl, sentOnce_puts _ hx'⟩
      split
      · exact .inl (hxml _)
      · split
        · exact .inl (hxml _)
        · split
          · split
            · left
              apply send_answered
              exact unsent_setHeader (unsent_setStatus _ (unsent_call h)) (by decide +kernel) (by decide)
            · exact handleJobRequest_cases (unsent_call h)
          · exact handleJobRequest_cases h

/-- A page of the server is not the path of a scanner. -/
theorem dispatch_page {h : Hashing} {random : Uuid} (ds : List Device) {uri : Octets}
    (huri : uri = cfg.mBasePath ++ ascii "/" ∨ uri = ascii "/reset") :
    dispatch cfg (discover cfg h random ds).mScanners uri = none := by
  rw [dispatch, Option.map_eq_none_iff, List.find?_eq_none]
  intro e he hbegins
  have hbegins : cfg.mBasePath ++ e.pScanner.mUri <+: uri := by simpa using hbegins
  have hlen := hbegins.length_le
  have hreset : (ascii "/reset").length = 6 := rfl
  rw [List.length_append] at hlen
  rcases served_uri ds he with hfirst | huuid
  · rw [hfirst] at hbegins hlen
    rcases huri with rfl | rfl
    · simp [ascii] at hlen
    · have hinfix := (List.suffix_append cfg.mBasePath (ascii "/eSCL")).isInfix.trans
        hbegins.isInfix
      revert hinfix
      decide
  · obtain ⟨u, hu⟩ := uuids_discover ds (List.mem_map_of_mem he)
    rw [huuid, hu, List.length_append, u.toString_length] at hlen
    rcases huri with rfl | rfl
    · simp only [List.length_append] at hlen
      have hslash : (ascii "/").length = 1 := rfl
      omega
    · omega

theorem serverPages_cases (ans : Answers) (cfg : Settings) (served : List ScannerEntry)
    (uri : Octets) (h : Unsent x) :
    (Answered (serverPages ans cfg served uri x) ∧
        (uri = cfg.mBasePath ++ ascii "/" ∨ uri = ascii "/reset")) ∨
      serverPages ans cfg served uri x = .ok x := by
  have hpage := unsent_setHeader (v := ascii "text/html") (unsent_setStatus 200 h)
    key_contentType (by decide)
  unfold serverPages
  split
  · split
    · rename_i huri
      exact .inl ⟨render_answered ⟨_, _, rfl, .inl hpage⟩, .inl huri⟩
    · split
      · rename_i hreset
        refine .inl ⟨answered_bind (render_answered ⟨_, _, rfl, .inl ?_⟩) ?_, .inr hreset.1⟩
        · exact unsent_setHeader hpage (by decide +kernel) (by decide)
        · exact fun x' hx' => ⟨_, rfl, sentOnce_call hx'⟩
      · exact .inr rfl
  · exact .inr rfl

theorem onRequest_cases (ans : Answers) (cfg : Settings) (h : Hashing) (random : Uuid)
    (ds : List Device) (request : Message) (hx : Unsent x) :
    Answered (onRequest ans cfg (discover cfg h random ds).mScanners request x) ∨
      Passed (onRequest ans cfg (discover cfg h random ds).mScanners request x) := by
  unfold onRequest
  have hpages := serverPages_cases ans cfg (discover cfg h random ds).mScanners request.mUri hx
  rcases hpages with ⟨⟨x', hx', hsent⟩, huri⟩ | hpass
  · left
    rw [hx', dispatch_page ds huri]
    exact ⟨x', rfl, hsent⟩
  · rw [hpass]
    cases hd : dispatch cfg (discover cfg h random ds).mScanners request.mUri with
    | none => exact .inr ⟨x, rfl, hx⟩
    | some e => exact handleScannerRequest_cases hx

end

end AirSane.Server
