import AirSane.Web.Response

/-! # Header blocks and bodies

What `setHeader` lets into the header dictionary keeps the header block in
lines, and what `sendHeaders` makes of it decides how the body is delimited.
-/

namespace AirSane.Web
open Text

/-- What `setHeader` keeps: unique keys, and no white space nor empty values. -/
structure Normal (d : Dictionary) : Prop where
  nodup : d.keys.Nodup
  clean : ∀ h ∈ d, (∀ b ∈ h.1, isspace b = false) ∧ (∀ b ∈ h.2, isspace b = false)
  full : ∀ h ∈ d, h.2 ≠ []

theorem ctrim_not_space {s : Octets} {b : UInt8} (h : b ∈ ctrim s) : isspace b = false := by
  simpa using (List.mem_filter.1 h).2

theorem ctolower_not_space {s : Octets} (h : ∀ b ∈ s, isspace b = false) :
    ∀ b ∈ ctolower s, isspace b = false := by
  intro b hb
  obtain ⟨a, ha, rfl⟩ := List.mem_map.1 hb
  rw [isspace_toLower]
  exact h a ha

theorem normal_setHeader {r : Response} (key v : Octets) (h : Normal r.mHeaders) :
    Normal (r.setHeader key v).mHeaders := by
  unfold Response.setHeader
  split
  · refine ⟨Dictionary.nodup_eraseKey h.nodup, fun e he => ?_, fun e he => ?_⟩
    · exact h.clean e (Dictionary.mem_of_mem_eraseKey he)
    · exact h.full e (Dictionary.mem_of_mem_eraseKey he)
  · rename_i hv
    refine ⟨Dictionary.nodup_assign h.nodup, fun e he => ?_, fun e he => ?_⟩
    · rcases Dictionary.mem_assign he with he | rfl
      · exact h.clean e he
      · exact ⟨ctolower_not_space fun b => ctrim_not_space, fun b => ctrim_not_space⟩
    · rcases Dictionary.mem_assign he with he | rfl
      · exact h.full e he
      · exact hv

theorem printed_eq {d : Dictionary} (h : Normal d) : printed d = d := by
  apply List.filter_eq_self.2
  intro e he
  simpa using h.full e he

theorem normal_prepared (status : ℤ) (calls : List (Octets × Octets)) :
    Normal (Response.prepared status calls).mHeaders := by
  have hfold : ∀ r : Response, Normal r.mHeaders →
      Normal (calls.foldl (fun r c => r.setHeader c.1 c.2) r).mHeaders := by
    induction calls with
    | nil => exact fun r h => h
    | cons c calls ih => exact fun r h => ih _ (normal_setHeader _ _ h)
  apply hfold
  exact ⟨List.nodup_nil, by simp [Response.new, Response.setStatus],
    by simp [Response.new, Response.setStatus]⟩

/-- A response that has not been sent. -/
theorem prepared_eq (status : ℤ) (calls : List (Octets × Octets)) :
    Response.prepared status calls =
      ⟨[], false, status, (Response.prepared status calls).mHeaders, none⟩ := by
  have hfold : ∀ d, ∃ d', calls.foldl (fun r c => r.setHeader c.1 c.2)
      (⟨[], false, status, d, none⟩ : Response) = ⟨[], false, status, d', none⟩ := by
    induction calls with
    | nil => exact fun d => ⟨d, rfl⟩
    | cons c calls ih => exact fun d => ih _
  obtain ⟨d, hd⟩ := hfold []
  rw [Response.prepared, Response.new, Response.setStatus, hd]

section
variable {r r' : Response} {key v : Octets}

@[simp] theorem setHeader_nil :
    r.setHeader key [] = { r with mHeaders := r.mHeaders.eraseKey key } := rfl

theorem setHeader_clean (hk : ctolower (ctrim key) = key) (hv : ctrim v = v) (hne : v ≠ []) :
    r.setHeader key v = { r with mHeaders := r.mHeaders.assign key v } := by
  rw [Response.setHeader, hk, hv, if_neg hne]

@[simp] theorem key_contentLength :
    ctolower (ctrim HTTP_HEADER_CONTENT_LENGTH) = HTTP_HEADER_CONTENT_LENGTH := by decide +kernel

@[simp] theorem key_connection :
    ctolower (ctrim HTTP_HEADER_CONNECTION) = HTTP_HEADER_CONNECTION := by decide +kernel

@[simp] theorem key_transferEncoding :
    ctolower (ctrim HTTP_HEADER_TRANSFER_ENCODING) = HTTP_HEADER_TRANSFER_ENCODING := by
  decide +kernel

theorem setHeader_close : r.setHeader HTTP_HEADER_CONNECTION (ascii "close") =
    { r with mHeaders := r.mHeaders.assign HTTP_HEADER_CONNECTION (ascii "close") } :=
  setHeader_clean key_connection (by decide +kernel) (by decide)

end

/-- The value of transfer-encoding in lower case. -/
def encodingOf (d : Dictionary) : Octets := ctolower (d.getString HTTP_HEADER_TRANSFER_ENCODING)

/-- What `sendHeaders` does to a response that has not been sent: the body is
in chunks and there is no content-length, or there is no transfer-encoding. -/
theorem sendHeaders_spec {status : ℤ} {d : Dictionary} {r : Response} (hd : Normal d)
    (h : (⟨[], false, status, d, none⟩ : Response).sendHeaders = some r) :
    Normal r.mHeaders ∧ r.mStream = headerBlock status r.mHeaders ∧
      ((encodingOf d = ascii "chunked" ∧ r.mpChunkstream = some ⟨0, []⟩ ∧
          HTTP_HEADER_CONTENT_LENGTH ∉ r.mHeaders.keys ∧ encodingOf r.mHeaders = ascii "chunked") ∨
        (encodingOf d ≠ ascii "chunked" ∧ r.mpChunkstream = none ∧
          HTTP_HEADER_TRANSFER_ENCODING ∉ r.mHeaders.keys ∧
          r.mHeaders.getString HTTP_HEADER_CONTENT_LENGTH =
            d.getString HTTP_HEADER_CONTENT_LENGTH)) := by
  have hclose := normal_setHeader (r := ⟨[], false, status, d, none⟩) HTTP_HEADER_CONNECTION
    (ascii "close") hd
  rw [setHeader_close] at hclose
  have hte : Dictionary.getString (d.assign HTTP_HEADER_CONNECTION (ascii "close"))
      HTTP_HEADER_TRANSFER_ENCODING = d.getString HTTP_HEADER_TRANSFER_ENCODING :=
    Dictionary.getString_assign_ne (by decide)
  have hcl : Dictionary.getString (d.assign HTTP_HEADER_CONNECTION (ascii "close"))
      HTTP_HEADER_CONTENT_LENGTH = d.getString HTTP_HEADER_CONTENT_LENGTH :=
    Dictionary.getString_assign_ne (by decide)
  simp only [Response.sendHeaders, setHeader_close, Response.header, key_transferEncoding, hte,
    setHeader_nil, Response.deleteChunkstream] at h
  have henc : ctolower (d.getString HTTP_HEADER_TRANSFER_ENCODING) = encodingOf d := rfl
  rw [henc] at h
  split at h
  · rename_i hid
    obtain rfl := Option.some.inj h
    have hne : encodingOf d ≠ ascii "chunked" := by
      rw [hid]
      decide
    refine ⟨normal_setHeader HTTP_HEADER_TRANSFER_ENCODING [] hclose, rfl,
      .inr ⟨hne, rfl, Dictionary.not_mem_eraseKey hclose.nodup, ?_⟩⟩
    rw [← hcl]
    exact Dictionary.getString_eraseKey_ne (by decide)
  · split at h
    · rename_i hch
      obtain rfl := Option.some.inj h
      refine ⟨normal_setHeader HTTP_HEADER_CONTENT_LENGTH [] hclose, rfl,
        .inl ⟨hch, rfl, Dictionary.not_mem_eraseKey hclose.nodup, ?_⟩⟩
      rw [← hch, encodingOf, encodingOf, ← hte]
      exact congrArg ctolower (Dictionary.getString_eraseKey_ne (by decide))
    · split at h
      · rename_i hne hnil
        obtain rfl := Option.some.inj h
        refine ⟨hclose, rfl, .inr ⟨hne, rfl, fun hm => ?_, hcl⟩⟩
        apply hclose.full _ (Dictionary.mem_getString hm)
        rw [hte]
        exact List.map_eq_nil_iff.1 hnil
      · cases h

/-- A stream that is written to and then destroyed. -/
def Response.puts (r : Response) (ops : List Output) : Response := ops.foldl .put r

theorem destroy_puts_none {r : Response} (hr : r.mpChunkstream = none) (ops : List Output) :
    (r.puts ops).destroy = r.mStream ++ payload ops := by
  induction ops generalizing r with
  | nil => simp [Response.puts, Response.destroy, Response.deleteChunkstream, hr, payload]
  | cons op ops ih =>
    cases op with
    | write s =>
      have hput : r.put (.write s) = { r with mStream := r.mStream ++ s } := by
        simp [Response.put, hr]
      have htail := ih (r := r.put (.write s)) (by rw [hput]; exact hr)
      rw [hput] at htail
      simpa [Response.puts, hput, payload] using htail
    | flush =>
      have hput : r.put .flush = r := by simp [Response.put, hr]
      simpa [Response.puts, hput, payload] using ih hr

/-- The chunk that a flush sends, if it sends one. -/
def flushed (s : Octets) : List Octets := if s = [] then [] else [s]

theorem flushed_flatten (s : Octets) : (flushed s).flatten = s := by
  by_cases hs : s = [] <;> simp [flushed, hs]

theorem flushed_ne_nil {s p : Octets} (hp : p ∈ flushed s) : p ≠ [] := by
  by_cases hs : s = []
  · simp [flushed, hs] at hp
  · simp only [flushed, hs, if_false, List.mem_singleton] at hp
    rwa [hp]

theorem synced_eq (b : Chunkbuf) : b.synced = ((flushed b.str).map chunk).flatten := by
  by_cases hs : b.str = [] <;> simp [Chunkbuf.synced, flushed, hs, chunk]

/-- Whatever the flushes, the chunks are not empty and hold what was written. -/
theorem destroy_puts_some {r : Response} {b : Chunkbuf} (hr : r.mpChunkstream = some b)
    (ops : List Output) :
    ∃ pieces : List Octets, (∀ p ∈ pieces, p ≠ []) ∧ pieces.flatten = b.str ++ payload ops ∧
      (r.puts ops).destroy = r.mStream ++ encodeChunks pieces := by
  induction ops generalizing r b with
  | nil =>
    refine ⟨flushed b.str, fun p => flushed_ne_nil, by simp [flushed_flatten, payload], ?_⟩
    have hlast : ascii "0\r\n\r\n" = lastChunk := by decide
    simp [Response.puts, Response.destroy, Response.deleteChunkstream, hr, Chunkbuf.finished,
      synced_eq, encodeChunks, hlast]
  | cons op ops ih =>
    cases op with
    | write s =>
      have hput : r.put (.write s) = { r with mpChunkstream := some (b.write s) } := by
        simp [Response.put, hr]
      obtain ⟨pieces, hne, hflat, hd⟩ := ih (r := r.put (.write s)) (b := b.write s) (by rw [hput])
      refine ⟨pieces, hne, ?_, ?_⟩
      · simpa [Chunkbuf.write, payload] using hflat
      · rw [hput] at hd
        simpa [Response.puts, hput] using hd
    | flush =>
      have hput : r.put .flush =
          { r with mpChunkstream := some b.sync, mStream := r.mStream ++ b.synced } := by
        simp [Response.put, hr]
      obtain ⟨pieces, hne, hflat, hd⟩ := ih (r := r.put .flush) (b := b.sync) (by rw [hput])
      refine ⟨flushed b.str ++ pieces, fun p hp => ?_, ?_, ?_⟩
      · rcases List.mem_append.1 hp with hp | hp
        · exact flushed_ne_nil hp
        · exact hne p hp
      · rw [List.flatten_append, flushed_flatten, hflat]
        simp [Chunkbuf.sync, payload]
      · rw [hput] at hd
        simpa [Response.puts, hput, synced_eq, encodeChunks] using hd

/-- A message of one header block and a body that it delimits: by chunks that
end where the body ends, whatever follows; by its length, if that is known; or
by the end of the connection. -/
def Framed (status : ℤ) (chunked counted : Prop) (content bytes : Octets) : Prop :=
  ∃ d body, bytes = headerBlock status d ++ body ∧
    ¬ (HTTP_HEADER_CONTENT_LENGTH ∈ (printed d).keys ∧ encodingOf (printed d) = ascii "chunked") ∧
    (encodingOf (printed d) = ascii "chunked" ↔ chunked) ∧
    (chunked → (∃ pieces : List Octets, (∀ p ∈ pieces, p ≠ []) ∧ body = encodeChunks pieces) ∧
      ∀ tail, decodeChunks (body ++ tail) = some (content, tail)) ∧
    (¬ chunked → body = content ∧ (counted →
      (HTTP_HEADER_CONTENT_LENGTH, numeral 10 content.length) ∈ printed d))

theorem encodingOf_of_not_mem {d : Dictionary} (h : HTTP_HEADER_TRANSFER_ENCODING ∉ d.keys) :
    encodingOf d ≠ ascii "chunked" := by
  rw [encodingOf, Dictionary.getString_of_not_mem h]
  decide

/-- The message that `sendHeaders` begins. -/
theorem framed_of_sendHeaders {status : ℤ} {d : Dictionary} {r : Response} (counted : Prop)
    (hd : Normal d) (h : (⟨[], false, status, d, none⟩ : Response).sendHeaders = some r)
    (ops : List Output) (hc : counted → d.getString HTTP_HEADER_CONTENT_LENGTH =
      numeral 10 (payload ops).length) :
    Framed status (encodingOf d = ascii "chunked") counted (payload ops)
      (r.puts ops).destroy := by
  obtain ⟨hn, hs, hcase⟩ := sendHeaders_spec hd h
  have hp := printed_eq hn
  rcases hcase with ⟨henc, hchunk, hcl, henc'⟩ | ⟨henc, hchunk, hte, hcl⟩
  · obtain ⟨pieces, hne, hflat, hdest⟩ := destroy_puts_some hchunk ops
    refine ⟨r.mHeaders, encodeChunks pieces, by rw [hdest, hs], ?_, ?_, fun _ => ⟨?_, ?_⟩, ?_⟩
    · rw [hp]
      exact fun hboth => hcl hboth.1
    · rw [hp]
      exact iff_of_true henc' henc
    · exact ⟨pieces, hne, rfl⟩
    · intro tail
      rw [decode_encodeChunks pieces hne, hflat]
      rfl
    · exact fun hno => absurd henc hno
  · have hno := encodingOf_of_not_mem hte
    refine ⟨r.mHeaders, payload ops, by rw [destroy_puts_none hchunk, hs], ?_, ?_, ?_,
      fun _ => ⟨rfl, fun hcount => ?_⟩⟩
    · rw [hp]
      exact fun hboth => hno hboth.2
    · rw [hp]
      exact iff_of_false hno henc
    · exact fun hyes => absurd hyes henc
    · rw [hp, ← hc hcount, ← hcl]
      apply Dictionary.mem_getString
      by_contra hm
      have hval := hc hcount
      rw [← hcl, Dictionary.getString_of_not_mem hm] at hval
      exact numeral_ne_nil hval.symm

theorem sendHeaders_isSome (status : ℤ) {d : Dictionary}
    (h : encodingOf d ∈ [[], ascii "identity", ascii "chunked"]) :
    ∃ r, (⟨[], false, status, d, none⟩ : Response).sendHeaders = some r := by
  have hte : Dictionary.getString (d.assign HTTP_HEADER_CONNECTION (ascii "close"))
      HTTP_HEADER_TRANSFER_ENCODING = d.getString HTTP_HEADER_TRANSFER_ENCODING :=
    Dictionary.getString_assign_ne (by decide)
  simp only [Response.sendHeaders, setHeader_close, Response.header, key_transferEncoding, hte]
  have henc : ctolower (d.getString HTTP_HEADER_TRANSFER_ENCODING) = encodingOf d := rfl
  rw [henc]
  split
  · exact ⟨_, rfl⟩
  · rename_i hid
    split
    · exact ⟨_, rfl⟩
    · rename_i hch
      have hnil : encodingOf d = [] := by simpa [hid, hch] using h
      exact ⟨_, if_pos hnil⟩

theorem ctrim_eq_self {s : Octets} (h : ∀ b ∈ s, isspace b = false) : ctrim s = s :=
  List.filter_eq_self.2 fun b hb => by simp [h b hb]

theorem integer_size {n : ℕ} (h : n < 2 ^ 31) : integer (sizeAsInt n) = numeral 10 n := by
  have hsize : sizeAsInt n = n := Int.bmod_eq_of_le_mul_two (by omega) (by omega)
  simp [integer, hsize]

/-- `sendWithContent` announces the length of the content. -/
theorem setHeaderInt_size {r : Response} {n : ℕ} (h : n < 2 ^ 31) :
    r.setHeaderInt HTTP_HEADER_CONTENT_LENGTH (sizeAsInt n) =
      { r with mHeaders := r.mHeaders.assign HTTP_HEADER_CONTENT_LENGTH (numeral 10 n) } := by
  have hclean : ∀ b ∈ numeral 10 n, isspace b = false := by
    intro b hb
    obtain ⟨d, hd⟩ := numeral_digit (by omega) (by omega) hb
    exact not_space_of_isSome b (by simp [hd])
  rw [Response.setHeaderInt, integer_size h,
    setHeader_clean key_contentLength (ctrim_eq_self hclean) numeral_ne_nil]

/-- The lines of a header block: the status line, one line for each header that
is printed, and an empty line. -/
def blockLines (status : ℤ) (d : Dictionary) : List Octets :=
  statusLine status :: (printed d).map headerLine ++ [[]]

/-- A text made of lines, and of nothing else that looks like the end of one. -/
structure InLines (lines : List Octets) (text : Octets) : Prop where
  eq : text = (lines.map fun l => l ++ crlf).flatten
  inline : ∀ l ∈ lines, Inline l
  count : text.count CR = lines.length ∧ text.count LF = lines.length

theorem inLines_of_inline {lines : List Octets} (h : ∀ l ∈ lines, Inline l) :
    InLines lines (lines.map fun l => l ++ crlf).flatten := by
  refine ⟨rfl, h, ?_⟩
  induction lines with
  | nil => simp
  | cons l lines ih =>
    have hl := h l (by simp)
    have htail := ih fun x hx => h x (by simp [hx])
    have hcr : l.count CR = 0 := List.count_eq_zero.2 hl.1
    have hlf : l.count LF = 0 := List.count_eq_zero.2 hl.2
    have hend : crlf.count CR = 1 ∧ crlf.count LF = 1 := by decide
    simp only [List.map_cons, List.flatten_cons, List.length_cons, List.count_append]
    omega

theorem inline_integer (n : ℤ) : Inline (integer n) := by
  unfold integer
  split
  · exact Inline.append ⟨by decide, by decide⟩ (inline_numeral (by omega) (by omega))
  · exact inline_numeral (by omega) (by omega)

theorem inline_statusReason (status : ℤ) : Inline (statusReason status) := by
  unfold statusReason
  split <;> exact ⟨by decide, by decide⟩

theorem inline_statusLine (status : ℤ) : Inline (statusLine status) :=
  (((Inline.append ⟨by decide, by decide⟩ (inline_integer status)).append
    ⟨by decide, by decide⟩).append (inline_statusReason status))

theorem headerBlock_inLines {d : Dictionary} (hd : Normal d) (status : ℤ) :
    InLines (blockLines status d) (headerBlock status d) := by
  have heq : headerBlock status d = ((blockLines status d).map fun l => l ++ crlf).flatten := by
    simp [headerBlock, blockLines, List.map_map, Function.comp_def]
  rw [heq]
  apply inLines_of_inline
  intro l hl
  simp only [blockLines, List.cons_append, List.mem_cons, List.mem_append, List.mem_map,
    List.not_mem_nil, or_false] at hl
  rcases hl with rfl | ⟨e, he, rfl⟩ | rfl
  · exact inline_statusLine status
  · have hclean := hd.clean e (List.mem_filter.1 he).1
    exact ((inline_of_not_space hclean.1).append ⟨by decide, by decide⟩).append
      (inline_of_not_space hclean.2)
  · exact ⟨by simp, by simp⟩

end AirSane.Web
