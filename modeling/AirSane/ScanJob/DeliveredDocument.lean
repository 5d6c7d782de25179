import AirSane.ImageFormats.DocumentPages
import AirSane.ScanJob.Relay

/-! # The document that a transfer delivers

The calls that a transfer makes on its encoder are carried out by the PDF encoder, on a
stream that is flushed where the transfer flushes it. What arrives is read back as the
pages that the backend has delivered.
-/

namespace AirSane

/-- What the events of a transfer do to a PDF encoder and its stream. -/
def PdfWriter.event (ctx : PdfContext) (w : PdfWriter) : ScanJob.Event → Option PdfWriter
  | .callback cb true => (w.pdf.call ctx w.encoder cb).map fun p =>
    ⟨match cb with
      | .onWriteLine _ => w.encoder.advance
      | _ => w.encoder, p⟩
  | .callback _ false => none
  | .flush true => w.step ctx .flush
  | _ => some w

def PdfWriter.replay (ctx : PdfContext) (w : PdfWriter) (log : ScanJob.Log) : Option PdfWriter :=
  log.foldlM (fun w e => w.event ctx e) w

namespace ScanJob
open Text Programs Program

section
variable {ctx : PdfContext} {s : Settings} {w : PdfWriter} {log more : Log} {line : List UInt8}

theorem replay_append : w.replay ctx (log ++ more) =
    (w.replay ctx log).bind fun w => w.replay ctx more := by
  rw [PdfWriter.replay, List.foldlM_append]
  rfl

/-- Neither a call on the encoder nor a flush of the stream. -/
def Event.mute : Event → Prop
  | .callback _ _ | .flush _ => False
  | _ => True

/-- Events on the side of the backend, lines that are read among them. -/
def Mute (log : Log) : Prop := ∀ e ∈ log, e.mute

theorem Quiet.mute (h : Quiet log) : Mute log := by
  intro e he
  have hq := h e he
  cases e <;> trivial

theorem Mute.append (h : Mute log) (h' : Mute more) : Mute (log ++ more) :=
  List.forall_mem_append.2 ⟨h, h'⟩

theorem Mute.written (h : Mute log) : written log = [] := by
  refine List.filterMap_eq_nil_iff.2 fun e he => ?_
  have hm := h e he
  cases e <;> first | rfl | exact hm.elim

theorem Mute.replay (h : Mute log) : w.replay ctx log = some w := by
  induction log with
  | nil => rfl
  | cons e log ih =>
    have he : w.event ctx e = some w := by
      have hm := h e (by simp)
      cases e <;> first | rfl | exact hm.elim
    rw [PdfWriter.replay, List.foldlM_cons, he]
    exact ih fun x hx => h x (by simp [hx])

/-- The end of an image does not look at the counters. -/
theorem onImageEnd_advance (p : PdfEncoder) (e : Encoder) :
    p.onImageEnd ctx e.advance = p.onImageEnd ctx e := by
  unfold Encoder.advance
  split <;> rfl

/-- The calls for a line are those of `writeLine`. -/
theorem replay_lineCalls (w : PdfWriter) (line : List UInt8) :
    w.replay ctx (made (completed (w.encoder.lineCalls line))) = w.writeLine ctx line := by
  unfold PdfWriter.writeLine Encoder.lineCalls
  cases hb : w.pdf.onDocumentBegin ctx w.encoder <;> split_ifs <;>
    simp [made, completed, PdfWriter.replay, PdfWriter.event, PdfEncoder.call, hb,
      onImageEnd_advance]

/-- A line is written if the encoder lets every call pass. -/
theorem writeLine_of_admits (hk : w.encoder.kind = .pdf)
    (ha : ∀ cb ∈ w.encoder.lineCalls line, w.encoder.admits cb) :
    ∃ p, w.writeLine ctx line = some ⟨w.encoder.advance, p⟩ := by
  have hbegin : .onDocumentBegin ∈ w.encoder.lineCalls line → w.encoder.dpi ≠ 0 := fun hm => by
    simpa [Encoder.admits, hk] using ha _ hm
  have hall : ∀ calls : List Callback, (.onDocumentBegin ∈ calls → w.encoder.dpi ≠ 0) →
      ∀ p : PdfEncoder, ∃ q,
        calls.foldlM (fun (p : PdfEncoder) cb => p.call ctx w.encoder cb) p = some q := by
    intro calls
    induction calls with
    | nil => exact fun _ p => ⟨p, rfl⟩
    | cons cb calls ih =>
      intro hd p
      obtain ⟨q, hq⟩ : ∃ q, p.call ctx w.encoder cb = some q := by
        cases cb with
        | onDocumentBegin => exact ⟨_, if_neg (hd List.mem_cons_self)⟩
        | _ => exact ⟨_, rfl⟩
      rw [List.foldlM_cons, hq]
      exact ih (fun hm => hd (List.mem_cons_of_mem _ hm)) q
  obtain ⟨q, hq⟩ := hall _ hbegin w.pdf
  exact ⟨q, by rw [PdfWriter.writeLine, hq]; rfl⟩

/-- A document with a line has been begun. -/
theorem dpi_of_steps {ops : List DocumentOp} {x : PdfWriter}
    (h : ops.foldlM (fun w op => w.step ctx op) w = some x) (hl : w.encoder.currentLine = 0)
    (hi : w.encoder.currentImage = 0) (hne : ops.filterMap DocumentOp.written ≠ []) :
    w.encoder.dpi ≠ 0 := by
  induction ops generalizing w with
  | nil => exact absurd rfl hne
  | cons op ops ih =>
    rw [List.foldlM_cons] at h
    obtain ⟨y, hy, hx⟩ := Option.bind_eq_some_iff.1 h
    cases op with
    | flush =>
      obtain rfl := Option.some.inj hy
      have hrest := ih hx hl hi hne
      exact hrest
    | line line =>
      obtain ⟨p, hp, -⟩ := Option.map_eq_some_iff.1 hy
      have hcalls : w.encoder.lineCalls line = .onDocumentBegin ::
          (.onImageBegin :: ([.onWriteLine line] ++
            if w.encoder.advance.currentLine = 0 then [.onImageEnd] else [])) := by
        simp [Encoder.lineCalls, hl, hi]
      rw [hcalls, List.foldlM_cons] at hp
      obtain ⟨q, hq, -⟩ := Option.bind_eq_some_iff.1 hp
      intro hd
      rw [PdfEncoder.call, PdfEncoder.onDocumentBegin, if_pos hd] at hq
      cases hq

/-- The lines and flushes in the events since `base` make the same document as the calls
on the encoder, whose counters are those of the job. -/
structure Printed (ctx : PdfContext) (w₀ : PdfWriter) (base : Log) (w : World) (evs : Log)
    (ops : List DocumentOp) (x : PdfWriter) : Prop where
  log : w.log = base ++ evs
  written : ops.filterMap DocumentOp.written = written evs
  replay : w₀.replay ctx evs = some x
  steps : ops.foldlM (fun w op => w.step ctx op) w₀ = some x
  encoder : w.encoder = some x.encoder
  kind : x.encoder.kind = .pdf

/-- A transfer that has not aborted. -/
def Prints (ctx : PdfContext) (w₀ : PdfWriter) (base : Log) (w : World) : Prop :=
  w.state ≠ .aborted → ∃ evs ops x, Printed ctx w₀ base w evs ops x

end

section
variable {ctx : PdfContext} {s : Settings} {w₀ : PdfWriter} {base evs more : Log} {w u : World}
  {ops : List DocumentOp} {i : SessionId}

theorem Printed.extend {x : PdfWriter} (h : Printed ctx w₀ base w evs ops x)
    (hl : u.log = w.log ++ more) (hq : Mute more) (he : u.encoder = w.encoder) :
    Printed ctx w₀ base u (evs ++ more) ops x where
  log := by rw [hl, h.log, List.append_assoc]
  written := by rw [written_append, hq.written, List.append_nil, h.written]
  replay := by rw [replay_append, h.replay, Option.bind_some, hq.replay]
  steps := h.steps
  encoder := he.trans h.encoder
  kind := h.kind

/-- A line that is written and flushed. -/
theorem Printed.line {e : Encoder} {x : PdfWriter} {line : List UInt8}
    (h : Printed ctx w₀ base w evs ops x) (hq : Mute more) (he : w.encoder = some e)
    (hl : u.log = w.log ++ (more ++ (made (completed (e.lineCalls line)) ++ [.flush true])))
    (he' : u.encoder = some e.advance) (ha : ∀ cb ∈ e.lineCalls line, e.admits cb) : ∃ y,
    Printed ctx w₀ base u (evs ++ (more ++ (made (completed (e.lineCalls line)) ++ [.flush true])))
      (ops ++ [.line line, .flush]) y := by
  obtain rfl := Option.some.inj (he.symm.trans h.encoder)
  obtain ⟨p, (hp : x.writeLine ctx line = _)⟩ := writeLine_of_admits h.kind ha
  refine ⟨⟨x.encoder.advance, { p with os := p.os.flush }⟩, ?_, ?_, ?_, ?_, he', ?_⟩
  · rw [hl, h.log, List.append_assoc]
  · rw [List.filterMap_append, h.written, written_append, written_append, written_append,
      hq.written, written_line]
    rfl
  · rw [replay_append, h.replay, Option.bind_some, replay_append, hq.replay, Option.bind_some,
      replay_append, replay_lineCalls, hp]
    rfl
  · rw [List.foldlM_append, h.steps]
    change ((x.writeLine ctx line).bind fun y => y.step ctx .flush) = _
    rw [hp]
    rfl
  · rw [Encoder.advance_kind]
    exact h.kind

theorem LineStep.prints {st : SaneStatus} (hstep : LineStep s i w (st, u))
    (hp : w.state = .processing) (h : Prints ctx w₀ base w) : Prints ctx w₀ base u := by
  intro hu
  obtain ⟨evs, ops, x, hw⟩ := h (by simp [hp])
  cases hstep with
  | @ended _ line reads _ hst hr hu he _ =>
    exact ⟨_, ops, x, hw.extend hu.log (hr.quiet.mute.append (by simp [Mute, Event.mute])) he⟩
  | @written line reads _ e hr he hu he' hs ha =>
    have hread : Mute (reads ++ [.sessionRead .good line]) :=
      hr.quiet.mute.append (by simp [Mute, Event.mute])
    obtain ⟨y, hy⟩ := hw.line hread he hu.log he' ha
    exact ⟨_, _, y, hy⟩
  | failed => exact absurd rfl hu

theorem LineRun.prints {a b : SaneStatus × World} (hrun : LineRun s i a b)
    (h : Prints ctx w₀ base a.2) : Prints ctx w₀ base b.2 := by
  induction hrun with
  | refl => exact h
  | tail _ hstep ih => exact hstep.2.2.2.prints hstep.2.2.1 ih

theorem ImageStep.prints (hstep : ImageStep s i w u) (h : Prints ctx w₀ base w) :
    Prints ctx w₀ base u := by
  cases hstep with
  | broken hl _ => exact hl.prints h
  | @finished st st' x v e more hrun hx _ he _ hr _ hv hlog hn =>
    intro _
    obtain ⟨evs, ops, y, hw⟩ := hrun.prints h (by simp [hx])
    obtain ⟨rel, hrel, hset⟩ := v.settle_log hn
    refine ⟨_, ops, y, hw.extend ?_ (hr.quiet.append hrel.quiet).mute ?_⟩
    · rw [World.checked_log, hset, hlog, List.append_assoc]
    · rw [World.checked_encoder, (World.settle_keeps hn v).1, hv.encoder]
      rfl

theorem ImageRun.prints (hrun : ImageRun s i w u) (h : Prints ctx w₀ base w) :
    Prints ctx w₀ base u := by
  induction hrun with
  | refl => exact h
  | tail _ hstep ih => exact hstep.2.prints ih

/-- Where the loop has ended well, the encoder is between images. -/
theorem ImageStep.between (hstep : ImageStep s i w u) (hw : w.Sending i)
    (hu : u.state ≠ .processing) (ha : u.state ≠ .aborted) :
    ∃ e, u.encoder = some e ∧ e.currentLine = 0 := by
  cases hstep with
  | broken hl _ =>
    rcases (hl.sending hw).state with hs | hs
    · exact absurd hs hu
    · exact absurd hs ha
  | @finished st st' x v e more hrun hx _ he _ hr _ hv hlog hn =>
    refine ⟨e, ?_, ?_⟩
    · rw [World.checked_encoder, (World.settle_keeps hn v).1, hv.encoder]
      exact he
    · by_contra hline
      exact ha (by simp [World.checked, hline, World.become])

end

section
variable {E : Environment} {ctx : PdfContext} {s : Settings} {p : PdfEncoder} {w w' : World}
  {fuel : ℕ} {good : Bool}

/-- Processing a line leaves its length. -/
theorem Settings.length_processed (s : Settings) (line : List UInt8) :
    (s.processed line).length = line.length := by
  have hset (f : List UInt8 → ℕ → List UInt8) (hf : ∀ d i, (f d i).length = d.length)
      (is : List ℕ) (d : List UInt8) : (is.foldl f d).length = d.length := by
    induction is generalizing d with
    | nil => rfl
    | cons i is ih => rw [List.foldl_cons, ih, hf]
  have hgamma (d : List UInt8) : (s.applyGamma d).length = d.length := by
    unfold Settings.applyGamma
    split_ifs
    · exact hset _ (fun d i => List.length_set) _ d
    · exact hset _ (fun d i => by simp [setWord]) _ d
    · rfl
  have hgray (d : List UInt8) : (s.synthesizeGray d).length = d.length := by
    unfold Settings.synthesizeGray
    split_ifs
    · exact hset _ (fun d i => List.length_set) _ d
    · exact hset _ (fun d i => by simp [setWord]) _ d
    · rfl
  unfold Settings.processed
  split_ifs
  · rw [hgray, hgamma]
  · exact hgamma line

/-- The encoder of a job for PDF, as `finishTransfer` sets it up. -/
def pdfWriter (s : Settings) (p : PdfEncoder) (w : World) : PdfWriter where
  encoder := s.setUp .pdf w.frame
  pdf := p

/-- A transfer that has read a line and has not aborted has printed a document, up to its
end. -/
theorem finishTransfer_prints (ctx : PdfContext) (p : PdfEncoder)
    (hrun : (finishTransfer s fuel good).run (exec E) w = (.ok (), w'))
    (hformat : s.documentFormat = MIME_TYPE_PDF) (hstate : w'.state ≠ .aborted)
    (hdel : Delivers (w'.eventsSince w)) :
    ∃ u evs ops x, Printed ctx (pdfWriter s p w) w.log u evs ops x ∧
      x.encoder.currentLine = 0 ∧
      w'.eventsSince w = evs ++ [.callback .onDocumentEnd true] := by
  obtain ⟨i, hi⟩ := session_of_finishTransfer hrun
  obtain ⟨v, hv, ht⟩ := run_finishTransfer (E := E) hi fuel good
  rw [hrun] at ht
  have hpdf : EncoderKind.ofDocumentFormat s.documentFormat = some .pdf := by
    rw [hformat]
    rfl
  cases hv with
  | idle hp =>
    cases ht with
    | formatless => simp [World.eventsSince, World.attached, Delivers] at hdel
    | ended hrun' _ he =>
      obtain rfl := hrun'.eq_of_idle hp
      simp [World.attached] at he
  | unsupported _ hf => simp [hpdf] at hf
  | disagreeing =>
    cases ht with
    | formatless _ he => simp [World.become, World.withEncoder] at he
    | ended hrun' _ he =>
      obtain rfl := hrun'.eq_of_idle (by simp [World.become])
      exact absurd rfl hstate
  | @ready k hp hs hf hl =>
    obtain rfl := Option.some.inj (hf.symm.trans hpdf)
    have hframe : w.frame = (w.sessions i).parameters := by simp [World.frame, hs]
    have hsend : ((w.attached good).withEncoder (s.setUp .pdf (w.sessions i).parameters)).Sending
        i := ⟨.inl hp, fun _ => hs, _, rfl, rfl⟩
    cases ht with
    | formatless hw' => exact absurd hp hw'
    | @ended u e hrun' hu he =>
      have hbegin : Prints ctx (pdfWriter s p w) w.log
          ((w.attached good).withEncoder (s.setUp .pdf (w.sessions i).parameters)) := fun _ =>
        ⟨[], [], pdfWriter s p w, (List.append_nil w.log).symm, rfl, rfl, rfl,
          by rw [pdfWriter, hframe]; rfl, rfl⟩
      obtain ⟨evs, ops, x, hprinted⟩ := hrun'.prints hbegin hstate
      obtain ⟨e', he', hline⟩ : ∃ e, u.encoder = some e ∧ e.currentLine = 0 := by
        rcases Relation.ReflTransGen.cases_tail hrun' with rfl | ⟨b, hchain, hb, hstep⟩
        · exact absurd hp hu
        · exact hstep.between (ImageRun.sending hchain (fun _ => hsend) hb) hu hstate
      refine ⟨u, evs, ops, x, hprinted, ?_, ?_⟩
      · rw [← Option.some.inj (he'.symm.trans hprinted.encoder)]
        exact hline
      · apply World.eventsSince_of_eq
        rw [(u.call_emitted (E := E) e).log, hprinted.log, List.append_assoc]

/-- A transfer whose document can be read: it has sent lines of a PDF that are as long as
the frame says, and the numbers that describe an image are those of the frame. -/
structure Readable (ctx : PdfContext) (s : Settings) (w w' : World) : Prop where
  format : s.documentFormat = MIME_TYPE_PDF
  state : w'.state ≠ .aborted
  delivers : Delivers (w'.eventsSince w)
  scans : (s.setUp .pdf w.frame).Scans
  measures : ctx.Measures (s.setUp .pdf w.frame)
  bits : (s.setUp .pdf w.frame).components * w.frame.pixelsPerLine * w.frame.depth < 2 ^ 31
  bytes : w.frame.lines * (s.setUp .pdf w.frame).bytesPerLine < 2 ^ 31
  lines : ∀ line ∈ delivered (w'.eventsSince w),
    (s.setUp .pdf w.frame).bytesPerLine ≤ line.length

/-- The lines of the backend, each processed, as the images of a document that lacks its
end. -/
theorem finishTransfer_between (p : PdfEncoder)
    (hrun : (finishTransfer s fuel good).run (exec E) w = (.ok (), w'))
    (h : Readable ctx s w w') : ∃ (x : PdfWriter) (images : List (List Octets)),
      (pdfWriter s p w).replay ctx (w'.eventsSince w) =
        some ⟨x.encoder, x.pdf.onDocumentEnd ctx x.encoder⟩ ∧
      Between ctx (s.setUp .pdf w.frame) p.os.content (infoString ctx p.mInfoDict) images x.pdf ∧
      x.encoder.currentImage = images.length ∧
      (∀ lines ∈ images, (lines.length : ℤ) = w.frame.lines) ∧
      images.flatten = (delivered (w'.eventsSince w)).map s.processed := by
  obtain ⟨u, evs, ops, x, hprinted, hline, hevents⟩ :=
    finishTransfer_prints ctx p hrun h.format h.state h.delivers
  obtain ⟨evs', hlog, -, hrelayed⟩ := finishTransfer_relayed hrun
  have hwritten : ops.filterMap DocumentOp.written =
      (delivered (w'.eventsSince w)).map s.processed := by
    rw [World.eventsSince_of_eq hlog, ← hrelayed h.state, ← World.eventsSince_of_eq hlog, hevents,
      hprinted.written, written_append]
    exact (List.append_nil _).symm
  have hne : ops.filterMap DocumentOp.written ≠ [] := by
    obtain ⟨line, hmem⟩ := h.delivers
    rw [hwritten]
    exact List.ne_nil_of_mem (List.mem_map_of_mem (List.mem_filterMap.2 ⟨_, hmem, rfl⟩))
  have hdpi : (pdfWriter s p w).encoder.dpi ≠ 0 := dpi_of_steps hprinted.steps rfl rfl hne
  have hbegin : Progress ctx (pdfWriter s p w).encoder p.os.content (infoString ctx p.mInfoDict)
      [] [] (pdfWriter s p w) := ⟨rfl, by simp, h.scans.height, .inl ⟨rfl, rfl, rfl, rfl⟩⟩
  obtain ⟨images, lines, y, hsteps, hprogress, hflat⟩ := progress_run hdpi ops hbegin
  obtain rfl := Option.some.inj (hprinted.steps.symm.trans hsteps)
  have hnil : lines = [] := by
    rw [hprogress.encoder] at hline
    exact List.eq_nil_of_length_eq_zero (Int.natCast_eq_zero.1 hline)
  subst hnil
  have hflat' : images.flatten = (delivered (w'.eventsSince w)).map s.processed := by
    rw [← hwritten]
    simpa using hflat
  have hbetween : Between ctx (s.setUp .pdf w.frame) p.os.content (infoString ctx p.mInfoDict)
      images x.pdf := by
    rcases hprogress.state with ⟨rfl, _⟩ | ⟨_, _, hb⟩ | ⟨hl, _⟩
    · exact absurd (hwritten.trans hflat'.symm) hne
    · exact hb
    · exact absurd rfl hl
  have hcount : x.encoder.currentImage = images.length := by
    rw [hprogress.encoder]
    rfl
  refine ⟨x, images, ?_, hbetween, hcount, hprogress.full, hflat'⟩
  rw [hevents, replay_append, hprinted.replay]
  rfl

theorem Readable.long {images : List (List Octets)} (h : Readable ctx s w w')
    (hflat : images.flatten = (delivered (w'.eventsSince w)).map s.processed) :
    ∀ line ∈ images.flatten, (s.setUp .pdf w.frame).bytesPerLine ≤ line.length := by
  intro line hl
  rw [hflat] at hl
  obtain ⟨read, hread, rfl⟩ := List.mem_map.1 hl
  rw [s.length_processed]
  exact h.lines read hread

/-- Two lines of one gray pixel are a document that can be read. -/
theorem readable_gray :
    Readable .standard (.gray .single MIME_TYPE_PDF)
      (firstPage (.scripted .gray [.good] [(.good, [1]), (.good, [2])]) (.gray .single MIME_TYPE_PDF))
      (firstTransfer (.scripted .gray [.good] [(.good, [1]), (.good, [2])])
        (.gray .single MIME_TYPE_PDF)).2 := by
  have hframe : (firstPage (.scripted .gray [.good] [(.good, [1]), (.good, [2])])
      (.gray .single MIME_TYPE_PDF)).frame = .gray := by decide +kernel
  constructor
  · rfl
  · decide +kernel
  · exact ⟨[1], by decide +kernel⟩
  · rw [hframe]
    exact ⟨by decide, by decide, by decide, .inl rfl, by decide⟩
  · exact PdfContext.measures_standard _
  · rw [hframe]
    decide
  · rw [hframe]
    decide
  · rw [hframe]
    decide +kernel

end
end ScanJob
end AirSane
