import AirSane.ScanJob.FinishTransfer
import AirSane.ImageFormats.DocumentGrammar

/-! # The encoder's side of a transfer

What `finishTransfer` calls on an encoder, against the grammar of a document.
A document is begun lazily by its first line, and ended by every transfer that
made an encoder.
-/

namespace AirSane.ScanJob
open Programs Program

variable {E : Environment} {s : Settings}

def Event.call : Event → Option Call
  | .callback cb b => some (cb, b)
  | _ => none

/-- The virtual calls of a log. -/
def callbacks (log : Log) : List Call := log.filterMap Event.call

@[simp] theorem callbacks_append (a b : Log) : callbacks (a ++ b) = callbacks a ++ callbacks b := by
  simp [callbacks]

@[simp] theorem callbacks_nil : callbacks [] = [] := rfl

@[simp] theorem callbacks_sessionRead (st : SaneStatus) (line : List UInt8) (log : Log) :
    callbacks (.sessionRead st line :: log) = callbacks log := rfl

@[simp] theorem callbacks_flush (b : Bool) (log : Log) :
    callbacks (.flush b :: log) = callbacks log := rfl

@[simp] theorem callbacks_made (cs : List Call) : callbacks (made cs) = cs := by
  simp [callbacks, made, Event.call, Function.comp_def]

/-- The backend delivered a line. -/
def Delivers (log : Log) : Prop := ∃ line, Event.sessionRead .good line ∈ log

/-- Events on the side of the backend that deliver nothing. -/
def Event.quiet : Event → Prop
  | .saneStart _ _ | .saneGetParameters _ _ _ | .saneRead _ _ _ | .saneCancel _ | .saneClose _ => True
  | .sessionRead st _ => st ≠ .good
  | _ => False

def Quiet (log : Log) : Prop := ∀ e ∈ log, e.quiet

theorem Quiet.append {a b : Log} (ha : Quiet a) (hb : Quiet b) : Quiet (a ++ b) :=
  List.forall_mem_append.2 ⟨ha, hb⟩

theorem Quiet.callbacks {log : Log} (h : Quiet log) : callbacks log = [] := by
  refine List.filterMap_eq_nil_iff.2 fun e he => ?_
  have := h e he
  cases e <;> first | rfl | exact this.elim

theorem Quiet.not_delivers {log : Log} (h : Quiet log) : ¬ Delivers log :=
  fun ⟨_, hl⟩ => h _ hl rfl

theorem delivers_append {a b : Log} : Delivers (a ++ b) ↔ Delivers a ∨ Delivers b := by
  simp [Delivers, exists_or]

theorem Reads.quiet {d : Option Handle} {evs : Log} (h : Reads d evs) : Quiet evs := by
  intro e he
  obtain ⟨st, bytes, rfl⟩ := h e he
  trivial

theorem Releases.quiet {evs : Log} (h : Releases evs) : Quiet evs := by
  intro e he
  obtain ⟨x, rfl | rfl⟩ := h e he <;> trivial

theorem Starts.quiet {d : Option Handle} {evs : Log} {st : SaneStatus} (h : Starts d evs st) :
    Quiet evs := by
  cases h <;> simp [Quiet, Event.quiet]

theorem Restarted.quiet {d : Option Handle} {evs : Log} {st st' : SaneStatus}
    (h : Restarted d st evs st') : Quiet evs := by
  induction h with
  | refl => simp [Quiet]
  | again h _ ih => exact h.quiet.append ih

/-- A PDF document cannot be begun without a resolution. -/
def Beginnable (s : Settings) (kind : EncoderKind) : Prop := ¬ (kind = .pdf ∧ s.res_dpi = 0)

/-- While lines are being sent, the counters of the encoder account for its
calls, and it has received calls exactly if a line was delivered. -/
structure Document (s : Settings) (h : ℤ) (k : EncoderKind) (e : Encoder) (evs : Log) :
    Prop where
  height : e.height = h
  kind : e.kind = k
  dpi : e.dpi = s.res_dpi
  received : e.Received h (callbacks evs)
  delivers : Delivers evs ↔ callbacks evs ≠ []
  begun : callbacks evs ≠ [] → Beginnable s k

section
variable {h : ℤ} {k : EncoderKind} {e : Encoder} {evs more : Log} {line : List UInt8}

theorem Document.extend (hd : Document s h k e evs) (hq : Quiet more) :
    Document s h k e (evs ++ more) where
  height := hd.height
  kind := hd.kind
  dpi := hd.dpi
  received := by simpa [hq.callbacks] using hd.received
  delivers := by simpa [delivers_append, hq.not_delivers, hq.callbacks] using hd.delivers
  begun := by simpa [hq.callbacks] using hd.begun

theorem Document.admits_iff (hd : Document s h k e evs) :
    e.admits .onDocumentBegin = true ↔ Beginnable s k := by
  rw [e.admits_onDocumentBegin, hd.kind, hd.dpi, Beginnable]

/-- A document that takes a line is one that could be begun. -/
theorem Document.beginnable (hd : Document s h k e evs)
    (ha : ∀ cb ∈ e.lineCalls line, e.admits cb) : Beginnable s k := by
  by_cases hc : callbacks evs = []
  · exact hd.admits_iff.1 (ha _ ((hc ▸ hd.received).begins line))
  · exact hd.begun hc

theorem Document.written (hd : Document s h k e evs) (ha : ∀ cb ∈ e.lineCalls line, e.admits cb)
    (hdel : Delivers more) (hc : callbacks more = completed (e.lineCalls line)) :
    Document s h k e.advance (evs ++ more) where
  height := by simpa using hd.height
  kind := by simpa using hd.kind
  dpi := by simpa using hd.dpi
  received := by simpa [hc] using hd.received.written hd.height line
  delivers := by
    refine ⟨fun _ => ?_, fun _ => delivers_append.2 (.inr hdel)⟩
    simp [hc, e.completed_lineCalls_ne_nil line]
  begun := fun _ => hd.beginnable ha

/-- Where sending a line fails, the document stays open if it could be begun. -/
theorem Document.unsent (hd : Document s h k e evs) {cs : List Call} {rest : Log}
    (hu : Unsent e (e.lineCalls line) cs rest) :
    OpenDocument h (callbacks evs ++ cs) ↔ Beginnable s k := by
  cases hu with
  | thrown ht =>
    rcases hd.received.thrown hd.height ht with ⟨hc, rfl, hm⟩ | ⟨ha, ho⟩
    · have hb : ¬ Beginnable s k := fun hb =>
        hb (by simpa [hd.kind, hd.dpi] using e.mayThrow_onDocumentBegin.1 hm)
      simp [hc, hb, not_openDocument_begin_false]
    · refine iff_of_true ho ?_
      by_cases hc : callbacks evs = []
      · exact hd.admits_iff.1 (ha hc)
      · exact hd.begun hc
  | unflushed ha =>
    refine iff_of_true ?_ (hd.beginnable ha)
    exact (hd.received.written hd.height line).openDocument
      (by simp [e.completed_lineCalls_ne_nil line])

end

/-- What the calls since `base` add up to. -/
inductive Ordered (s : Settings) (h : ℤ) (k : EncoderKind) (base : Log) (w : World) : Prop where
  | sending {e : Encoder} {evs : Log} (hl : w.log = base ++ evs) (he : w.encoder = some e)
      (hd : Document s h k e evs) : Ordered s h k base w
  | broken {evs : Log} (hl : w.log = base ++ evs) (hp : w.state ≠ .processing)
      (hdel : Delivers evs) (ho : OpenDocument h (callbacks evs) ↔ Beginnable s k) :
    Ordered s h k base w

section
variable {h : ℤ} {k : EncoderKind} {base : Log} {w u : World} {i : SessionId}

theorem LineStep.ordered {st : SaneStatus} (hstep : LineStep s i w (st, u))
    (hp : w.state = .processing) (hw : Ordered s h k base w) : Ordered s h k base u := by
  cases hw with
  | broken _ hp' => exact absurd hp hp'
  | @sending e evs hl he hd =>
    cases hstep with
    | @ended _ line reads _ hst hr hu he' _ =>
      refine .sending (hu.log.trans (by rw [hl, List.append_assoc])) (he'.trans he) ?_
      exact hd.extend (hr.quiet.append (by simpa [Quiet, Event.quiet] using hst))
    | @written line reads _ e₀ hr he₀ hu he' _ ha =>
      obtain rfl := Option.some.inj (he₀.symm.trans he)
      refine .sending (hu.log.trans (by rw [hl, List.append_assoc])) he' (hd.written ha ?_ ?_)
      · exact ⟨line, by simp⟩
      · simp [hr.quiet.callbacks]
    | @failed line reads rest cs x e₀ e' hr he₀ hcs hu he' hd' =>
      obtain rfl := Option.some.inj (he₀.symm.trans he)
      have hrest : callbacks rest = [] := by cases hcs <;> rfl
      have hrel := x.become .aborted PWG_ERRORS_DETECTED |>.releases_releaseEvents
      have hlog : (x.become .aborted PWG_ERRORS_DETECTED).closed.log = base ++
          (evs ++ (reads ++ [.sessionRead .good line] ++ (made cs ++ rest) ++
            (x.become .aborted PWG_ERRORS_DETECTED).releaseEvents)) := by
        simp [World.closed, World.become, hu.log, hl]
      refine .broken hlog (by simp [World.become]) ?_ ?_
      · exact delivers_append.2 (.inr ⟨line, by simp⟩)
      · simpa [hr.quiet.callbacks, hrest, hrel.quiet.callbacks] using hd.unsent hcs

theorem LineRun.ordered {a b : SaneStatus × World} (h' : LineRun s i a b)
    (hw : Ordered s h k base a.2) : Ordered s h k base b.2 := by
  induction h' with
  | refl => exact hw
  | tail _ hstep ih => exact hstep.2.2.2.ordered hstep.2.2.1 ih

theorem ImageStep.ordered (hstep : ImageStep s i w u) (hw : Ordered s h k base w) :
    Ordered s h k base u := by
  cases hstep with
  | broken hl _ => exact hl.ordered hw
  | @finished st st' x v e more hrun hx _ he _ hr _ hv hlog hn =>
    cases hrun.ordered hw with
    | broken _ hp => exact absurd hx hp
    | @sending e₀ evs hl he₀ hd =>
      obtain rfl := Option.some.inj (he₀.symm.trans he)
      obtain ⟨rel, hrel, hset⟩ := v.settle_log hn
      refine .sending ?_ ?_ (hd.extend (hr.quiet.append hrel.quiet))
      · have hl' : x.log = base ++ evs := hl
        simp [hset, hlog, hl']
      · rw [World.checked_encoder, (World.settle_keeps hn v).1, hv.encoder]
        exact he

theorem ImageRun.ordered (h' : ImageRun s i w u) (hw : Ordered s h k base w) :
    Ordered s h k base u := by
  induction h' with
  | refl => exact hw
  | tail _ hstep ih => exact hstep.2.ordered ih

end

theorem ordered_ready {w : World} {i : SessionId} {k : EncoderKind} (good : Bool) :
    Ordered s (w.sessions i).parameters.lines k w.log
      ((w.attached good).withEncoder (s.setUp k (w.sessions i).parameters)) :=
  .sending (List.append_nil w.log).symm rfl
    ⟨rfl, rfl, rfl, .nothing rfl rfl, by simp [Delivers], by simp⟩

theorem Ordered.openDocument_iff {h : ℤ} {k : EncoderKind} {base evs : Log} {w : World}
    (hw : Ordered s h k base w) (hl : w.log = base ++ evs) :
    OpenDocument h (callbacks evs) ↔ Delivers evs ∧ Beginnable s k := by
  cases hw with
  | sending hl' _ hd =>
    obtain rfl := List.append_cancel_left (hl'.symm.trans hl)
    refine ⟨fun ho => ?_, fun ⟨hdel, _⟩ => hd.received.openDocument (hd.delivers.1 hdel)⟩
    have hne : callbacks _ ≠ [] := fun hc => not_openDocument_nil (hc ▸ ho)
    exact ⟨hd.delivers.2 hne, hd.begun hne⟩
  | broken hl' _ hdel ho =>
    obtain rfl := List.append_cancel_left (hl'.symm.trans hl)
    exact ho.trans (iff_and_self.2 fun _ => hdel)

/-- A transfer that ends calls its encoder in the order of a document exactly
if it has nothing to do, has no encoder to call, or can begin the document: the
line lengths agree, the backend delivers a line, and PDF has a resolution. -/
theorem finishTransfer_documentGrammar_iff {w w' : World} {fuel : ℕ} {good : Bool}
    (hrun : (finishTransfer s fuel good).run (exec E) w = (.ok (), w')) :
    DocumentGrammar w.frame.lines (callbacks (w'.eventsSince w)) ↔
      w.state ≠ .processing ∨ EncoderKind.ofDocumentFormat s.documentFormat = none ∨
        s.LineLengthsAgree w.frame ∧ Delivers (w'.eventsSince w) ∧
          (s.documentFormat = MIME_TYPE_PDF → s.res_dpi ≠ 0) := by
  obtain ⟨i, hi⟩ := session_of_finishTransfer hrun
  obtain ⟨v, hv, ht⟩ := run_finishTransfer (E := E) hi fuel good
  rw [hrun] at ht
  cases ht with
  | formatless hp he =>
    cases hv with
    | idle hw => simp [World.eventsSince, World.attached, hw, DocumentGrammar.empty]
    | unsupported _ hf =>
      simp [World.eventsSince, World.attached, World.become, hf, DocumentGrammar.empty]
    | disagreeing | ready => simp [World.become, World.withEncoder] at he
  | @ended u e hrun' hu he =>
    have hend : callbacks [.callback .onDocumentEnd true] = [(.onDocumentEnd, true)] := rfl
    have hcall := (u.call_emitted (E := E) e).log
    cases hv with
    | idle hw =>
      obtain rfl := hrun'.eq_of_idle hw
      simp [World.attached] at he
    | unsupported _ hf =>
      obtain rfl := hrun'.eq_of_idle (by simp [World.become])
      simp [World.attached, World.become] at he
    | @disagreeing k hp hs hf hl =>
      obtain rfl := hrun'.eq_of_idle (by simp [World.become])
      have hframe : w.frame = (w.sessions i).parameters := by simp [World.frame, hs]
      rw [World.eventsSince_of_eq (w := w) hcall, hend, hframe]
      have hempty : ¬ DocumentGrammar (w.sessions i).parameters.lines [(.onDocumentEnd, true)] :=
        fun h => not_openDocument_nil (documentGrammar_end_iff.1 h)
      simp [hempty, hp, hf, hl]
    | @ready k hp hs hf hl =>
      have hframe : w.frame = (w.sessions i).parameters := by simp [World.frame, hs]
      have hord := hrun'.ordered (ordered_ready good)
      obtain ⟨evs, hlog⟩ : ∃ evs, u.log = w.log ++ evs := by cases hord <;> exact ⟨_, ‹_›⟩
      have hopen := hord.openDocument_iff hlog
      rw [hlog, List.append_assoc] at hcall
      rw [World.eventsSince_of_eq hcall, callbacks_append, hend, documentGrammar_end_iff, hframe,
        hopen]
      have hdel : ¬ Delivers [.callback .onDocumentEnd true] := by simp [Delivers]
      have hpdf := EncoderKind.ofDocumentFormat_eq_pdf hf
      simp [hp, hf, hl, delivers_append, hdel, Beginnable, hpdf]

theorem finishTransfer_documentGrammar_iff_gray :
    let E := Environment.scripted .gray [.good] [(.good, [1]), (.good, [2])]
    let s := Settings.gray .single MIME_TYPE_PDF
    DocumentGrammar (firstPage E s).frame.lines
        (callbacks ((firstTransfer E s).2.eventsSince (firstPage E s))) ↔
      (firstPage E s).state ≠ .processing ∨
        EncoderKind.ofDocumentFormat s.documentFormat = none ∨
        s.LineLengthsAgree (firstPage E s).frame ∧
          Delivers ((firstTransfer E s).2.eventsSince (firstPage E s)) ∧
          (s.documentFormat = MIME_TYPE_PDF → s.res_dpi ≠ 0) :=
  finishTransfer_documentGrammar_iff (run_firstTransfer (by decide +kernel))

/-- A backend that ends the page before its first line has the PDF encoder end
a document that was never begun. -/
theorem finishTransfer_ends_unbegun :
    let E := Environment.scripted .gray [.good] []
    let s := Settings.gray .single MIME_TYPE_PDF
    (firstTransfer E s).1 = .ok () ∧
      ¬ DocumentGrammar (firstPage E s).frame.lines
        (callbacks ((firstTransfer E s).2.eventsSince (firstPage E s))) := by
  refine ⟨by decide +kernel, fun h => ?_⟩
  have hcalls : callbacks ((firstTransfer (.scripted .gray [.good] [])
      (.gray .single MIME_TYPE_PDF)).2.eventsSince (firstPage (.scripted .gray [.good] [])
        (.gray .single MIME_TYPE_PDF))) = [] ++ [(.onDocumentEnd, true)] := by decide +kernel
  rw [hcalls, documentGrammar_end_iff] at h
  exact not_openDocument_nil h

end AirSane.ScanJob
