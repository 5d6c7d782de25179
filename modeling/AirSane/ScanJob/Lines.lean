import AirSane.ScanJob.Execution

/-! # One line of a page

A pass of the inner loop of `finishTransfer` reads a line and hands it to the
encoder. It ends the page, writes the line, or fails to write it and gives the
session up.
-/

namespace AirSane.ScanJob
open Programs Program

variable {E : Environment} {s : Settings}

/-- Events happened; of the job's own data at most the encoder, the stream and
what `status()` answers have changed. -/
structure World.Emitted (w : World) (evs : Log) (u : World) : Prop where
  state : u.state = w.state
  session : u.session = w.session
  device : ∀ j, u.device j = w.device j
  opened : u.opened = w.opened
  imagesCompleted : u.imagesCompleted = w.imagesCompleted
  log : u.log = w.log ++ evs

namespace World
variable {w u v : World} {evs evs' : Log}

theorem Emitted.refl (w : World) : w.Emitted [] w := ⟨rfl, rfl, fun _ => rfl, rfl, rfl, by simp⟩

theorem Emitted.trans (h : w.Emitted evs u) (h' : u.Emitted evs' v) :
    w.Emitted (evs ++ evs') v where
  state := h'.state.trans h.state
  session := h'.session.trans h.session
  device j := (h'.device j).trans (h.device j)
  opened := h'.opened.trans h.opened
  imagesCompleted := h'.imagesCompleted.trans h.imagesCompleted
  log := by rw [h'.log, h.log, List.append_assoc]

theorem Untouched.emitted (h : w.Untouched u) (hl : u.log = w.log ++ evs) : w.Emitted evs u :=
  ⟨h.state, h.session, h.device, h.opened, h.imagesCompleted, hl⟩

end World

/-- Calls of `sane_read` on one device. -/
def Reads (d : Option Handle) (evs : Log) : Prop := ∀ e ∈ evs, ∃ st bytes, e = .saneRead d st bytes

theorem reads_nil (d : Option Handle) : Reads d [] := by simp [Reads]

/-- What `sane_read` is asked for and answers, and the call as an event. -/
def World.piece (E : Environment) (w : World) (maxLength : ℕ) : SaneStatus × List UInt8 :=
  ((E.saneRead w.log maxLength).1, (E.saneRead w.log maxLength).2.take maxLength)

def World.pieceEvent (E : Environment) (w : World) (i : SessionId) (maxLength : ℕ) : Event :=
  .saneRead (w.device i) (w.piece E maxLength).1 (w.piece E maxLength).2

theorem run_readPass (i : SessionId) {size : ℕ} {buffer : List UInt8} (w : World)
    (hb : buffer.length < size) :
    (Session.readPass i size buffer).run (exec E) w =
      (.ok (if (w.piece E (size - buffer.length)).1 = .good then
          .inl (buffer ++ (w.piece E (size - buffer.length)).2)
        else .inr ((w.piece E (size - buffer.length)).1,
          buffer ++ (w.piece E (size - buffer.length)).2)),
        w.record (w.pieceEvent E i (size - buffer.length))) := by
  by_cases hg : (E.saneRead w.log (size - buffer.length)).1 = .good <;>
    simp [Session.readPass, hb, run_bind, run_perform, exec, World.readPiece, World.piece,
      World.pieceEvent, hg]

theorem run_readPass_full (i : SessionId) {size : ℕ} {buffer : List UInt8} (w : World)
    (hb : ¬ buffer.length < size) :
    (Session.readPass i size buffer).run (exec E) w = (.ok (.inr (.good, buffer)), w) := by
  simp [Session.readPass, hb]

theorem run_readLoop (fuel : ℕ) (i : SessionId) (size : ℕ) (buffer : List UInt8) (w : World) :
    ∃ evs u, Reads (w.device i) evs ∧ w.Untouched u ∧ u.log = w.log ++ evs ∧
      ((∃ r, (iterate (Session.readPass i size) fuel buffer).run (exec E) w = (.ok r, u)) ∨
        (iterate (Session.readPass i size) fuel buffer).run (exec E) w =
          (.error .spinning, u)) := by
  have hrefl (w : World) : w.Untouched w := ⟨rfl, rfl, fun _ => rfl, rfl, rfl, rfl, rfl⟩
  induction fuel generalizing buffer w with
  | zero => exact ⟨[], w, by simp [Reads], hrefl w, by simp, .inr rfl⟩
  | succ fuel ih =>
    by_cases hb : buffer.length < size
    · set e := w.pieceEvent E i (size - buffer.length) with he
      have hrec : w.Untouched (w.record e) := ⟨rfl, rfl, fun _ => rfl, rfl, rfl, rfl, rfl⟩
      have hpass := run_readPass (E := E) i w hb
      rw [← he] at hpass
      by_cases hg : (w.piece E (size - buffer.length)).1 = .good
      · obtain ⟨evs, u, hR, hu, hl, ho⟩ :=
          ih (buffer ++ (w.piece E (size - buffer.length)).2) (w.record e)
        refine ⟨e :: evs, u, ?_, hrec.trans hu, by simp [hl, World.record], ?_⟩
        · exact List.forall_mem_cons.2 ⟨⟨_, _, rfl⟩, hR⟩
        · simpa only [iterate, run_bind, hpass, hg, if_true] using ho
      · refine ⟨[e], w.record e, by simp [Reads, he, World.pieceEvent], hrec, rfl, .inl
          ⟨((w.piece E (size - buffer.length)).1,
            buffer ++ (w.piece E (size - buffer.length)).2), ?_⟩⟩
        simp only [iterate, run_bind, hpass, hg, if_false, run_ret]
    · refine ⟨[], w, by simp [Reads], hrefl w, by simp, .inl ⟨(.good, buffer), ?_⟩⟩
      simp only [iterate, run_bind, run_readPass_full i w hb, run_ret]

theorem run_read (fuel : ℕ) (i : SessionId) (size : ℕ) (w : World) :
    ∃ evs u, Reads (w.device i) evs ∧ u.encoder = w.encoder ∧ u.streamGood = w.streamGood ∧
      ((∃ st line, (Session.read fuel i size).run (exec E) w = (.ok (st, line), u) ∧
          w.Emitted (evs ++ [.sessionRead st line]) u) ∨
        (Session.read fuel i size).run (exec E) w = (.error .spinning, u) ∧ w.Emitted evs u) := by
  obtain ⟨evs, u, hR, hu, hl, ⟨r, ho⟩ | ho⟩ := run_readLoop (E := E) fuel i size [] w
  · set v := u.setSession i fun x => { x with status := r.1 } with hv
    have hdev (j : SessionId) : v.device j = u.device j := by
      by_cases hj : j = i
      · subst hj
        simp [hv, World.setSession, World.device]
      · simp [hv, World.setSession, World.device, hj]
    have huv : u.Emitted [.sessionRead r.1 r.2] (v.record (.sessionRead r.1 r.2)) :=
      ⟨rfl, rfl, hdev, rfl, rfl, rfl⟩
    refine ⟨evs, v.record (.sessionRead r.1 r.2), hR, hu.encoder, hu.streamGood,
      .inl ⟨r.1, r.2, ?_, (hu.emitted hl).trans huv⟩⟩
    simp [Session.read, run_bind, ho, run_perform, exec, hv]
  · exact ⟨evs, u, hR, hu.encoder, hu.streamGood, .inr ⟨by simp [Session.read, run_bind, ho],
      hu.emitted hl⟩⟩

/-- Virtual calls as events. -/
def made (calls : List Call) : Log := calls.map fun c => .callback c.1 c.2

@[simp] theorem made_nil : made [] = [] := rfl

@[simp] theorem made_append (a b : List Call) : made (a ++ b) = made a ++ made b := by
  simp [made]

/-- What a sequence of virtual calls does: all come back, or one throws. -/
def Calls (E : Environment) (calls : List Callback) (p : JobM Unit) : Prop :=
  ∀ w e, w.encoder = some e → e.destination = true → ∃ cs u, w.Emitted (made cs) u ∧
    u.encoder = some e ∧
    ((p.run (exec E) w = (.ok (), u) ∧ cs = completed calls ∧ ∀ cb ∈ calls, e.admits cb) ∨
      (p.run (exec E) w = (.error .raised, u) ∧ e.Thrown calls cs))

theorem calls_nil : Calls E [] (.ret ()) :=
  fun w e he _ => ⟨[], w, .refl w, he, .inl ⟨rfl, rfl, by simp⟩⟩

theorem calls_callback (cb : Callback) : Calls E [cb] (callback cb) := by
  intro w e he _
  refine ⟨[(cb, Encoder.completes e E w.log cb)], w.call E e cb,
    ⟨rfl, rfl, fun _ => rfl, rfl, rfl, rfl⟩, he, ?_⟩
  cases hc : Encoder.completes e E w.log cb with
  | true =>
    refine .inl ⟨by simp [callback, run_bind, run_perform, exec, he, hc], rfl, ?_⟩
    simp only [Encoder.completes, Bool.and_eq_true] at hc
    simpa using hc.1
  | false =>
    refine .inr ⟨by simp [callback, run_bind, run_perform, exec, he, hc],
      .intro (List.nil_append [cb]).symm (by simp) ?_⟩
    cases ha : e.admits cb <;> simp_all [Encoder.completes, Encoder.mayThrow]

theorem Calls.bind {a b : List Callback} {p q : JobM Unit} (hp : Calls E a p)
    (hq : Calls E b q) : Calls E (a ++ b) (p >>= fun _ => q) := by
  intro w e he hd
  obtain ⟨cs, u, hu, he', ⟨hr, rfl, ha⟩ | ⟨hr, hcs⟩⟩ := hp w e he hd
  · obtain ⟨cs', v, hv, he'', ⟨hr', rfl, hb⟩ | ⟨hr', hcs'⟩⟩ := hq u e he' hd
    · exact ⟨_, v, made_append _ _ ▸ hu.trans hv, he'', .inl ⟨by simp [run_bind, hr, hr'],
        by simp, List.forall_mem_append.2 ⟨ha, hb⟩⟩⟩
    · exact ⟨_, v, made_append _ _ ▸ hu.trans hv, he'', .inr ⟨by simp [run_bind, hr, hr'],
        hcs'.append_left ha⟩⟩
  · exact ⟨_, u, hu, he', .inr ⟨by simp [run_bind, hr], hcs.append_right b⟩⟩

theorem calls_callbackIf (c : Prop) [Decidable c] (cb : Callback) :
    Calls E (if c then [cb] else []) (callbackIf c cb) := by
  unfold callbackIf
  split_ifs
  · exact calls_callback cb
  · exact calls_nil

/-- The calls of a line in the order of `writeLine`: the encoder advances
before an image that the line completes is ended. -/
theorem run_writeLine {w : World} {e : Encoder} (line : List UInt8) (he : w.encoder = some e)
    (hd : e.destination = true) : ∃ cs u e', w.Emitted (made cs) u ∧ u.encoder = some e' ∧
      e'.destination = true ∧
      (((writeLine line).run (exec E) w = (.ok (), u) ∧ cs = completed (e.lineCalls line) ∧
          e' = e.advance ∧ ∀ cb ∈ e.lineCalls line, e.admits cb) ∨
        ((writeLine line).run (exec E) w = (.error .raised, u) ∧
          e.Thrown (e.lineCalls line) cs)) := by
  have hbegin := ((calls_callbackIf (E := E) (e.currentLine = 0 ∧ e.currentImage = 0)
    .onDocumentBegin).bind (calls_callbackIf (e.currentLine = 0) .onImageBegin)).bind
      (calls_callback (.onWriteLine line))
  have hend := calls_callbackIf (E := E) (e.advance.currentLine = 0) .onImageEnd
  have hcalls : e.lineCalls line = (if e.currentLine = 0 ∧ e.currentImage = 0 then
      [.onDocumentBegin] else []) ++ (if e.currentLine = 0 then [.onImageBegin] else []) ++
        [.onWriteLine line] ++ if e.advance.currentLine = 0 then [.onImageEnd] else [] := rfl
  have hlast {cb : Callback} (h : cb ∈ if e.advance.currentLine = 0 then [Callback.onImageEnd]
      else []) : cb = .onImageEnd := by
    split_ifs at h <;> simp_all
  have htext : (writeLine line).run (exec E) w =
      (((callbackIf (e.currentLine = 0 ∧ e.currentImage = 0) .onDocumentBegin >>=
        fun _ => callbackIf (e.currentLine = 0) .onImageBegin) >>=
          fun _ => callback (.onWriteLine line)) >>= fun _ =>
            access (.storeEncoder e.advance) >>= fun _ =>
              callbackIf (e.advance.currentLine = 0) .onImageEnd).run (exec E) w := by
    rw [writeLine, run_bind, run_perform]
    simp [exec, he, hd, callbackIf]
  rw [htext, run_bind, hcalls]
  obtain ⟨cs, u, hu, he', ⟨hr, rfl, ha⟩ | ⟨hr, hcs⟩⟩ := hbegin w e he hd
  · have hadv : u.Emitted [] { u with encoder := some e.advance } :=
      ⟨rfl, rfl, fun _ => rfl, rfl, rfl, by simp⟩
    obtain ⟨cs', v, hv, he'', hend⟩ :=
      hend { u with encoder := some e.advance } e.advance rfl (by simpa using hd)
    refine ⟨_, v, e.advance, made_append _ _ ▸ hu.trans (hadv.trans hv), he'',
      by simpa using hd, ?_⟩
    simp only [hr, run_bind, run_perform, exec]
    rcases hend with ⟨hr', rfl, -⟩ | ⟨hr', hcs'⟩
    · refine .inl ⟨hr', (completed_append _ _).symm, trivial, ?_⟩
      refine List.forall_mem_append.2 ⟨ha, fun cb hcb => ?_⟩
      rw [hlast hcb]
      rfl
    · refine .inr ⟨hr', Encoder.Thrown.append_left ha
        (hcs'.congr (fun cb hcb => ?_) fun cb hcb => ?_)⟩
      · rw [hlast hcb]
        rfl
      · rw [hlast hcb]
        simp [Encoder.callsLibrary, Encoder.overrides]
  · exact ⟨cs, u, e, hu, he', hd, .inr ⟨by simp only [hr], hcs.append_right _⟩⟩

/-- A line that could not be sent: a call threw, or the response did not take
the output. -/
inductive Unsent (e : Encoder) (calls : List Callback) : List Call → Log → Prop where
  | thrown {cs : List Call} (h : e.Thrown calls cs) : Unsent e calls cs []
  | unflushed (h : ∀ cb ∈ calls, e.admits cb) : Unsent e calls (completed calls) [.flush false]

theorem run_sendLine {w : World} {e : Encoder} (line : List UInt8) (he : w.encoder = some e)
    (hd : e.destination = true) : ∃ cs evs u e', w.Emitted (made cs ++ evs) u ∧
      u.encoder = some e' ∧ e'.destination = true ∧
      (((sendLine s line).run (exec E) w = (.ok (), u) ∧ e' = e.advance ∧
          cs = completed (e.lineCalls (s.processed line)) ∧ evs = [.flush true] ∧
          u.streamGood = true ∧ ∀ cb ∈ e.lineCalls (s.processed line), e.admits cb) ∨
        ((sendLine s line).run (exec E) w = (.error .raised, u) ∧
          Unsent e (e.lineCalls (s.processed line)) cs evs)) := by
  obtain ⟨cs, u, e', hu, he', hd', ⟨hr, rfl, rfl, ha⟩ | ⟨hr, hcs⟩⟩ :=
    run_writeLine (E := E) (s.processed line) he hd
  · have hflush : u.Emitted [.flush (u.streamGood && E.stream u.log)] (u.flushed E) :=
      ⟨rfl, rfl, fun _ => rfl, rfl, rfl, rfl⟩
    refine ⟨_, _, u.flushed E, e.advance, hu.trans hflush, he', hd', ?_⟩
    cases hf : u.streamGood && E.stream u.log with
    | true => exact .inl ⟨by simp [sendLine, run_bind, hr, run_perform, exec, hf], rfl, rfl, rfl,
        by simpa [World.flushed, World.record] using hf, ha⟩
    | false =>
      exact .inr ⟨by simp [sendLine, run_bind, hr, run_perform, exec, hf], .unflushed ha⟩
  · exact ⟨cs, [], u, e', by simpa using hu, he', hd',
      .inr ⟨by simp [sendLine, run_bind, hr], .thrown hcs⟩⟩

/-- One pass of the inner loop that goes round again. -/
inductive LineStep (s : Settings) (i : SessionId) (w : World) : SaneStatus × World → Prop where
  | ended {st : SaneStatus} {line : List UInt8} {reads : Log} {u : World} (h : st ≠ .good)
      (hr : Reads (w.device i) reads) (hu : w.Emitted (reads ++ [.sessionRead st line]) u)
      (he : u.encoder = w.encoder) (hs : u.streamGood = w.streamGood) : LineStep s i w (st, u)
  | written {line : List UInt8} {reads : Log} {u : World} {e : Encoder}
      (hr : Reads (w.device i) reads) (he : w.encoder = some e)
      (hu : w.Emitted (reads ++ [.sessionRead .good line] ++
        (made (completed (e.lineCalls (s.processed line))) ++ [.flush true])) u)
      (he' : u.encoder = some e.advance) (hs : u.streamGood = true)
      (ha : ∀ cb ∈ e.lineCalls (s.processed line), e.admits cb) : LineStep s i w (.good, u)
  | failed {line : List UInt8} {reads evs : Log} {cs : List Call} {u : World} {e e' : Encoder}
      (hr : Reads (w.device i) reads) (he : w.encoder = some e)
      (hevs : Unsent e (e.lineCalls (s.processed line)) cs evs)
      (hu : w.Emitted (reads ++ [.sessionRead .good line] ++ (made cs ++ evs)) u)
      (he' : u.encoder = some e') (hd : e'.destination = true) :
    LineStep s i w (.good, (u.become .aborted PWG_ERRORS_DETECTED).closed)

theorem run_linePass_leave {st : SaneStatus} {w : World}
    (h : ¬ (st = .good ∧ w.streamGood = true ∧ w.state = .processing)) (fuel size : ℕ) :
    (linePass s fuel size st).run (exec E) w = (.ok (.inr st), w) := by
  by_cases hst : st = .good
  · by_cases hg : w.streamGood = true
    · have hp : w.state ≠ .processing := fun hp => h ⟨hst, hg, hp⟩
      simp [linePass, continues, run_bind, run_perform, exec, isProcessing, hst, hg, hp]
    · simp [linePass, continues, run_bind, run_perform, exec, hst, hg]
  · simp [linePass, continues, hst]

theorem run_linePass {w : World} {i : SessionId} {e : Encoder} (hg : w.streamGood = true)
    (hp : w.state = .processing) (hi : w.session = some i) (he : w.encoder = some e)
    (hd : e.destination = true) (fuel size : ℕ) :
    (∃ st u, (linePass s fuel size .good).run (exec E) w = (.ok (.inl st), u) ∧
        LineStep s i w (st, u)) ∨
      ∃ reads u, (linePass s fuel size .good).run (exec E) w = (.error .spinning, u) ∧
        Reads (w.device i) reads ∧ w.Emitted reads u := by
  obtain ⟨reads, u, hr, hue, hus, ⟨st, line, ho, hu⟩ | ⟨ho, hu⟩⟩ :=
    run_read (E := E) fuel i size w
  · by_cases hst : st = .good
    · subst hst
      obtain ⟨cs, evs, v, e', hv, he', hd', ⟨hs, rfl, rfl, rfl, hstream, ha⟩ | ⟨hs, hevs⟩⟩ :=
        run_sendLine (E := E) (s := s) line (hue.trans he) hd
      · refine .inl ⟨.good, v, ?_, .written hr he (hu.trans hv) he' hstream ha⟩
        simp [linePass, continues, run_bind, run_perform, exec, isProcessing, hg, hp, hi, ho,
          run_tryCatch, hs]
      · refine .inl ⟨.good, _, ?_, .failed hr he hevs (hu.trans hv) he' hd'⟩
        simp [linePass, continues, run_bind, run_perform, exec, isProcessing, hg, hp, hi, ho,
          run_tryCatch, hs, run_setState, run_closeSession]
    · refine .inl ⟨st, u, ?_, .ended hst hr hu hue hus⟩
      simp [linePass, continues, run_bind, run_perform, exec, isProcessing, hg, hp, hi, ho, hst]
  · refine .inr ⟨reads, u, ?_, hr, hu⟩
    simp [linePass, continues, run_bind, run_perform, exec, isProcessing, hg, hp, hi, ho]

end AirSane.ScanJob
