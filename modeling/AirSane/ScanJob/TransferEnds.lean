import AirSane.ScanJob.TransferHalts

/-! # Transfers that do not end

Where the lines of a frame have no length, no line brings the transfer further, and a
PDF document takes empty lines for ever. A negative length crashes the transfer.
-/

namespace AirSane.ScanJob
open Programs Program

variable {E : Environment} {s : Settings}

section Spinning
variable {w : World} {i : SessionId}

/-- The commands of an encoder. -/
def encoderUse : Discipline Command Answer Unit where
  allowed _
    | .loadEncoder | .storeEncoder _ | .callback _ => True
    | _ => False
  next _ _ _ := ()

theorem obeys_writeLine (line : List UInt8) :
    (writeLine line).Obeys encoderUse (fun _ _ => True) (fun _ => True) () := by
  simp [writeLine, callbackIf, callback, access, perform, obeys_command, encoderUse]

/-- Where no write fails the stream stays good. -/
theorem streamGood_writeLine (hE : ∀ log, E.stream log = true) (hw : w.streamGood = true)
    (line : List UInt8) : ((writeLine line).run (exec E) w).2.streamGood = true := by
  have hkeep (m : Unit) (c : Command) (v : World) (x : Answer c) (v' : World)
      (hc : encoderUse.allowed m c) (hx : exec E c v = some (x, v')) (hv : v.streamGood = true) :
      v'.streamGood = true := by
    cases c with
    | loadEncoder =>
      obtain ⟨e, -, he⟩ := Option.map_eq_some_iff.1 hx
      rw [← (Prod.mk.inj he).2]
      exact hv
    | storeEncoder e =>
      obtain rfl : { v with encoder := some e } = v' := by simpa [exec] using hx
      exact hv
    | callback cb =>
      obtain ⟨e, -, he⟩ := Option.map_eq_some_iff.1 hx
      rw [← (Prod.mk.inj he).2]
      simp [World.call, World.record, Encoder.keepsStream, hE, hv]
    | _ => exact hc.elim
  obtain ⟨_, h⟩ := (obeys_writeLine line).run (exec E) (fun _ v => v.streamGood = true) hkeep hw
  exact h

/-- A PDF document that takes every line. -/
structure World.Accepting (w : World) (i : SessionId) : Prop where
  state : w.state = .processing
  streamGood : w.streamGood = true
  session : w.session = some i
  encoder : ∃ e, w.encoder = some e ∧ e.destination = true ∧ e.kind = .pdf ∧ e.dpi ≠ 0

theorem mayThrow_pdf {e : Encoder} (hk : e.kind = .pdf) (hd : e.dpi ≠ 0) (cb : Callback) :
    e.mayThrow cb = false := by
  cases cb <;> simp [Encoder.mayThrow, Encoder.admits, Encoder.callsLibrary, hk, hd]

theorem World.Accepting.sendLine (hE : ∀ log, E.stream log = true) (h : w.Accepting i)
    (line : List UInt8) :
    ∃ u, (ScanJob.sendLine s line).run (exec E) w = (.ok (), u) ∧ u.Accepting i := by
  obtain ⟨e, he, hd, hk, hdpi⟩ := h.encoder
  have hstream := streamGood_writeLine (w := w) hE h.streamGood (s.processed line)
  obtain ⟨cs, u, e', hu, he', hd', ⟨hr, -, rfl, -⟩ | ⟨hr, hcs⟩⟩ :=
    run_writeLine (E := E) (s.processed line) he hd
  · simp only [hr] at hstream
    refine ⟨u.flushed E, by simp [ScanJob.sendLine, run_bind, run_perform, exec, hr, hstream, hE],
      hu.state.trans h.state, by simp [World.flushed, World.record, hstream, hE],
      hu.session.trans h.session, _, he', hd', by simpa using hk, by simpa using hdpi⟩
  · cases hcs with
    | intro _ _ hc => simp [mayThrow_pdf hk hdpi] at hc

/-- An empty buffer is full without a call of `sane_read`. -/
theorem run_read_empty (m : ℕ) (i : SessionId) (w : World) :
    (Session.read (m + 1) i 0).run (exec E) w = (.ok (.good, []),
      (w.setSession i fun x => { x with status := .good }).record (.sessionRead .good [])) := by
  have hfull : (Session.readPass i 0 []).run (exec E) w = (.ok (.inr (.good, [])), w) :=
    run_readPass_full i w (Nat.lt_irrefl 0)
  simp [Session.read, iterate, run_bind, hfull, run_perform, exec]

theorem spins_lines (hE : ∀ log, E.stream log = true) (h : w.Accepting i) (m k : ℕ) :
    ∃ u, (iterate (linePass s m 0) k .good).run (exec E) w = (.error .spinning, u) := by
  induction k generalizing w with
  | zero => exact ⟨w, rfl⟩
  | succ k ih =>
    rw [iterate, run_bind, run_linePass_read h.streamGood h.state h.session]
    cases m with
    | zero => exact ⟨w, rfl⟩
    | succ m =>
      have hread := run_read_empty (E := E) m i w
      set v := (w.setSession i fun x => { x with status := .good }).record (.sessionRead .good [])
      have hv : v.Accepting i := ⟨h.state, h.streamGood, h.session, h.encoder⟩
      obtain ⟨u, hsend, hu⟩ := hv.sendLine (s := s) hE []
      obtain ⟨x, hx⟩ := ih hu
      exact ⟨x, by simp [run_bind, hread, run_tryCatch, hsend, hx]⟩

/-- A transfer whose first image cannot be gone through does not end. -/
theorem not_transferEnds {kind : EncoderKind} (hp : w.state = .processing)
    (hi : w.session = some i) (hk : EncoderKind.ofDocumentFormat s.documentFormat = some kind)
    (hl : s.LineLengthsAgree (w.sessions i).parameters)
    (himage : ∀ m, ∃ e u, (imagePass s m ()).run (exec E)
      ((w.attached true).withEncoder (s.setUp kind (w.sessions i).parameters)) = (.error e, u)) :
    ¬ TransferEnds E s w := by
  rintro ⟨_, u, -, n, hn⟩
  obtain ⟨v, hv, ho⟩ := run_setUp (E := E) (s := s) (fun _ _ => hi) true
  obtain rfl : v = (w.attached true).withEncoder (s.setUp kind (w.sessions i).parameters) := by
    cases hv with
    | idle h => exact absurd hp h
    | unsupported _ hf => simp [hk] at hf
    | disagreeing _ _ _ h => exact absurd hl h
    | ready _ _ hf _ => rw [Option.some.inj (hk.symm.trans hf)]
  obtain ⟨e, x, hx⟩ := himage (n + 1)
  have hrun := hn (n + 1) (Nat.le_succ n)
  rw [run_finishTransfer_loop ho, iterate, run_bind, run_bind, hx] at hrun
  simp at hrun

/-- Frames that a transfer does not come through: of a negative length, or of
empty lines that a document takes without end. -/
def Endless (E : Environment) (s : Settings) (w : World) : Prop :=
  w.frame.bytesPerLine < 0 ∨ w.frame.bytesPerLine = 0 ∧ s.documentFormat = MIME_TYPE_PDF ∧
    s.res_dpi ≠ 0 ∧ ∀ log, E.stream log = true

theorem endless_not_ends (kind : EncoderKind) (hp : w.state = .processing)
    (hi : w.session = some i) (hk : EncoderKind.ofDocumentFormat s.documentFormat = some kind)
    (hl : s.LineLengthsAgree w.frame) (h : Endless E s w) : ¬ TransferEnds E s w := by
  have hframe : w.frame = (w.sessions i).parameters := by simp [World.frame, hi]
  rw [hframe] at hl
  apply not_transferEnds hp hi hk hl
  intro m
  set v := (w.attached true).withEncoder (s.setUp kind (w.sessions i).parameters) with hv
  have hvp : v.state = .processing := hp
  have hvi : v.session = some i := hi
  rw [Endless, hframe] at h
  rcases h with hneg | ⟨hzero, hpdf, hdpi, hE⟩
  · exact ⟨_, v, run_imagePass_negative hvp hvi hneg m⟩
  · have hzero' : (v.sessions i).parameters.bytesPerLine = 0 := hzero
    have haccept : v.Accepting i :=
      ⟨hp, rfl, hi, _, rfl, rfl, (EncoderKind.ofDocumentFormat_eq_pdf hk).2 hpdf, hdpi⟩
    obtain ⟨u, hu⟩ := spins_lines (s := s) hE haccept m m
    refine ⟨.spinning, u, ?_⟩
    rw [run_imagePass_lines hvp hvi (by omega), hzero', Int.toNat_zero, run_bind, hu]

end Spinning

/-- A backend with one image. -/
def Environment.onePage (p : SaneParameters) (data : List UInt8) : Environment where
  __ := Environment.grained data .eof 1
  saneStart := (Environment.scripted p [.good] []).saneStart
  saneGetParameters := fun _ => (.good, p)

theorem saneStart_scripted {p : SaneParameters} {log : Log} (h : 0 < starts .good log) :
    (Environment.scripted p [.good] []).saneStart log ≠ .good := by
  obtain ⟨e, he, ha⟩ := List.countP_pos_iff.1 h
  simp only [Environment.scripted]
  rw [List.getD_eq_getElem?_getD, List.getElem?_eq_none]
  · exact SaneStatus.noConfusion
  · exact List.countP_pos_iff.2 ⟨e, he, by cases e <;> simp_all [Event.answersStart]⟩

theorem exhaustible_onePage (p : SaneParameters) (data : List UInt8) :
    (Environment.onePage p data).Exhaustible where
  pieces log maxLength hm h := by
    by_cases hd : data.length ≤ (received log).length
    · simp [Environment.onePage, Environment.grained, hd] at h
    · have hone : min 1 maxLength ≠ 0 := by omega
      simp [Environment.onePage, Environment.grained, hd, hone]
  bytes log := by
    refine ⟨data.length, fun evs _ hn maxLength => ?_⟩
    have hd : data.drop (received (log ++ evs)).length = [] := by
      apply List.drop_of_length_le
      rw [received_append, List.length_append]
      omega
    simp only [Environment.onePage, Environment.grained, hd, if_true]
    exact SaneStatus.noConfusion
  images log := by
    refine ⟨1, fun evs hn => saneStart_scripted (p := p) ?_⟩
    rw [starts_append]
    omega

end AirSane.ScanJob
