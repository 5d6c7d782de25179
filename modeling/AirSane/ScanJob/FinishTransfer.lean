import AirSane.ScanJob.Images

/-! # What `finishTransfer` does

Nothing for a job that is not processing. Otherwise it makes an encoder, fails
for an unknown format or for line lengths that disagree, or sends page after
page until the job is no longer processing; an encoder is told the end in any
case.
-/

namespace AirSane.ScanJob
open Programs Program

variable {E : Environment} {s : Settings}

namespace Settings

def colorspace (s : Settings) : Colorspace := if s.colorScan then .rgb else .grayscale

/-- The encoder as `finishTransfer` sets it up for a frame. -/
def setUp (s : Settings) (kind : EncoderKind) (p : SaneParameters) : Encoder :=
  Encoder.refresh { Encoder.new kind with
    dpi := s.res_dpi
    colorspace := s.colorspace
    width := p.pixelsPerLine
    height := p.lines
    bitDepth := p.depth
    destination := true }

/-- The comparison of line lengths before the first page. -/
def LineLengthsAgree (s : Settings) (p : SaneParameters) : Prop :=
  (Encoder.int32 (Encoder.componentsOf s.colorspace * p.pixelsPerLine * p.depth)).tdiv 8 =
    s.expectedBytesPerLine p

instance (s : Settings) (p : SaneParameters) : Decidable (s.LineLengthsAgree p) :=
  inferInstanceAs (Decidable (_ = _))

end Settings

namespace World

/-- The job with the stream of a response and without an encoder. -/
def attached (w : World) (good : Bool) : World := { w with streamGood := good, encoder := none }

def withEncoder (w : World) (e : Encoder) : World := { w with encoder := some e }

end World

@[simp] theorem World.withEncoder_state (w : World) (e : Encoder) :
    (w.withEncoder e).state = w.state := rfl

@[simp] theorem World.withEncoder_session (w : World) (e : Encoder) :
    (w.withEncoder e).session = w.session := rfl

@[simp] theorem World.withEncoder_sessions (w : World) (e : Encoder) :
    (w.withEncoder e).sessions = w.sessions := rfl

@[simp] theorem World.withEncoder_encoder (w : World) (e : Encoder) :
    (w.withEncoder e).encoder = some e := rfl

theorem run_setParameter (w : World) {e : Encoder} {set : Encoder → Encoder}
    (hc : (set e).currentLine = 0) :
    (setParameter set).run (exec E) (w.withEncoder e) =
      (.ok (), w.withEncoder (set e).refresh) := by
  simp [setParameter, onParamChange, run_bind, run_perform, exec, hc, World.withEncoder]

theorem run_setUpEncoder {w : World} {i : SessionId} (kind : EncoderKind)
    (hp : w.state = .processing) (hi : w.session = some i) :
    (setUpEncoder s).run (exec E) (w.withEncoder (.new kind)) =
      (.ok (), if s.LineLengthsAgree (w.sessions i).parameters then
          w.withEncoder (s.setUp kind (w.sessions i).parameters)
        else (w.withEncoder (s.setUp kind (w.sessions i).parameters)).become .aborted
          PWG_ERRORS_DETECTED) := by
  have hagree : (s.setUp kind (w.sessions i).parameters).bytesPerLine =
      s.expectedBytesPerLine (w.sessions i).parameters ↔
        s.LineLengthsAgree (w.sessions i).parameters := .rfl
  set p := (w.sessions i).parameters with hpar
  have hnew : (Encoder.new kind).currentLine = 0 := rfl
  simp only [setUpEncoder, isProcessing, run_bind, run_perform, exec, World.withEncoder_state, hp,
    decide_true, if_true]
  rw [setResolutionDpi, run_setParameter w hnew]
  simp only
  rw [setColorspace, run_setParameter w rfl]
  simp only [World.withEncoder_session, hi, Option.map, World.withEncoder_sessions, ← hpar]
  rw [setWidth, run_setParameter w rfl]
  simp only
  rw [setHeight, run_setParameter w rfl]
  simp only
  rw [setBitDepth, run_setParameter w rfl]
  simp only
  rw [setDestination, run_setParameter w rfl]
  simp only [World.withEncoder_encoder]
  change (if (s.setUp kind p).bytesPerLine ≠ s.expectedBytesPerLine p then
    setState .aborted PWG_ERRORS_DETECTED else .ret ()).run (exec E)
      (w.withEncoder (s.setUp kind p)) = _
  by_cases h : s.LineLengthsAgree p <;> simp [hagree, h, run_setState]

/-- The last part of `finishTransfer`. -/
theorem run_endDocument {w : World} {e : Encoder} (he : w.encoder = some e)
    (hd : e.destination = true) :
    endDocument.run (exec E) w = (.ok (), w.call E e .onDocumentEnd) := by
  have hc : Encoder.completes e E w.log .onDocumentEnd = true := by
    simp [Encoder.completes, Encoder.admits, Encoder.callsLibrary, Encoder.overrides]
  simp [endDocument, callbackIf, callback, run_bind, run_perform, exec, he, hd, hc]

theorem World.call_emitted (w : World) (e : Encoder) :
    w.Emitted [.callback .onDocumentEnd true] (w.call E e .onDocumentEnd) := by
  have hc : Encoder.completes e E w.log .onDocumentEnd = true := by
    simp [Encoder.completes, Encoder.admits, Encoder.callsLibrary, Encoder.overrides]
  exact ⟨rfl, rfl, fun _ => rfl, rfl, rfl, by rw [World.call, hc]; rfl⟩

/-- The job as the loop of `finishTransfer` finds it. -/
inductive SetUp (s : Settings) (good : Bool) (w : World) (i : SessionId) : World → Prop where
  | idle (hp : w.state ≠ .processing) : SetUp s good w i (w.attached good)
  | unsupported (hp : w.state = .processing)
      (hf : EncoderKind.ofDocumentFormat s.documentFormat = none) :
    SetUp s good w i ((w.attached good).become .aborted PWG_UNSUPPORTED_DOCUMENT_FORMAT)
  | disagreeing {kind : EncoderKind} (hp : w.state = .processing) (hi : w.session = some i)
      (hf : EncoderKind.ofDocumentFormat s.documentFormat = some kind)
      (hl : ¬ s.LineLengthsAgree (w.sessions i).parameters) :
    SetUp s good w i (((w.attached good).withEncoder
      (s.setUp kind (w.sessions i).parameters)).become .aborted PWG_ERRORS_DETECTED)
  | ready {kind : EncoderKind} (hp : w.state = .processing) (hi : w.session = some i)
      (hf : EncoderKind.ofDocumentFormat s.documentFormat = some kind)
      (hl : s.LineLengthsAgree (w.sessions i).parameters) :
    SetUp s good w i ((w.attached good).withEncoder (s.setUp kind (w.sessions i).parameters))

theorem run_createEncoder {w : World} {kind : EncoderKind} {good : Bool}
    (hp : w.state = .processing) (hf : EncoderKind.ofDocumentFormat s.documentFormat = some kind) :
    (access (.attachStream good) >>= fun _ => createEncoder s).run (exec E) w =
      (.ok (), (w.attached good).withEncoder (.new kind)) := by
  simp [createEncoder, isProcessing, run_bind, run_perform, exec, hp, hf, World.attached,
    World.withEncoder]

theorem run_setUp {w : World} {i : SessionId}
    (hi : w.state = .processing → EncoderKind.ofDocumentFormat s.documentFormat ≠ none →
      w.session = some i) (good : Bool) : ∃ v, SetUp s good w i v ∧
      (access (.attachStream good) >>= fun _ => createEncoder s >>= fun _ =>
        setUpEncoder s).run (exec E) w = (.ok (), v) := by
  by_cases hp : w.state = .processing
  · cases hf : EncoderKind.ofDocumentFormat s.documentFormat with
    | none =>
      refine ⟨_, .unsupported hp hf, ?_⟩
      simp [createEncoder, setUpEncoder, isProcessing, run_bind, run_perform, exec, hp, hf,
        run_setState, World.attached, World.become]
    | some kind =>
      have hi' := hi hp (by simp [hf])
      rw [← bind_assoc, run_bind, run_createEncoder hp hf]
      simp only
      rw [run_setUpEncoder kind (w := w.attached good) hp hi']
      by_cases hl : s.LineLengthsAgree (w.sessions i).parameters
      · exact ⟨_, .ready hp hi' hf hl, by simp [World.attached, hl]⟩
      · exact ⟨_, .disagreeing hp hi' hf hl, by simp [World.attached, hl]⟩
  · refine ⟨_, .idle hp, ?_⟩
    simp [createEncoder, setUpEncoder, isProcessing, run_bind, run_perform, exec, hp,
      World.attached]

/-- How a transfer ends, from the world in which its loop starts. -/
inductive Transferred (E : Environment) (s : Settings) (i : SessionId) (w : World) :
    Except Stop Unit × World → Prop where
  | formatless (hw : w.state ≠ .processing) (he : w.encoder = none) :
    Transferred E s i w (.ok (), w)
  | ended {u : World} {e : Encoder} (h : ImageRun s i w u) (hu : u.state ≠ .processing)
      (he : u.encoder = some e) : Transferred E s i w (.ok (), u.call E e .onDocumentEnd)
  | stopped {u v : World} {e : Stop} (h : ImageRun s i w u) (hv : ImageStop s i u e v) :
    Transferred E s i w (.error e, v)

theorem SetUp.sending {good : Bool} {w v : World} {i : SessionId} (h : SetUp s good w i v)
    (hv : v.encoder ≠ none) : v.Sending i := by
  cases h with
  | idle | unsupported => exact absurd rfl hv
  | disagreeing hp hi hf hl =>
    exact ⟨.inr rfl, fun h => absurd h (by simp [World.become]), _, rfl, rfl⟩
  | ready hp hi hf hl => exact ⟨.inl hp, fun _ => hi, _, rfl, rfl⟩

theorem ImageRun.encoder {w u : World} {i : SessionId} (h : ImageRun s i w u)
    (hw : w.Sending i) : ∃ e, u.encoder = some e ∧ e.destination = true := by
  induction h with
  | refl => exact hw.encoder
  | tail hchain hstep _ =>
    exact hstep.2.encoder (ImageRun.sending hchain (fun _ => hw) hstep.1)

theorem ImageRun.eq_of_idle {w u : World} {i : SessionId} (h : ImageRun s i w u)
    (hw : w.state ≠ .processing) : u = w := by
  rcases Relation.ReflTransGen.cases_head h with rfl | ⟨v, ⟨hp, -⟩, -⟩
  · rfl
  · exact absurd hp hw

/-- After the set-up `finishTransfer` is its outer loop and the last call. -/
theorem run_finishTransfer_loop {w v : World} {good : Bool}
    (h : (access (.attachStream good) >>= fun _ => createEncoder s >>= fun _ =>
      setUpEncoder s).run (exec E) w = (.ok (), v)) (fuel : ℕ) :
    (finishTransfer s fuel good).run (exec E) w =
      (iterate (imagePass s fuel) fuel () >>= fun _ => access .testEncoder >>= fun b =>
        if b then endDocument else return ()).run (exec E) v := by
  have hassoc : finishTransfer s fuel good =
      (access (.attachStream good) >>= fun _ => createEncoder s >>= fun _ => setUpEncoder s) >>=
        fun _ => iterate (imagePass s fuel) fuel () >>= fun _ => access .testEncoder >>= fun b =>
          if b then endDocument else return () := by
    simp [finishTransfer]
  rw [hassoc, run_bind, h]

theorem run_finishTransfer {w : World} {i : SessionId}
    (hi : w.state = .processing → EncoderKind.ofDocumentFormat s.documentFormat ≠ none →
      w.session = some i) (fuel : ℕ) (good : Bool) :
    ∃ v, SetUp s good w i v ∧
      Transferred E s i v ((finishTransfer s fuel good).run (exec E) w) := by
  obtain ⟨v, hv, ho⟩ := run_setUp (E := E) (s := s) hi good
  refine ⟨v, hv, ?_⟩
  have hsend : v.state = .processing → v.Sending i := fun hp => by
    cases hv with
    | idle h => exact absurd hp h
    | unsupported | disagreeing => simp [World.become] at hp
    | ready hp hi hf hl => exact ⟨.inl hp, fun _ => hi, _, rfl, rfl⟩
  rw [run_finishTransfer_loop ho, run_bind]
  obtain ⟨u, hrun, ⟨hu, hr⟩ | ⟨e, x, hr, hstop⟩⟩ :=
    run_images (E := E) (s := s) hsend fuel fuel
  · cases he : v.encoder with
    | none =>
      have hp : v.state ≠ .processing := fun hp => by
        obtain ⟨e, he', -⟩ := (hsend hp).encoder
        simp [he] at he'
      obtain rfl := hrun.eq_of_idle hp
      have hend : (access .testEncoder >>= fun b =>
          if b then endDocument else return ()).run (exec E) u = (.ok (), u) := by
        simp [run_bind, run_perform, exec, he]
      simpa only [hr, hend] using .formatless hu he
    | some e =>
      obtain ⟨e', he', hd'⟩ := hrun.encoder (hv.sending (by simp [he]))
      have hend : (access .testEncoder >>= fun b =>
          if b then endDocument else return ()).run (exec E) u =
            (.ok (), u.call E e' .onDocumentEnd) := by
        simp [run_bind, run_perform, exec, he', run_endDocument he' hd']
      simpa only [hr, hend] using .ended hrun hu he'
  · simpa only [hr] using .stopped hrun hstop

/-- A transfer that ends had the session it needed. -/
theorem session_of_finishTransfer {w w' : World} {fuel : ℕ} {good : Bool}
    (h : (finishTransfer s fuel good).run (exec E) w = (.ok (), w')) :
    ∃ i, w.state = .processing → EncoderKind.ofDocumentFormat s.documentFormat ≠ none →
      w.session = some i := by
  cases hs : w.session with
  | some i => exact ⟨i, fun _ _ => rfl⟩
  | none =>
    refine ⟨0, fun hp hf => ?_⟩
    obtain ⟨kind, hk⟩ := Option.ne_none_iff_exists'.1 hf
    have hset : ((setUpEncoder s).run (exec E)
        ((w.attached good).withEncoder (.new kind))).1 = .error .faulted := by
      simp only [setUpEncoder, isProcessing, run_bind, run_perform, exec, World.withEncoder_state,
        World.attached, hp, decide_true, if_true]
      rw [setResolutionDpi, run_setParameter _ rfl]
      simp only
      rw [setColorspace, run_setParameter _ rfl]
      simp only [World.withEncoder_session, hs, Option.map]
    have htext : finishTransfer s fuel good =
        (access (.attachStream good) >>= fun _ => createEncoder s) >>= fun _ =>
          setUpEncoder s >>= fun _ => iterate (imagePass s fuel) fuel () >>= fun _ =>
            access .testEncoder >>= fun b => if b then endDocument else return () := by
      simp [finishTransfer]
    rw [htext, run_bind, run_createEncoder hp hk] at h
    simp only at h
    rw [run_bind] at h
    generalize (setUpEncoder s).run (exec E) ((w.attached good).withEncoder (.new kind)) = r at *
    rcases r with ⟨x, u⟩
    simp only at hset
    subst hset
    simp at h

theorem run_finishTransfer_idle {w : World} (hp : w.state ≠ .processing) (fuel : ℕ) (good : Bool) :
    ((finishTransfer s fuel good).run (exec E) w).2 = w.attached good := by
  cases fuel <;> simp [finishTransfer, createEncoder, setUpEncoder, isProcessing, run_bind,
    run_perform, exec, hp, iterate, run_imagePass_leave, World.attached]

/-- A job at its first page, before and after `finishTransfer`. -/
def firstPage (E : Environment) (s : Settings) : World :=
  ((beginTransfer s 9).run (exec E) (.initial true)).2

def firstTransfer (E : Environment) (s : Settings) : Except Stop Unit × World :=
  (finishTransfer s 9 true).run (exec E) (firstPage E s)

theorem run_firstPage (h : ((beginTransfer s 9).run (exec E) (.initial true)).1 = .ok true) :
    (beginTransfer s 9).run (exec E) (.initial true) = (.ok true, firstPage E s) :=
  Prod.ext h rfl

theorem run_firstTransfer (h : (firstTransfer E s).1 = .ok ()) :
    (finishTransfer s 9 true).run (exec E) (firstPage E s) = (.ok (), (firstTransfer E s).2) :=
  Prod.ext h rfl

end AirSane.ScanJob
