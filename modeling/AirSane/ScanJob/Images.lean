import AirSane.ScanJob.Lines

/-! # The pages of a transfer

A pass of the outer loop of `finishTransfer` sends the lines of one page, counts
the image, acts on the status that ended it and checks what was written.
-/

namespace AirSane.ScanJob
open Programs Program

variable {E : Environment} {s : Settings}

/-- The inner loop: passes made while lines keep coming and can be sent. -/
def LineRun (s : Settings) (i : SessionId) : SaneStatus × World → SaneStatus × World → Prop :=
  Relation.ReflTransGen fun a b =>
    a.1 = .good ∧ a.2.streamGood = true ∧ a.2.state = .processing ∧ LineStep s i a.2 b

/-- A running transfer has an encoder that writes somewhere; while it goes well
it also has its session. -/
structure World.Sending (w : World) (i : SessionId) : Prop where
  state : w.state = .processing ∨ w.state = .aborted
  session : w.state = .processing → w.session = some i
  encoder : ∃ e, w.encoder = some e ∧ e.destination = true

theorem LineStep.sending {w u : World} {st : SaneStatus} {i : SessionId}
    (h : LineStep s i w (st, u)) (hp : w.state = .processing) (hw : w.Sending i) : u.Sending i := by
  obtain ⟨e₀, he₀, hd₀⟩ := hw.encoder
  cases h with
  | ended _ _ hu he _ =>
    exact ⟨.inl (hu.state.trans hp), fun _ => hu.session.trans (hw.session hp), e₀,
      he.trans he₀, hd₀⟩
  | written _ he hu he' _ _ =>
    obtain rfl := Option.some.inj (he.symm.trans he₀)
    exact ⟨.inl (hu.state.trans hp), fun _ => hu.session.trans (hw.session hp), _, he',
      by simpa using hd₀⟩
  | failed _ _ _ _ he' hd => exact ⟨.inr rfl, fun h => by simp [World.become] at h, _, he', hd⟩

theorem LineRun.sending {a b : SaneStatus × World} {i : SessionId} (h : LineRun s i a b)
    (ha : a.2.Sending i) : b.2.Sending i := by
  induction h with
  | refl => exact ha
  | tail _ hstep ih => exact hstep.2.2.2.sending hstep.2.2.1 ih

theorem run_lines {w : World} {i : SessionId} (hw : w.Sending i) (fuel size fuel' : ℕ) :
    ∃ st u, LineRun s i (.good, w) (st, u) ∧
      (((iterate (linePass s fuel size) fuel' .good).run (exec E) w = (.ok st, u) ∧
          ¬ (st = .good ∧ u.streamGood = true ∧ u.state = .processing)) ∨
        ∃ reads v, (iterate (linePass s fuel size) fuel' .good).run (exec E) w =
          (.error .spinning, v) ∧ Reads (u.device i) reads ∧ u.Emitted reads v) := by
  obtain ⟨st, u, hchain, hend⟩ := run_iterate (exec E) (linePass s fuel size) fuel' .good w
  have hrun : LineRun s i (.good, w) (st, u) := by
    clear hend
    generalize hb : (st, u) = b at hchain
    clear hb
    induction hchain with
    | refl => exact .refl
    | @tail a b _ hstep ih =>
      by_cases hgo : a.1 = .good ∧ a.2.streamGood = true ∧ a.2.state = .processing
      · obtain ⟨hst, hg, hp⟩ := hgo
        have ha := ih.sending hw
        obtain ⟨e, he, hd⟩ := ha.encoder
        rcases run_linePass (E := E) (s := s) hg hp (ha.session hp) he hd fuel size with
          ⟨st', u', ho, hl⟩ | ⟨reads, u', ho, -⟩
        · rw [hst, ho] at hstep
          obtain ⟨h₁, rfl⟩ := Prod.mk.inj hstep
          obtain rfl : st' = b.1 := by simpa using h₁
          exact ih.tail ⟨hst, hg, hp, hl⟩
        · rw [hst, ho] at hstep
          simp at hstep
      · rw [run_linePass_leave hgo] at hstep
        simp at hstep
  refine ⟨st, u, hrun, ?_⟩
  by_cases hgo : st = .good ∧ u.streamGood = true ∧ u.state = .processing
  · obtain ⟨rfl, hg, hp⟩ := hgo
    have hu := hrun.sending hw
    obtain ⟨e, he, hd⟩ := hu.encoder
    rcases hend with ⟨a, v, hv, -⟩ | ⟨e', v, hv, ho⟩ | ho
    · rcases run_linePass (E := E) (s := s) hg hp (hu.session hp) he hd fuel size with
        ⟨st', u', ho', -⟩ | ⟨reads, u', ho', -⟩ <;> simp [ho'] at hv
    · rcases run_linePass (E := E) (s := s) hg hp (hu.session hp) he hd fuel size with
        ⟨st', u', ho', -⟩ | ⟨reads, u', ho', hr, hu'⟩
      · simp [ho'] at hv
      · obtain ⟨rfl, rfl⟩ : Stop.spinning = e' ∧ u' = v := by simpa [ho'] using hv
        exact .inr ⟨reads, u', ho, hr, hu'⟩
    · exact .inr ⟨[], u, ho, by simp [Reads], .refl u⟩
  · rw [run_linePass_leave hgo] at hend
    rcases hend with ⟨a, v, hv, ho⟩ | ⟨e', v, hv, -⟩ | ho
    · obtain ⟨rfl, rfl⟩ : st = a ∧ u = v := by simpa using hv
      exact .inl ⟨ho, hgo⟩
    · simp at hv
    · exact .inr ⟨[], u, ho, by simp [Reads], .refl u⟩

namespace World

/-- The final check: an encoder inside an image aborts the job, which keeps its
session. -/
def checked (w : World) (e : Encoder) : World :=
  if e.currentLine = 0 then w else w.become .aborted PWG_ERRORS_DETECTED

@[simp] theorem checked_log (w : World) (e : Encoder) : (w.checked e).log = w.log := by
  unfold checked
  split <;> rfl

@[simp] theorem checked_encoder (w : World) (e : Encoder) :
    (w.checked e).encoder = w.encoder := by
  unfold checked
  split <;> rfl

@[simp] theorem checked_session (w : World) (e : Encoder) :
    (w.checked e).session = w.session := by
  unfold checked
  split <;> rfl

@[simp] theorem checked_streamGood (w : World) (e : Encoder) :
    (w.checked e).streamGood = w.streamGood := by
  unfold checked
  split <;> rfl

@[simp] theorem checked_imagesCompleted (w : World) (e : Encoder) :
    (w.checked e).imagesCompleted = w.imagesCompleted := by
  unfold checked
  split <;> rfl

theorem settle_keeps {st : SaneStatus} (h : ¬ s.restarts st) (w : World) :
    (w.settle s st).encoder = w.encoder ∧ (w.settle s st).streamGood = w.streamGood ∧
      (w.settle s st).imagesCompleted = w.imagesCompleted := by
  rcases w.settle_cases h with ⟨-, hw⟩ | ⟨-, -, hw⟩ | ⟨adf, st', r, -, -, -, -, hw⟩ <;>
    simp [hw, become, withAdfStatus, closed]

end World

theorem run_finishImage {u : World} {i : SessionId} {e : Encoder} (hp : u.state = .processing)
    (hi : u.session = some i) (he : u.encoder = some e) (fuel : ℕ) (st : SaneStatus) :
    ∃ evs st' v, Restarted (u.device i) st evs st' ∧ (evs ≠ [] → s.kind = .adfConcat) ∧
      u.counted.Untouched v ∧ v.log = u.log ++ evs ∧
      (((finishImage s fuel st).run (exec E) u = (.ok (), (v.settle s st').checked e) ∧
          ¬ s.restarts st') ∨
        (finishImage s fuel st).run (exec E) u = (.error .spinning, v)) := by
  obtain ⟨evs, st', v, hr, hk, hv, hl, ho⟩ :=
    run_updateStatus (E := E) (s := s) fuel st (w := u.counted) hi
  refine ⟨evs, st', v, hr, hk, hv, hl, ?_⟩
  rcases ho with ⟨ho, hn⟩ | ho
  · refine .inl ⟨?_, hn⟩
    have hve : (v.settle s st').encoder = some e := by
      rw [(World.settle_keeps hn v).1, hv.encoder]
      exact he
    by_cases hc : e.currentLine = 0 <;>
      simp [finishImage, run_bind, run_perform, exec, isProcessing, hp, ho, hve, World.checked,
        Encoder.linesLeftInCurrentImage, hc, run_setState]
  · exact .inr (by simp [finishImage, run_bind, run_perform, exec, isProcessing, hp, ho])

/-- One pass of the outer loop that goes round again: a line could not be sent,
or the page was counted and its status acted upon. -/
inductive ImageStep (s : Settings) (i : SessionId) (w : World) : World → Prop where
  | broken {st : SaneStatus} {u : World} (h : LineRun s i (.good, w) (st, u))
      (hu : u.state ≠ .processing) : ImageStep s i w u
  | finished {st st' : SaneStatus} {u v : World} {e : Encoder} {evs : Log}
      (h : LineRun s i (.good, w) (st, u)) (hu : u.state = .processing)
      (hst : st ≠ .good ∨ u.streamGood = false) (he : u.encoder = some e)
      (hd : e.destination = true) (hr : Restarted (u.device i) st evs st')
      (hk : evs ≠ [] → s.kind = .adfConcat) (hv : u.counted.Untouched v)
      (hl : v.log = u.log ++ evs) (hn : ¬ s.restarts st') :
    ImageStep s i w ((v.settle s st').checked e)

/-- Where a pass of the outer loop may stop for good. -/
inductive ImageStop (s : Settings) (i : SessionId) (w : World) : Stop → World → Prop where
  | crashed : ImageStop s i w .crashed w
  | reading {st : SaneStatus} {u v : World} {reads : Log} (h : LineRun s i (.good, w) (st, u))
      (hr : Reads (u.device i) reads) (hv : u.Emitted reads v) : ImageStop s i w .spinning v
  | restarting {st st' : SaneStatus} {u v : World} {evs : Log}
      (h : LineRun s i (.good, w) (st, u)) (hr : Restarted (u.device i) st evs st')
      (hv : u.counted.Untouched v) (hl : v.log = u.log ++ evs) : ImageStop s i w .spinning v

theorem run_imagePass_leave {w : World} (h : w.state ≠ .processing) (fuel : ℕ) :
    (imagePass s fuel ()).run (exec E) w = (.ok (.inr ()), w) := by
  simp [imagePass, run_bind, run_perform, exec, isProcessing, h]

/-- The commands of a pass over an image whose lines have a length. -/
theorem run_imagePass_lines {w : World} {i : SessionId} (hp : w.state = .processing)
    (hi : w.session = some i) (hneg : ¬ (w.sessions i).parameters.bytesPerLine < 0) (fuel : ℕ) :
    (imagePass s fuel ()).run (exec E) w =
      (iterate (linePass s fuel (w.sessions i).parameters.bytesPerLine.toNat) fuel .good >>=
        fun status => finishImage s fuel status >>= fun _ => .ret (.inl ())).run (exec E) w := by
  simp [imagePass, run_bind, run_perform, exec, isProcessing, hp, hi, hneg]

theorem run_imagePass_negative {w : World} {i : SessionId} (hp : w.state = .processing)
    (hi : w.session = some i) (hneg : (w.sessions i).parameters.bytesPerLine < 0) (fuel : ℕ) :
    (imagePass s fuel ()).run (exec E) w = (.error .crashed, w) := by
  simp [imagePass, run_bind, run_perform, exec, isProcessing, hp, hi, hneg]

theorem run_imagePass {w : World} {i : SessionId} (hp : w.state = .processing) (hw : w.Sending i)
    (fuel : ℕ) :
    (∃ u, (imagePass s fuel ()).run (exec E) w = (.ok (.inl ()), u) ∧ ImageStep s i w u) ∨
      ∃ e u, (imagePass s fuel ()).run (exec E) w = (.error e, u) ∧ ImageStop s i w e u := by
  have hi := hw.session hp
  by_cases hneg : (w.sessions i).parameters.bytesPerLine < 0
  · exact .inr ⟨.crashed, w, run_imagePass_negative hp hi hneg fuel, .crashed⟩
  · rw [run_imagePass_lines hp hi hneg, run_bind]
    obtain ⟨st, u, hl, ⟨ho, hleave⟩ | ⟨reads, v, ho, hr, hv⟩⟩ :=
      run_lines (E := E) (s := s) hw fuel (w.sessions i).parameters.bytesPerLine.toNat fuel
    · have hu := hl.sending hw
      by_cases hup : u.state = .processing
      · obtain ⟨e, he, hd⟩ := hu.encoder
        obtain ⟨evs, st', v, hr, hk, hv, hlog, ⟨hf, hn⟩ | hf⟩ :=
          run_finishImage (E := E) (s := s) hup (hu.session hup) he fuel st
        · refine .inl ⟨_, by simp only [ho, run_bind, hf, run_ret],
            .finished hl hup ?_ he hd hr hk hv hlog hn⟩
          by_contra hc
          push Not at hc
          exact hleave ⟨hc.1, by simpa using hc.2, hup⟩
        · exact .inr ⟨.spinning, v, by simp only [ho, run_bind, hf], .restarting hl hr hv hlog⟩
      · refine .inl ⟨u, ?_, .broken hl hup⟩
        simp only [ho]
        simp [finishImage, run_bind, run_perform, exec, isProcessing, hup]
    · exact .inr ⟨.spinning, v, by simp only [ho], .reading hl hr hv⟩

theorem ImageStep.encoder {w u : World} {i : SessionId} (h : ImageStep s i w u)
    (hw : w.Sending i) : ∃ e, u.encoder = some e ∧ e.destination = true := by
  cases h with
  | broken h _ => exact (h.sending hw).encoder
  | @finished st st' x v e evs h _ _ he hd _ _ hv _ hn =>
    refine ⟨e, ?_, hd⟩
    have hve : (v.settle s st').encoder = some e := by
      rw [(World.settle_keeps hn v).1, hv.encoder]
      exact he
    rw [World.checked_encoder, hve]

theorem ImageStep.sending {w u : World} {i : SessionId} (h : ImageStep s i w u)
    (hw : w.Sending i) (hu : u.state = .processing) : u.Sending i := by
  refine ⟨.inl hu, fun _ => ?_, h.encoder hw⟩
  cases h with
  | broken _ h => exact absurd hu h
  | @finished st st' x v e evs h hx _ _ _ _ _ hv _ hn =>
    by_cases hc : e.currentLine = 0
    · simp only [World.checked, hc, if_true] at hu ⊢
      rcases v.settle_cases hn with ⟨-, hs⟩ | ⟨-, -, hs⟩ | ⟨adf, state, r, hne, -, -, -, hs⟩
      · rw [hs]
        exact hv.session.trans ((h.sending hw).session hx)
      · simp [hs, World.become] at hu
      · exact absurd (by simpa [hs, World.become] using hu) hne
    · simp [World.checked, hc, World.become] at hu

/-- The outer loop: passes made while the job is processing. -/
def ImageRun (s : Settings) (i : SessionId) : World → World → Prop :=
  Relation.ReflTransGen fun a b => a.state = .processing ∧ ImageStep s i a b

theorem ImageRun.sending {w u : World} {i : SessionId} (h : ImageRun s i w u)
    (hw : w.state = .processing → w.Sending i) (hu : u.state = .processing) : u.Sending i := by
  induction h with
  | refl => exact hw hu
  | tail _ hstep ih => exact hstep.2.sending (ih hstep.1) hu

theorem run_images {w : World} {i : SessionId} (hw : w.state = .processing → w.Sending i)
    (fuel fuel' : ℕ) : ∃ u, ImageRun s i w u ∧
      ((u.state ≠ .processing ∧
          (iterate (imagePass s fuel) fuel' ()).run (exec E) w = (.ok (), u)) ∨
        ∃ e v, (iterate (imagePass s fuel) fuel' ()).run (exec E) w = (.error e, v) ∧
          ImageStop s i u e v) := by
  obtain ⟨_, u, hchain, hend⟩ := run_iterate (exec E) (imagePass s fuel) fuel' () w
  have hrun : ImageRun s i w u := by
    clear hend
    generalize hb : ((_, u) : Unit × World) = b at hchain
    obtain rfl : u = b.2 := by rw [← hb]
    clear hb
    induction hchain with
    | refl => exact .refl
    | @tail a b _ hstep ih =>
      by_cases hp : a.2.state = .processing
      · rcases run_imagePass (E := E) (s := s) hp (ih.sending hw hp) fuel with
          ⟨u', ho, hi⟩ | ⟨e, u', ho, -⟩
        · rw [ho] at hstep
          obtain rfl : u' = b.2 := (Prod.mk.inj hstep).2
          exact ih.tail ⟨hp, hi⟩
        · simp [ho] at hstep
      · simp [run_imagePass_leave hp] at hstep
  refine ⟨u, hrun, ?_⟩
  by_cases hp : u.state = .processing
  · have hu := hrun.sending hw hp
    rcases hend with ⟨a, v, hv, -⟩ | ⟨e, v, hv, ho⟩ | ho
    · rcases run_imagePass (E := E) (s := s) hp hu fuel with
        ⟨u', ho', -⟩ | ⟨e', u', ho', -⟩ <;> simp [ho'] at hv
    · rcases run_imagePass (E := E) (s := s) hp hu fuel with
        ⟨u', ho', -⟩ | ⟨e', u', ho', hstop⟩
      · simp [ho'] at hv
      · obtain ⟨rfl, rfl⟩ : e' = e ∧ u' = v := by simpa [ho'] using hv
        exact .inr ⟨e', u', ho, hstop⟩
    · exact .inr ⟨_, u, ho, .reading .refl (reads_nil _) (.refl u)⟩
  · rw [run_imagePass_leave hp] at hend
    rcases hend with ⟨a, v, hv, ho⟩ | ⟨e, v, hv, -⟩ | ho
    · obtain rfl : u = v := by simpa using hv
      exact .inl ⟨hp, ho⟩
    · simp at hv
    · exact .inr ⟨_, u, ho, .reading .refl (reads_nil _) (.refl u)⟩

end AirSane.ScanJob
