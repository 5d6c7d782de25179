import AirSane.ScanJob.Frames

/-! # Pages, lines and the image counter

While a transfer runs, the counters of the encoder are those of the lines that
the frames delivered, and every finished frame was counted once and ended at an
image boundary. From this follows what a finished transfer leaves behind.
-/

namespace AirSane.ScanJob
open Programs Program

variable {E : Environment} {s : Settings}

/-- The frame's lines fill a whole number of images. -/
def Frame.AtBoundary (h : ℤ) (f : Frame) : Prop := Encoder.lineAt h f.delivered.length = 0

/-- The images that the lines of some frames fill. -/
def pages (h : ℤ) (fs : List Frame) : ℤ :=
  (fs.map fun f => Encoder.imagesAt h f.delivered.length).sum

/-- Everything delivered was processed and written. -/
def Frame.Sent (s : Settings) (f : Frame) : Prop := f.written = f.delivered.map s.processed

/-- The finished frames of a transfer. -/
structure Done (s : Settings) (h : ℤ) (done : List Frame) : Prop where
  boundary : ∀ f ∈ done, f.AtBoundary h
  sent : ∀ f ∈ done, f.Sent s
  kind : done ≠ [] → s.kind = .adfConcat

/-- A transfer in the middle of the frame `cur`. -/
structure Counting (s : Settings) (h : ℤ) (front : List Frame) (count : ℕ) (cur : Frame)
    (done : List Frame) (w : World) : Prop where
  state : w.state = .processing
  seen : frames w.log = cur :: (done ++ front)
  past : Done s h done
  sent : cur.Sent s
  streamGood : w.streamGood = true
  imagesCompleted : w.imagesCompleted = count + done.length
  encoder : ∃ e, w.encoder = some e ∧ e.height = h ∧
    e.currentLine = Encoder.lineAt h cur.delivered.length ∧ e.currentImage = pages h (cur :: done)

/-- Frames whose session stays open behind them end at an image boundary. -/
def KeptAtBoundary (s : Settings) (h : ℤ) (fs : List Frame) : Prop :=
  match s.kind with
  | .single => True
  | .adfSingle => ∀ f ∈ fs, f.ended = some .eof → f.AtBoundary h
  | .adfConcat => ∀ f ∈ fs.tail, f.AtBoundary h

/-- What a transfer leaves behind that has dealt with the frames `fs`. -/
structure Outcome (s : Settings) (h : ℤ) (front : List Frame) (count : ℕ) (fs : List Frame)
    (w : World) : Prop where
  seen : frames w.log = fs ++ front
  ne_nil : fs ≠ []
  ended : w.state ≠ .processing ∧ w.state ≠ .canceled
  leak : w.state ≠ .pending ∧ w.session ≠ none ↔ ¬ KeptAtBoundary s h fs
  whole : w.state ≠ .aborted → w.imagesCompleted = count + fs.length ∧
    (∀ f ∈ fs, f.AtBoundary h ∧ f.Sent s) ∧ (s.kind ≠ .adfConcat → fs.length = 1) ∧
    ∃ e, w.encoder = some e ∧ e.currentImage = pages h fs

section
variable {h : ℤ} {front : List Frame} {count : ℕ} {cur : Frame} {done : List Frame} {w u : World}
  {i : SessionId}

theorem Done.keptAtBoundary (hd : Done s h done) (hc : cur.ended = none) :
    KeptAtBoundary s h (cur :: done) := by
  unfold KeptAtBoundary
  split
  · trivial
  · next hk =>
    have hnil : done = [] := by
      by_contra hne
      simp [hd.kind hne] at hk
    simp [hnil, hc]
  · exact hd.boundary

/-- A pass of the inner loop: the frame that is being read grows, ends, or is
lost together with the session. -/
theorem LineStep.counting {st : SaneStatus} (hstep : LineStep s i w (st, u))
    (hc : Counting s h front count cur done w) (hcur : cur.ended = none) :
    (∃ cur', cur'.ended = (if st = .good then none else some st) ∧
      Counting s h front count cur' done u) ∨
    ∃ fs, Outcome s h front count fs u := by
  obtain ⟨e, he, hh, hline, himage⟩ := hc.encoder
  cases hstep with
  | @ended _ line reads _ hst hr hu he' hs =>
    refine .inl ⟨{ cur with ended := some st }, by simp [hst], hu.state.trans hc.state, ?_,
      hc.past, hc.sent, hs.trans hc.streamGood, hu.imagesCompleted.trans hc.imagesCompleted, e, he'.trans he, hh, hline,
      himage⟩
    rw [hu.log, frames_append, List.foldl_append, hr.unnoticed, hc.seen]
    simp [Frame.observe, hst]
  | @written line reads _ e₀ hr he₀ hu he' hs _ =>
    obtain rfl := Option.some.inj (he₀.symm.trans he)
    subst hh
    obtain ⟨hline', himage'⟩ := Encoder.advance_at hline
    refine .inl ⟨(cur.deliver line).write (s.processed line), by simpa using hcur,
      hu.state.trans hc.state, ?_, hc.past, ?_,
      hs, hu.imagesCompleted.trans hc.imagesCompleted, e₀.advance, he', by simp, ?_, ?_⟩
    · rw [hu.log, frames_append, hc.seen]
      simp only [List.foldl_append]
      rw [hr.unnoticed]
      simp [Frame.observe, foldl_observe_made]
    · have := hc.sent
      simp only [Frame.Sent] at this ⊢
      simp [Frame.write, Frame.deliver, this]
    · simpa using hline'
    · simp only [pages, List.map_cons, List.sum_cons, Frame.write_delivered,
        Frame.deliver_delivered, List.length_append, List.length_singleton] at himage ⊢
      omega
  | @failed line reads rest cs x e₀ e' hr he₀ hcs hu he' hd' =>
    obtain rfl := Option.some.inj (he₀.symm.trans he)
    obtain ⟨f, hf, hend, ho⟩ := foldl_observe_unsent hcs (cur.deliver line) (done ++ front)
    have hrel := (x.become .aborted PWG_ERRORS_DETECTED).releases_releaseEvents
    have hkept : KeptAtBoundary s h (f :: done) := hc.past.keptAtBoundary (hend.trans hcur)
    refine .inr ⟨f :: done, ?_, by simp, by simp [World.become], by simp [hkept], by
      simp [World.become]⟩
    have hlog : x.log = _ := hu.log
    simp only [World.closed, World.become] at hrel ⊢
    rw [frames_append, hrel.unnoticed, hlog, frames_append, hc.seen]
    simp only [List.foldl_append] at ho ⊢
    rw [hr.unnoticed]
    simpa [Frame.observe] using ho

theorem LineRun.counting {st : SaneStatus} (hrun : LineRun s i (.good, w) (st, u))
    (hc : Counting s h front count cur done w) (hcur : cur.ended = none) :
    (∃ cur', cur'.ended = (if st = .good then none else some st) ∧
      Counting s h front count cur' done u) ∨
    ∃ fs, Outcome s h front count fs u := by
  generalize hb : (st, u) = b at hrun
  induction hrun generalizing st u with
  | refl =>
    obtain ⟨rfl, rfl⟩ := Prod.mk.inj hb
    exact .inl ⟨cur, by simpa using hcur, hc⟩
  | @tail a b _ hstep ih =>
    subst hb
    obtain ⟨hst, -, hp, hstep⟩ := hstep
    rcases ih rfl with ⟨cur', hcur', hc'⟩ | ⟨fs, ho⟩
    · exact hstep.counting hc' (by simpa [hst] using hcur')
    · exact absurd hp ho.ended.1

theorem keptAtBoundary_of_forall {fs : List Frame} (hfs : ∀ f ∈ fs, f.AtBoundary h) :
    KeptAtBoundary s h fs := by
  unfold KeptAtBoundary
  split
  · trivial
  · exact fun f hf _ => hfs f hf
  · exact fun f hf => hfs f (List.mem_of_mem_tail hf)

/-- What a page that has ended leaves to `updateStatus`, which may have started
the next frame. -/
structure PageEnd (s : Settings) (h : ℤ) (front : List Frame) (count : ℕ) (cur : Frame)
    (done : List Frame) (e : Encoder) (st st' : SaneStatus) (v : World) : Prop where
  restarted : st' ≠ st → s.kind = .adfConcat
  seen : frames v.log = if st' = .good then .new :: cur :: (done ++ front)
    else cur :: (done ++ front)
  ended : st ≠ .good ∧ cur.ended = some st
  past : Done s h done
  sent : cur.Sent s
  streamGood : v.streamGood = true
  imagesCompleted : v.imagesCompleted = count + (done.length + 1)
  session : v.session ≠ none
  encoder : v.encoder = some e
  height : e.height = h
  line : e.currentLine = Encoder.lineAt h cur.delivered.length
  image : e.currentImage = pages h (cur :: done)
  settles : ¬ s.restarts st'

/-- Frames that make up a transfer whose page ended without a new frame. -/
theorem PageEnd.single {e : Encoder} {st st' : SaneStatus} {v : World}
    (hp : PageEnd s h front count cur done e st st' v) (hk : s.kind ≠ .adfConcat) : done = [] := by
  by_contra hne
  exact hk (hp.past.kind hne)

theorem PageEnd.seen_settle {e : Encoder} {st st' : SaneStatus} {v : World}
    (hp : PageEnd s h front count cur done e st st' v) :
    frames ((v.settle s st').checked e).log = if st' = .good then .new :: cur :: (done ++ front)
      else cur :: (done ++ front) := by
  obtain ⟨rel, hrel, hset⟩ := v.settle_log hp.settles
  rw [World.checked_log, hset, frames_append, hrel.unnoticed, hp.seen]

/-- A page that did not end at an image boundary aborts the job, and the session
leaks if the status of the page kept it open. -/
theorem PageEnd.short {e : Encoder} {st st' : SaneStatus} {v : World}
    (hp : PageEnd s h front count cur done e st st' v) (hcur : ¬ cur.AtBoundary h) :
    ∃ fs, Outcome s h front count fs ((v.settle s st').checked e) := by
  have hline : e.currentLine ≠ 0 := by
    rw [hp.line]
    exact hcur
  have hstate : ((v.settle s st').checked e).state = .aborted := by
    simp [World.checked, hline, World.become]
  have hsession : ((v.settle s st').checked e).session = (v.settle s st').session := by simp
  have hfr := hp.seen_settle
  rcases v.settle_cases hp.settles with ⟨rfl, hw⟩ | ⟨rfl, hk, hw⟩ | ⟨adf, state, r, -, -, hg, hf, hw⟩
  · refine ⟨.new :: cur :: done, by simpa using hfr, by simp, by simp [hstate], ?_, by simp [hstate]⟩
    have hk := hp.restarted (Ne.symm hp.ended.1)
    have hkept : ¬ KeptAtBoundary s h (.new :: cur :: done) := by
      simp [KeptAtBoundary, hk, hcur]
    rw [hsession, hstate, hw]
    simpa [World.become, World.withAdfStatus, hkept] using hp.session
  · have hst : st = .eof := by
      by_contra hne
      simpa [hk] using hp.restarted (Ne.symm hne)
    refine ⟨cur :: done, by simpa using hfr, by simp, by simp [hstate], ?_, by simp [hstate]⟩
    have hkept : ¬ KeptAtBoundary s h (cur :: done) := by
      simp [KeptAtBoundary, hk, hp.ended.2, hst, hcur]
    rw [hsession, hstate, hw]
    simpa [World.become, World.withAdfStatus, hkept] using hp.session
  · refine ⟨cur :: done, by simpa [hg] using hfr, by simp, by simp [hstate], ?_, by simp [hstate]⟩
    have hkept : KeptAtBoundary s h (cur :: done) := by
      unfold KeptAtBoundary
      split
      · trivial
      · next hk =>
        have hst : st' = st := by
          by_contra hne
          simpa [hk] using hp.restarted hne
        have heof : st ≠ .eof := fun h => hf ⟨hst.trans h, hk⟩
        simp [hp.single (by simp [hk]), hp.ended.2, heof]
      · exact hp.past.boundary
    simp [hw, hkept]

/-- A page that ended at an image boundary goes over to the next frame or to
the end of the transfer. -/
theorem PageEnd.whole {e : Encoder} {st st' : SaneStatus} {v : World}
    (hp : PageEnd s h front count cur done e st st' v) (hcur : cur.AtBoundary h) :
    (∃ cur' done', cur'.ended = none ∧
      Counting s h front count cur' done' ((v.settle s st').checked e)) ∨
      ∃ fs, Outcome s h front count fs ((v.settle s st').checked e) := by
  have hline : e.currentLine = 0 := hp.line.trans hcur
  have hfr := hp.seen_settle
  obtain ⟨henc, hstream, himages⟩ := World.settle_keeps hp.settles v
  have hall : ∀ f ∈ cur :: done, f.AtBoundary h ∧ f.Sent s :=
    List.forall_mem_cons.2 ⟨⟨hcur, hp.sent⟩, fun f hf => ⟨hp.past.boundary f hf, hp.past.sent f hf⟩⟩
  have hkept : KeptAtBoundary s h (cur :: done) := keptAtBoundary_of_forall fun f hf => (hall f hf).1
  have hchecked : (v.settle s st').checked e = v.settle s st' := by simp [World.checked, hline]
  rw [hchecked] at hfr ⊢
  have hone : s.kind ≠ .adfConcat → (cur :: done).length = 1 := fun hk => by simp [hp.single hk]
  rcases v.settle_cases hp.settles with ⟨rfl, hw⟩ | ⟨rfl, hk, hw⟩ | ⟨adf, state, r, hne, hnc, hg, hf, hw⟩
  · have hk := hp.restarted (Ne.symm hp.ended.1)
    refine .inl ⟨.new, cur :: done, rfl, by simp [hw, World.become], by simpa using hfr,
      ⟨fun f hf => (hall f hf).1, fun f hf => (hall f hf).2, fun _ => hk⟩, rfl,
      hstream.trans hp.streamGood, himages.trans (by simpa using hp.imagesCompleted), e,
      henc.trans hp.encoder, hp.height, by simpa [Frame.new] using hline, ?_⟩
    simpa [pages, Frame.new] using hp.image
  · refine .inr ⟨cur :: done, by simpa using hfr, by simp, by simp [hw, World.become],
      by simp [hw, World.become, hkept], fun _ => ⟨himages.trans (by simpa using hp.imagesCompleted),
        hall, hone, e, henc.trans hp.encoder, hp.image⟩⟩
  · refine .inr ⟨cur :: done, by simpa [hg] using hfr, by simp, by simp [hw, World.become, hne, hnc],
      by simp [hw, hkept], fun _ => ⟨himages.trans (by simpa using hp.imagesCompleted),
        hall, hone, e, henc.trans hp.encoder, hp.image⟩⟩

/-- A pass of the outer loop: on to the next frame, or out. -/
theorem ImageStep.counting (hstep : ImageStep s i w u) (hw : w.Sending i)
    (hc : Counting s h front count cur done w) (hcur : cur.ended = none) :
    (∃ cur' done', cur'.ended = none ∧ Counting s h front count cur' done' u) ∨
      ∃ fs, Outcome s h front count fs u := by
  cases hstep with
  | broken hrun hu =>
    rcases hrun.counting hc hcur with ⟨cur', -, hc'⟩ | ho
    · exact absurd hc'.state hu
    · exact .inr ho
  | @finished st st' x v e evs hrun hx hst he hd hr hk hv hl hn =>
    rcases hrun.counting hc hcur with ⟨cur', hcur', hc'⟩ | ⟨fs, ho⟩
    · have hne : st ≠ .good := by
        rcases hst with hst | hst
        · exact hst
        · simp [hc'.streamGood] at hst
      obtain ⟨e', he', hh, hline, himage⟩ := hc'.encoder
      obtain rfl := Option.some.inj (he'.symm.trans he)
      have hsess : v.session = some i := hv.session.trans ((hrun.sending hw).session hx)
      have hpage : PageEnd s h front count cur' done e' st st' v := by
        refine ⟨fun hne => ?_, ?_, ⟨hne, by simpa [hne] using hcur'⟩, hc'.past, hc'.sent,
          hv.streamGood.trans hc'.streamGood, ?_, by simp [hsess], hv.encoder.trans he, hh, hline,
          himage, hn⟩
        · rcases hr.eq_or_eof with ⟨-, hst'⟩ | ⟨hevs, -⟩
          · exact absurd hst' hne
          · exact hk hevs
        · rw [hl, frames_append, hr.foldl_observe, hc'.seen]
          rcases hr.eq_or_eof with ⟨rfl, rfl⟩ | ⟨hevs, -⟩
          · simp [hne]
          · simp [hevs]
        · rw [hv.imagesCompleted, World.counted, hc'.imagesCompleted, Nat.add_assoc]
      by_cases hb : cur'.AtBoundary h
      · exact hpage.whole hb
      · exact .inr (hpage.short hb)
    · exact absurd hx ho.ended.1

theorem ImageRun.counting (hrun : ImageRun s i w u) (hw : w.Sending i)
    (hc : Counting s h front count cur done w) (hcur : cur.ended = none) :
    (∃ cur' done', cur'.ended = none ∧ Counting s h front count cur' done' u) ∨
      ∃ fs, Outcome s h front count fs u := by
  induction hrun with
  | refl => exact .inl ⟨cur, done, hcur, hc⟩
  | tail hchain hstep ih =>
    rcases ih with ⟨cur', done', hcur', hc'⟩ | ⟨fs, ho⟩
    · exact hstep.2.counting (ImageRun.sending hchain (fun _ => hw) hstep.1) hc' hcur'
    · exact absurd hstep.1 ho.ended.1

/-- Without a good stream the outer loop goes round for ever. -/
theorem ImageRun.stuck (hrun : ImageRun s i w u) (hp : w.state = .processing)
    (hs : w.streamGood = false) (he : ∃ e, w.encoder = some e ∧ e.currentLine = 0) :
    u.state = .processing ∧ u.streamGood = false ∧
      ∃ e, u.encoder = some e ∧ e.currentLine = 0 := by
  induction hrun with
  | refl => exact ⟨hp, hs, he⟩
  | @tail a b _ hstep ih =>
    obtain ⟨ha, hsa, e, hea, hline⟩ := ih
    have hrefl {st : SaneStatus} {x : World} (h : LineRun s i (.good, a) (st, x)) :
        st = .good ∧ x = a := by
      rcases Relation.ReflTransGen.cases_head h with h | ⟨c, ⟨-, hg, -⟩, -⟩
      · exact ⟨(Prod.mk.inj h).1.symm, (Prod.mk.inj h).2.symm⟩
      · simp [hsa] at hg
    cases hstep.2 with
    | broken h hu =>
      obtain ⟨-, rfl⟩ := hrefl h
      exact absurd ha hu
    | @finished st st' x v e' evs h hu _ he' _ hr _ hv hl hn =>
      obtain ⟨rfl, rfl⟩ := hrefl h
      obtain rfl := Option.some.inj (hea.symm.trans he')
      rcases hr.eq_or_eof with ⟨rfl, rfl⟩ | ⟨-, hst⟩
      · obtain ⟨henc, hstream, -⟩ := World.settle_keeps hn v
        simp only [World.checked, hline, if_true]
        exact ⟨rfl, hstream.trans (hv.streamGood.trans hsa), e,
          henc.trans (hv.encoder.trans hea), hline⟩
      · simp at hst

end

theorem frames_call (u : World) (e : Encoder) :
    frames (u.call E e .onDocumentEnd).log = frames u.log := by
  rw [(u.call_emitted e).log, frames_append]
  cases frames u.log <;> rfl

theorem Outcome.call {h : ℤ} {front fs : List Frame} {count : ℕ} {u : World} {e : Encoder}
    (ho : Outcome s h front count fs u) :
    Outcome s h front count fs (u.call E e .onDocumentEnd) where
  seen := (frames_call u e).trans ho.seen
  ne_nil := ho.ne_nil
  ended := ho.ended
  leak := ho.leak
  whole := ho.whole

/-- What `finishTransfer` does with the frame that `beginTransfer` started. -/
theorem finishTransfer_outcome {w w' : World} {fuel : ℕ} {good : Bool} {front : List Frame}
    (hp : w.state = .processing) (hfr : frames w.log = .new :: front)
    (hrun : (finishTransfer s fuel good).run (exec E) w = (.ok (), w')) :
    if EncoderKind.ofDocumentFormat s.documentFormat ≠ none ∧ s.LineLengthsAgree w.frame then
      ∃ fs, Outcome s w.frame.lines front w.imagesCompleted fs w'
    else w'.state = .aborted ∧ w'.session = w.session := by
  obtain ⟨i, hi⟩ := session_of_finishTransfer hrun
  obtain ⟨v, hv, ht⟩ := run_finishTransfer (E := E) hi fuel good
  rw [hrun] at ht
  cases hv with
  | idle hw => exact absurd hp hw
  | unsupported _ hf =>
    cases ht with
    | formatless => simp [hf, World.become, World.attached]
    | ended hrun' _ he =>
      obtain rfl := hrun'.eq_of_idle (by simp [World.become])
      simp [World.become, World.attached] at he
  | @disagreeing k _ hs hf hl =>
    have hframe : w.frame = (w.sessions i).parameters := by simp [World.frame, hs]
    cases ht with
    | formatless _ he => simp [World.become, World.withEncoder] at he
    | ended hrun' _ he =>
      obtain rfl := hrun'.eq_of_idle (by simp [World.become])
      simp [hframe, hl, World.call, World.record, World.become, World.withEncoder, World.attached]
  | @ready k _ hs hf hl =>
    have hframe : w.frame = (w.sessions i).parameters := by simp [World.frame, hs]
    rw [hframe, if_pos ⟨by simp [hf], hl⟩]
    have hsend : ((w.attached good).withEncoder (s.setUp k (w.sessions i).parameters)).Sending i :=
      ⟨.inl hp, fun _ => hs, _, rfl, rfl⟩
    cases ht with
    | formatless _ he => simp [World.withEncoder] at he
    | @ended u e hrun' hu he =>
      cases good with
      | false => exact absurd (hrun'.stuck hp rfl ⟨_, rfl, rfl⟩).1 hu
      | true =>
        have hcount : Counting s (w.sessions i).parameters.lines front w.imagesCompleted .new []
            ((w.attached true).withEncoder (s.setUp k (w.sessions i).parameters)) :=
          ⟨hp, hfr, ⟨by simp, by simp, by simp⟩, rfl, rfl, rfl, _, rfl, rfl, by
            simp [Settings.setUp, Encoder.new, Frame.new], by
            simp [Settings.setUp, Encoder.new, Frame.new, pages]⟩
        rcases hrun'.counting hsend hcount rfl with ⟨cur, done, -, hc⟩ | ⟨fs, ho⟩
        · exact absurd hc.state hu
        · exact ⟨fs, ho.call⟩

end AirSane.ScanJob
