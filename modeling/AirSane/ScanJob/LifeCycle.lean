import AirSane.ScanJob.Calls
import AirSane.Server.StatusDocument

/-! # The life cycle of a job

What a job shows of itself is its state, the reason for it and the number of its
images. The calls on a job move these three as an abstract machine says that
knows nothing of sessions, encoders and backends. The machine keeps the reason
in line with the state and the number in line with the kind of the job, and the
code refines it.
-/

namespace AirSane.ScanJob
open Programs Program

/-- What clients see of a job. -/
structure Shown where
  state : State
  reason : String
  images : ℕ

/-- The reasons for which a job aborts. -/
def abortReasons : List String :=
  [PWG_INVALID_SCAN_TICKET, PWG_RESOURCES_ARE_NOT_READY, PWG_DOCUMENT_PERMISSION_ERROR,
    PWG_JOB_CANCELED_BY_USER, PWG_UNSUPPORTED_DOCUMENT_FORMAT, PWG_ERRORS_DETECTED]

/-- The reasons that go with a state. -/
def State.reasons : State → List String
  | .aborted => abortReasons
  | .canceled => [PWG_JOB_CANCELED_BY_USER]
  | .completed => [PWG_JOB_COMPLETED_SUCCESSFULLY]
  | .pending => [PWG_JOB_QUEUED, PWG_NONE]
  | .processing => [PWG_JOB_SCANNING]

section Machine
variable {k : Kind} {c : JobCall} {b : Bool} {n : ℕ} {x y : Shown}

/-- Where a status of the backend may lead a job with `n` images. Documents
that collect all sheets never wait, and a page from the platen is the last one. -/
inductive Settles (k : Kind) (n : ℕ) : Shown → Prop where
  | running : Settles k n ⟨.processing, PWG_JOB_SCANNING, n⟩
  | waiting (hk : k ≠ .adfConcat) (hn : k = .single → n = 0) : Settles k n ⟨.pending, PWG_NONE, n⟩
  | exhausted (hn : 0 < n) : Settles k n ⟨.completed, PWG_JOB_COMPLETED_SUCCESSFULLY, n⟩
  | failed {r : String} (hr : r ∈ abortReasons) : Settles k n ⟨.aborted, r, n⟩

/-- What a call with its answer makes of what the job shows. -/
inductive Turn (k : Kind) : JobCall → Bool → Shown → Shown → Prop where
  | begun {fuel n : ℕ} {r : String} {x : Shown} (h : Settles k n x) :
    Turn k (.beginTransfer fuel) (x.state = .processing) ⟨.pending, r, n⟩ x
  | notBegun {fuel : ℕ} {x : Shown} (h : x.state ≠ .pending) :
    Turn k (.beginTransfer fuel) false x x
  | finished {fuel m n : ℕ} {good b : Bool} {r : String} {x : Shown} (h : Settles k m x)
      (hx : x.state ≠ .processing) (hn : n < m) (hk : k ≠ .adfConcat → m = n + 1) :
    Turn k (.finishTransfer fuel good) b ⟨.processing, r, n⟩ x
  | broken {fuel m n : ℕ} {good b : Bool} {r r' : String} (hr : r' ∈ abortReasons) (hn : n ≤ m) :
    Turn k (.finishTransfer fuel good) b ⟨.processing, r, n⟩ ⟨.aborted, r', m⟩
  | notFinished {fuel : ℕ} {good b : Bool} {x : Shown} (h : x.state ≠ .processing) :
    Turn k (.finishTransfer fuel good) b x x
  | canceled {b : Bool} {x : Shown} :
    Turn k .cancel b x ⟨.canceled, PWG_JOB_CANCELED_BY_USER, x.images⟩

/-- The reason fits the state. Only a job that hands over single sheets goes on
when it has images, a completed job has images, and one from the platen just one. -/
structure Shown.Sound (k : Kind) (x : Shown) : Prop where
  reason : x.reason ∈ x.state.reasons
  waiting : x.state = .pending ∨ x.state = .processing → 0 < x.images → k = .adfSingle
  completed : x.state = .completed → 0 < x.images ∧ (k = .single → x.images = 1)

theorem Settles.reason (h : Settles k n x) : x.reason ∈ x.state.reasons := by
  cases h with
  | failed hr => exact hr
  | _ => simp [State.reasons]

theorem Settles.images (h : Settles k n x) : x.images = n := by
  cases h <;> rfl

/-- One step of the machine. -/
theorem Turn.sound (h : Turn k c b x y) (hx : x.Sound k) : y.Sound k := by
  cases h with
  | @begun fuel n r _ h =>
    refine ⟨h.reason, fun _ hn => hx.waiting (.inl rfl) (h.images ▸ hn), fun hy => ?_⟩
    cases h with
    | exhausted hn => exact ⟨hn, fun hk =>
      absurd (hk.symm.trans (hx.waiting (.inl rfl) hn)) (by simp)⟩
    | _ => simp at hy
  | notBegun => exact hx
  | @finished fuel m n good _ r _ h hne hn hk =>
    refine ⟨h.reason, fun hy _ => ?_, fun hy => ?_⟩
    · cases h with
      | running => exact absurd rfl hne
      | waiting hc hz =>
        cases k with
        | single => exact absurd hn (by simp [hz rfl])
        | adfSingle => rfl
        | adfConcat => exact absurd rfl hc
      | _ => simp at hy
    · cases h with
      | exhausted hm =>
        refine ⟨hm, fun hs => ?_⟩
        have hzero : n = 0 := by
          by_contra hne
          exact absurd (hs.symm.trans (hx.waiting (.inr rfl) (Nat.pos_of_ne_zero hne))) (by simp)
        rw [hk (by simp [hs]), hzero]
      | _ => simp at hy
  | broken hr => exact ⟨hr, by simp, by simp⟩
  | notFinished => exact hx
  | canceled => exact ⟨by simp [State.reasons], by simp, by simp⟩

theorem State.reasons_subset (st : State) : st.reasons ⊆ stateReasons := by
  cases st <;> simp [State.reasons, abortReasons, stateReasons]

/-- What the status document says about a job that shows itself soundly. -/
def Shown.jobRecord (x : Shown) (hx : x.Sound k) (uuid : Uuid) (created lastActive : ℤ) :
    JobRecord where
  mUuid := uuid
  mCreated := created
  mLastActive := lastActive
  mState := x.state
  mStateReason := ⟨x.reason, x.state.reasons_subset hx.reason⟩
  mImagesCompleted := x.images

/-- Images are never taken back. -/
theorem Turn.images_le (h : Turn k c b x y) : x.images ≤ y.images := by
  cases h with
  | begun h => exact h.images.ge
  | finished h _ hn => exact hn.le.trans h.images.ge
  | broken _ hn => exact hn
  | _ => exact le_rfl

/-- A finished job is at most canceled. -/
theorem Turn.eq_of_finished (h : Turn k c b x y) (hx : x.state.isFinished) (hc : c ≠ .cancel) :
    y = x := by
  cases h with
  | notBegun | notFinished => rfl
  | canceled => exact absurd rfl hc
  | _ => simp [State.isFinished] at hx

end Machine

variable {E : Environment} {s : Settings} {w w' u v : World} {i : SessionId} {fuel : ℕ}

namespace World

def shown (w : World) : Shown := ⟨w.state, w.stateReason, w.imagesCompleted⟩

@[simp] theorem shown_closed (w : World) : w.closed.shown = w.shown := rfl

@[simp] theorem shown_attached (w : World) (good : Bool) : (w.attached good).shown = w.shown := rfl

@[simp] theorem withAdfStatus_imagesCompleted (w : World) (st : SaneStatus) :
    (w.withAdfStatus st).imagesCompleted = w.imagesCompleted := rfl

@[simp] theorem shown_become (w : World) (st : State) (r : String) :
    (w.become st r).shown = ⟨st, r, w.imagesCompleted⟩ := rfl

@[simp] theorem shown_call (w : World) (E : Environment) (e : Encoder) (cb : Callback) :
    (w.call E e cb).shown = w.shown := rfl

@[simp] theorem shown_failed (w : World) (adf : SaneStatus) (r : String) :
    (w.failed adf r).shown = ⟨.aborted, r, w.imagesCompleted⟩ := rfl

/-- A status that starts no further page. -/
theorem settles_settle {st : SaneStatus} (h : ¬ s.restarts st) (w : World) :
    Settles s.kind w.imagesCompleted (w.settle s st).shown := by
  cases st with
  | good => exact .running
  | eof =>
    cases hk : s.kind with
    | single =>
      by_cases hi : 0 < w.imagesCompleted
      · simpa [settle, hk, hi] using Settles.exhausted hi
      · have hzero : w.imagesCompleted = 0 := by omega
        simpa [settle, hk, hi] using Settles.waiting (by simp) fun _ => hzero
    | adfSingle => simpa [settle, hk] using Settles.waiting (by simp) (by simp)
    | adfConcat => exact absurd ⟨hk, rfl⟩ h
  | noDocs =>
    by_cases hi : 0 < w.imagesCompleted ∧ (s.kind = .adfSingle ∨ s.kind = .adfConcat)
    · simpa [settle, hi] using Settles.exhausted hi.1
    · simpa [settle, hi] using Settles.failed (by simp [abortReasons])
  | _ => exact .failed (by simp [settle, failed, become, closed, abortReasons])

end World

/-- A pending job that is told to begin. -/
theorem beginTransfer_turn {r : Except Stop Bool} {b : Bool} (hp : w.state = .pending)
    (h : (beginTransfer s fuel).run (exec E) w = (r, w')) (hr : r = .ok b) :
    Turn s.kind (.beginTransfer fuel) b w.shown w'.shown := by
  obtain ⟨opens, v, i, hprep, hrun⟩ :=
    run_prepareSession (E := E) (s := s) { w with state := .processing }
  obtain ⟨evs, st, rest, st', u, -, -, -, hu, -, ho⟩ :=
    run_startSession (E := E) (s := s) fuel hprep.session
  have hv : v.imagesCompleted = w.imagesCompleted := by
    cases hprep with
    | kept => rfl
    | opened _ _ _ _ _ _ _ _ hi => exact hi
  have hw : w.shown = ⟨.pending, w.stateReason, w.imagesCompleted⟩ := by rw [World.shown, hp]
  rw [run_beginTransfer_prepared hp fuel hrun] at h
  rcases ho with ⟨ho, hn⟩ | ho
  · simp only [ho, Prod.mk.injEq] at h
    obtain ⟨h, rfl⟩ := h
    obtain rfl : decide ((u.settle s st').state = .processing) = b := Except.ok.inj (h.trans hr)
    have hset := World.settles_settle hn u
    rw [hu.imagesCompleted, hv] at hset
    split_ifs <;> exact hw ▸ .begun hset
  · simp only [ho, Prod.mk.injEq] at h
    rw [hr] at h
    simp at h

/-- What a step inside a transfer has left behind when the job is not
processing any more: counted images and a settled status, or an error. -/
def World.Ended (s : Settings) (n : ℕ) (u : World) : Prop :=
  (∃ m, n < m ∧ Settles s.kind m u.shown) ∨
    (u.state = .aborted ∧ u.stateReason ∈ abortReasons ∧ n ≤ u.imagesCompleted)

theorem LineStep.shows {st : SaneStatus} (h : LineStep s i w (st, u)) (hp : w.state = .processing) :
    u.imagesCompleted = w.imagesCompleted ∧
      (u.state = .processing ∨ u.state = .aborted ∧ u.stateReason ∈ abortReasons) := by
  cases h with
  | ended _ _ hu => exact ⟨hu.imagesCompleted, .inl (hu.state.trans hp)⟩
  | written _ _ hu => exact ⟨hu.imagesCompleted, .inl (hu.state.trans hp)⟩
  | failed _ _ _ hu => exact ⟨hu.imagesCompleted, .inr ⟨rfl, by simp [World.become, World.closed,
      abortReasons]⟩⟩

theorem LineRun.shows {a b : SaneStatus × World} (h : LineRun s i a b)
    (hp : a.2.state = .processing) : b.2.imagesCompleted = a.2.imagesCompleted ∧
      (b.2.state = .processing ∨ b.2.state = .aborted ∧ b.2.stateReason ∈ abortReasons) := by
  induction h with
  | refl => exact ⟨rfl, .inl hp⟩
  | tail _ hstep ih =>
    obtain ⟨hi, hs⟩ := hstep.2.2.2.shows hstep.2.2.1
    exact ⟨hi.trans ih.1, hs⟩

/-- One pass of the outer loop. -/
theorem ImageStep.shows (h : ImageStep s i w u) (hp : w.state = .processing) :
    u.Ended s w.imagesCompleted := by
  cases h with
  | broken h hu =>
    obtain ⟨hi, hs⟩ := h.shows hp
    obtain ⟨hst, hr⟩ := hs.resolve_left hu
    exact .inr ⟨hst, hr, hi.ge⟩
  | @finished st st' x v e evs h _ _ _ _ _ _ hv _ hn =>
    have hi : v.imagesCompleted = w.imagesCompleted + 1 :=
      hv.imagesCompleted.trans (congrArg (· + 1) (h.shows hp).1)
    by_cases hc : e.currentLine = 0
    · refine .inl ⟨w.imagesCompleted + 1, Nat.lt_succ_self _, ?_⟩
      simpa only [World.checked, hc, if_true, hi] using World.settles_settle hn v
    · refine .inr ⟨by simp [World.checked, hc, World.become],
        by simp [World.checked, hc, World.become, abortReasons], ?_⟩
      rw [World.checked_imagesCompleted, (World.settle_keeps hn v).2.2, hi]
      exact Nat.le_succ _

theorem World.Ended.mono {m n : ℕ} (h : u.Ended s n) (hm : m ≤ n) : u.Ended s m := by
  rcases h with ⟨k, hk, hs⟩ | ⟨hst, hr, hn⟩
  · exact .inl ⟨k, hm.trans_lt hk, hs⟩
  · exact .inr ⟨hst, hr, hm.trans hn⟩

theorem World.Ended.le {n : ℕ} (h : u.Ended s n) : n ≤ u.imagesCompleted := by
  rcases h with ⟨k, hk, hs⟩ | ⟨-, -, hn⟩
  · exact hk.le.trans hs.images.ge
  · exact hn

theorem ImageRun.shows (h : ImageRun s i w u) : u = w ∨ u.Ended s w.imagesCompleted := by
  induction h with
  | refl => exact .inl rfl
  | tail _ hstep ih =>
    have hstep' := hstep.2.shows hstep.1
    rcases ih with rfl | ih
    · exact .inr hstep'
    · exact .inr (hstep'.mono ih.le)

/-- The way out of a transfer. -/
theorem finishTransfer_ended {good : Bool} (hp : w.state = .processing)
    (h : (finishTransfer s fuel good).run (exec E) w = (.ok (), w')) :
    w'.Ended s w.imagesCompleted := by
  obtain ⟨i, hi⟩ := session_of_finishTransfer h
  obtain ⟨v, hv, ht⟩ := run_finishTransfer (E := E) hi fuel good
  rw [h] at ht
  -- up to the loop the job is as it was, or given up
  have hsetUp : v.imagesCompleted = w.imagesCompleted ∧
      (v.state = .processing ∨ v.state = .aborted ∧ v.stateReason ∈ abortReasons) := by
    cases hv with
    | idle hw => exact absurd hp hw
    | unsupported | disagreeing =>
      exact ⟨rfl, .inr ⟨rfl, by simp [World.become, abortReasons]⟩⟩
    | ready => exact ⟨rfl, .inl hp⟩
  have hgiven (hs : v.state ≠ .processing) : v.Ended s w.imagesCompleted := by
    obtain ⟨hst, hr⟩ := hsetUp.2.resolve_left hs
    exact .inr ⟨hst, hr, hsetUp.1.ge⟩
  cases ht with
  | formatless hs => exact hgiven hs
  | @ended u _ hrun hs =>
    have hu : u.Ended s w.imagesCompleted := by
      rcases hrun.shows with rfl | hu
      · exact hgiven hs
      · exact hsetUp.1 ▸ hu
    exact hu

/-- A transfer of a processing job. -/
theorem finishTransfer_turn {good b : Bool} (hw : w.Settled) (hp : w.state = .processing)
    (h : (finishTransfer s fuel good).run (exec E) w = (.ok (), w')) :
    Turn s.kind (.finishTransfer fuel good) b w.shown w'.shown := by
  obtain ⟨front, hfr⟩ := hw.fresh hp
  have hshown : w.shown = ⟨.processing, w.stateReason, w.imagesCompleted⟩ := by
    rw [World.shown, hp]
  have hne := finishTransfer_stops hw h
  rw [hshown]
  by_cases ha : w'.state = .aborted
  · have hend : w'.stateReason ∈ abortReasons ∧ w.imagesCompleted ≤ w'.imagesCompleted := by
      rcases finishTransfer_ended hp h with hm | ⟨-, hr, hn⟩
      · refine ⟨?_, World.Ended.le (.inl hm)⟩
        obtain ⟨m, -, hs⟩ := hm
        simpa [World.shown, ha, State.reasons] using hs.reason
      · exact ⟨hr, hn⟩
    have hshown' : w'.shown = ⟨.aborted, w'.stateReason, w'.imagesCompleted⟩ := by
      rw [World.shown, ha]
    exact hshown' ▸ .broken hend.1 hend.2
  · obtain ⟨m, hm, hs⟩ := (finishTransfer_ended hp h).resolve_right fun h => ha h.1
    have hcount := finishTransfer_outcome hp hfr h
    have himages : w'.imagesCompleted = m := hs.images
    refine .finished hs hne hm fun hk => ?_
    split_ifs at hcount
    · obtain ⟨fs, hcount⟩ := hcount
      obtain ⟨hfs, -, hone, -⟩ := hcount.whole ha
      rw [← himages, hfs, hone hk]
    · exact absurd hcount.1 ha

/-- The code refines the machine, call by call. -/
theorem Passage.Executes.turn {p : Passage} {b : Bool} (hw : p.before.Settled)
    (hp : p.Executes E s) (hr : p.result = .ok b) :
    Turn s.kind p.call b p.before.shown p.after.shown := by
  obtain ⟨w, c, r, w'⟩ := p
  obtain rfl : r = .ok b := hr
  cases c with
  | beginTransfer fuel =>
    by_cases hs : w.state = .pending
    · exact beginTransfer_turn hs hp.beginTransfer rfl
    · have h := hp.beginTransfer
      rw [run_beginTransfer_idle hs] at h
      obtain ⟨hb, rfl⟩ := Prod.mk.inj h
      obtain rfl : false = b := Except.ok.inj hb
      exact .notBegun hs
  | finishTransfer fuel good =>
    by_cases hs : w.state = .processing
    · exact finishTransfer_turn hw hs hp.finishTransfer
    · rw [finishTransfer_idle hs hp.finishTransfer]
      exact .notFinished hs
  | cancel =>
    rw [hp.cancel]
    exact .canceled

theorem sound_initial (accepted : Bool) : (World.initial accepted).shown.Sound s.kind := by
  cases accepted <;>
    exact ⟨by simp [World.initial, World.shown, State.reasons, abortReasons],
      by simp [World.initial, World.shown], by simp [World.initial, World.shown]⟩

/-- A call of a run is one of the machine, on a job that is sound before and after it. -/
theorem Run.turns {ps : List Passage} (h : Run E s ps w) : w.shown.Sound s.kind ∧
    ∀ p ∈ ps, ∃ b, p.result = .ok b ∧ Turn s.kind p.call b p.before.shown p.after.shown := by
  induction h with
  | start accepted => exact ⟨sound_initial accepted, by simp⟩
  | @call ps p b h hp hr ih =>
    have hturn := hp.turn h.settled hr
    refine ⟨hturn.sound ih.1, fun q hq => ?_⟩
    rcases List.mem_cons.1 hq with rfl | hq
    · exact ⟨b, hr, hturn⟩
    · exact ih.2 q hq

/-- What the calls since `p` have left of what the job showed before it. -/
theorem Run.since {qs ps : List Passage} {p : Passage} (h : Run E s (qs ++ p :: ps) w) :
    p.before.imagesCompleted ≤ w.imagesCompleted ∧
      (p.before.state.isFinished → (∀ q ∈ qs ++ [p], q.call ≠ .cancel) →
        w.shown = p.before.shown) := by
  induction qs generalizing w with
  | nil =>
    obtain ⟨b, -, hturn⟩ := h.turns.2 p (by simp)
    cases h with
    | call => exact ⟨hturn.images_le, fun hf hc => hturn.eq_of_finished hf (hc p (by simp))⟩
  | cons q qs ih =>
    obtain ⟨b, -, hturn⟩ := h.turns.2 q (by simp)
    cases h with
    | call h =>
      obtain ⟨hle, heq⟩ := ih h
      refine ⟨hle.trans hturn.images_le, fun hf hc => ?_⟩
      have hbefore := heq hf fun q' hq' => hc q' (List.mem_cons_of_mem _ hq')
      have hfq : q.before.shown.state.isFinished := by
        rw [hbefore]
        exact hf
      exact (hturn.eq_of_finished hfq (hc q (by simp))).trans hbefore

/-- Every call of a run is one of the machine, what the job shows is sound, its
images are never taken back, and once finished it is at most canceled. -/
theorem run_lifeCycle {ps : List Passage} (h : Run E s ps w) :
    w.shown.Sound s.kind ∧
    (∀ p ∈ ps, ∃ b, p.result = .ok b ∧ Turn s.kind p.call b p.before.shown p.after.shown) ∧
    ∀ qs p rs, ps = qs ++ p :: rs → p.before.imagesCompleted ≤ w.imagesCompleted ∧
      (p.before.state.isFinished → (∀ q ∈ qs ++ [p], q.call ≠ .cancel) →
        w.shown = p.before.shown) := by
  refine ⟨h.turns.1, h.turns.2, ?_⟩
  rintro qs p rs rfl
  exact h.since

/-- A page from the platen: its job is completed, with one image. -/
theorem run_lifeCycle_gray :
    let E := Environment.scripted .gray [.good] [(.good, [1]), (.good, [2])]
    let s := Settings.gray .single MIME_TYPE_JPEG
    (firstTransfer E s).2.shown.state = .completed ∧ (firstTransfer E s).2.shown.images = 1 := by
  intro E s
  have hrun : Run E s (firstCalls E s) (firstTransfer E s).2 :=
    run_firstCalls (by decide +kernel) (by decide +kernel)
  have hstate : (firstTransfer E s).2.shown.state = .completed := by decide +kernel
  have hkind : s.kind = .single := rfl
  exact ⟨hstate, ((run_lifeCycle hrun).1.completed hstate).2 hkind⟩

end AirSane.ScanJob
