import AirSane.ScanJob.Execution

/-! # What `beginTransfer` does

A job that is not pending is left alone. A pending one opens a session unless
it kept one from the previous sheet, starts it, and hands over a running page
or gives the session back.
-/

namespace AirSane.ScanJob
open Programs Program

variable {E : Environment} {s : Settings}

/-- The answers of a backend that let `openSession` succeed. The resolution in
y direction is the last of three that are tried. -/
def Event.agreeable : Event → Prop
  | .saneOpen _ st => st = .good
  | .setNumericValue name _ accepted => name = SANE_NAME_SCAN_Y_RESOLUTION → accepted = true
  | .optionUnit _ u => u = .pixel ∨ u = .mm
  | _ => True

/-- Accesses to the options of an open device. -/
def Event.configures : Event → Prop
  | .setOption _ _ | .setNumericValue _ _ _ | .optionUnit _ _ => True
  | _ => False

def World.extend (w : World) (evs : Log) : World := { w with log := w.log ++ evs }

@[simp] theorem World.extend_log (w : World) (evs : Log) : (w.extend evs).log = w.log ++ evs := rfl

@[simp] theorem World.extend_session (w : World) (evs : Log) :
    (w.extend evs).session = w.session := rfl

@[simp] theorem World.openSession_session (w : World) :
    (w.openSession E).session = some w.opened := rfl

@[simp] theorem World.extend_extend (w : World) (evs evs' : Log) :
    (w.extend evs).extend evs' = w.extend (evs ++ evs') := by
  simp [World.extend]

theorem World.record_eq_extend (w : World) (e : Event) : w.record e = w.extend [e] := rfl

theorem run_assignOptions (i : SessionId) (opts : List (String × OptionValue)) (w : World) :
    (assignOptions i opts).run (exec E) w =
      (.ok (), w.extend (opts.map fun o => .setOption o.1 o.2)) := by
  induction opts generalizing w with
  | nil => simp [assignOptions, World.extend]
  | cons o opts ih =>
    simp [assignOptions, run_bind, run_perform, exec, ih, World.record, World.extend]

theorem run_setResolution (i : SessionId) (w : World) :
    ∃ evs b, (setResolution s i).run (exec E) w = (.ok b, w.extend evs) ∧
      (∀ e ∈ evs, e.configures) ∧ (b = true ↔ ∀ e ∈ evs, e.agreeable) := by
  let e₁ := Event.setNumericValue SANE_NAME_SCAN_RESOLUTION s.res_dpi (E.setNumericValue w.log)
  let e₂ := Event.setNumericValue SANE_NAME_SCAN_X_RESOLUTION s.res_dpi
    (E.setNumericValue (w.log ++ [e₁]))
  let e₃ := Event.setNumericValue SANE_NAME_SCAN_Y_RESOLUTION s.res_dpi
    (E.setNumericValue (w.log ++ [e₁, e₂]))
  have h₁ : e₁.agreeable := fun h => absurd h (by decide)
  have h₂ : e₂.agreeable := fun h => absurd h (by decide)
  have h₃ : e₃.agreeable ↔ E.setNumericValue (w.log ++ [e₁, e₂]) = true :=
    ⟨fun h => h rfl, fun h _ => h⟩
  by_cases hb : E.setNumericValue w.log
  · refine ⟨[e₁], true, ?_, by simp [e₁, Event.configures], by simp [h₁]⟩
    simp [setResolution, run_bind, run_perform, exec, hb, World.record, World.extend, e₁]
  by_cases hb' : E.setNumericValue (w.log ++ [e₁])
  · refine ⟨[e₁, e₂], true, ?_, by simp [e₁, e₂, Event.configures], by simp [h₁, h₂]⟩
    simp only [e₁, hb] at hb'
    simp [setResolution, run_bind, run_perform, exec, hb, hb', World.record, World.extend, e₁, e₂]
  · refine ⟨[e₁, e₂, e₃], E.setNumericValue (w.log ++ [e₁, e₂]), ?_,
      by simp [e₁, e₂, e₃, Event.configures], by simp [h₁, h₂, h₃]⟩
    simp only [e₁, hb] at hb'
    simp [setResolution, run_bind, run_perform, exec, hb, hb', World.record, World.extend, e₁, e₂,
      e₃]

theorem run_configure (i : SessionId) (w : World) :
    ∃ evs b, (configure s i).run (exec E) w = (.ok b, w.extend evs) ∧
      (∀ e ∈ evs, e.configures) ∧ (b = true ↔ ∀ e ∈ evs, e.agreeable) := by
  obtain ⟨res, b, hres, hc, hb⟩ := run_setResolution (E := E) (s := s) i
    (w.extend (s.leadingOptions.map fun o => .setOption o.1 o.2))
  let lead : Log := s.leadingOptions.map fun o => .setOption o.1 o.2
  let unit := E.optionUnit (w.log ++ lead ++ res)
  let edges : Log := (s.regionOptions unit).map fun o => .setOption o.1 o.2
  have hset (opts : List (String × OptionValue)) :
      ∀ e ∈ opts.map fun o => Event.setOption o.1 o.2, e.configures ∧ e.agreeable := by
    intro e he
    obtain ⟨o, -, rfl⟩ := List.mem_map.1 he
    exact ⟨trivial, trivial⟩
  refine ⟨lead ++ res ++ .optionUnit SANE_NAME_SCAN_TL_X unit :: edges,
    b && (unit = .pixel || unit = .mm), ?_, ?_, ?_⟩
  · simp [configure, run_bind, run_perform, exec, run_assignOptions, hres, World.record_eq_extend,
      lead, edges, unit]
  · intro e he
    rcases List.mem_append.1 he with he | he
    · exact (List.mem_append.1 he).elim (fun h => (hset _ e h).1) (hc e)
    · rcases List.mem_cons.1 he with rfl | he
      · trivial
      · exact (hset _ e he).1
  · have hlead : ∀ e ∈ lead, e.agreeable := fun e he => (hset _ e he).2
    have hedges : ∀ e ∈ edges, e.agreeable := fun e he => (hset _ e he).2
    have hunit : (Event.optionUnit SANE_NAME_SCAN_TL_X unit).agreeable ↔
        unit = .pixel ∨ unit = .mm := .rfl
    simp only [List.forall_mem_append, List.forall_mem_cons, ← hb, hunit, Bool.and_eq_true,
      Bool.or_eq_true, decide_eq_true_eq]
    exact ⟨fun h => ⟨⟨hlead, h.1⟩, h.2, hedges⟩, fun h => ⟨h.1.2, h.2.1⟩⟩

/-- `openSession` leaves a session behind whatever it answers, and answers GOOD
exactly when the backend agreed to everything. -/
theorem run_openSession {w : World} (hs : w.session = none) :
    ∃ evs st, (openSession s).run (exec E) w =
        (.ok st, (w.openSession E).extend (evs ++ [.openSession st])) ∧
      (∀ e ∈ evs, e.configures) ∧
      (st = .good ↔ ∀ e ∈ .saneOpen w.opened (E.saneOpen w.log) :: evs, e.agreeable) := by
  have hst' : ((w.openSession E).sessions w.opened).status = E.saneOpen w.log := by
    simp [World.openSession]
  by_cases hst : E.saneOpen w.log = .good
  · obtain ⟨evs, b, hrun, hc, hb⟩ := run_configure (E := E) (s := s) w.opened (w.openSession E)
    refine ⟨evs, if b then .good else .inval, ?_, hc, ?_⟩
    · cases b <;> simp [openSession, run_bind, run_perform, exec, hs, hst', hst, hrun,
        World.record_eq_extend]
    · cases b <;> simpa [Event.agreeable, hst] using hb
  · refine ⟨[], E.saneOpen w.log, ?_, by simp, by simp [Event.agreeable]⟩
    simp [openSession, run_bind, run_perform, exec, hs, hst', hst, World.record_eq_extend]

/-- The session that a job about to start a page holds, and the events of
getting it. -/
inductive Prepared (w : World) : Log → World → SessionId → Prop where
  | kept {i : SessionId} (h : w.session = some i) : Prepared w [] w i
  | opened {v : World} {evs : Log} {st₀ st : SaneStatus} (h : w.session = none)
      (hst : st = .good ↔ ∀ e ∈ .saneOpen w.opened st₀ :: evs, e.agreeable)
      (hc : ∀ e ∈ evs, e.configures) (state : v.state = w.state)
      (session : v.session = some w.opened)
      (device : v.device = Function.update w.device w.opened
        (if st₀ = .good then some w.opened else none))
      (opened : v.opened = w.opened + 1) (encoder : v.encoder = w.encoder)
      (imagesCompleted : v.imagesCompleted = w.imagesCompleted)
      (streamGood : v.streamGood = w.streamGood)
      (log : v.log = w.log ++ .saneOpen w.opened st₀ :: evs ++ [.openSession st]) :
    Prepared w (.saneOpen w.opened st₀ :: evs ++ [.openSession st]) v w.opened

theorem Prepared.session {w v : World} {evs : Log} {i : SessionId} (h : Prepared w evs v i) :
    v.session = some i := by
  cases h with
  | kept h => exact h
  | opened _ _ _ _ h => exact h

theorem Prepared.log {w v : World} {evs : Log} {i : SessionId} (h : Prepared w evs v i) :
    v.log = w.log ++ evs := by
  cases h with
  | kept h => simp
  | opened _ _ _ _ _ _ _ _ _ _ h => simpa using h

/-- Starting the session of a prepared job and settling its status. -/
theorem run_startSession (fuel : ℕ) {w : World} {i : SessionId} (hs : w.session = some i) :
    ∃ evs st rest st' u, Starts (w.device i) evs st ∧ Restarted (w.device i) st rest st' ∧
      (rest ≠ [] → s.kind = .adfConcat) ∧ w.Untouched u ∧ u.log = w.log ++ evs ++ rest ∧
      ((startSession s fuel).run (exec E) w = (.ok (), u.settle s st') ∧ ¬ s.restarts st' ∨
        (startSession s fuel).run (exec E) w = (.error .spinning, u)) := by
  have hu := World.untouched_started E w i
  obtain ⟨rest, st', u, hr, hk, hf, hl, ho⟩ := run_updateStatus (E := E) (s := s) fuel
    (w.startStatus E i) (hu.session.trans hs)
  refine ⟨_, _, rest, st', u, World.starts_started E w i, hu.device i ▸ hr, hk, hu.trans hf,
    by simp [hl, World.started], ?_⟩
  simpa [startSession, run_bind, run_perform, exec, hs, run_sessionStart] using ho

/-- The three ends of `beginTransfer` on a pending job. -/
inductive Begun (w : World) : Except Stop Bool × World → Prop where
  | running (hs : w.session.isSome) :
    Begun w (.ok true, (w.withAdfStatus .good).become .processing PWG_JOB_SCANNING)
  | ended {state : State} (adf : SaneStatus) (reason : String) (h : state ≠ .processing)
      (h' : state ≠ .canceled) : Begun w (.ok false, ((w.withAdfStatus adf).become state reason).closed)
  | spinning : Begun w (.error .spinning, w)

theorem run_beginTransfer_idle {w : World} (h : w.state ≠ .pending) (fuel : ℕ) :
    (beginTransfer s fuel).run (exec E) w = (.ok false, w) := by
  simp [beginTransfer, run_bind, run_perform, exec, atomicTransition, h]

theorem run_prepareSession (w : World) :
    ∃ evs v i, Prepared w evs v i ∧ (prepareSession s).run (exec E) w = (.ok (), v) := by
  cases hs : w.session with
  | some i => exact ⟨_, _, i, .kept hs, by simp [prepareSession, run_bind, run_perform, exec, hs]⟩
  | none =>
    obtain ⟨evs, st, hrun, hc, hst⟩ := run_openSession (E := E) (s := s) hs
    refine ⟨_, (w.openSession E).extend (evs ++ [.openSession st]), _,
      .opened hs hst hc rfl rfl ?_ rfl rfl rfl rfl ?_, ?_⟩
    · ext j
      by_cases hj : j = w.opened
      · subst hj
        simp [World.device, World.openSession, World.extend]
      · simp [World.device, World.openSession, World.extend, hj]
    · simp [World.openSession]
    · by_cases hg : st = .good <;>
        simp [prepareSession, run_bind, run_perform, exec, hs, hrun, hg]

/-- `beginTransfer` behind the preparation of its session. -/
theorem run_beginTransfer_prepared {w v : World} (h : w.state = .pending) (fuel : ℕ)
    (hprep : (prepareSession s).run (exec E) { w with state := .processing } = (.ok (), v)) :
    (beginTransfer s fuel).run (exec E) w = match (startSession s fuel).run (exec E) v with
      | (.ok _, x) => (.ok (x.state = .processing), if x.state = .processing then x else x.closed)
      | (.error e, x) => (.error e, x) := by
  rcases hr : (startSession s fuel).run (exec E) v with ⟨e | _, x⟩
  · simp [beginTransfer, run_bind, run_perform, exec, atomicTransition, h, hprep, hr]
  · by_cases hx : x.state = .processing <;>
      simp [beginTransfer, run_bind, run_perform, exec, atomicTransition, h, hprep, hr,
        isProcessing, hx, run_closeSession]

theorem run_beginTransfer {w : World} (h : w.state = .pending) (fuel : ℕ) :
    ∃ opens v i evs st rest st' u, Prepared { w with state := .processing } opens v i ∧
      Starts (v.device i) evs st ∧ Restarted (v.device i) st rest st' ∧
      (rest ≠ [] → s.kind = .adfConcat) ∧ v.Untouched u ∧
      u.log = w.log ++ opens ++ evs ++ rest ∧ Begun u ((beginTransfer s fuel).run (exec E) w) ∧
      (((beginTransfer s fuel).run (exec E) w).1 = .ok true → st' = .good) := by
  obtain ⟨opens, v, i, hp, hprep⟩ :=
    run_prepareSession (E := E) (s := s) { w with state := .processing }
  obtain ⟨evs, st, rest, st', u, hS, hR, hk, hu, hl, ho⟩ :=
    run_startSession (E := E) (s := s) fuel hp.session
  have hsome : u.session.isSome := by simp [hu.session, hp.session]
  refine ⟨opens, v, i, evs, st, rest, st', u, hp, hS, hR, hk, hu, by rw [hl, hp.log], ?_⟩
  rw [run_beginTransfer_prepared h fuel hprep]
  rcases ho with ⟨ho, hn⟩ | ho
  · simp only [ho]
    rcases u.settle_cases hn with ⟨rfl, hw⟩ | ⟨rfl, hk, hw⟩ | ⟨adf, state, reason, hp, hc, -, -, hw⟩
    · simpa [hw, World.become] using Begun.running hsome
    · simpa [hw, World.become] using
        Begun.ended .good PWG_NONE (show State.pending ≠ .processing by simp) (by simp)
    · simpa [hw, hp, World.become] using Begun.ended adf reason hp hc
  · simpa only [ho] using ⟨.spinning, by simp⟩

end AirSane.ScanJob
