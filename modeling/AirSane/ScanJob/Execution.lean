import AirSane.ScanJob.Handler
import AirSane.ScanJob.Code

/-! # What the functions of a job do when nothing interferes

Each function is described once, by the world it leaves behind; later results
cite these descriptions and do not execute the program text again.
-/

namespace AirSane.ScanJob
open Programs Program

variable {E : Environment} {s : Settings}

namespace World

/-- The calls that releasing the session of a job makes. -/
def releaseEvents (w : World) : Log :=
  match w.session with
  | some i => match w.device i with
    | some h => [.saneCancel h, .saneCancel h, .saneClose h]
    | none => []
  | none => []

/-- The world after `closeSession`. -/
def closed (w : World) : World := { w with session := none, log := w.log ++ w.releaseEvents }

def become (w : World) (st : State) (reason : String) : World :=
  { w with state := st, stateReason := reason }

theorem closed_of_none {w : World} (h : w.session = none) : w.closed = w := by
  cases w
  simp only at h
  subst h
  simp [closed, releaseEvents]

/-- The events and the status of `session::start`. -/
def startEvents (E : Environment) (w : World) (i : SessionId) : Log :=
  let st := E.saneStart w.log
  let e := Event.saneStart (w.device i) st
  if st = .good then
    let r := E.saneGetParameters (w.log ++ [e])
    [e, .saneGetParameters (w.device i) r.1 r.2]
  else [e]

def startStatus (E : Environment) (w : World) : SessionId → SaneStatus := fun i =>
  let st := E.saneStart w.log
  if st = .good then (E.saneGetParameters (w.log ++ [.saneStart (w.device i) st])).1 else st

/-- The world after `session::start`. -/
def started (E : Environment) (w : World) (i : SessionId) : World :=
  let st := E.saneStart w.log
  let r := E.saneGetParameters (w.log ++ [.saneStart (w.device i) st])
  { w with
    sessions := Function.update w.sessions i
      (if st = .good then ⟨w.device i, r.1, r.2⟩ else ⟨w.device i, st, (w.sessions i).parameters⟩)
    log := w.log ++ w.startEvents E i }

end World

theorem run_setState (st : State) (reason : String) (w : World) :
    (setState st reason).run (exec E) w = (.ok (), w.become st reason) := rfl

theorem run_closeSession (w : World) :
    closeSession.run (exec E) w = (.ok (), w.closed) := by
  rcases hs : w.session with _ | i
  · simp [closeSession, run_bind, run_perform, exec, hs, World.resetSession, World.closed_of_none]
  · rcases hd : (w.sessions i).device with _ | h <;>
      simp [closeSession, run_bind, run_perform, exec, hs, World.resetSession, World.closed,
        World.releaseEvents, World.cancelDevice, World.closeDevice, World.device, hd,
        World.record]

theorem run_sessionStart (i : SessionId) (w : World) :
    (Session.start i).run (exec E) w = (.ok (w.startStatus E i), w.started E i) := by
  by_cases hst : E.saneStart w.log = .good
  · simp [Session.start, run_bind, run_perform, exec, World.startDevice, World.setSession,
      World.record, World.started, World.startEvents, World.startStatus, World.device, hst,
      World.fetchParameters]
  · simp [Session.start, run_bind, run_perform, exec, World.startDevice, World.setSession,
      World.record, World.started, World.startEvents, World.startStatus, World.device, hst]

/-- A page that ends starts the next one only when pages are concatenated. -/
def Settings.restarts (s : Settings) (st : SaneStatus) : Prop := s.kind = .adfConcat ∧ st = .eof

namespace World

def withAdfStatus (w : World) (st : SaneStatus) : World := { w with adfStatus := st }

/-- The job aborts and gives up its session. -/
def failed (w : World) (adf : SaneStatus) (reason : String) : World :=
  ((w.withAdfStatus adf).become .aborted reason).closed

/-- The world after `updateStatus` on a status that starts no further page. -/
def settle (s : Settings) (w : World) : SaneStatus → World
  | .good => (w.withAdfStatus .good).become .processing PWG_JOB_SCANNING
  | .inval => w.failed .good PWG_INVALID_SCAN_TICKET
  | .deviceBusy | .ioError | .noMem => w.failed .good PWG_RESOURCES_ARE_NOT_READY
  | .accessDenied => w.failed .good PWG_DOCUMENT_PERMISSION_ERROR
  | .jammed => w.failed .jammed PWG_RESOURCES_ARE_NOT_READY
  | .coverOpen => w.failed .coverOpen PWG_RESOURCES_ARE_NOT_READY
  | .cancelled => w.failed .good PWG_JOB_CANCELED_BY_USER
  | .eof => match s.kind with
    | .single => if 0 < w.imagesCompleted then
        ((w.withAdfStatus .good).become .completed PWG_JOB_COMPLETED_SUCCESSFULLY).closed
      else ((w.withAdfStatus .good).become .pending PWG_NONE).closed
    | _ => (w.withAdfStatus .good).become .pending PWG_NONE
  | .noDocs => if 0 < w.imagesCompleted ∧ (s.kind = .adfSingle ∨ s.kind = .adfConcat) then
      ((w.withAdfStatus .noDocs).become .completed PWG_JOB_COMPLETED_SUCCESSFULLY).closed
    else w.failed .noDocs PWG_RESOURCES_ARE_NOT_READY
  | .unsupported | .other _ => w.failed .good PWG_ERRORS_DETECTED

@[simp] theorem closed_state (w : World) : w.closed.state = w.state := rfl
@[simp] theorem closed_session (w : World) : w.closed.session = none := rfl
@[simp] theorem closed_closed (w : World) : w.closed.closed = w.closed := closed_of_none rfl

end World

theorem run_updateStatus_settle {st : SaneStatus} (h : ¬ s.restarts st) (fuel : ℕ) (w : World) :
    (updateStatus s (fuel + 1) st).run (exec E) w = (.ok (), w.settle s st) := by
  cases st with
  | eof =>
    cases hk : s.kind with
    | single =>
      by_cases hi : 0 < w.imagesCompleted <;>
        simp [updateStatus, run_bind, run_perform, exec, run_setState, run_closeSession,
          World.settle, World.withAdfStatus, World.become, hk, hi]
    | adfSingle =>
      simp [updateStatus, run_bind, run_perform, exec, run_setState, World.settle,
        World.withAdfStatus, World.become, hk]
    | adfConcat => exact absurd ⟨hk, rfl⟩ h
  | noDocs =>
    by_cases hi : 0 < w.imagesCompleted ∧ (s.kind = .adfSingle ∨ s.kind = .adfConcat) <;>
      simp [updateStatus, run_bind, run_perform, exec, run_setState, run_closeSession,
        World.settle, World.withAdfStatus, World.become, World.failed, hi]
  | _ =>
    simp [updateStatus, run_bind, run_perform, exec, run_setState, run_closeSession,
      World.settle, World.withAdfStatus, World.become, World.failed]

/-- The session of a settled job: in use while it runs or waits for the next
sheet, released otherwise. -/
theorem World.settle_cases {st : SaneStatus} (h : ¬ s.restarts st) (w : World) :
    (st = .good ∧ w.settle s st = (w.withAdfStatus .good).become .processing PWG_JOB_SCANNING) ∨
    (st = .eof ∧ s.kind = .adfSingle ∧
      w.settle s st = (w.withAdfStatus .good).become .pending PWG_NONE) ∨
    ∃ adf state reason, state ≠ .processing ∧ state ≠ .canceled ∧ st ≠ .good ∧
      ¬ (st = .eof ∧ s.kind = .adfSingle) ∧
      w.settle s st = ((w.withAdfStatus adf).become state reason).closed := by
  cases st with
  | good => exact .inl ⟨rfl, rfl⟩
  | eof =>
    cases hk : s.kind with
    | single =>
      refine .inr (.inr ?_)
      by_cases hi : 0 < w.imagesCompleted
      · exact ⟨.good, .completed, PWG_JOB_COMPLETED_SUCCESSFULLY, by simp [World.settle, hk, hi]⟩
      · exact ⟨.good, .pending, PWG_NONE, by simp [World.settle, hk, hi]⟩
    | adfSingle => exact .inr (.inl ⟨rfl, rfl, by simp [World.settle, hk]⟩)
    | adfConcat => exact absurd ⟨hk, rfl⟩ h
  | noDocs =>
    refine .inr (.inr ?_)
    by_cases hi : 0 < w.imagesCompleted ∧ (s.kind = .adfSingle ∨ s.kind = .adfConcat)
    · exact ⟨.noDocs, .completed, PWG_JOB_COMPLETED_SUCCESSFULLY, by simp [World.settle, hi]⟩
    · exact ⟨.noDocs, .aborted, PWG_RESOURCES_ARE_NOT_READY, by
        simp [World.settle, World.failed, hi]⟩
  | _ => exact .inr (.inr ⟨_, .aborted, _, by simp, by simp, by simp, by simp, rfl⟩)

theorem World.settle_aborted (w : World) (st : SaneStatus)
    (h : (w.settle s st).state = .aborted) : (w.settle s st).session = none := by
  by_cases hr : s.restarts st
  · obtain ⟨hk, rfl⟩ := hr
    simp [World.settle, hk, World.become] at h
  · rcases w.settle_cases hr with ⟨-, hw⟩ | ⟨-, -, hw⟩ | ⟨adf, st', r, -, -, -, -, hw⟩
    · simp [hw, World.become] at h
    · simp [hw, World.become] at h
    · simp [hw]

/-- Calls that give a device back. -/
def Releases (evs : Log) : Prop := ∀ e ∈ evs, ∃ h, e = .saneCancel h ∨ e = .saneClose h

theorem World.releases_releaseEvents (w : World) : Releases w.releaseEvents := by
  unfold releaseEvents Releases
  split
  · split <;> simp
  · simp

theorem World.settle_log {st : SaneStatus} (h : ¬ s.restarts st) (w : World) :
    ∃ evs, Releases evs ∧ (w.settle s st).log = w.log ++ evs := by
  rcases w.settle_cases h with ⟨-, hw⟩ | ⟨-, -, hw⟩ | ⟨adf, st', r, -, -, -, -, hw⟩
  · exact ⟨[], by simp [Releases], by simp [hw, become, withAdfStatus]⟩
  · exact ⟨[], by simp [Releases], by simp [hw, become, withAdfStatus]⟩
  · exact ⟨_, releases_releaseEvents _, by rw [hw]; rfl⟩

/-- One call of `session::start`: its events and its status. -/
inductive Starts (d : Option Handle) : Log → SaneStatus → Prop where
  | refused {st : SaneStatus} (h : st ≠ .good) : Starts d [.saneStart d st] st
  | parameters (st : SaneStatus) (p : SaneParameters) :
    Starts d [.saneStart d .good, .saneGetParameters d st p] st

/-- The starts that the recursion of `updateStatus` makes: each one but the last
ends in EOF. -/
inductive Restarted (d : Option Handle) : SaneStatus → Log → SaneStatus → Prop where
  | refl (st : SaneStatus) : Restarted d st [] st
  | again {evs rest : Log} {st st' : SaneStatus} (h : Starts d evs st)
      (hr : Restarted d st rest st') : Restarted d .eof (evs ++ rest) st'

/-- What neither starting nor reading a page changes. -/
structure World.Untouched (w u : World) : Prop where
  state : u.state = w.state
  session : u.session = w.session
  device : ∀ j, u.device j = w.device j
  opened : u.opened = w.opened
  encoder : u.encoder = w.encoder
  imagesCompleted : u.imagesCompleted = w.imagesCompleted
  streamGood : u.streamGood = w.streamGood

namespace World
variable {w u v : World}

theorem Untouched.trans (h : w.Untouched u) (h' : u.Untouched v) : w.Untouched v where
  state := h'.state.trans h.state
  session := h'.session.trans h.session
  device j := (h'.device j).trans (h.device j)
  opened := h'.opened.trans h.opened
  encoder := h'.encoder.trans h.encoder
  imagesCompleted := h'.imagesCompleted.trans h.imagesCompleted
  streamGood := h'.streamGood.trans h.streamGood

theorem untouched_withAdfStatus (w : World) (st : SaneStatus) : w.Untouched (w.withAdfStatus st) :=
  ⟨rfl, rfl, fun _ => rfl, rfl, rfl, rfl, rfl⟩

theorem untouched_started (E : Environment) (w : World) (i : SessionId) :
    w.Untouched (w.started E i) where
  state := rfl
  session := rfl
  device j := by
    by_cases hj : j = i
    · subst hj
      by_cases hst : E.saneStart w.log = .good <;> simp [device, started, hst]
    · simp [device, started, hj]
  opened := rfl
  encoder := rfl
  imagesCompleted := rfl
  streamGood := rfl

theorem starts_started (E : Environment) (w : World) (i : SessionId) :
    Starts (w.device i) (w.startEvents E i) (w.startStatus E i) := by
  by_cases hst : E.saneStart w.log = .good
  · simpa [startEvents, startStatus, hst] using Starts.parameters _ _
  · simpa [startEvents, startStatus, hst] using Starts.refused hst

end World

/-- One step of the recursion of `updateStatus`: the next page is started. -/
theorem run_updateStatus_restart (hk : s.kind = .adfConcat) {w : World} {i : SessionId}
    (hs : w.session = some i) (fuel : ℕ) :
    (updateStatus s (fuel + 1) .eof).run (exec E) w =
      match (updateStatus s fuel ((w.withAdfStatus .good).startStatus E i)).run (exec E)
        ((w.withAdfStatus .good).started E i) with
      | (.ok _, u) => (.ok (), if u.state = .aborted then u.closed else u)
      | (.error e, u) => (.error e, u) := by
  simp only [updateStatus, run_bind, run_perform, exec, hk, hs, Option.map,
    run_sessionStart, World.withAdfStatus]
  rcases (updateStatus s fuel _).run (exec E) _ with ⟨e | _, v⟩
  · rfl
  · by_cases ha : v.state = .aborted <;> simp [ha, run_closeSession]

/-- An aborted job has given up its session before the last test of `updateStatus`. -/
theorem World.settle_tested (w : World) (st : SaneStatus) :
    (if (w.settle s st).state = .aborted then (w.settle s st).closed else w.settle s st) =
      w.settle s st := by
  split_ifs with ha
  · exact World.closed_of_none (w.settle_aborted st ha)
  · rfl

/-- `updateStatus` restarts a concatenated document as long as pages are empty,
then settles the job; a backend that never stops doing so exhausts the fuel. -/
theorem run_updateStatus (fuel : ℕ) (st : SaneStatus) {w : World} {i : SessionId}
    (hs : w.session = some i) :
    ∃ evs st' u, Restarted (w.device i) st evs st' ∧ (evs ≠ [] → s.kind = .adfConcat) ∧
      w.Untouched u ∧ u.log = w.log ++ evs ∧
      ((updateStatus s fuel st).run (exec E) w = (.ok (), u.settle s st') ∧ ¬ s.restarts st' ∨
        (updateStatus s fuel st).run (exec E) w = (.error .spinning, u)) := by
  induction fuel generalizing st w with
  | zero =>
    exact ⟨[], st, w, .refl st, by simp, ⟨rfl, rfl, fun _ => rfl, rfl, rfl, rfl, rfl⟩, by simp,
      .inr rfl⟩
  | succ fuel ih =>
    by_cases h : s.restarts st
    · obtain ⟨hk, rfl⟩ := h
      have hu := (w.untouched_withAdfStatus .good).trans
        (World.untouched_started E (w.withAdfStatus .good) i)
      obtain ⟨evs, st', u, hr, -, hf, hl, ho⟩ :=
        ih ((w.withAdfStatus .good).startStatus E i) (hu.session.trans hs)
      refine ⟨(w.withAdfStatus .good).startEvents E i ++ evs, st', u,
        .again (World.starts_started E _ i) (hu.device i ▸ hr), fun _ => hk, hu.trans hf, ?_, ?_⟩
      · simp [hl, World.started, World.withAdfStatus]
      · rw [run_updateStatus_restart hk hs]
        rcases ho with ⟨ho, hn⟩ | ho
        · refine .inl ⟨?_, hn⟩
          rw [ho]
          simp only [World.settle_tested]
        · exact .inr (by rw [ho])
    · exact ⟨[], st, w, .refl st, by simp, ⟨rfl, rfl, fun _ => rfl, rfl, rfl, rfl, rfl⟩, by simp,
        .inl ⟨run_updateStatus_settle h fuel w, h⟩⟩

end AirSane.ScanJob
