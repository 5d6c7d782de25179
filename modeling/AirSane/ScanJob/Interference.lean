import AirSane.Programs.Interleaving
import AirSane.ScanJob.Calls
import AirSane.ScanJob.Phases

/-! # A worker and a request that cancels

The worker thread of a job and the thread of a `DELETE` request share the cells
of the job. The steps of `beginTransfer` and `finishTransfer` interleave with
those of `cancel` in any order; beside the job the history keeps what cancels
have done since the worker looked last.
-/

namespace AirSane.ScanJob
open Programs Program Interleaving

inductive Party where
  | worker | canceller
  deriving DecidableEq

def JobCall.party : JobCall → Party
  | .cancel => .canceller
  | _ => .worker

/-- A job with what cancels did to it: `stored` since the worker last tested the
state, `reset` since it last tested the state or opened a session, and whether
some cancel has returned. -/
structure SharedJob where
  job : World
  stored : Bool
  reset : Bool
  canceled : Bool

def SharedJob.initial (accepted : Bool) : SharedJob := ⟨.initial accepted, false, false, false⟩

/-- The job after a command of a party. -/
def SharedJob.after (w : SharedJob) (job : World) : Party → Command → SharedJob
  | .worker, .testState .processing | .worker, .compareExchangeState _ _ =>
    { w with job := job, stored := false, reset := false }
  | .worker, .openScanner => { w with job := job, reset := false }
  | .canceller, .storeState _ => { w with job := job, stored := true }
  | .canceller, .resetSession => { w with job := job, reset := true }
  | _, _ => { w with job := job }

def SharedJob.exec (E : Environment) (t : Party) : Handler Command Answer SharedJob := fun c w =>
  (ScanJob.exec E c w.job).map fun r => (r.1, w.after r.2 t c)

theorem SharedJob.exec_eq {E : Environment} {t : Party} {c : Command} {x : Answer c} {w w' : SharedJob}
    (h : SharedJob.exec E t c w = some (x, w')) :
    ∃ job, ScanJob.exec E c w.job = some (x, job) ∧ w' = w.after job t c := by
  obtain ⟨⟨_, job⟩, hx, hr⟩ := Option.map_eq_some_iff.1 h
  cases hr
  exact ⟨job, hx, rfl⟩

theorem SharedJob.after_job (w : SharedJob) (job : World) (t : Party) (c : Command) :
    (w.after job t c).job = job := by
  unfold SharedJob.after
  split <;> rfl

theorem SharedJob.after_canceled (w : SharedJob) (job : World) (t : Party) (c : Command) :
    (w.after job t c).canceled = w.canceled := by
  unfold SharedJob.after
  split <;> rfl

def SharedJob.returned (w : SharedJob) : Party → SharedJob
  | .worker => w
  | .canceller => { w with canceled := true }

/-- The worker and the canceller of a job. -/
def cancellation (E : Environment) (s : Settings) :
    Interleaving Party JobCall Command Answer SharedJob Bool where
  caller := JobCall.party
  body := JobCall.text s
  exec := SharedJob.exec E
  returned t w := w.returned t

variable {E : Environment} {s : Settings}

/-- The state of a job after a command. -/
def Command.state : Command → State → State
  | .storeState st', _ => st'
  | .compareExchangeState expected desired, st => if st = expected then desired else st
  | _, st => st

/-- Whether a job has a session after a command. -/
def Command.hasSession : Command → Bool → Bool
  | .openScanner, _ => true
  | .resetSession, _ => false
  | _, b => b

theorem cancelDevice_session (w : World) (i : SessionId) :
    (w.cancelDevice i).session = w.session := by
  unfold World.cancelDevice
  split <;> rfl

theorem cancelDevice_state (w : World) (i : SessionId) : (w.cancelDevice i).state = w.state := by
  unfold World.cancelDevice
  split <;> rfl

theorem closeDevice_state (w : World) (i : SessionId) : (w.closeDevice i).state = w.state := by
  unfold World.closeDevice
  split <;> rfl

theorem resetSession_state (w : World) : w.resetSession.state = w.state := by
  unfold World.resetSession
  split
  · exact (closeDevice_state _ _).trans (cancelDevice_state _ _)
  · rfl

theorem resetSession_session (w : World) : w.resetSession.session = none := by
  unfold World.resetSession
  split
  · rfl
  · assumption

/-- What a command does to the cells of a job. -/
theorem exec_cells {c : Command} {w w' : World} {x : Answer c}
    (h : ScanJob.exec E c w = some (x, w')) : w'.state = c.state w.state ∧
      w'.session.isSome = c.hasSession w.session.isSome := by
  cases c with
  | resetSession =>
    cases h
    exact ⟨resetSession_state w, by rw [resetSession_session]; rfl⟩
  | saneCancel i =>
    cases h
    exact ⟨cancelDevice_state w i, by rw [cancelDevice_session]; rfl⟩
  | compareExchangeState expected desired =>
    by_cases hs : w.state = expected <;> simp only [ScanJob.exec, hs] at h <;> cases h <;>
      simp [Command.state, Command.hasSession, hs]
  | derefSession m =>
    obtain ⟨_, _, h⟩ := Option.map_eq_some_iff.1 h
    cases h
    exact ⟨rfl, rfl⟩
  | loadEncoder =>
    obtain ⟨_, _, h⟩ := Option.map_eq_some_iff.1 h
    cases h
    exact ⟨rfl, rfl⟩
  | callback cb =>
    obtain ⟨_, _, h⟩ := Option.map_eq_some_iff.1 h
    cases h
    exact ⟨rfl, rfl⟩
  | _ =>
    cases h
    exact ⟨rfl, rfl⟩

/-- The phases of a party: those of the worker, and whether a cancel has stored its state. -/
abbrev PartyPhase : Party → Type
  | .worker => Phase
  | .canceller => Bool

/-- A cancel stores `canceled` before all else and opens nothing. -/
def cancelDiscipline : Discipline Command Answer Bool where
  allowed _
    | .storeState st => st = .canceled
    | .compareExchangeState _ _ | .openScanner => False
    | _ => True
  next m
    | .storeState _, _ => true
    | _, _ => m

theorem obeys_cancel : (JobCall.cancel.text s).Obeys cancelDiscipline (fun _ m => m = true)
    (fun _ => True) false := by
  simp [JobCall.text, ScanJob.cancel, setState, closeSession, access, perform, obeys_command,
    cancelDiscipline]

/-- Between two calls of the worker. -/
def Phase.Rests (m : Phase) : Prop := m = .unknown ∨ m.Active

theorem Phase.Rests.ne {m : Phase} (h : m.Rests) : m ≠ .begun ∧ m ≠ .vacant := by
  rcases h with rfl | rfl | rfl | rfl <;> simp

def partyDiscipline : (t : Party) → Discipline Command Answer (PartyPhase t)
  | .worker => discipline
  | .canceller => cancelDiscipline

/-- A canceller stores its state in every call; the worker returns from its
calls in the middle of nothing. -/
def watch (E : Environment) (s : Settings) : (cancellation E s).Monitor PartyPhase where
  discipline := partyDiscipline
  entry
    | .beginTransfer _ => Phase.idle
    | .finishTransfer _ _ => Phase.unknown
    | .cancel => false
  ends
    | .worker, m => Phase.Rests m
    | .canceller, m => m = true
  rests
    | .worker, m => Phase.Rests m
    | .canceller, _ => True
  obeys k := by
    cases k with
    | beginTransfer fuel => exact (obeys_beginTransfer fuel).mono (fun _ _ h => h) fun _ _ => trivial
    | finishTransfer fuel good =>
      apply Program.Obeys.bind
      · exact (obeys_finishTransfer fuel good).mono (fun _ _ h => h) fun _ _ => trivial
      · exact fun _ _ h => .inr h
    | cancel => exact obeys_cancel (s := s)
  rests_of_ends {t m} h := by
    cases t with
    | worker => exact h
    | canceller => trivial

/-- The phases before any call. -/
def firstPhase : (t : Party) → PartyPhase t
  | .worker => Phase.unknown
  | .canceller => false

theorem rests_firstPhase (t : Party) : (watch E s).rests t (firstPhase t) := by
  cases t with
  | worker => exact .inl rfl
  | canceller => trivial

end AirSane.ScanJob
