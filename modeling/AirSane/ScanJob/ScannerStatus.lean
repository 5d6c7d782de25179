import AirSane.Programs.Machine
import AirSane.ScanJob.Calls
import AirSane.ScanJob.Phases

/-! # The status of a scanner

The jobs of one scanner, with the weak reference that `Scanner::open` leaves to
the session it made last. The scanner calls itself open as long as some job
holds that session.
-/

namespace AirSane.ScanJob
open Programs Program

/-- What commands other than opening leave of the sessions of a job. -/
structure World.Keeps (w w' : World) : Prop where
  session : w'.session = w.session ∨ w'.session = none
  opened : w'.opened = w.opened
  device : ∀ i, w'.device i = w.device i

namespace World
variable {w u v : World}

theorem Keeps.refl (w : World) : w.Keeps w := ⟨.inl rfl, rfl, fun _ => rfl⟩

theorem Keeps.trans (h : w.Keeps u) (h' : u.Keeps v) : w.Keeps v where
  session := by
    rcases h'.session with hv | hv
    · rw [hv]
      exact h.session
    · exact .inr hv
  opened := h'.opened.trans h.opened
  device i := (h'.device i).trans (h.device i)

theorem keeps_setSession (w : World) (i : SessionId) {f : Session → Session}
    (hf : ∀ x, (f x).device = x.device) : w.Keeps (w.setSession i f) := by
  refine ⟨.inl rfl, rfl, fun j => ?_⟩
  by_cases hj : j = i
  · subst hj
    simp [World.setSession, World.device, hf]
  · simp [World.setSession, World.device, hj]

theorem keeps_cancelDevice (w : World) (i : SessionId) : w.Keeps (w.cancelDevice i) := by
  unfold cancelDevice
  split <;> exact ⟨.inl rfl, rfl, fun _ => rfl⟩

theorem keeps_closeDevice (w : World) (i : SessionId) : w.Keeps (w.closeDevice i) := by
  unfold closeDevice
  split <;> exact ⟨.inl rfl, rfl, fun _ => rfl⟩

theorem keeps_resetSession (w : World) : w.Keeps w.resetSession := by
  unfold resetSession
  split
  · rename_i i _
    have hkeep := (keeps_cancelDevice w i).trans (keeps_closeDevice _ i)
    exact ⟨.inr rfl, hkeep.opened, hkeep.device⟩
  · exact .refl w

end World

variable {E : Environment} {s : Settings}

theorem exec_keeps {c : Command} {w w' : World} {x : Answer c} (hc : c ≠ .openScanner)
    (h : exec E c w = some (x, w')) : w.Keeps w' := by
  cases c with
  | openScanner => exact absurd rfl hc
  | resetSession =>
    cases h
    exact w.keeps_resetSession
  | saneCancel i =>
    cases h
    exact w.keeps_cancelDevice i
  | saneStart i =>
    cases h
    have hkeep := w.keeps_setSession i (f := fun x => { x with status := E.saneStart w.log })
      fun _ => rfl
    exact ⟨hkeep.session, hkeep.opened, hkeep.device⟩
  | saneGetParameters i =>
    cases h
    have hkeep := w.keeps_setSession i (f := fun x => { x with
      status := (E.saneGetParameters w.log).1, parameters := (E.saneGetParameters w.log).2 })
      fun _ => rfl
    exact ⟨hkeep.session, hkeep.opened, hkeep.device⟩
  | storeSessionStatus i st =>
    cases h
    exact w.keeps_setSession i fun _ => rfl
  | compareExchangeState expected desired =>
    by_cases hs : w.state = expected <;> simp only [exec, hs] at h <;> cases h <;>
      exact ⟨.inl rfl, rfl, fun _ => rfl⟩
  | derefSession m =>
    obtain ⟨_, _, h⟩ := Option.map_eq_some_iff.1 h
    cases h
    exact .refl w
  | loadEncoder =>
    obtain ⟨_, _, h⟩ := Option.map_eq_some_iff.1 h
    cases h
    exact .refl w
  | callback cb =>
    obtain ⟨_, _, h⟩ := Option.map_eq_some_iff.1 h
    cases h
    exact ⟨.inl rfl, rfl, fun _ => rfl⟩
  | _ =>
    cases h
    exact ⟨.inl rfl, rfl, fun _ => rfl⟩

theorem exec_openScanner {w w' : World} {x : Answer .openScanner}
    (h : exec E .openScanner w = some (x, w')) : w'.opened = w.opened + 1 := by
  cases h
  rfl

/-- A transfer uses the session that it finds and makes no other. -/
theorem finishTransfer_keeps (fuel : ℕ) (good : Bool) (w : World) :
    w.Keeps ((finishTransfer s fuel good).run (exec E) w).2 := by
  have hcommand (m : Phase) (c : Command) (v : World) (x : Answer c) (v' : World)
      (hc : m.Allowed c) (hx : exec E c v = some (x, v')) (h : m.Tested ∧ w.Keeps v) :
      (m.next c x).Tested ∧ w.Keeps v' := by
    have hopen : c ≠ .openScanner := by
      rintro rfl
      exact h.1.2.2 hc
    exact ⟨h.1.next hc x, h.2.trans (exec_keeps hopen hx)⟩
  obtain ⟨m, _, hkeep⟩ := (obeys_finishTransfer fuel good).run (exec E)
    (fun m v => m.Tested ∧ w.Keeps v) hcommand (w := w) ⟨by simp [Phase.Tested], .refl w⟩
  exact hkeep

theorem cancel_keeps (w : World) : w.Keeps (cancel.run (exec E) w).2 := by
  rw [run_cancel]
  exact ⟨.inr rfl, rfl, fun _ => rfl⟩

def Event.opening (st : SaneStatus) : Event → SaneStatus
  | .saneOpen _ st' => st'
  | _ => st

/-- How the last attempt to open the device ended. -/
def lastOpen (log : Log) : SaneStatus := log.foldl Event.opening .good

/-- A backend starts no device that it has not opened. -/
def Environment.Refuses (E : Environment) : Prop :=
  ∀ log, lastOpen log ≠ .good → E.saneStart log ≠ .good ∧ E.saneStart log ≠ .eof

theorem opening_of_configures {e : Event} (h : e.configures) (st : SaneStatus) :
    e.opening st = st := by
  cases e <;> first | rfl | exact h.elim

theorem lastOpen_openSession {log evs : Log} {i : Handle} {st st' : SaneStatus}
    (h : ∀ e ∈ evs, e.configures) :
    lastOpen (log ++ .saneOpen i st :: (evs ++ [.openSession st'])) = st := by
  rw [lastOpen, List.foldl_append, List.foldl_cons, List.foldl_append]
  have hevs : evs.foldl Event.opening st = st := by
    induction evs with
    | nil => rfl
    | cons e evs ih =>
      rw [List.foldl_cons, opening_of_configures (h e (by simp))]
      exact ih fun x hx => h x (by simp [hx])
  exact hevs

/-- The session of a job that had none, whatever opening it answered. -/
theorem run_prepareSession_none {w : World} (hs : w.session = none) :
    ∃ evs st, (∀ e ∈ evs, Event.configures e) ∧ (prepareSession s).run (exec E) w =
      (.ok (), (w.openSession E).extend (evs ++ [.openSession st])) := by
  obtain ⟨evs, st, hrun, hc, -⟩ := run_openSession (E := E) (s := s) hs
  refine ⟨evs, st, hc, ?_⟩
  by_cases hg : st = .good <;> simp [prepareSession, run_bind, run_perform, exec, hs, hrun, hg]

/-- A device that could not be opened is not started. -/
theorem startSession_refused {w : World} {i : SessionId} (fuel : ℕ) (hE : E.Refuses)
    (hs : w.session = some i) (ho : lastOpen w.log ≠ .good) :
    (startSession s fuel).run (exec E) w = (.error .spinning, w.started E i) ∨
      ∃ u, (startSession s fuel).run (exec E) w = (.ok (), u) ∧ u.session = none ∧
        u.state ≠ .processing ∧ u.opened = w.opened := by
  obtain ⟨hng, hneof⟩ := hE w.log ho
  have hstatus : w.startStatus E i = E.saneStart w.log := if_neg hng
  have hstart : (startSession s fuel).run (exec E) w =
      (updateStatus s fuel (E.saneStart w.log)).run (exec E) (w.started E i) := by
    simp [startSession, run_bind, run_perform, exec, hs, run_sessionStart, hstatus]
  rw [hstart]
  cases fuel with
  | zero => exact .inl rfl
  | succ fuel =>
    have hn : ¬ s.restarts (E.saneStart w.log) := fun h => hneof h.2
    rw [run_updateStatus_settle hn]
    rcases World.settle_cases hn (w.started E i) with
      ⟨h, -⟩ | ⟨h, -⟩ | ⟨adf, state, reason, hstate, -, -, -, hw⟩
    · exact absurd h hng
    · exact absurd h hneof
    · exact .inr ⟨_, rfl, by rw [hw]; exact ⟨rfl, hstate, rfl⟩⟩

/-- The session that `beginTransfer` makes is given back, or has its device open. -/
theorem beginTransfer_opens {w w' : World} {r : Except Stop Bool} {fuel : ℕ} (hE : E.Refuses)
    (hp : w.state = .pending) (hs : w.session = none)
    (h : (beginTransfer s fuel).run (exec E) w = (r, w')) (hr : r ≠ .error .spinning) :
    w'.opened = w.opened + 1 ∧ ∀ i, w'.session = some i → i = w.opened ∧ w'.device i ≠ none := by
  obtain ⟨u, hu⟩ : ∃ u : World, u = { w with state := .processing } := ⟨_, rfl⟩
  have hus : u.session = none := by rw [hu]; exact hs
  have huo : u.opened = w.opened := by rw [hu]
  obtain ⟨evs, st, hc, hprep⟩ := run_prepareSession_none (E := E) (s := s) hus
  obtain ⟨v, hv⟩ : ∃ v, v = (u.openSession E).extend (evs ++ [.openSession st]) := ⟨_, rfl⟩
  have hvs : v.session = some w.opened := by rw [hv, ← huo]; rfl
  have hvo : v.opened = w.opened + 1 := by rw [hv, ← huo]; rfl
  rw [← hv, hu] at hprep
  rw [run_beginTransfer_prepared hp fuel hprep] at h
  by_cases ho : E.saneOpen u.log = .good
  · have hdevice : v.device w.opened ≠ none := by
      simp [hv, World.device, World.extend, World.openSession, huo, ho]
    obtain ⟨_, _, _, st', x, -, -, -, hx, -, hrun⟩ :=
      run_startSession (E := E) (s := s) fuel hvs
    rcases hrun with ⟨hrun, hn⟩ | hrun
    · rw [hrun] at h
      rcases x.settle_cases hn with ⟨-, hw⟩ | ⟨-, -, hw⟩ | ⟨adf, state, reason, hstate, -, -, -, hw⟩
      · rw [hw] at h
        cases h
        refine ⟨hx.opened.trans hvo, fun i hi => ?_⟩
        have hi' : v.session = some i := hx.session.symm.trans hi
        rw [hvs, Option.some_inj] at hi'
        rw [← hi']
        exact ⟨rfl, by rw [← hx.device] at hdevice; exact hdevice⟩
      · rw [hw] at h
        cases h
        exact ⟨hx.opened.trans hvo, by simp [World.become]⟩
      · rw [hw] at h
        simp only [World.closed_state, World.become, hstate, if_false] at h
        cases h
        exact ⟨hx.opened.trans hvo, by simp⟩
    · rw [hrun] at h
      cases h
      exact absurd rfl hr
  · have hlast : lastOpen v.log ≠ .good := by
      have hlog : v.log =
          u.log ++ .saneOpen u.opened (E.saneOpen u.log) :: (evs ++ [.openSession st]) := by
        simp [hv, World.openSession]
      rw [hlog, lastOpen_openSession hc]
      exact ho
    rcases startSession_refused (s := s) fuel hE hvs hlast with
      hrun | ⟨x, hrun, hxs, hstate, hxo⟩
    · rw [hrun] at h
      cases h
      exact absurd rfl hr
    · simp only [hrun, hstate, if_false] at h
      cases h
      exact ⟨hxo.trans hvo, by simp⟩

/-- Whatever session `beginTransfer` finds it keeps or gives back. -/
theorem beginTransfer_keeps {w w' : World} {r : Except Stop Bool} {fuel : ℕ}
    (hn : ¬ (w.state = .pending ∧ w.session = none))
    (h : (beginTransfer s fuel).run (exec E) w = (r, w')) (hr : r ≠ .error .spinning) :
    w.Keeps w' := by
  by_cases hp : w.state = .pending
  · obtain ⟨opens, v, i, evs, st, rest, st', u, hprep, -, -, -, hu, -, hb, -⟩ :=
      run_beginTransfer (E := E) (s := s) hp fuel
    rw [h] at hb
    cases hprep with
    | kept hs =>
      cases hb with
      | running _ => exact ⟨.inl hu.session, hu.opened, hu.device⟩
      | ended adf reason _ _ => exact ⟨.inr rfl, hu.opened, hu.device⟩
      | spinning => exact absurd rfl hr
    | opened hs => exact absurd ⟨hp, hs⟩ hn
  · rw [run_beginTransfer_idle hp] at h
    cases h
    exact .refl w

/-- The jobs of a scanner by number, and the session that was opened last, as one of a job. -/
structure ScannerJobs where
  jobs : ℕ → World
  mpSession : Option (ℕ × SessionId)

namespace ScannerJobs

/-- Fresh jobs, whose tickets were accepted or not. -/
def initial (accepted : ℕ → Bool) : ScannerJobs := ⟨fun j => .initial (accepted j), none⟩

/-- `Scanner::isOpen`: some job still owns the session. -/
def isOpen (σ : ScannerJobs) : Bool :=
  match σ.mpSession with
  | some (j, i) => (σ.jobs j).session = some i
  | none => false

/-- `Scanner::Private::statusString`. -/
def statusString (σ : ScannerJobs) : String := if σ.isOpen then "Processing" else "Idle"

/-- `Scanner::open` for a job, besides what the command does to the job. -/
def track (σ : ScannerJobs) (j : ℕ) : Command → Option (ℕ × SessionId)
  | .openScanner => some (j, (σ.jobs j).opened)
  | _ => σ.mpSession

/-- The commands of a job, on the scanner that it belongs to. -/
def exec (E : Environment) (j : ℕ) : Handler Command Answer ScannerJobs := fun c σ =>
  (ScanJob.exec E c (σ.jobs j)).map fun r =>
    (r.1, ⟨Function.update σ.jobs j r.2, σ.track j c⟩)

end ScannerJobs

/-- A job holds a session whose device was opened. -/
def World.HoldsDevice (w : World) : Prop := ∃ i, w.session = some i ∧ w.device i ≠ none

def ScannerJobs.Truthful (σ : ScannerJobs) : Prop :=
  σ.isOpen = true ↔ ∃ j, (σ.jobs j).HoldsDevice

/-- A call on a job, and how the backend answers in it. -/
structure Operation where
  job : ℕ
  call : JobCall
  environment : Environment

/-- A call that returns, or throws. -/
def Operation.Step (s : ℕ → Settings) (σ : ScannerJobs) (op : Operation) (σ' : ScannerJobs) : Prop :=
  op.environment.Refuses ∧ ∃ r, ((∃ b, r = .ok b) ∨ r = .error .raised) ∧
    (op.call.text (s op.job)).run (ScannerJobs.exec op.environment op.job) σ = (r, σ')

/-- The tracked session changes with the number of sessions that were made. -/
theorem track_eq {j : ℕ} {σ : ScannerJobs} {c : Command} {x : Answer c} {w' : World}
    (h : exec E c (σ.jobs j) = some (x, w')) : (σ.jobs j).opened ≤ w'.opened ∧ σ.track j c =
      if w'.opened = (σ.jobs j).opened then σ.mpSession else some (j, w'.opened - 1) := by
  by_cases hc : c = .openScanner
  · subst hc
    have ho := exec_openScanner h
    refine ⟨by omega, ?_⟩
    rw [if_neg (by omega), ho, Nat.add_sub_cancel]
    rfl
  · have ho := (exec_keeps hc h).opened
    refine ⟨ho.ge, ?_⟩
    rw [if_pos ho]
    cases c <;> first | rfl | exact absurd rfl hc

/-- The jobs and the tracked session after a run of a job. -/
theorem run_scannerExec {α : Type} (p : JobM α) (j : ℕ) (σ : ScannerJobs) :
    p.run (ScannerJobs.exec E j) σ = ((p.run (exec E) (σ.jobs j)).1,
      ⟨Function.update σ.jobs j (p.run (exec E) (σ.jobs j)).2,
        if (p.run (exec E) (σ.jobs j)).2.opened = (σ.jobs j).opened then σ.mpSession
        else some (j, (p.run (exec E) (σ.jobs j)).2.opened - 1)⟩) ∧
      (σ.jobs j).opened ≤ (p.run (exec E) (σ.jobs j)).2.opened := by
  induction p generalizing σ with
  | ret a => simp
  | command c next ih =>
    rw [run_command, run_command]
    cases hc : exec E c (σ.jobs j) with
    | none => simp [ScannerJobs.exec, hc]
    | some r =>
      have hstep : ScannerJobs.exec E j c σ =
          some (r.1, ⟨Function.update σ.jobs j r.2, σ.track j c⟩) := by
        simp [ScannerJobs.exec, hc]
      obtain ⟨hle, htrack⟩ := track_eq hc
      obtain ⟨hrun, hle'⟩ := ih r.1 ⟨Function.update σ.jobs j r.2, σ.track j c⟩
      simp only [Function.update_self, Function.update_idem] at hrun hle'
      simp only [hstep]
      refine ⟨?_, hle.trans hle'⟩
      rw [hrun, htrack]
      congr 2
      split_ifs <;> first | rfl | omega | simp_all
  | raise => simp
  | crash => simp
  | spin => simp

/-- The call is going to open a session. -/
def World.Opens (w : World) (c : JobCall) : Prop :=
  (∃ fuel, c = .beginTransfer fuel) ∧ w.state = .pending ∧ w.session = none

/-- No session is opened beside one with an open device. -/
def Operation.Alone (σ : ScannerJobs) (op : Operation) : Prop :=
  (σ.jobs op.job).Opens op.call → ∀ k, k ≠ op.job → ¬ (σ.jobs k).HoldsDevice

theorem run_text_snd (p : JobM Unit) (w : World) :
    ((p >>= fun _ => pure true).run (exec E) w).2 = (p.run (exec E) w).2 := by
  rw [run_bind]
  rcases p.run (exec E) w with ⟨e | _, w'⟩ <;> rfl

/-- The sessions that a call leaves behind. -/
theorem call_sessions {w w' : World} {c : JobCall} {r : Except Stop Bool} (hE : E.Refuses)
    (h : (c.text s).run (exec E) w = (r, w')) (hr : r ≠ .error .spinning) :
    (w.Opens c ∧ w'.opened = w.opened + 1 ∧
        ∀ i, w'.session = some i → i = w.opened ∧ w'.device i ≠ none) ∨
      (¬ w.Opens c ∧ w.Keeps w') := by
  cases c with
  | beginTransfer fuel =>
    by_cases hn : w.state = .pending ∧ w.session = none
    · exact .inl ⟨⟨⟨fuel, rfl⟩, hn⟩, beginTransfer_opens hE hn.1 hn.2 h hr⟩
    · exact .inr ⟨fun ho => hn ho.2, beginTransfer_keeps hn h hr⟩
  | finishTransfer fuel good =>
    have hkeep := finishTransfer_keeps (E := E) (s := s) fuel good w
    rw [← run_text_snd] at hkeep
    refine .inr ⟨?_, ?_⟩
    · rintro ⟨⟨_, h⟩, -⟩
      cases h
    · have hw : w' = _ := congrArg Prod.snd h.symm
      rw [hw]
      exact hkeep
  | cancel =>
    have hkeep := cancel_keeps (E := E) w
    rw [← run_text_snd] at hkeep
    refine .inr ⟨?_, ?_⟩
    · rintro ⟨⟨_, h⟩, -⟩
      cases h
    · have hw : w' = _ := congrArg Prod.snd h.symm
      rw [hw]
      exact hkeep

/-- What an operation does to its job and to the reference of the scanner. -/
theorem Operation.Step.effect {s : ℕ → Settings} {σ σ' : ScannerJobs} {op : Operation}
    (h : op.Step s σ σ') : ∃ w', σ'.jobs = Function.update σ.jobs op.job w' ∧
      (((σ.jobs op.job).Opens op.call ∧ σ'.mpSession = some (op.job, (σ.jobs op.job).opened) ∧
          ∀ i, w'.session = some i → i = (σ.jobs op.job).opened ∧ w'.device i ≠ none) ∨
        (¬ (σ.jobs op.job).Opens op.call ∧ σ'.mpSession = σ.mpSession ∧
          (σ.jobs op.job).Keeps w')) := by
  obtain ⟨hE, r, hr, hrun⟩ := h
  have hspin : r ≠ .error .spinning := by
    rcases hr with ⟨b, rfl⟩ | rfl <;> simp
  rcases hjob : (op.call.text (s op.job)).run (exec op.environment) (σ.jobs op.job) with ⟨r', w'⟩
  rw [(run_scannerExec _ op.job σ).1, hjob] at hrun
  cases hrun
  refine ⟨w', rfl, ?_⟩
  rcases call_sessions hE hjob hspin with ⟨hopens, hopened, hnew⟩ | ⟨hn, hkeep⟩
  · refine .inl ⟨hopens, ?_, hnew⟩
    simp [hopened]
  · refine .inr ⟨hn, ?_, hkeep⟩
    simp [hkeep.opened]

namespace ScannerJobs

/-- Every session that is held is the tracked one, and its device is open. -/
def Tracked (σ : ScannerJobs) : Prop :=
  ∀ j i, (σ.jobs j).session = some i → (σ.jobs j).device i ≠ none ∧ σ.mpSession = some (j, i)

variable {σ σ' : ScannerJobs} {op : Operation}

theorem isOpen_iff : σ.isOpen = true ↔ ∃ j i, σ.mpSession = some (j, i) ∧
    (σ.jobs j).session = some i := by
  unfold isOpen
  split
  · rename_i j i h
    simp [h]
  · rename_i h
    simp [h]

theorem Tracked.truthful (h : σ.Tracked) : σ.Truthful := by
  unfold Truthful
  rw [isOpen_iff]
  constructor
  · rintro ⟨j, i, -, hs⟩
    exact ⟨j, i, hs, (h j i hs).1⟩
  · rintro ⟨j, i, hs, -⟩
    exact ⟨j, i, (h j i hs).2, hs⟩

theorem tracked_initial (accepted : ℕ → Bool) : (initial accepted).Tracked := by
  intro j i h
  cases h

theorem Tracked.step {s : ℕ → Settings} (h : σ.Tracked) (halone : op.Alone σ)
    (hstep : op.Step s σ σ') : σ'.Tracked := by
  obtain ⟨w', hjobs, heffect⟩ := hstep.effect
  intro k i hk
  rw [hjobs] at hk ⊢
  rcases heffect with ⟨hopens, hmp, hnew⟩ | ⟨-, hmp, hkeep⟩
  · by_cases hkj : k = op.job
    · subst hkj
      rw [Function.update_self] at hk ⊢
      obtain ⟨rfl, hd⟩ := hnew i hk
      exact ⟨hd, hmp⟩
    · rw [Function.update_of_ne hkj] at hk
      exact absurd ⟨i, hk, (h k i hk).1⟩ (halone hopens k hkj)
  · by_cases hkj : k = op.job
    · subst hkj
      rw [Function.update_self] at hk ⊢
      rcases hkeep.session with hs | hs
      · rw [hs] at hk
        rw [hkeep.device, hmp]
        exact h op.job i hk
      · rw [hs] at hk
        cases hk
    · rw [Function.update_of_ne hkj] at hk ⊢
      rw [hmp]
      exact h k i hk

end ScannerJobs

/-- As long as no session is opened beside another one, the status of a scanner
tells whether a job holds an open device. -/
theorem truthful_of_alone (s : ℕ → Settings) (accepted : ℕ → Bool) {σ : ScannerJobs}
    (h : Reached (Operation.Step s) (fun σ op => op.Alone σ) (.initial accepted) σ) :
    σ.Truthful := by
  have htracked : σ.Tracked :=
    h.invariant (ScannerJobs.tracked_initial accepted) fun _ _ _ hσ halone hstep =>
      hσ.step halone hstep
  exact htracked.truthful

section
variable {s : ℕ → Settings} {σ σ' : ScannerJobs} {op : Operation}

theorem cancel_step (hE : E.Refuses) (j : ℕ) :
    ∃ σ'', Operation.Step s σ ⟨j, .cancel, E⟩ σ'' ∧ σ''.mpSession = σ.mpSession ∧
      σ''.jobs = Function.update σ.jobs j ((σ.jobs j).become .canceled PWG_JOB_CANCELED_BY_USER).closed := by
  have hrun : (JobCall.cancel.text (s j)).run (exec E) (σ.jobs j) =
      (.ok true, ((σ.jobs j).become .canceled PWG_JOB_CANCELED_BY_USER).closed) := by
    simp [JobCall.text, run_bind, run_cancel]
  have hscanner := (run_scannerExec (E := E) (JobCall.cancel.text (s j)) j σ).1
  rw [hrun] at hscanner
  exact ⟨_, ⟨hE, .ok true, .inl ⟨true, rfl⟩, hscanner⟩, by simp [World.closed, World.become], rfl⟩

/-- The condition is sharp: behind a session that was opened beside another one,
the scanner is idle with a device open as soon as the new session is closed. -/
theorem untruthful_beside (hstep : op.Step s σ σ') (h : ¬ op.Alone σ) :
    ∃ σ'', Operation.Step s σ' ⟨op.job, .cancel, op.environment⟩ σ'' ∧ ¬ σ''.Truthful := by
  simp only [Operation.Alone, not_forall, not_not] at h
  obtain ⟨hopens, k, hk, hholds⟩ := h
  obtain ⟨w', hjobs, ⟨-, hmp, -⟩ | ⟨hn, -⟩⟩ := hstep.effect
  · obtain ⟨σ'', hcancel, hmp', hjobs'⟩ := cancel_step (s := s) (σ := σ') hstep.1 op.job
    refine ⟨σ'', hcancel, fun htruth => ?_⟩
    have hopen : σ''.isOpen = true := by
      apply htruth.2
      refine ⟨k, ?_⟩
      rw [hjobs', Function.update_of_ne hk, hjobs, Function.update_of_ne hk]
      exact hholds
    rw [ScannerJobs.isOpen_iff] at hopen
    obtain ⟨j, i, hji, hs⟩ := hopen
    rw [hmp', hmp] at hji
    cases hji
    rw [hjobs', Function.update_self] at hs
    cases hs
  · exact absurd hopens hn

end

/-- A backend made to refuse devices that are not open. -/
def Environment.refusing (E : Environment) : Environment :=
  { E with saneStart := fun log => if lastOpen log = .good then E.saneStart log else .inval }

theorem refuses_refusing (E : Environment) : E.refusing.Refuses := by
  intro log h
  simp [Environment.refusing, h]

/-- A page that begins on the first job. -/
def beginFirst : Operation :=
  ⟨0, .beginTransfer 9, (Environment.scripted .gray [.good] []).refusing⟩

/-- The device is busy for the second job. -/
def beginSecond : Operation :=
  ⟨1, .beginTransfer 9,
    { (Environment.scripted .gray [] []).refusing with saneOpen := fun _ => .deviceBusy }⟩

def Operation.outcome (op : Operation) (σ : ScannerJobs) : Except Stop Bool × ScannerJobs :=
  (op.call.text (.gray .single MIME_TYPE_JPEG)).run (ScannerJobs.exec op.environment op.job) σ

theorem step_outcome {op : Operation} {σ : ScannerJobs} {b : Bool} (hE : op.environment.Refuses)
    (hr : (op.outcome σ).1 = .ok b) :
    op.Step (fun _ => .gray .single MIME_TYPE_JPEG) σ (op.outcome σ).2 :=
  ⟨hE, .ok b, .inl ⟨b, rfl⟩, Prod.ext hr rfl⟩

/-- Where the first job has begun its page. -/
def firstBegun : ScannerJobs := (beginFirst.outcome (.initial fun _ => true)).2

theorem step_beginFirst : beginFirst.Step (fun _ => .gray .single MIME_TYPE_JPEG)
    (.initial fun _ => true) firstBegun :=
  step_outcome (b := true) (refuses_refusing _) (by decide +kernel)

theorem step_beginSecond : beginSecond.Step (fun _ => .gray .single MIME_TYPE_JPEG) firstBegun
    (beginSecond.outcome firstBegun).2 :=
  step_outcome (b := false) (refuses_refusing (.scripted .gray [] [])) (by decide +kernel)

theorem truthful_of_alone_firstBegun : firstBegun.Truthful := by
  have halone : beginFirst.Alone (.initial fun _ => true) := by
    rintro - k - ⟨i, h, -⟩
    cases h
  exact truthful_of_alone (fun _ => .gray .single MIME_TYPE_JPEG) (fun _ => true)
    (.step .start halone step_beginFirst)

/-- A job that fails to open the busy device makes the scanner idle while the
other one scans. -/
theorem not_truthful_busy : ¬ ∀ (s : ℕ → Settings) (accepted : ℕ → Bool) (σ : ScannerJobs),
    Reached (Operation.Step s) (fun _ _ => True) (.initial accepted) σ → σ.Truthful := by
  intro h
  have hidle : (beginSecond.outcome firstBegun).2.isOpen = false := by decide +kernel
  have hholds : ((beginSecond.outcome firstBegun).2.jobs 0).HoldsDevice :=
    ⟨0, by decide +kernel, by decide +kernel⟩
  have htruth := h (fun _ => .gray .single MIME_TYPE_JPEG) (fun _ => true) _
    (.step (.step .start trivial step_beginFirst) trivial step_beginSecond)
  rw [ScannerJobs.Truthful, hidle] at htruth
  exact absurd (htruth.2 ⟨0, hholds⟩) (by simp)

end AirSane.ScanJob
