import AirSane.Programs.Discipline
import AirSane.ScanJob.Handler
import AirSane.ScanJob.Code

/-! # What the worker knows between its commands

The worker tests the state of its job before it uses the session or stores
another state. Its text is followed from test to test: where a session is used,
the last test found the job processing, and where a session is given back,
another state is known to be stored.
-/

namespace AirSane.ScanJob
open Programs Program

/-- Knowledge of the worker: nothing (in a call of `beginTransfer` or in any
other), a transition that it has made, a session that is missing, a job that is
processing, a state that it has stored itself, or that the job is not processing. -/
inductive Phase where
  | idle | unknown | begun | vacant | held | settled | passive
  deriving DecidableEq

namespace Phase

@[simp] def Allowed (m : Phase) : Command → Prop
  | .testState .processing => m ≠ .idle ∧ m ≠ .begun ∧ m ≠ .vacant
  | .compareExchangeState expected desired =>
    m = .idle ∧ expected = .pending ∧ desired = .processing
  | .storeState st => st ≠ .canceled ∧ (m = .held ∨ m = .settled ∧ st.isFinished)
  | .testSession => m ≠ .idle ∧ m ≠ .unknown ∧ m ≠ .held
  | .openScanner => m = .vacant
  | .derefSession .cancel => m = .settled ∨ m = .passive
  | .derefSession _ => m = .held
  | .resetSession => m = .settled ∨ m = .passive
  | _ => True

@[simp] def next (m : Phase) : (c : Command) → Answer c → Phase
  | .testState .processing, x => if x then .held else .passive
  | .testState .aborted, x => if x ∧ m = .held then .settled else m
  | .compareExchangeState _ _, x => if x then .begun else .unknown
  | .testSession, x => if m = .begun ∨ m = .vacant then (if x then .held else .vacant) else m
  | .openScanner, _ => .held
  | .storeState st, _ => if st = .processing then .held else .settled
  | _, _ => m

/-- Not on the way to a session. -/
def Tested (m : Phase) : Prop := m ≠ .idle ∧ m ≠ .begun ∧ m ≠ .vacant

/-- In the middle of a call, with a state that was tested. -/
def Active (m : Phase) : Prop := m = .held ∨ m = .settled ∨ m = .passive

variable {m : Phase}

theorem Active.tested (h : m.Active) : m.Tested := by
  rcases h with rfl | rfl | rfl <;> simp [Tested]

/-- Without a transition the worker stays off the way to a session. -/
theorem Tested.next {c : Command} (h : m.Tested) (hc : m.Allowed c) (x : Answer c) :
    (m.next c x).Tested := by
  cases c with
  | compareExchangeState expected desired => exact absurd hc.1 h.1
  | openScanner => exact absurd hc h.2.2
  | testState st =>
    cases st with
    | processing => cases x <;> simp [Tested]
    | aborted =>
      rw [Phase.next]
      split
      · simp [Tested]
      · exact h
    | _ => exact h
  | testSession =>
    rw [Phase.next, if_neg]
    · exact h
    · exact fun hm => hm.elim h.2.1 h.2.2
  | storeState st =>
    rw [Phase.next]
    split <;> simp [Tested]
  | _ => exact h

end Phase

def discipline : Discipline Command Answer Phase where
  allowed := Phase.Allowed
  next := Phase.next

theorem obeys_step {α : Type} {c : Command} {next : Answer c → JobM α} {m : Phase}
    {Q : α → Phase → Prop} {X : Phase → Prop} : (Program.command c next).Obeys discipline Q X m ↔
      m.Allowed c ∧ ∀ x, (next x).Obeys discipline Q X (m.next c x) := .rfl

theorem obeys_access_bind {α : Type} {c : Command} {f : Answer c → JobM α} {m : Phase}
    {Q : α → Phase → Prop} {X : Phase → Prop} (hc : m.Allowed c)
    (hf : ∀ x, (f x).Obeys discipline Q X (m.next c x)) :
    (access c >>= f).Obeys discipline Q X m := ⟨hc, hf⟩

/-- What leaves the phase as it is. -/
def Steady {α : Type} (p : JobM α) : Prop :=
  ∀ m, p.Obeys discipline (fun _ m' => m' = m) (fun m' => m' = m) m

theorem Steady.obeys {α : Type} {p : JobM α} (h : Steady p) {m : Phase} {Q : α → Phase → Prop}
    {X : Phase → Prop} (hQ : ∀ a, Q a m) (hX : X m) : p.Obeys discipline Q X m := by
  apply (h m).mono
  · rintro a m' rfl
    exact hQ a
  · rintro m' rfl
    exact hX

theorem Steady.obeys_bind {α β : Type} {p : JobM α} {f : α → JobM β} (hp : Steady p) {m : Phase}
    {Q : β → Phase → Prop} {X : Phase → Prop} (hX : X m)
    (hf : ∀ a, (f a).Obeys discipline Q X m) : (p >>= f).Obeys discipline Q X m := by
  rw [Program.obeys_bind]
  exact hp.obeys hf hX

theorem Steady.bind {α β : Type} {p : JobM α} {f : α → JobM β} (hp : Steady p)
    (hf : ∀ a, Steady (f a)) : Steady (p >>= f) := by
  intro m
  rw [Program.obeys_bind]
  exact hp.obeys (fun a => hf a m) rfl

theorem steady_access {c : Command} (hc : ∀ m : Phase, m.Allowed c)
    (hn : ∀ (m : Phase) (x : Answer c), m.next c x = m) : Steady (access c) :=
  fun m => ⟨hc m, hn m⟩

theorem Steady.iterate {α σ : Type} {body : σ → JobM (σ ⊕ α)} (h : ∀ x, Steady (body x))
    (fuel : ℕ) (x : σ) : Steady (iterate body fuel x) := by
  intro m
  apply obeys_iterate (I := fun m' => m' = m)
  · rintro y _ rfl
    exact h y _
  · rfl

section
variable {s : Settings} {m : Phase}

theorem steady_start (i : SessionId) : Steady (Session.start i) := by
  intro m
  simp [Session.start, access, perform, obeys_step]

theorem steady_readPass (i : SessionId) (size : ℕ) (buffer : List UInt8) :
    Steady (Session.readPass i size buffer) := by
  intro m
  simp [Session.readPass, access, perform, obeys_step]

theorem steady_setParameter (set : Encoder → Encoder) : Steady (setParameter set) := by
  intro m
  simp [setParameter, onParamChange, access, perform, obeys_step]

theorem steady_callbackIf {c : Prop} [Decidable c] (cb : Callback) : Steady (callbackIf c cb) := by
  intro m
  simp [callbackIf, callback, access, perform, obeys_step]

theorem steady_read (fuel : ℕ) (i : SessionId) (size : ℕ) : Steady (Session.read fuel i size) := by
  apply (Steady.iterate (steady_readPass i size) fuel []).bind
  intro r m
  simp [access, perform, obeys_step]

theorem steady_writeLine (line : List UInt8) : Steady (writeLine line) := by
  apply Steady.bind (steady_access (c := .loadEncoder) (fun _ => trivial) fun _ _ => rfl)
  intro e
  apply (steady_callbackIf _).bind
  intro _
  apply (steady_callbackIf _).bind
  intro _
  apply (steady_callbackIf _).bind
  intro _
  apply Steady.bind (steady_access (c := .storeEncoder _) (fun _ => trivial) fun _ _ => rfl)
  intro _
  exact steady_callbackIf _

theorem steady_endDocument : Steady endDocument := by
  apply Steady.bind (steady_access (c := .loadEncoder) (fun _ => trivial) fun _ _ => rfl)
  exact fun e => steady_callbackIf _

theorem steady_sendLine (line : List UInt8) : Steady (sendLine s line) := by
  apply (steady_writeLine _).bind
  intro _ m
  simp [access, perform, obeys_step]

theorem steady_assignOptions (i : SessionId) (opts : List (String × OptionValue)) :
    Steady (assignOptions i opts) := by
  induction opts with
  | nil => exact fun _ => rfl
  | cons o opts ih =>
    intro m
    simp only [assignOptions, access, perform, command_bind, ret_bind, obeys_step]
    exact ⟨trivial, fun _ => ih m⟩

theorem steady_setResolution (i : SessionId) : Steady (setResolution s i) := by
  intro m
  simp [setResolution, access, perform, obeys_step]

theorem steady_configure (i : SessionId) : Steady (configure s i) := by
  apply (steady_assignOptions i _).bind
  intro _
  apply (steady_setResolution i).bind
  intro accepted
  apply Steady.bind (steady_access (c := .optionUnit i _) (fun _ => trivial) fun _ _ => rfl)
  intro unit
  apply (steady_assignOptions i _).bind
  exact fun _ _ => rfl

theorem obeys_isProcessing (hm : m.Tested) :
    isProcessing.Obeys discipline (fun b m' => m' = if b then .held else .passive) Phase.Active m := by
  simpa [isProcessing, access, perform, obeys_step, Phase.Tested] using hm

/-- What is done for a running job, and only for it. -/
theorem obeys_whileProcessing {p : JobM Unit} {Q : Unit → Phase → Prop}
    (hm : m.Tested) (hp : p.Obeys discipline Q Phase.Active .held)
    (hQ : Q () .passive) :
    (do if ← isProcessing then p : JobM Unit).Obeys discipline Q Phase.Active m := by
  apply (obeys_isProcessing hm).bind
  rintro b _ rfl
  cases b with
  | true => exact hp
  | false => exact hQ

/-- What ends `updateStatus`. -/
theorem obeys_closeAborted (hm : m = .held ∨ m = .settled) :
    (do if ← access (.testState .aborted) then closeSession : JobM Unit).Obeys discipline
      (fun _ m' => m' = .held ∨ m' = .settled) Phase.Active m := by
  rcases hm with rfl | rfl <;>
    simp [closeSession, access, perform, obeys_step]

theorem obeys_updateStatus (fuel : ℕ) (st : SaneStatus) : (updateStatus s fuel st).Obeys discipline
    (fun _ m' => m' = .held ∨ m' = .settled) Phase.Active .held := by
  induction fuel generalizing st with
  | zero => trivial
  | succ fuel ih =>
    cases st with
    | eof =>
      cases hk : s.kind with
      | adfConcat =>
        have hrest (m : Phase) (hm : m = .held ∨ m = .settled) := obeys_closeAborted hm
        simp only [updateStatus, hk]
        apply obeys_access_bind (by trivial)
        intro _
        apply obeys_access_bind (by rfl)
        intro i
        apply (steady_start i).obeys_bind (.inl rfl)
        intro st
        exact (ih st).bind fun _ m hm => hrest m hm
      | _ =>
        simp [updateStatus, hk, setState, closeSession, access, perform, obeys_step]
    | _ =>
      simp [updateStatus, setState, closeSession, access, perform, obeys_step]

theorem obeys_openSession : (openSession s).Obeys discipline (fun _ m' => m' = .held)
    Phase.Active .vacant := by
  have hconfigure (i : SessionId) (Q : Bool → Phase → Prop) (hQ : ∀ b, Q b .held) :
      (configure s i).Obeys discipline Q Phase.Active .held :=
    (steady_configure i).obeys hQ (.inl rfl)
  simp [openSession, access, perform, obeys_step, hconfigure]

theorem obeys_startSession (fuel : ℕ) : (startSession s fuel).Obeys discipline
    (fun _ m' => m' = .held ∨ m' = .settled) Phase.Active .held := by
  apply obeys_access_bind (by rfl)
  intro i
  apply (steady_start i).obeys_bind (.inl rfl)
  exact fun st => obeys_updateStatus fuel st

theorem obeys_prepareSession : (prepareSession s).Obeys discipline (fun _ m' => m' = .held)
    Phase.Active .begun := by
  apply obeys_access_bind (by simp)
  intro found
  cases found with
  | true => exact rfl
  | false =>
    apply obeys_openSession.bind
    rintro st _ rfl
    simp [access, perform, obeys_step]

/-- A call of `beginTransfer` ends in the middle of nothing. -/
theorem obeys_beginTransfer (fuel : ℕ) : (beginTransfer s fuel).Obeys discipline
    (fun _ m' => m' = .unknown ∨ m'.Active) Phase.Active .idle := by
  apply obeys_access_bind (by exact ⟨rfl, rfl, rfl⟩)
  intro ok
  cases ok with
  | true =>
    apply obeys_prepareSession.bind
    rintro _ _ rfl
    apply (obeys_startSession fuel).bind
    intro _ m hm
    rcases hm with rfl | rfl <;>
      simp [isProcessing, closeSession, access, perform, obeys_step, Phase.Active]
  | false => exact .inl rfl

theorem obeys_createEncoder : (createEncoder s).Obeys discipline (fun _ m' => m'.Active)
    Phase.Active .unknown := by
  cases hk : EncoderKind.ofDocumentFormat s.documentFormat <;>
    simp [createEncoder, hk, isProcessing, setState, access, perform, obeys_step, Phase.Active]

theorem obeys_setUpEncoder (hm : m.Active) : (setUpEncoder s).Obeys discipline
    (fun _ m' => m'.Active) Phase.Active m := by
  have hheld : Phase.Active .held := .inl rfl
  apply obeys_whileProcessing hm.tested
  · apply (steady_setParameter _).obeys_bind hheld
    intro _
    apply (steady_setParameter _).obeys_bind hheld
    intro _
    apply obeys_access_bind (by rfl)
    intro i
    apply obeys_access_bind (by trivial)
    intro p
    apply (steady_setParameter _).obeys_bind hheld
    intro _
    apply (steady_setParameter _).obeys_bind hheld
    intro _
    apply (steady_setParameter _).obeys_bind hheld
    intro _
    apply (steady_setParameter _).obeys_bind hheld
    intro _
    simp [setState, access, perform, obeys_step, Phase.Active]
  · exact .inr (.inr rfl)

theorem obeys_continues (status : SaneStatus) (hm : m.Active) : (continues status).Obeys discipline
    (fun b m' => m'.Active ∧ (b = true → m' = .held)) Phase.Active m := by
  rcases hm with rfl | rfl | rfl <;>
    simp [continues, isProcessing, access, perform, obeys_step, Phase.Active]

/-- A line that cannot be sent aborts the job in the phase of a running one. -/
theorem obeys_trySendLine (line : List UInt8) : ((sendLine s line).tryCatch do
    setState .aborted PWG_ERRORS_DETECTED
    closeSession).Obeys discipline (fun _ m' => m'.Active) Phase.Active .held := by
  have hsend : (sendLine s line).Obeys discipline (fun _ m' => m'.Active) (fun m' => m' = .held)
      .held := (steady_sendLine line).obeys (fun _ => .inl rfl) rfl
  apply hsend.tryCatch
  rintro _ rfl
  simp [setState, closeSession, access, perform, obeys_step, Phase.Active]

theorem obeys_linePass (fuel size : ℕ) (status : SaneStatus) (hm : m.Active) :
    (linePass s fuel size status).Obeys discipline (fun _ m' => m'.Active) Phase.Active m := by
  apply (obeys_continues status hm).bind
  intro b m' h
  cases b with
  | true =>
    obtain rfl := h.2 rfl
    apply obeys_access_bind (by rfl)
    intro i
    apply (steady_read fuel i size).obeys_bind (.inl rfl)
    intro r
    by_cases hr : r.1 = .good
    · simp only [hr, if_true]
      exact (obeys_trySendLine r.2).bind fun _ _ hm => hm
    · simp only [hr, if_false]
      exact .inl rfl
  | false => exact h.1

theorem obeys_finishImage (fuel : ℕ) (status : SaneStatus) (hm : m.Active) :
    (finishImage s fuel status).Obeys discipline (fun _ m' => m'.Active) Phase.Active m := by
  apply obeys_whileProcessing hm.tested
  · apply obeys_access_bind (by trivial)
    intro _
    apply (obeys_updateStatus fuel status).bind
    intro _ m hm
    rcases hm with rfl | rfl <;>
      simp [setState, access, perform, obeys_step, Phase.Active, State.isFinished]
  · exact .inr (.inr rfl)

theorem obeys_imagePass (fuel : ℕ) (hm : m.Active) :
    (imagePass s fuel ()).Obeys discipline (fun _ m' => m'.Active) Phase.Active m := by
  apply (obeys_isProcessing hm.tested).bind
  rintro b _ rfl
  cases b with
  | true =>
    apply obeys_access_bind (by rfl)
    intro i
    apply obeys_access_bind (by trivial)
    intro p
    rw [obeys_ite]
    constructor
    · exact fun _ => trivial
    · intro _
      apply (obeys_iterate (fun status _ hm => obeys_linePass fuel _ status hm) fuel .good
        (.inl rfl)).bind
      intro status m hm
      exact (obeys_finishImage fuel status hm).bind fun _ _ hm => hm
  | false => exact .inr (.inr rfl)

/-- A call of `finishTransfer`, which uses the session of a job that is processing. -/
theorem obeys_finishTransfer (fuel : ℕ) (good : Bool) :
    (finishTransfer s fuel good).Obeys discipline (fun _ m' => m'.Active) Phase.Active .unknown := by
  apply obeys_access_bind (by trivial)
  intro _
  apply obeys_createEncoder.bind
  intro _ m hm
  apply (obeys_setUpEncoder hm).bind
  intro _ m hm
  apply (obeys_iterate (fun _ _ hm => obeys_imagePass fuel hm) fuel () hm).bind
  intro _ m hm
  apply obeys_access_bind (by trivial)
  intro hasEncoder
  rw [obeys_ite]
  exact ⟨fun _ => steady_endDocument.obeys (fun _ => hm) hm, fun _ => hm⟩

end

end AirSane.ScanJob
