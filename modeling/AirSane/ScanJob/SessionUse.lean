import AirSane.ScanJob.Cancellation

/-! # The session under a transfer

The worker uses the session of a job that it has found processing. Another
request that cancels takes the session away; what the worker uses is still there
unless the session went after the worker's last look.
-/

namespace AirSane.ScanJob
open Programs Program Interleaving Function

variable {E : Environment} {s : Settings}

/-- The next step uses the session for something else than to cancel. -/
def usesSession : Option (JobM Bool) → Bool
  | some (.command (.derefSession .cancel) _) => false
  | some (.command (.derefSession _) _) => true
  | _ => false

theorem of_usesSession {p : Option (JobM Bool)} (h : usesSession p = true) :
    ∃ m next, p = some (.command (.derefSession m) next) ∧ m ≠ .cancel := by
  rcases p with _ | ⟨a | ⟨c, next⟩ | _ | _ | _⟩
  · cases h
  · cases h
  · cases c with
    | derefSession m =>
      refine ⟨m, next, rfl, ?_⟩
      rintro rfl
      cases h
    | _ => cases h
  all_goals cases h

/-- No job is processing behind the back of a cancel: neither does the worker
start processing a job whose session went after its last look, nor does a cancel
take the session of a job that the worker has made processing again. -/
def SharedJob.Ordered (w : SharedJob) : Party → Command → Prop
  | .worker, .storeState .processing => w.reset = false
  | .canceller, .resetSession => w.job.state ≠ .processing
  | _, _ => True

instance (w : SharedJob) (t : Party) (c : Command) : Decidable (w.Ordered t c) := by
  unfold SharedJob.Ordered
  split <;> infer_instance

/-- What the worker's phase says about the state, the session, and whether a
cancel took it after the last look. -/
structure Phase.Guards (k : Phase) (st : State) (present reset : Bool) : Prop where
  running : k ≠ .begun → k ≠ .vacant → st = .processing → present = true
  held : k = .held → present = true ∨ reset = true
  stopped : k = .settled ∨ k = .passive → st ≠ .processing
  gone : reset = true → present = false

namespace Phase.Guards
variable {k : Phase} {st : State} {present reset : Bool}

theorem of_ne_processing (hst : st ≠ .processing)
    (hheld : k = .held → present = true ∨ reset = true)
    (hgone : reset = true → present = false) : k.Guards st present reset where
  running _ _ hp := absurd hp hst
  held := hheld
  stopped _ := hst
  gone := hgone

theorem of_held (hpresent : present = true) (hgone : reset = true → present = false) :
    Phase.held.Guards st present reset where
  running _ _ _ := hpresent
  held _ := .inl hpresent
  stopped hk := by rcases hk with hk | hk <;> cases hk
  gone := hgone

/-- A session is not promised yet. -/
theorem of_begun (hk : k = .begun ∨ k = .vacant) (hgone : reset = true → present = false) :
    k.Guards st present reset := by
  refine ⟨fun hb hv => absurd hk (by simp [hb, hv]), ?_, ?_, hgone⟩ <;>
    rcases hk with rfl | rfl <;> simp

theorem of_unknown (hk : k = .idle ∨ k = .unknown) (hrunning : st = .processing → present = true)
    (hgone : reset = true → present = false) : k.Guards st present reset := by
  refine ⟨fun _ _ => hrunning, ?_, ?_, hgone⟩ <;> rcases hk with rfl | rfl <;> simp

end Phase.Guards

def SharedJob.Guarded (w : SharedJob) (k : Phase) : Prop :=
  k.Guards w.job.state w.job.session.isSome w.reset

theorem guarded_after {w : SharedJob} {k : Phase} {t : Party} {c : Command} {x : Answer c}
    {job : World} (hx : ScanJob.exec E c w.job = some (x, job)) : (w.after job t c).Guarded k ↔
      k.Guards (c.state w.job.state) (c.hasSession w.job.session.isSome) (w.after job t c).reset := by
  obtain ⟨hstate, hsession⟩ := exec_cells hx
  rw [SharedJob.Guarded, SharedJob.after_job, hstate, hsession]

theorem guarded_canceller {w : SharedJob} {k : Phase} {b : Bool} {c : Command} {x : Answer c}
    {job : World} (hc : cancelDiscipline.allowed b c) (hw : w.Ordered .canceller c)
    (hx : ScanJob.exec E c w.job = some (x, job)) (h : w.Guarded k) :
    (w.after job .canceller c).Guarded k := by
  rw [guarded_after hx]
  cases c with
  | storeState st =>
    obtain rfl : st = .canceled := hc
    exact .of_ne_processing (by simp [Command.state]) h.held h.gone
  | resetSession =>
    have hs : w.job.state ≠ .processing := hw
    exact .of_ne_processing hs (fun _ => .inr rfl) (fun _ => rfl)
  | compareExchangeState expected desired => exact absurd hc id
  | openScanner => exact absurd hc id
  | _ => exact h

theorem guarded_worker {w : SharedJob} {k : Phase} {c : Command} {x : Answer c}
    {job : World} (hc : k.Allowed c) (hw : w.Ordered .worker c)
    (hx : ScanJob.exec E c w.job = some (x, job)) (h : w.Guarded k) :
    (w.after job .worker c).Guarded (k.next c x) := by
  rw [guarded_after hx]
  cases c with
  | testState st =>
    cases st with
    | processing =>
      cases hx
      by_cases hp : w.job.state = .processing
      · have hpresent := h.running hc.2.1 hc.2.2 hp
        simp only [Phase.next, hp, decide_true, if_true]
        exact .of_held hpresent (fun hr => by cases hr)
      · simp only [Phase.next, hp, decide_false]
        exact .of_ne_processing hp (fun hk => by cases hk) (fun hr => by cases hr)
    | aborted =>
      cases hx
      by_cases ha : w.job.state = .aborted ∧ k = .held
      · simp only [Phase.next, ha.1, ha.2, decide_true, and_self, if_true]
        exact .of_ne_processing (by simp [Command.state]) (fun hk => by cases hk) h.gone
      · rw [Phase.next, if_neg (by simpa using ha)]
        exact h
    | _ => exact h
  | compareExchangeState expected desired =>
    obtain ⟨rfl, rfl, rfl⟩ := hc
    by_cases hp : w.job.state = .pending
    · simp only [ScanJob.exec, hp, if_true] at hx
      cases hx
      exact .of_begun (.inl rfl) (fun hr => by cases hr)
    · simp only [ScanJob.exec, hp, if_false] at hx
      cases hx
      simp only [Command.state, hp, if_false]
      exact .of_unknown (.inr rfl) (h.running Phase.noConfusion Phase.noConfusion)
        (fun hr => by cases hr)
  | storeState st =>
    by_cases hp : st = .processing
    · subst hp
      have hreset : w.reset = false := hw
      have hheld : k = .held := by simpa [State.isFinished] using hc
      have hpresent : w.job.session.isSome = true := by simpa [hreset] using h.held hheld
      exact .of_held hpresent h.gone
    · rw [Phase.next, if_neg hp]
      exact .of_ne_processing hp (fun hk => by cases hk) h.gone
  | testSession =>
    cases hx
    by_cases hk : k = .begun ∨ k = .vacant
    · by_cases hs : w.job.session.isSome = true
      · simp only [Phase.next, hk, hs, if_true]
        exact .of_held rfl (fun hr => hs ▸ h.gone hr)
      · simp only [Phase.next, hk, hs, if_true]
        exact .of_begun (.inr rfl) (fun _ => rfl)
    · rw [Phase.next, if_neg hk]
      exact h
  | openScanner =>
    exact .of_held rfl (fun hr => by cases hr)
  | resetSession =>
    have hs : w.job.state ≠ .processing := h.stopped hc
    refine .of_ne_processing hs ?_ (fun _ => rfl)
    rintro rfl
    simp at hc
  | _ => exact h

/-- The phases of the worker guard the session. -/
def guarded (E : Environment) (s : Settings) : (watch E s).Invariant SharedJob.Ordered where
  holds m w := w.Guarded (m .worker)
  call {m w} k hk h := by
    cases k with
    | cancel => exact h
    | beginTransfer fuel =>
      have hrunning := h.running (Phase.Rests.ne hk).1 (Phase.Rests.ne hk).2
      exact Phase.Guards.of_unknown (.inl rfl) hrunning h.gone
    | finishTransfer fuel good =>
      have hrunning := h.running (Phase.Rests.ne hk).1 (Phase.Rests.ne hk).2
      exact Phase.Guards.of_unknown (.inr rfl) hrunning h.gone
  perform {m w w' t c x} hc hw hx h := by
    obtain ⟨job, hjob, rfl⟩ := SharedJob.exec_eq hx
    cases t with
    | worker => exact guarded_worker hc hw hjob h
    | canceller => exact guarded_canceller hc hw hjob h
  leave {m w} t ht h := by
    cases t with
    | worker => exact h
    | canceller => exact h

theorem guarded_initial (accepted : Bool) :
    (SharedJob.initial accepted).Guarded Phase.unknown := by
  cases accepted <;> exact .of_unknown (.inr rfl) (fun hp => by cases hp) (fun hr => by cases hr)

/-- Where the worker uses the session it is there, unless a cancel took it after
the worker's last look. -/
theorem session_iff_not_reset (E : Environment) (s : Settings) (accepted : Bool)
    {σ : Threads Party Command Answer SharedJob Bool}
    (h : (cancellation E s).Reaches SharedJob.Ordered (.initial accepted) σ)
    (hu : usesSession (σ.text .worker) = true) :
    σ.world.job.session ≠ none ↔ σ.world.reset = false := by
  obtain ⟨m, hm⟩ := Monitor.follows_of_reaches (I := guarded E s) rests_firstPhase
    (guarded_initial accepted) h
  have hguard : σ.world.Guarded (m .worker) := hm.inv
  obtain ⟨member, next, ht, hne⟩ := of_usesSession hu
  have hheld : m .worker = .held := by
    have hallowed : (m .worker).Allowed (.derefSession member) := hm.admits ht
    cases member <;> first | exact hallowed | exact absurd rfl hne
  rw [← Option.isSome_iff_ne_none]
  constructor
  · intro hs
    by_contra hr
    simp [hguard.gone (by simpa using hr)] at hs
  · intro hr
    simpa [hr] using hguard.held hheld

/-- The worker goes on with the session while a cancel is on its way. -/
theorem session_iff_not_reset_starting : ∃ σ,
    cancelAfter ready .single SharedJob.Ordered 18 2 0 = some σ ∧ σ.world.job.session ≠ none := by
  have hσ : (cancelAfter ready .single SharedJob.Ordered 18 2 0).map
      (fun σ => (usesSession (σ.text .worker), σ.world.reset)) = some (true, false) := by
    decide +kernel
  obtain ⟨σ, hfollow, hσ⟩ := Option.map_eq_some_iff.1 hσ
  obtain ⟨hu, hr⟩ := Prod.mk.inj hσ
  exact ⟨σ, hfollow, (session_iff_not_reset ready _ true (reaches_cancelAfter hfollow) hu).2 hr⟩

/-- A cancel between the transition of the worker and its use of the session. -/
theorem session_gone_starting : ¬ ∀ (E : Environment) (s : Settings) (accepted : Bool)
    (σ : Threads Party Command Answer SharedJob Bool),
    (cancellation E s).Reaches (fun _ _ _ => True) (.initial accepted) σ →
      usesSession (σ.text .worker) = true → σ.world.job.session ≠ none := by
  intro h
  have hσ : (cancelAfter ready .single (fun _ _ _ => True) 18 7 0).map
      (fun σ => (usesSession (σ.text .worker), σ.world.job.session)) = some (true, none) := by
    decide +kernel
  obtain ⟨σ, hfollow, hσ⟩ := Option.map_eq_some_iff.1 hσ
  obtain ⟨hu, hs⟩ := Prod.mk.inj hσ
  exact h ready _ true σ (reaches_cancelAfter hfollow) hu hs

end AirSane.ScanJob
