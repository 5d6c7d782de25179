import AirSane.ScanJob.Interference

/-! # A cancellation that is not lost

A job stays canceled after `cancel` as long as the worker stores a state only
when no cancel has come since it last tested the state.
-/

namespace AirSane.ScanJob
open Programs Program Interleaving Function

variable {E : Environment} {s : Settings}

/-- No cancel has stored its state between the last test of the worker and a
state that the worker stores. -/
def SharedJob.Heeded (w : SharedJob) : Party → Command → Prop
  | .worker, .storeState _ => w.stored = false
  | _, _ => True

/-- A job that was canceled is so for a worker that looks again. -/
def SharedJob.StaysCanceled (w : SharedJob) (k : Phase) (b : Bool) : Prop :=
  w.canceled = true ∨ b = true →
    w.job.state = .canceled ∧ (w.stored = true ∨ k = .idle ∨ k = .unknown ∨ k = .passive)

theorem staysCanceled_canceller {w : SharedJob} {k : Phase} {b : Bool} {c : Command} {x : Answer c}
    {job : World} (hc : cancelDiscipline.allowed b c) (hx : ScanJob.exec E c w.job = some (x, job))
    (h : w.StaysCanceled k b) : (w.after job .canceller c).StaysCanceled k (cancelDiscipline.next b c x) := by
  have hstate := (exec_cells hx).1
  cases c with
  | storeState st =>
    intro _
    rw [SharedJob.after, hstate]
    exact ⟨hc, .inl rfl⟩
  | compareExchangeState expected desired => exact absurd hc id
  | _ =>
    intro hb
    obtain ⟨hs, hk⟩ := h hb
    exact ⟨hstate.trans hs, hk⟩

theorem staysCanceled_worker {w : SharedJob} {k : Phase} {b : Bool} {c : Command} {x : Answer c}
    {job : World} (hc : k.Allowed c) (hw : w.Heeded .worker c)
    (hx : ScanJob.exec E c w.job = some (x, job)) (h : w.StaysCanceled k b) :
    (w.after job .worker c).StaysCanceled (k.next c x) b := by
  have hcells := (exec_cells hx).1
  intro hb
  rw [SharedJob.after_canceled] at hb
  obtain ⟨hs, hk⟩ := h hb
  cases c with
  | testState st =>
    cases st with
    | processing =>
      cases hx
      exact ⟨hs, by simp [hs]⟩
    | aborted =>
      cases hx
      refine ⟨hs, ?_⟩
      simp [hs]
      exact hk
    | _ => exact ⟨hcells.trans hs, hk⟩
  | compareExchangeState expected desired =>
    obtain ⟨rfl, rfl, rfl⟩ := hc
    simp only [ScanJob.exec, hs] at hx
    cases hx
    exact ⟨hs, by simp⟩
  | storeState st =>
    simp only [SharedJob.Heeded] at hw
    rcases hc.2 with rfl | ⟨rfl, -⟩ <;> simp [hw] at hk
  | testSession =>
    refine ⟨hcells.trans hs, ?_⟩
    rcases hk with hk | rfl | rfl | rfl
    · exact .inl hk
    all_goals simp
  | openScanner =>
    obtain rfl : k = .vacant := hc
    have hstored : w.stored = true := by simpa using hk
    exact ⟨hcells.trans hs, .inl hstored⟩
  | _ => exact ⟨hcells.trans hs, hk⟩

/-- What the phases of worker and canceller say about a canceled job. -/
def staysCanceled (E : Environment) (s : Settings) : (watch E s).Invariant SharedJob.Heeded where
  holds m w := w.StaysCanceled (m .worker) (m .canceller)
  call {m w} k _ h := by
    cases k with
    | cancel =>
      rintro (hw | hb)
      · exact h (.inl hw)
      · cases hb
    | beginTransfer fuel =>
      intro hb
      exact ⟨(h hb).1, .inr (.inl rfl)⟩
    | finishTransfer fuel good =>
      intro hb
      exact ⟨(h hb).1, .inr (.inr (.inl rfl))⟩
  perform {m w w' t c x} hc hw hx h := by
    obtain ⟨job, hjob, rfl⟩ := SharedJob.exec_eq hx
    cases t with
    | worker => exact staysCanceled_worker hc hw hjob h
    | canceller => exact staysCanceled_canceller hc hjob h
  leave {m w} t ht h := by
    cases t with
    | worker => exact h
    | canceller => exact fun _ => h (.inr ht)

/-- A job that some cancel has returned from is canceled, whatever the worker
does next, if the worker heeds cancels. -/
theorem canceled_of_heeded (E : Environment) (s : Settings) (accepted : Bool)
    {σ : Threads Party Command Answer SharedJob Bool}
    (h : (cancellation E s).Reaches SharedJob.Heeded (.initial accepted) σ)
    (hc : σ.world.canceled = true) : σ.world.job.state = .canceled := by
  have hinv : (staysCanceled E s).holds firstPhase (SharedJob.initial accepted) := by
    rintro (hw | hb)
    · cases hw
    · cases hb
  obtain ⟨m, hm⟩ := Monitor.follows_of_reaches rests_firstPhase hinv h
  exact (hm.inv (.inl hc)).1

/-- A worker never stores `canceled` itself. -/
def watched (E : Environment) (s : Settings) : (watch E s).Invariant fun _ _ _ => True where
  holds _ _ := True
  call _ _ _ := trivial
  perform _ _ _ _ := trivial
  leave _ _ _ := trivial

/-- The condition is sharp: a state that the worker stores on a canceled job
undoes the cancellation, whatever was done before. -/
theorem undone_by_store {accepted : Bool} {σ σ' : Threads Party Command Answer SharedJob Bool}
    {st : State} (h : (cancellation E s).Reaches (fun _ _ _ => True) (.initial accepted) σ)
    (hs : (cancellation E s).Step σ (.perform .worker (.storeState st)) σ') :
    σ'.world.job.state ≠ .canceled := by
  obtain ⟨m, hm⟩ := Monitor.follows_of_reaches (I := watched E s) rests_firstPhase trivial h
  cases hs with
  | @perform _ c next x w ht hx =>
    obtain ⟨job, hjob, rfl⟩ :=
      SharedJob.exec_eq (E := E) (t := .worker) (c := .storeState st) hx
    have hstate : job.state = st := (exec_cells hjob).1
    have hallowed : (m .worker).Allowed (.storeState st) := hm.admits ht
    rw [Threads.move_world, SharedJob.after_job, hstate]
    exact hallowed.1

section
variable (E : Environment) (kind : Kind) (allowed : SharedJob → Party → Command → Prop)
  [∀ w t c, Decidable (allowed w t c)]

/-- A page that begins, with the steps of a cancel after some of the worker. -/
def cancelAfter (steps cancels rest : ℕ) : Option (Threads Party Command Answer SharedJob Bool) :=
  follow (cancellation E (.gray kind MIME_TYPE_JPEG)) allowed (.idle (.initial true))
    (.call (.beginTransfer 3) :: List.replicate steps (.go .worker) ++
      (.call .cancel :: List.replicate cancels (.go .canceller)) ++ List.replicate rest (.go .worker))

variable {E kind allowed}

theorem reaches_cancelAfter {steps cancels rest : ℕ} {σ : Threads Party Command Answer SharedJob Bool}
    (h : cancelAfter E kind allowed steps cancels rest = some σ) :
    (cancellation E (.gray kind MIME_TYPE_JPEG)).Reaches allowed (.initial true) σ :=
  reaches_follow .start h

end

instance (w : SharedJob) (t : Party) (c : Command) : Decidable (w.Heeded t c) := by
  unfold SharedJob.Heeded
  split <;> infer_instance

/-- A device that starts. -/
def ready : Environment := .scripted .gray [.good] []

theorem canceled_of_heeded_begun : ∃ σ, cancelAfter ready .single SharedJob.Heeded 26 7 1 = some σ ∧
    σ.world.job.state = .canceled := by
  have hσ : (cancelAfter ready .single SharedJob.Heeded 26 7 1).isSome := by decide +kernel
  obtain ⟨σ, h⟩ := Option.isSome_iff_exists.1 hσ
  have hc : (cancelAfter ready .single SharedJob.Heeded 26 7 1).map (·.world.canceled) = some true := by
    decide +kernel
  rw [h] at hc
  exact ⟨σ, h, canceled_of_heeded ready _ true (reaches_cancelAfter h) (Option.some.inj hc)⟩

/-- A cancel between the start of the device and the state that the worker then
stores is lost. -/
theorem not_canceled_starting : ¬ ∀ (E : Environment) (s : Settings) (accepted : Bool)
    (σ : Threads Party Command Answer SharedJob Bool),
    (cancellation E s).Reaches (fun _ _ _ => True) (.initial accepted) σ →
      σ.world.canceled = true → σ.world.job.state = .canceled := by
  intro h
  have hσ : (cancelAfter ready .single (fun _ _ _ => True) 22 7 1).map
      (fun σ => (σ.world.canceled, σ.world.job.state)) = some (true, .processing) := by
    decide +kernel
  obtain ⟨σ, hfollow, hσ⟩ := Option.map_eq_some_iff.1 hσ
  obtain ⟨hc, hs⟩ := Prod.mk.inj hσ
  have hcanceled := h ready _ true σ (reaches_cancelAfter hfollow) hc
  rw [hs] at hcanceled
  cases hcanceled

end AirSane.ScanJob
