import AirSane.ScanJob.BeginTransfer
import AirSane.ScanJob.PageCount

/-! # Calls on a job, one after the other

The worker thread executes `beginTransfer` and `finishTransfer` one at a time.
A run is a sequence of calls that return, from a fresh job; what a call leaves
behind is all that the next one finds.
-/

namespace AirSane.ScanJob
open Programs Program

variable {E : Environment} {s : Settings}

inductive JobCall where
  | beginTransfer (fuel : ℕ)
  | finishTransfer (fuel : ℕ) (streamGood : Bool)
  | cancel
  deriving DecidableEq

/-- The text of a call; only `beginTransfer` has an answer. -/
def JobCall.text (s : Settings) : JobCall → JobM Bool
  | .beginTransfer fuel => ScanJob.beginTransfer s fuel
  | .finishTransfer fuel good => do
    ScanJob.finishTransfer s fuel good
    return true
  | .cancel => do
    ScanJob.cancel
    return true

/-- A call with the worlds before and after it. -/
structure Passage where
  before : World
  call : JobCall
  result : Except Stop Bool
  after : World

def Passage.Executes (E : Environment) (s : Settings) (p : Passage) : Prop :=
  (p.call.text s).run (exec E) p.before = (p.result, p.after)

/-- The calls of a run, the latest first, and the world they lead to. -/
inductive Run (E : Environment) (s : Settings) : List Passage → World → Prop where
  | start (accepted : Bool) : Run E s [] (.initial accepted)
  | call {ps : List Passage} {p : Passage} {b : Bool} (h : Run E s ps p.before)
      (hp : p.Executes E s) (hr : p.result = .ok b) : Run E s (p :: ps) p.after

theorem run_cancel (w : World) :
    cancel.run (exec E) w = (.ok (), (w.become .canceled PWG_JOB_CANCELED_BY_USER).closed) := by
  simp [cancel, run_bind, run_setState, run_closeSession]

theorem Passage.Executes.beginTransfer {fuel : ℕ} {r : Except Stop Bool} {w w' : World}
    (h : Passage.Executes E s ⟨w, .beginTransfer fuel, r, w'⟩) :
    (ScanJob.beginTransfer s fuel).run (exec E) w = (r, w') :=
  h

theorem Passage.Executes.finishTransfer {fuel : ℕ} {good b : Bool} {w w' : World}
    (h : Passage.Executes E s ⟨w, .finishTransfer fuel good, .ok b, w'⟩) :
    (ScanJob.finishTransfer s fuel good).run (exec E) w = (.ok (), w') := by
  simp only [Passage.Executes, JobCall.text, run_bind, pure_eq, run_ret] at h
  rcases hr : (ScanJob.finishTransfer s fuel good).run (exec E) w with ⟨e | _, x⟩ <;>
    simp only [hr, Prod.mk.injEq, reduceCtorEq, false_and] at h
  rw [h.2]

theorem Passage.Executes.cancel {b : Bool} {w w' : World}
    (h : Passage.Executes E s ⟨w, .cancel, .ok b, w'⟩) :
    w' = (w.become .canceled PWG_JOB_CANCELED_BY_USER).closed := by
  simp only [Passage.Executes, JobCall.text, run_bind, run_cancel, pure_eq, run_ret] at h
  exact (Prod.mk.inj h).2.symm

theorem Prepared.unnoticed {w v : World} {opens : Log} {i : SessionId}
    (h : Prepared w opens v i) : Unnoticed opens := by
  cases h with
  | kept _ => exact fun _ => rfl
  | opened _ _ hc =>
    refine unnoticed_of_forall fun e he fs => ?_
    have hcase (h' : e.configures) : Frame.observe fs e = fs := by
      cases e <;> first | exact h'.elim | cases fs <;> rfl
    rcases List.mem_append.1 he with he | he
    · rcases List.mem_cons.1 he with rfl | he
      · cases fs <;> rfl
      · exact hcase (hc e he)
    · obtain rfl := List.mem_singleton.1 he
      cases fs <;> rfl

/-- A transfer that was begun has a session and a frame of which nothing was read. -/
theorem beginTransfer_true {w w' : World} {fuel : ℕ}
    (h : (beginTransfer s fuel).run (exec E) w = (.ok true, w')) :
    w.state = .pending ∧ w'.state = .processing ∧ w'.session ≠ none ∧
      frames w'.log = .new :: frames w.log ∧ w'.imagesCompleted = w.imagesCompleted := by
  by_cases hp : w.state = .pending
  · obtain ⟨opens, v, i, evs, st, rest, st', u, hprep, hS, hR, -, hu, hl, hb, hgood⟩ :=
      run_beginTransfer (E := E) (s := s) hp fuel
    obtain rfl := hgood (by rw [h])
    rw [h] at hb
    cases hb with
    | running hs =>
      refine ⟨hp, rfl, Option.isSome_iff_ne_none.1 hs, ?_, ?_⟩
      · simp only [World.become, World.withAdfStatus]
        rw [hl, List.append_assoc, List.append_assoc, frames_append, List.foldl_append,
          hprep.unnoticed, List.foldl_append, hS.foldl_observe, hR.foldl_observe]
        rcases hR.eq_or_eof with ⟨rfl, rfl⟩ | ⟨hne, rfl⟩
        · simp
        · simp [hne]
      · refine hu.imagesCompleted.trans ?_
        cases hprep with
        | kept => rfl
        | opened _ _ _ _ _ _ _ _ hi => exact hi
  · rw [run_beginTransfer_idle hp] at h
    simp at h

/-- A transfer that was not begun leaves the job alone or without a session. -/
theorem beginTransfer_false {w w' : World} {fuel : ℕ}
    (h : (beginTransfer s fuel).run (exec E) w = (.ok false, w')) :
    (w.state ≠ .pending ∧ w' = w) ∨
      (w.state = .pending ∧ w'.session = none ∧ w'.state ≠ .processing) := by
  by_cases hp : w.state = .pending
  · obtain ⟨opens, v, i, evs, st, rest, st', u, -, -, -, -, -, -, hb, -⟩ :=
      run_beginTransfer (E := E) (s := s) hp fuel
    rw [h] at hb
    cases hb with
    | ended adf reason hne _ => exact .inr ⟨hp, rfl, hne⟩
  · rw [run_beginTransfer_idle hp] at h
    exact .inl ⟨hp, (Prod.mk.inj h).2.symm⟩

/-- A finished job that is not processing is none of `finishTransfer`'s business. -/
theorem finishTransfer_idle {w w' : World} {fuel : ℕ} {good : Bool} (hp : w.state ≠ .processing)
    (h : (finishTransfer s fuel good).run (exec E) w = (.ok (), w')) : w' = w.attached good := by
  simpa [h] using run_finishTransfer_idle (E := E) (s := s) hp fuel good

/-- What any call leaves behind: a running page is fresh and has a session. -/
structure World.Settled (w : World) : Prop where
  session : w.state = .processing → w.session ≠ none
  fresh : w.state = .processing → ∃ front, frames w.log = .new :: front

theorem World.settled_of_idle {w : World} (h : w.state ≠ .processing) : w.Settled :=
  ⟨fun h' => absurd h' h, fun h' => absurd h' h⟩

theorem settled_initial (accepted : Bool) : (World.initial accepted).Settled := by
  cases accepted <;> exact World.settled_of_idle (by simp [World.initial])

theorem finishTransfer_stops {w w' : World} {fuel : ℕ} {good : Bool} (hw : w.Settled)
    (h : (finishTransfer s fuel good).run (exec E) w = (.ok (), w')) :
    w'.state ≠ .processing := by
  by_cases hp : w.state = .processing
  · obtain ⟨front, hfr⟩ := hw.fresh hp
    have ho := finishTransfer_outcome hp hfr h
    split_ifs at ho
    · obtain ⟨fs, ho⟩ := ho
      exact ho.ended.1
    · simp [ho.1]
  · rw [finishTransfer_idle hp h]
    exact hp

theorem settled_call {p : Passage} {b : Bool} (hw : p.before.Settled) (hp : p.Executes E s)
    (hr : p.result = .ok b) : p.after.Settled := by
  obtain ⟨w, c, r, w'⟩ := p
  obtain rfl : r = .ok b := hr
  cases c with
  | beginTransfer fuel =>
    cases b with
    | true =>
      obtain ⟨-, -, hs, hf, -⟩ := beginTransfer_true hp.beginTransfer
      exact ⟨fun _ => hs, fun _ => ⟨_, hf⟩⟩
    | false =>
      rcases beginTransfer_false hp.beginTransfer with ⟨-, h⟩ | ⟨-, -, h⟩
      · exact h ▸ hw
      · exact World.settled_of_idle h
  | finishTransfer fuel good =>
    exact World.settled_of_idle (finishTransfer_stops hw hp.finishTransfer)
  | cancel =>
    obtain rfl := hp.cancel
    exact World.settled_of_idle (by simp [World.become])

theorem Run.settled {ps : List Passage} {w : World} (h : Run E s ps w) : w.Settled := by
  induction h with
  | start accepted => exact settled_initial accepted
  | call _ hp hr ih => exact settled_call ih hp hr

/-- The call that begins a job's first page. -/
def beginning (E : Environment) (s : Settings) : Passage :=
  ⟨.initial true, .beginTransfer 9, .ok true, firstPage E s⟩

theorem beginning_executes
    (hb : ((beginTransfer s 9).run (exec E) (.initial true)).1 = .ok true) :
    (beginning E s).Executes E s :=
  run_firstPage hb

/-- The two calls for a job's first page. -/
def firstCalls (E : Environment) (s : Settings) : List Passage :=
  [⟨firstPage E s, .finishTransfer 9 true, .ok true, (firstTransfer E s).2⟩, beginning E s]

theorem run_firstCalls (hb : ((beginTransfer s 9).run (exec E) (.initial true)).1 = .ok true)
    (hf : (firstTransfer E s).1 = .ok ()) :
    Run E s (firstCalls E s) (firstTransfer E s).2 := by
  have hsecond : Passage.Executes E s
      ⟨firstPage E s, .finishTransfer 9 true, .ok true, (firstTransfer E s).2⟩ := by
    simp [Passage.Executes, JobCall.text, run_bind, run_firstTransfer hf]
  exact .call (.call (p := beginning E s) (.start true) (beginning_executes hb) rfl) hsecond rfl

end AirSane.ScanJob
