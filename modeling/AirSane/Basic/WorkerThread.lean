import AirSane.Programs.Machine
import Mathlib.Logic.Function.Basic

/-! # A worker thread that executes calls for others

`executeSynchronously` and `threadFunc` as a monitor. A section that holds the
mutex is one step, and a wait is entered at the end of the section before it.
The slot for the callable, the done flag and the wake-up are shared by all
callers, so the callers must take turns.
-/

namespace AirSane.WorkerThread
open Programs

/-- A thread in `executeSynchronously`: waiting on `mThreadCondition`, or woken
and about to test `mCallDone`. -/
inductive Caller where
  | outside | waiting | woken | returned
  deriving DecidableEq

/-- `threadFunc`: about to notify `mThreadCondition`, about to test `mpCallable`,
or waiting on `mExecuteCondition`. -/
inductive Worker where
  | notifying | testing | waiting
  deriving DecidableEq

structure Monitor (T : Type) where
  mpCallable : Option T
  mCallDone : Bool
  worker : Worker
  caller : T → Caller
  executed : List T
  failed : Bool

namespace Monitor
variable {T : Type}

/-- A constructed `WorkerThread`, whose thread has yet to notify its creator. -/
def start : Monitor T := ⟨none, false, .notifying, fun _ => .outside, [], false⟩

/-- The second section of `threadFunc`. -/
def takeCall (c : Monitor T) : Monitor T :=
  match c.mpCallable with
  | none => { c with worker := .waiting }
  | some t =>
    if c.mCallDone then { c with failed := true }
    else { c with
      mpCallable := none
      mCallDone := true
      executed := c.executed ++ [t]
      worker := .notifying }

variable [DecidableEq T]

def move (c : Monitor T) (t : T) (p : Caller) : Monitor T :=
  { c with caller := Function.update c.caller t p }

/-- `executeSynchronously` up to its wait. -/
def submit (c : Monitor T) (t : T) : Monitor T :=
  if c.mpCallable.isSome then { c with failed := true }
  else { c.move t .waiting with
    mpCallable := some t
    mCallDone := false
    worker := if c.worker = .waiting then .testing else c.worker }

/-- The rest of `executeSynchronously`. -/
def resume (c : Monitor T) (t : T) : Monitor T :=
  c.move t (if c.mCallDone then .returned else .waiting)

end Monitor

inductive Action (T : Type) where
  | submit (t : T)
  | resume (t : T)
  | spurious (t : T)
  | takeCall
  | notify
  | spuriousWorker

variable {T : Type}

/-- The steps of the monitor. Waits may end spuriously; a notification goes to
one of the callers that wait, and is lost if none does. -/
inductive Step [DecidableEq T] (c : Monitor T) : Action T → Monitor T → Prop where
  | submit {t : T} (hf : c.failed = false) (h : c.caller t = .outside) :
    Step c (.submit t) (c.submit t)
  | resume {t : T} (hf : c.failed = false) (h : c.caller t = .woken) :
    Step c (.resume t) (c.resume t)
  | spurious {t : T} (hf : c.failed = false) (h : c.caller t = .waiting) :
    Step c (.spurious t) (c.move t .woken)
  | takeCall (hf : c.failed = false) (h : c.worker = .testing) : Step c .takeCall c.takeCall
  | notifyOne {t : T} (hf : c.failed = false) (h : c.worker = .notifying)
      (ht : c.caller t = .waiting) : Step c .notify { c.move t .woken with worker := .testing }
  | notifyNone (hf : c.failed = false) (h : c.worker = .notifying)
      (hn : ∀ t, c.caller t ≠ .waiting) : Step c .notify { c with worker := .testing }
  | spuriousWorker (hf : c.failed = false) (h : c.worker = .waiting) :
    Step c .spuriousWorker { c with worker := .testing }

/-- All callables have run, but a caller waits for a notification that will not
come. -/
def Monitor.Stranded (c : Monitor T) : Prop :=
  (∀ t, c.caller t ≠ .outside → t ∈ c.executed) ∧ (∃ t, c.caller t = .waiting) ∧
    c.worker ≠ .notifying

/-- What callers may rely on. -/
structure Serves (c : Monitor T) : Prop where
  /-- No assertion has failed. -/
  asserted : c.failed = false
  /-- No callable runs twice, and none that was not submitted. -/
  once : c.executed.Nodup ∧ ∀ t ∈ c.executed, c.caller t ≠ .outside
  /-- A callable that has not run is in the slot, and the thread is on its way to it. -/
  kept : ∀ t, c.caller t ≠ .outside → t ∉ c.executed →
    c.mpCallable = some t ∧ c.worker ≠ .waiting
  /-- Callers return after their own callable. -/
  returned : ∀ t, c.caller t = .returned → t ∈ c.executed
  woken : ¬ c.Stranded

/-- Between entry and return. -/
def Monitor.Inside (c : Monitor T) (t : T) : Prop := c.caller t = .waiting ∨ c.caller t = .woken

/-- A caller enters only while no other one is inside. -/
def TakeTurns (c : Monitor T) : Action T → Prop
  | .submit _ => ∀ u, ¬ c.Inside u
  | _ => True

/-- What holds as long as the callers take turns. -/
structure Inv (c : Monitor T) : Prop where
  failed : c.failed = false
  unique : ∀ t u, c.Inside t → c.Inside u → t = u
  slot : ∀ t, c.mpCallable = some t →
    c.Inside t ∧ t ∉ c.executed ∧ c.mCallDone = false ∧ c.worker ≠ .waiting
  done : ∀ t, c.mpCallable = none → c.Inside t →
    t ∈ c.executed ∧ c.mCallDone = true ∧ (c.caller t = .waiting → c.worker = .notifying)
  nodup : c.executed.Nodup
  submitted : ∀ t ∈ c.executed, c.caller t ≠ .outside
  returned : ∀ t, c.caller t = .returned → t ∈ c.executed

section
variable {c : Monitor T} {t : T}

theorem Inv.not_submit (hc : Inv c) (h : ∀ u, ¬ c.Inside u) : c.mpCallable = none := by
  cases hs : c.mpCallable with
  | none => rfl
  | some u => exact absurd (hc.slot u hs).1 (h u)

theorem inv_start : Inv (.start : Monitor T) := by
  constructor <;> simp [Monitor.start, Monitor.Inside]

theorem inv_takeCall (hc : Inv c) (hw : c.worker = .testing) : Inv c.takeCall := by
  cases hs : c.mpCallable with
  | none =>
    have hnew : c.takeCall = { c with worker := .waiting } := by simp [Monitor.takeCall, hs]
    rw [hnew]
    refine ⟨hc.failed, hc.unique, by simp [hs], fun u _ hu => ?_, hc.nodup, hc.submitted,
      hc.returned⟩
    obtain ⟨hmem, hd, hn⟩ := hc.done u hs hu
    refine ⟨hmem, hd, fun h => ?_⟩
    simp [hn h] at hw
  | some t =>
    obtain ⟨hin, hmem, hd, -⟩ := hc.slot t hs
    have hnew : c.takeCall = { c with
        mpCallable := none
        mCallDone := true
        executed := c.executed ++ [t]
        worker := .notifying } := by
      simp [Monitor.takeCall, hs, hd]
    rw [hnew]
    refine ⟨hc.failed, hc.unique, by simp, fun u _ hu => ?_, ?_, fun u hu => ?_, fun u hu => ?_⟩
    · obtain rfl := hc.unique u t hu hin
      simp
    · exact List.nodup_append.2 ⟨hc.nodup, by simp, by rintro x hx y hy rfl; simp_all⟩
    · rcases List.mem_append.1 hu with hu | hu
      · exact hc.submitted u hu
      · obtain rfl := List.mem_singleton.1 hu
        rcases hin with h | h <;> simp [h]
    · exact List.mem_append_left _ (hc.returned u hu)

/-- The worker leaves a place from which it need not notify. -/
theorem inv_testing (hc : Inv c) (h : c.worker = .notifying → ∀ t, c.caller t ≠ .waiting) :
    Inv { c with worker := .testing } := by
  refine ⟨hc.failed, hc.unique, fun u hu => ?_, fun u hs hu => ?_, hc.nodup, hc.submitted,
    hc.returned⟩
  · obtain ⟨hin, hmem, hd, -⟩ := hc.slot u hu
    exact ⟨hin, hmem, hd, by simp⟩
  · obtain ⟨hmem, hd, hn⟩ := hc.done u hs hu
    exact ⟨hmem, hd, fun hw => absurd hw (h (hn hw) u)⟩

theorem Inv.serves {c : Monitor T} (hc : Inv c) : Serves c := by
  have hin (t : T) (ht : c.caller t ≠ .outside) (hn : t ∉ c.executed) : c.Inside t := by
    cases h : c.caller t with
    | outside => exact absurd h ht
    | waiting => exact .inl h
    | woken => exact .inr h
    | returned => exact absurd (hc.returned t h) hn
  refine ⟨hc.failed, ⟨hc.nodup, hc.submitted⟩, fun t ht hn => ?_, hc.returned, ?_⟩
  · cases hs : c.mpCallable with
    | none => exact absurd (hc.done t hs (hin t ht hn)).1 hn
    | some u =>
      obtain ⟨hu, -, -, hw⟩ := hc.slot u hs
      exact ⟨by rw [hc.unique t u (hin t ht hn) hu], hw⟩
  · rintro ⟨hall, ⟨t, ht⟩, hw⟩
    cases hs : c.mpCallable with
    | none => exact hw ((hc.done t hs (.inl ht)).2.2 ht)
    | some u =>
      obtain ⟨hu, hn, -, -⟩ := hc.slot u hs
      refine hn (hall u ?_)
      rcases hu with h | h <;> simp [h]

end

section
variable [DecidableEq T] {c : Monitor T} {t u : T} {p : Caller}

@[simp] theorem move_caller_self : (c.move t p).caller t = p := by simp [Monitor.move]

theorem move_caller_ne (h : u ≠ t) : (c.move t p).caller u = c.caller u := by
  simp [Monitor.move, h]

theorem inv_submit (hc : Inv c) (ht : c.caller t = .outside) (ha : ∀ u, ¬ c.Inside u) :
    Inv (c.submit t) := by
  have hslot := hc.not_submit ha
  have hnew : c.submit t = { c.move t .waiting with
      mpCallable := some t
      mCallDone := false
      worker := if c.worker = .waiting then .testing else c.worker } := by
    simp [Monitor.submit, hslot]
  have hinside (u : T) : (c.submit t).Inside u ↔ u = t := by
    by_cases hu : u = t
    · simp [hnew, Monitor.Inside, Monitor.move, hu]
    · simpa [hnew, Monitor.Inside, Monitor.move, hu] using ha u
  have hexec : (c.submit t).executed = c.executed := by rw [hnew]; rfl
  constructor
  · rw [hnew]
    exact hc.failed
  · intro u v hu hv
    rw [(hinside u).1 hu, (hinside v).1 hv]
  · intro u hu
    obtain rfl : t = u := by simpa [hnew] using hu
    refine ⟨(hinside t).2 rfl, fun hmem => hc.submitted t (hexec ▸ hmem) ht, by rw [hnew], ?_⟩
    by_cases hw : c.worker = .waiting <;> simp [hnew, hw]
  · intro u hu
    simp [hnew] at hu
  · rw [hexec]
    exact hc.nodup
  · intro u hu
    rw [hexec] at hu
    have hut : u ≠ t := fun h => hc.submitted u hu (h ▸ ht)
    simpa [hnew, Monitor.move, hut] using hc.submitted u hu
  · intro u hu
    have hut : u ≠ t := by
      rintro rfl
      simp [hnew, Monitor.move] at hu
    rw [hexec]
    exact hc.returned u (by simpa [hnew, Monitor.move, hut] using hu)

/-- A caller inside stays inside, and does not begin to wait unless its callable
is in the slot. -/
theorem inv_move (hc : Inv c) (ht : c.Inside t) (hp : p = .waiting ∨ p = .woken)
    (hw : p = .waiting → c.mpCallable ≠ none) : Inv (c.move t p) := by
  have hinside (u : T) : (c.move t p).Inside u ↔ c.Inside u := by
    by_cases hu : u = t
    · subst hu
      exact iff_of_true (by simpa [Monitor.Inside] using hp) ht
    · simp [Monitor.Inside, move_caller_ne hu]
  have hout (u : T) (q : Caller) (hq : q ≠ .waiting ∧ q ≠ .woken) :
      (c.move t p).caller u = q ↔ c.caller u = q := by
    by_cases hu : u = t
    · subst hu
      have hin : c.caller u ≠ q := by
        rcases ht with h | h <;> simp [h, hq.1.symm, hq.2.symm]
      have hin' : p ≠ q := by
        rcases hp with h | h <;> simp [h, hq.1.symm, hq.2.symm]
      simp [hin, hin']
    · rw [move_caller_ne hu]
  constructor
  · exact hc.failed
  · exact fun u v hu hv => hc.unique u v ((hinside u).1 hu) ((hinside v).1 hv)
  · exact fun u hu => ⟨(hinside u).2 (hc.slot u hu).1, (hc.slot u hu).2⟩
  · intro u hu hin
    obtain ⟨hmem, hd, hn⟩ := hc.done u hu ((hinside u).1 hin)
    refine ⟨hmem, hd, fun hcaller => ?_⟩
    by_cases hut : u = t
    · subst hut
      exact absurd hu (hw (by simpa using hcaller))
    · rw [move_caller_ne hut] at hcaller
      exact hn hcaller
  · exact hc.nodup
  · exact fun u hu h => hc.submitted u hu ((hout u .outside (by simp)).1 h)
  · exact fun u hu => hc.returned u ((hout u .returned (by simp)).1 hu)

theorem inv_resume (hc : Inv c) (ht : c.caller t = .woken) : Inv (c.resume t) := by
  have hin : c.Inside t := .inr ht
  by_cases hd : c.mCallDone
  · have hslot : c.mpCallable = none := by
      cases hs : c.mpCallable with
      | none => rfl
      | some u => simp [(hc.slot u hs).2.2.1] at hd
    have hout (u : T) : ¬ (c.resume t).Inside u := by
      intro hu
      have hut : u ≠ t := by
        rintro rfl
        simp [Monitor.resume, hd, Monitor.Inside] at hu
      have hu' : c.Inside u := by
        simpa [Monitor.resume, Monitor.Inside, move_caller_ne hut] using hu
      exact hut (hc.unique u t hu' hin)
    constructor
    · exact hc.failed
    · exact fun u _ hu => absurd hu (hout u)
    · intro u hu
      simp [Monitor.resume, Monitor.move, hslot] at hu
    · exact fun u _ hu => absurd hu (hout u)
    · exact hc.nodup
    · intro u hu
      by_cases hut : u = t
      · subst hut
        simp [Monitor.resume, hd]
      · simpa [Monitor.resume, move_caller_ne hut] using hc.submitted u hu
    · intro u hu
      by_cases hut : u = t
      · subst hut
        exact (hc.done u hslot hin).1
      · exact hc.returned u (by simpa [Monitor.resume, move_caller_ne hut] using hu)
  · have hslot : c.mpCallable ≠ none := fun h => hd (hc.done t h hin).2.1
    have hmove : c.resume t = c.move t .waiting := by simp [Monitor.resume, hd]
    rw [hmove]
    exact inv_move hc hin (.inl rfl) fun _ => hslot

theorem inv_notifyOne (hc : Inv c) (ht : c.caller t = .waiting) :
    Inv { c.move t .woken with worker := .testing } := by
  have hin : c.Inside t := .inl ht
  apply inv_testing (inv_move hc hin (.inr rfl) (by simp))
  intro _ u hu
  have hut : u ≠ t := by
    rintro rfl
    simp at hu
  rw [move_caller_ne hut] at hu
  exact hut (hc.unique u t (.inl hu) hin)

end

theorem inv_step [DecidableEq T] {c c' : Monitor T} {a : Action T} (hc : Inv c) (ha : TakeTurns c a)
    (h : Step c a c') : Inv c' := by
  cases h with
  | submit _ ht => exact inv_submit hc ht ha
  | resume _ ht => exact inv_resume hc ht
  | spurious _ ht => exact inv_move hc (.inl ht) (.inr rfl) (by simp)
  | takeCall _ hw => exact inv_takeCall hc hw
  | notifyOne _ _ ht => exact inv_notifyOne hc ht
  | notifyNone _ _ hn => exact inv_testing hc fun _ => hn
  | spuriousWorker _ hw => exact inv_testing hc fun h => by simp [h] at hw

/-- As long as its callers take turns, the worker thread serves them. -/
theorem serves_of_takeTurns [DecidableEq T] {c : Monitor T} (h : Reached Step TakeTurns .start c) :
    Serves c :=
  (h.invariant inv_start fun _ _ _ => inv_step).serves

theorem serves_of_takeTurns_one :
    Serves (((Monitor.start : Monitor Unit).submit ()).move () .woken) :=
  serves_of_takeTurns ((Reached.start.step (a := .submit ()) (by simp [TakeTurns, Monitor.Inside,
    Monitor.start]) (.submit rfl rfl)).step (a := .spurious ()) trivial (.spurious rfl rfl))

/-- Two callers at a time: the second one may trip over the first one's
callable, or reset the done flag that the first one is about to test, so that
one of them waits for ever. -/
theorem overlapping_calls :
    (∃ c : Monitor Bool, Reached Step (fun _ _ => True) .start c ∧ c.failed = true) ∧
      ∃ c : Monitor Bool, Reached Step (fun _ _ => True) .start c ∧ c.Stranded := by
  have h₁ : Reached Step (fun _ _ => True) (.start : Monitor Bool) _ :=
    Reached.start.step trivial (.notifyNone rfl rfl (by decide))
  have h₂ := h₁.step trivial (.submit (t := true) rfl rfl)
  refine ⟨⟨_, h₂.step trivial (.submit (t := false) rfl rfl), rfl⟩, ?_⟩
  have h₃ := h₂.step trivial (.takeCall rfl rfl)
  have h₄ := h₃.step trivial (.submit (t := false) rfl rfl)
  have h₅ := h₄.step trivial (.notifyOne (t := true) rfl rfl rfl)
  have h₆ := h₅.step trivial (.resume (t := true) rfl rfl)
  have h₇ := h₆.step trivial (.takeCall rfl rfl)
  have h₈ := h₇.step trivial (.notifyOne (t := true) rfl rfl rfl)
  have h₉ := h₈.step trivial (.resume (t := true) rfl rfl)
  exact ⟨_, h₉.step trivial (.takeCall rfl rfl), by decide, ⟨false, rfl⟩, by decide⟩

end AirSane.WorkerThread
