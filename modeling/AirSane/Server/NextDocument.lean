import AirSane.ScanJob.CallDiscipline
import AirSane.ScanJob.Relay

/-! # Clients that ask for the next document of a job

Any number of handlers of `GET NextDocument` share one job. Each tests whether
the job is finished, calls `beginTransfer`, and calls `finishTransfer` on its own
response if a transfer was begun. The job's worker thread executes one call at a
time; between the calls the handlers are interleaved in any order. The trace
says for every event of the job whose call it belongs to, and what a call writes
goes to the response of the handler that makes it.
-/

namespace AirSane.Server
open Programs Program ScanJob

inductive Position where
  | arrived | admitted | transferring | served
  deriving DecidableEq

structure Service (H : Type) where
  job : World
  position : H → Position
  trace : List (H × Event)

variable {H : Type} {E : Environment} {s : Settings}

def Service.start (accepted : Bool) : Service H := ⟨.initial accepted, fun _ => .arrived, []⟩

namespace Service
variable [DecidableEq H]

/-- Handler `n` has moved on and left the job as `w`. -/
def serve (c : Service H) (n : H) (w : World) (p : Position) : Service H :=
  ⟨w, Function.update c.position n p, c.trace ++ (w.eventsSince c.job).map fun e => (n, e)⟩

/-- The events of one handler's calls. -/
def eventsOf (c : Service H) (n : H) : Log :=
  (c.trace.filter fun x => x.1 = n).map Prod.snd

end Service

/-- A step of one handler. -/
inductive Step [DecidableEq H] (E : Environment) (s : Settings) (c : Service H) : Service H → Prop where
  | isFinished {n : H} (h : c.position n = .arrived) :
    Step E s c (c.serve n c.job (if c.job.state.isFinished then .served else .admitted))
  | beginTransfer {n : H} {fuel : ℕ} {b : Bool} {w : World} (h : c.position n = .admitted)
      (hr : (ScanJob.beginTransfer s fuel).run (exec E) c.job = (.ok b, w)) :
    Step E s c (c.serve n w (if b then .transferring else .served))
  | finishTransfer {n : H} {fuel : ℕ} {good : Bool} {w : World} (h : c.position n = .transferring)
      (hr : (ScanJob.finishTransfer s fuel good).run (exec E) c.job = (.ok (), w)) :
    Step E s c (c.serve n w .served)

def Reachable [DecidableEq H] (E : Environment) (s : Settings) (accepted : Bool) : Service H → Prop :=
  Relation.ReflTransGen (Step E s) (.start accepted)

/-- A `sane_start`, with the handler in whose call it happened. -/
def startOf : H × Event → Option (H × Option Handle × SaneStatus)
  | (n, .saneStart d st) => some (n, d, st)
  | _ => none

def latestStart (trace : List (H × Event)) : Option (H × Option Handle × SaneStatus) :=
  (trace.filterMap startOf).getLast?

theorem latestStart_append (a b : List (H × Event)) :
    latestStart (a ++ b) = (latestStart b).or (latestStart a) := by
  simp [latestStart]

/-- Events of one handler leave the latest start with that handler. -/
theorem latestStart_own {trace : List (H × Event)} {n : H} {evs : Log}
    (h : ∃ d st, latestStart trace = some (n, d, st)) :
    ∃ d st, latestStart (trace ++ evs.map fun e => (n, e)) = some (n, d, st) := by
  rw [latestStart_append]
  cases hl : latestStart (evs.map fun e => (n, e)) with
  | none => simpa using h
  | some x =>
    obtain ⟨y, hy, hx⟩ := List.mem_filterMap.1 (List.mem_of_getLast? hl)
    obtain ⟨e, -, rfl⟩ := List.mem_map.1 hy
    cases e <;> simp only [startOf, reduceCtorEq, Option.some.injEq] at hx
    subst hx
    exact ⟨_, _, rfl⟩

/-- What holds between the handlers of a job. -/
structure Matched [DecidableEq H] (E : Environment) (s : Settings) (c : Service H) : Prop where
  /-- At most one handler is between its two calls. -/
  exclusive : ∀ m n, c.position m = .transferring → c.position n = .transferring → m = n
  /-- It finds the session that it has itself started. -/
  own : ∀ n, c.position n = .transferring → c.job.state = .processing ∧
    ∃ i, c.job.session = some i ∧ latestStart c.trace = some (n, c.job.device i, .good)
  /-- Its second call ends the page, passed on in full unless the job aborts. -/
  ends : ∀ n fuel good w, c.position n = .transferring →
    (finishTransfer s fuel good).run (exec E) c.job = (.ok (), w) → w.state ≠ .processing ∧
      (w.state ≠ .aborted → written (w.eventsSince c.job) =
        (delivered (w.eventsSince c.job)).map s.processed)
  /-- Whoever moves a line has started the frame that it belongs to. -/
  frame : ∀ pre n e post, c.trace = pre ++ (n, e) :: post → e.movesLine →
    ∃ d st, latestStart pre = some (n, d, st)
  /-- A response receives the lines read for it, in order. -/
  order : ∀ n, written (c.eventsOf n) <+: (delivered (c.eventsOf n)).map s.processed

variable [DecidableEq H]

namespace Service
variable {c : Service H} {n m : H} {w : World} {p : Position}

@[simp] theorem serve_job : (c.serve n w p).job = w := rfl

@[simp] theorem serve_position_self : (c.serve n w p).position n = p := by
  simp [serve]

theorem serve_position_ne (h : m ≠ n) : (c.serve n w p).position m = c.position m := by
  simp [serve, h]

theorem eventsOf_serve_self : (c.serve n w p).eventsOf n = c.eventsOf n ++ w.eventsSince c.job := by
  simp [serve, eventsOf, List.filter_map, Function.comp_def]

theorem eventsOf_serve_ne (h : m ≠ n) : (c.serve n w p).eventsOf m = c.eventsOf m := by
  simp [serve, eventsOf, List.filter_map, Function.comp_def, h.symm]

end Service

/-- What the handlers keep up. Those that have not made their second call have
moved no line. -/
structure Inv (s : Settings) (c : Service H) : Prop where
  settled : c.job.Settled
  own : ∀ n, c.position n = .transferring → c.job.state = .processing ∧
    ∃ i, c.job.session = some i ∧ latestStart c.trace = some (n, c.job.device i, .good)
  frame : ∀ pre n e post, c.trace = pre ++ (n, e) :: post → e.movesLine →
    ∃ d st, latestStart pre = some (n, d, st)
  still : ∀ n, c.position n ≠ .served → Still (c.eventsOf n)
  order : ∀ n, written (c.eventsOf n) <+: (delivered (c.eventsOf n)).map s.processed

section
variable {c : Service H} {n : H} {w : World} {p : Position} {evs : Log}

theorem inv_start (accepted : Bool) : Inv s (Service.start accepted : Service H) where
  settled := settled_initial accepted
  own _ h := by simp [Service.start] at h
  frame _ _ _ _ h := by simp [Service.start] at h
  still _ _ := by simp [Service.start, Service.eventsOf, Still]
  order _ := by simp [Service.start, Service.eventsOf, written]

/-- Lines may be moved by a handler that has made the latest start. -/
theorem frame_serve (hc : Inv s c) (hl : w.log = c.job.log ++ evs)
    (hn : Still evs ∨ ∃ d st, latestStart c.trace = some (n, d, st)) :
    ∀ pre m e post, (c.serve n w p).trace = pre ++ (m, e) :: post → e.movesLine →
      ∃ d st, latestStart pre = some (m, d, st) := by
  intro pre m e post hsplit hm
  rw [Service.serve, World.eventsSince_of_eq hl] at hsplit
  have hnew (a : List (H × Event)) (post : List (H × Event))
      (h : evs.map (fun e => (n, e)) = a ++ (m, e) :: post) :
      ∃ d st, latestStart (c.trace ++ a) = some (m, d, st) := by
    obtain ⟨before, rest, rfl, rfl, hrest⟩ := List.map_eq_append_iff.1 h
    obtain ⟨e', rest', rfl, he, -⟩ := List.map_eq_cons_iff.1 hrest
    obtain ⟨rfl, rfl⟩ := Prod.mk.inj he
    rcases hn with hstill | hlatest
    · exact absurd hm (hstill e' (by simp))
    · exact latestStart_own hlatest
  rcases List.append_eq_append_iff.1 hsplit with ⟨mid, rfl, hmid⟩ | ⟨mid, hpre, hmid⟩
  · exact hnew mid post hmid
  · cases mid with
    | nil =>
      rw [List.append_nil] at hpre
      simpa [hpre] using hnew [] post hmid.symm
    | cons x mid =>
      obtain ⟨rfl, rfl⟩ := List.cons.inj hmid
      exact hc.frame pre m e mid hpre hm

/-- What a call of a handler adds to the invariant, apart from the handler's
position afterwards. -/
theorem inv_serve (hc : Inv s c) (hn : c.position n ≠ .served) (hl : w.log = c.job.log ++ evs)
    (hw : w.Settled) (hframe : Still evs ∨ ∃ d st, latestStart c.trace = some (n, d, st))
    (hown : ∀ m, (c.serve n w p).position m = .transferring → w.state = .processing ∧
      ∃ i, w.session = some i ∧ latestStart (c.serve n w p).trace = some (m, w.device i, .good))
    (hstill : p ≠ .served → Still evs)
    (horder : written evs <+: (delivered evs).map s.processed) : Inv s (c.serve n w p) where
  settled := hw
  own := hown
  frame := frame_serve hc hl hframe
  still m hm := by
    by_cases h : m = n
    · subst h
      rw [Service.eventsOf_serve_self, World.eventsSince_of_eq hl]
      exact (hc.still m hn).append (hstill (by simpa using hm))
    · rw [Service.eventsOf_serve_ne h]
      rw [Service.serve_position_ne h] at hm
      exact hc.still m hm
  order m := by
    by_cases h : m = n
    · subst h
      rw [Service.eventsOf_serve_self, World.eventsSince_of_eq hl, written_append,
        delivered_append, (hc.still m hn).written, (hc.still m hn).delivered]
      exact horder
    · rw [Service.eventsOf_serve_ne h]
      exact hc.order m

theorem order_of_still (h : Still evs) : written evs <+: (delivered evs).map s.processed := by
  simp [h.written, h.delivered]

/-- A handler that leaves the job alone without beginning a transfer. -/
theorem inv_serve_idle (hc : Inv s c) (hn : c.position n ≠ .served) (hp : p ≠ .transferring) :
    Inv s (c.serve n c.job p) := by
  have hstill : Still [] := by simp [Still]
  apply inv_serve hc hn (List.append_nil _).symm hc.settled (.inl hstill) ?_ (fun _ => hstill)
    (order_of_still hstill)
  intro m hm
  have hne : m ≠ n := by
    rintro rfl
    exact hp (by simpa using hm)
  rw [Service.serve_position_ne hne] at hm
  simpa [Service.serve, World.eventsSince] using hc.own m hm

theorem inv_beginTransfer {fuel : ℕ} {b : Bool} (hc : Inv s c) (hn : c.position n = .admitted)
    (hr : (beginTransfer s fuel).run (exec E) c.job = (.ok b, w)) :
    Inv s (c.serve n w (if b then .transferring else .served)) := by
  have hserved : c.position n ≠ .served := by simp [hn]
  by_cases hp : c.job.state = .pending
  · have hnone (m : H) (hm : c.position m = .transferring) : False := by
      simp [(hc.own m hm).1] at hp
    obtain ⟨evs, hl, hstill⟩ := beginTransfer_still hr
    obtain ⟨opens, v, i, hopen⟩ := beginTransfer_opening hp hr
    have hsettled : w.Settled :=
      settled_call (p := ⟨c.job, .beginTransfer fuel, .ok b, w⟩) hc.settled hr rfl
    apply inv_serve hc hserved hl hsettled (.inl hstill) ?_ (fun _ => hstill) (order_of_still hstill)
    intro m hm
    by_cases hmn : m = n
    · subst hmn
      have hb : b = true := by
        cases b with
        | true => rfl
        | false => simp at hm
      subst hb
      obtain ⟨hs, pre, par, hev, -⟩ := hopen.begun rfl
      refine ⟨(beginTransfer_true hr).2.1, i, hs, ?_⟩
      have hdev : w.device i = v.device i := hopen.worked.device i
      have hsince : w.eventsSince c.job = _ := hev
      rw [Service.serve, hsince, latestStart_append, hdev]
      simp [latestStart, startOf, List.filterMap_append]
      rfl
    · rw [Service.serve_position_ne hmn] at hm
      exact (hnone m hm).elim
  · rw [run_beginTransfer_idle hp] at hr
    obtain ⟨hb, rfl⟩ := Prod.mk.inj hr
    obtain rfl : false = b := by simpa using hb
    exact inv_serve_idle hc hserved (by simp)

/-- The second call of the one handler that has begun a transfer. -/
theorem inv_finishTransfer {fuel : ℕ} {good : Bool} (hc : Inv s c)
    (hn : c.position n = .transferring)
    (hr : (finishTransfer s fuel good).run (exec E) c.job = (.ok (), w)) :
    Inv s (c.serve n w .served) := by
  obtain ⟨-, i, -, hlatest⟩ := hc.own n hn
  obtain ⟨evs, hl, hpre, -⟩ := finishTransfer_relayed hr
  have hstop : w.state ≠ .processing := finishTransfer_stops hc.settled hr
  apply inv_serve hc (by simp [hn]) hl (World.settled_of_idle hstop) (.inr ⟨_, _, hlatest⟩) ?_
    (by simp) hpre
  intro m hm
  have hmn : m ≠ n := by
    rintro rfl
    simp at hm
  rw [Service.serve_position_ne hmn] at hm
  obtain ⟨-, j, -, hlatest'⟩ := hc.own m hm
  exact absurd (Prod.mk.inj (Option.some.inj (hlatest'.symm.trans hlatest))).1 hmn

end

theorem inv_step {c c' : Service H} (hc : Inv s c) (h : Step E s c c') : Inv s c' := by
  cases h with
  | isFinished hn =>
    apply inv_serve_idle hc (by simp [hn])
    split_ifs <;> simp
  | beginTransfer hn hr => exact inv_beginTransfer hc hn hr
  | finishTransfer hn hr => exact inv_finishTransfer hc hn hr

theorem inv_reachable {c : Service H} {accepted : Bool} (h : Reachable E s accepted c) :
    Inv s c := by
  induction h with
  | refl => exact inv_start accepted
  | tail _ hstep ih => exact inv_step ih hstep

/-- The first of two clients has been served a page, the second has just arrived. -/
def afterFirst (E : Environment) (s : Settings) : Service Bool :=
  (((Service.start true).serve true (.initial true) .admitted).serve true (firstPage E s)
    .transferring).serve true (firstTransfer E s).2 .served

theorem reachable_afterFirst
    (hb : ((beginTransfer s 9).run (exec E) (.initial true)).1 = .ok true)
    (hf : (firstTransfer E s).1 = .ok ()) : Reachable E s true (afterFirst E s) := by
  let c₁ : Service Bool := (Service.start true).serve true (.initial true) .admitted
  have h₁ : Step E s (.start true) c₁ := .isFinished rfl
  have h₂ : Step E s c₁ (c₁.serve true (firstPage E s) .transferring) :=
    .beginTransfer (b := true) Service.serve_position_self (run_firstPage hb)
  have h₃ : Step E s (c₁.serve true (firstPage E s) .transferring) (afterFirst E s) :=
    .finishTransfer Service.serve_position_self (run_firstTransfer hf)
  exact ((Relation.ReflTransGen.refl.tail h₁).tail h₂).tail h₃

end AirSane.Server
