import AirSane.ScanJob.Calls

/-! # The call discipline towards the backend

`sane_start` and `sane_read` belong on handles that were opened. `beginTransfer`
lets the status of a failed `openSession` be overwritten and starts the session
all the same, so the discipline holds exactly in the runs in which the backend
lets every `openSession` succeed.
-/

namespace AirSane.ScanJob
open Programs Program

variable {E : Environment} {s : Settings}

/-- The handle that a call passes to `sane_start` or `sane_read`. -/
def Event.handle : Event → Option (Option Handle)
  | .saneStart d _ | .saneRead d _ _ => some d
  | _ => none

/-- Every such handle was opened before. -/
def Disciplined (log : Log) : Prop :=
  ∀ pre e post d, log = pre ++ e :: post → e.handle = some d →
    ∃ h, d = some h ∧ .saneOpen h .good ∈ pre

/-- Events of a session that is open on `d`. -/
def Event.On (d : Option Handle) : Event → Prop
  | .saneStart d' _ | .saneRead d' _ _ => d' = d
  | .saneOpen _ _ | .setOption _ _ | .setNumericValue _ _ _ | .optionUnit _ _ | .openSession _ =>
    False
  | _ => True

theorem Event.On.agreeable {d : Option Handle} {e : Event} (h : e.On d) : e.agreeable := by
  cases e <;> trivial

/-- From `w` to `u`, work was done on the open device `d`. -/
structure Worked (d : Option Handle) (w u : World) : Prop where
  log : ∃ evs, u.log = w.log ++ evs ∧ ∀ e ∈ evs, e.On d
  device : ∀ j, u.device j = w.device j
  session : u.session = w.session ∨ u.session = none

section
variable {d : Option Handle} {w u v : World} {i : SessionId}

theorem Worked.refl (d : Option Handle) (w : World) : Worked d w w :=
  ⟨⟨[], by simp⟩, fun _ => rfl, .inl rfl⟩

theorem Worked.trans (h : Worked d w u) (h' : Worked d u v) : Worked d w v := by
  obtain ⟨evs, hl, he⟩ := h.log
  obtain ⟨evs', hl', he'⟩ := h'.log
  refine ⟨⟨evs ++ evs', by rw [hl', hl, List.append_assoc], List.forall_mem_append.2 ⟨he, he'⟩⟩,
    fun j => (h'.device j).trans (h.device j), ?_⟩
  rcases h'.session with hs | hs
  · rw [hs]
    exact h.session
  · exact .inr hs

theorem World.Emitted.worked {evs : Log} (h : w.Emitted evs u) (he : ∀ e ∈ evs, e.On d) :
    Worked d w u :=
  ⟨⟨evs, h.log, he⟩, h.device, .inl h.session⟩

theorem Reads.on {evs : Log} (h : Reads d evs) : ∀ e ∈ evs, e.On d := by
  intro e he
  obtain ⟨st, bytes, rfl⟩ := h e he
  rfl

theorem Releases.on {evs : Log} (h : Releases evs) : ∀ e ∈ evs, e.On d := by
  intro e he
  obtain ⟨x, rfl | rfl⟩ := h e he <;> trivial

theorem Starts.on {evs : Log} {st : SaneStatus} (h : Starts d evs st) : ∀ e ∈ evs, e.On d := by
  cases h <;> simp [Event.On]

theorem Restarted.on {evs : Log} {st st' : SaneStatus} (h : Restarted d st evs st') :
    ∀ e ∈ evs, e.On d := by
  induction h with
  | refl => simp
  | again h _ ih => exact List.forall_mem_append.2 ⟨h.on, ih⟩

theorem made_on (cs : List Call) : ∀ e ∈ made cs, e.On d := by
  intro e he
  obtain ⟨c, -, rfl⟩ := List.mem_map.1 he
  trivial

theorem worked_become (w : World) (st : State) (r : String) : Worked d w (w.become st r) :=
  ⟨⟨[], by simp [World.become]⟩, fun _ => rfl, .inl rfl⟩

theorem worked_closed (w : World) : Worked d w w.closed :=
  ⟨⟨_, rfl, w.releases_releaseEvents.on⟩, fun _ => rfl, .inr rfl⟩

theorem worked_adfStatus (w : World) (adf : SaneStatus) (st : State) (r : String) :
    Worked d w ((w.withAdfStatus adf).become st r) :=
  ⟨⟨[], by simp [World.become, World.withAdfStatus]⟩, fun _ => rfl, .inl rfl⟩

theorem worked_settle {st : SaneStatus} (h : ¬ s.restarts st) (w : World) :
    Worked d w (w.settle s st) := by
  rcases w.settle_cases h with ⟨-, hw⟩ | ⟨-, -, hw⟩ | ⟨adf, st', r, -, -, -, -, hw⟩ <;> rw [hw]
  · exact worked_adfStatus w _ _ _
  · exact worked_adfStatus w _ _ _
  · exact (worked_adfStatus w _ _ _).trans (worked_closed _)

theorem worked_checked (w : World) (e : Encoder) : Worked d w (w.checked e) := by
  unfold World.checked
  split
  · exact .refl d w
  · exact worked_become w _ _

theorem LineStep.worked {st : SaneStatus} (h : LineStep s i w (st, u)) (hd : w.device i = d) :
    Worked d w u := by
  subst hd
  have hread (st : SaneStatus) (line : List UInt8) :
      ∀ e ∈ [Event.sessionRead st line], e.On (w.device i) := by simp [Event.On]
  have hflush (b : Bool) : ∀ e ∈ [Event.flush b], e.On (w.device i) := by simp [Event.On]
  cases h with
  | ended _ hr hu _ _ => exact hu.worked (List.forall_mem_append.2 ⟨hr.on, hread _ _⟩)
  | written hr _ hu _ _ _ =>
    exact hu.worked (List.forall_mem_append.2 ⟨List.forall_mem_append.2 ⟨hr.on, hread _ _⟩,
      List.forall_mem_append.2 ⟨made_on _, hflush _⟩⟩)
  | @failed line reads rest cs x e₀ e' hr _ hcs hu _ _ =>
    have hrest : ∀ e ∈ rest, e.On (w.device i) := by
      cases hcs with
      | thrown _ => simp
      | unflushed _ => exact hflush false
    exact (hu.worked (List.forall_mem_append.2 ⟨List.forall_mem_append.2 ⟨hr.on, hread _ _⟩,
      List.forall_mem_append.2 ⟨made_on _, hrest⟩⟩)).trans
        ((worked_become _ _ _).trans (worked_closed _))

theorem LineRun.worked {a b : SaneStatus × World} (h : LineRun s i a b)
    (hd : a.2.device i = d) : Worked d a.2 b.2 := by
  induction h with
  | refl => exact .refl d _
  | tail _ hstep ih =>
    exact ih.trans (hstep.2.2.2.worked ((ih.device i).trans hd))

theorem worked_counted_untouched {evs : Log} (hv : u.counted.Untouched v)
    (hl : v.log = u.log ++ evs) (he : ∀ e ∈ evs, e.On d) : Worked d u v :=
  ⟨⟨evs, hl, he⟩, hv.device, .inl hv.session⟩

theorem ImageStep.worked (h : ImageStep s i w u) (hd : w.device i = d) : Worked d w u := by
  cases h with
  | broken h _ => exact h.worked hd
  | finished h _ _ _ _ hr _ hv hl hn =>
    have hrun := h.worked hd
    have hdev := (hrun.device i).trans hd
    exact (hrun.trans (worked_counted_untouched hv hl (hdev ▸ hr.on))).trans
      ((worked_settle hn _).trans (worked_checked _ _))

theorem ImageRun.worked (h : ImageRun s i w u) (hd : w.device i = d) : Worked d w u := by
  induction h with
  | refl => exact .refl d _
  | tail _ hstep ih => exact ih.trans (hstep.2.worked ((ih.device i).trans hd))

theorem ImageStop.worked {e : Stop} (h : ImageStop s i w e u) (hd : w.device i = d) :
    Worked d w u := by
  cases h with
  | crashed => exact .refl d _
  | reading h hr hv =>
    have hrun := h.worked hd
    exact hrun.trans (hv.worked ((hrun.device i).trans hd ▸ hr.on))
  | restarting h hr hv hl =>
    have hrun := h.worked hd
    exact hrun.trans (worked_counted_untouched hv hl ((hrun.device i).trans hd ▸ hr.on))

/-- Whatever `finishTransfer` comes to, it works on the device of its session. -/
theorem finishTransfer_worked {fuel : ℕ} {good : Bool}
    (hi : w.state = .processing → w.session = some i) (hd : w.device i = d) :
    Worked d w ((finishTransfer s fuel good).run (exec E) w).2 := by
  obtain ⟨v, hv, ht⟩ := run_finishTransfer (E := E) (s := s) (i := i)
    (fun hp _ => hi hp) fuel good
  have hset : Worked d w v := by
    cases hv <;> exact ⟨⟨[], by simp [World.attached, World.become, World.withEncoder]⟩,
      fun _ => rfl, .inl rfl⟩
  have hdev := (hset.device i).trans hd
  refine hset.trans ?_
  generalize (finishTransfer s fuel good).run (exec E) w = r at ht
  cases ht with
  | formatless => exact .refl d _
  | ended h _ _ => exact (h.worked hdev).trans ((World.call_emitted _ _).worked (by simp [Event.On]))
  | stopped h hstop =>
    exact (h.worked hdev).trans (hstop.worked (((h.worked hdev).device i).trans hdev))

end

def Event.openStatus : Event → Option SaneStatus
  | .openSession st => some st
  | _ => none

/-- What the latest `openSession` answered. -/
def lastOpenSession (log : Log) : Option SaneStatus := (log.filterMap Event.openStatus).getLast?

/-- What a call finds if the backend agreed to everything so far. -/
structure World.Held (w : World) : Prop where
  disciplined : Disciplined w.log
  owned : ∀ i, w.session = some i → ∃ h, w.device i = some h ∧ .saneOpen h .good ∈ w.log
  opened : w.session ≠ none → lastOpenSession w.log = some .good

theorem Disciplined.append {log evs : Log} (h : Disciplined log)
    (he : ∀ e ∈ evs, ∀ d, e.handle = some d → ∃ x, d = some x ∧ .saneOpen x .good ∈ log) :
    Disciplined (log ++ evs) := by
  intro pre e post d hsplit hd
  rcases List.append_eq_append_iff.1 hsplit with ⟨mid, rfl, hmid⟩ | ⟨mid, rfl, hmid⟩
  · obtain ⟨x, hx, hopen⟩ := he e (by simp [hmid]) d hd
    exact ⟨x, hx, by simp [hopen]⟩
  · cases mid with
    | nil =>
      obtain rfl : e :: post = evs := by simpa using hmid
      obtain ⟨x, hx, hopen⟩ := he e List.mem_cons_self d hd
      exact ⟨x, hx, by simpa using hopen⟩
    | cons a mid =>
      obtain ⟨rfl, rfl⟩ := List.cons.inj hmid
      exact h pre _ _ d rfl hd

theorem Disciplined.append_silent {log evs : Log} (h : Disciplined log)
    (he : ∀ e ∈ evs, e.handle = none) : Disciplined (log ++ evs) :=
  h.append fun e hmem d hd => by simp [he e hmem] at hd

theorem lastOpenSession_append {log evs : Log} (h : ∀ e ∈ evs, e.openStatus = none) :
    lastOpenSession (log ++ evs) = lastOpenSession log := by
  simp [lastOpenSession, List.filterMap_append, List.filterMap_eq_nil_iff.2 h]

theorem lastOpenSession_concat (log : Log) (st : SaneStatus) :
    lastOpenSession (log ++ [.openSession st]) = some st := by
  rw [lastOpenSession, List.filterMap_append]
  exact List.getLast?_concat

theorem Event.On.openStatus {d : Option Handle} {e : Event} (h : e.On d) : e.openStatus = none := by
  cases e <;> first | rfl | exact h.elim

theorem Event.configures.silent {e : Event} (h : e.configures) :
    e.handle = none ∧ e.openStatus = none := by
  cases e <;> first | exact ⟨rfl, rfl⟩ | exact h.elim

theorem held_initial (accepted : Bool) : (World.initial accepted).Held := by
  refine ⟨fun pre e post d h => ?_, fun i h => ?_, fun h => ?_⟩
  · simp [World.initial] at h
  all_goals simp [World.initial] at h

theorem World.Held.worked {w u : World} {i : SessionId} (hw : w.Held) (hi : w.session = some i)
    (h : Worked (w.device i) w u) : u.Held := by
  obtain ⟨evs, hl, he⟩ := h.log
  obtain ⟨x, hx, hopen⟩ := hw.owned i hi
  have hopen' : Event.saneOpen x .good ∈ u.log := by simp [hl, hopen]
  refine ⟨hl ▸ hw.disciplined.append fun e hmem d hd => ⟨x, ?_, hopen⟩, fun j hj => ?_, fun _ => ?_⟩
  · have hon := he e hmem
    cases e <;> simp only [Event.handle, reduceCtorEq, Option.some.injEq] at hd
    · exact hd ▸ (show _ = w.device i from hon).trans hx
    · exact hd ▸ (show _ = w.device i from hon).trans hx
  · rcases h.session with hs | hs
    · obtain rfl : i = j := Option.some.inj (hi.symm.trans (hs.symm.trans hj))
      exact ⟨x, (h.device i).trans hx, hopen'⟩
    · simp [hs] at hj
  · rw [hl, lastOpenSession_append fun e hmem => (he e hmem).openStatus]
    exact hw.opened (by simp [hi])

/-- A job whose backend lets the next session be opened holds what it needs. -/
theorem World.Held.prepared {w v : World} {opens : Log} {i : SessionId} (hw : w.Held)
    (h : Prepared w opens v i) (ha : ∀ e ∈ opens, e.agreeable) : v.Held := by
  cases h with
  | kept h => exact hw
  | @opened _ evs st₀ st _ hst hc _ hs hd _ _ _ _ hl =>
    have hgood : st = .good := hst.2 fun e he => ha e (List.mem_append_left _ he)
    obtain rfl : st₀ = .good := ha (.saneOpen w.opened st₀) (by simp)
    have hopens (e : Event) (he : e ∈ .saneOpen w.opened .good :: evs ++ [.openSession st]) :
        e.handle = none := by
      rcases List.mem_append.1 he with he | he
      · rcases List.mem_cons.1 he with rfl | he
        · rfl
        · exact (hc e he).silent.1
      · obtain rfl := List.mem_singleton.1 he
        rfl
    rw [List.append_assoc] at hl
    refine ⟨hl ▸ hw.disciplined.append_silent hopens, fun j hj => ?_, fun _ => ?_⟩
    · obtain rfl : w.opened = j := Option.some.inj (hs.symm.trans hj)
      exact ⟨w.opened, by simp [hd], by simp [hl]⟩
    · rw [hl, ← List.append_assoc, lastOpenSession_concat, hgood]

theorem Starts.started {d : Option Handle} {evs : Log} {st : SaneStatus} (h : Starts d evs st) :
    ∃ st', .saneStart d st' ∈ evs := by
  cases h with
  | refused _ => exact ⟨st, by simp⟩
  | parameters _ _ => exact ⟨.good, by simp⟩

/-- Starts that come to a good end have a good start last. -/
theorem Restarted.good {d : Option Handle} {st st' : SaneStatus} {evs rest : Log}
    (h : Restarted d st rest st') (hs : Starts d evs st) (hg : st' = .good) :
    ∃ pre p, evs ++ rest = pre ++ [.saneStart d .good, .saneGetParameters d .good p] ∧
      (pre ≠ [] → rest ≠ []) := by
  induction h generalizing evs with
  | refl st =>
    cases hs with
    | refused h => exact absurd hg h
    | parameters _ p => exact ⟨[], p, by simp [hg], by simp⟩
  | @again evs' rest st st' h hr ih =>
    obtain ⟨pre, p, hpre, -⟩ := ih h hg
    obtain ⟨st₀, hst₀⟩ := h.started
    exact ⟨evs ++ pre, p, by rw [hpre, List.append_assoc], fun _ => by
      simp [List.ne_nil_of_mem hst₀]⟩

theorem Prepared.not_started {w v : World} {opens : Log} {i : SessionId}
    (h : Prepared w opens v i) (d : Option Handle) (st : SaneStatus) : .saneStart d st ∉ opens := by
  cases h with
  | kept _ => simp
  | opened _ _ hc =>
    simp only [List.cons_append, List.mem_cons, List.mem_append, reduceCtorEq, false_or,
      List.not_mem_nil, or_false]
    exact fun hmem => hc _ hmem

theorem Prepared.answered {w v : World} {opens : Log} {i : SessionId} (h : Prepared w opens v i) :
    opens = [] ∨ ∃ st, .openSession st ∈ opens := by
  cases h with
  | kept _ => exact .inl rfl
  | @opened _ _ _ st => exact .inr ⟨st, by simp⟩

theorem Prepared.answer {w v : World} {opens : Log} {i : SessionId} (h : Prepared w opens v i)
    {st : SaneStatus} (hmem : .openSession st ∈ opens) : st = .good ↔ ∀ e ∈ opens, e.agreeable := by
  cases h with
  | kept _ => simp at hmem
  | @opened _ evs st₀ st' _ hst hc =>
    have hst' : st = st' := by
      rcases List.mem_append.1 hmem with hmem | hmem
      · rcases List.mem_cons.1 hmem with hmem | hmem
        · cases hmem
        · exact (hc _ hmem).elim
      · simpa using hmem
    rw [hst', hst, List.forall_mem_append]
    exact (and_iff_left (by simp [Event.agreeable])).symm

def Passage.events (p : Passage) : Log := p.after.eventsSince p.before

/-- The backend lets every `openSession` of a call succeed. -/
def Passage.Agreeable (p : Passage) : Prop := ∀ e ∈ p.events, e.agreeable

/-- A transfer begins only on a session that was opened and started well, where
further starts precede the last one only if pages are concatenated; a session
that was not opened well is not started, and the job aborts without it. -/
structure Passage.Obeys (s : Settings) (p : Passage) : Prop where
  begun : ∀ fuel, p.call = .beginTransfer fuel → p.result = .ok true →
    lastOpenSession p.after.log = some .good ∧ ∃ i pre par, p.after.session = some i ∧
      p.events = pre ++ [.saneStart (p.after.device i) .good,
        .saneGetParameters (p.after.device i) .good par] ∧
      ((∃ d st, .saneStart d st ∈ pre) → s.kind = .adfConcat)
  refused : ∀ st, .openSession st ∈ p.events → st ≠ .good →
    (∀ d st', .saneStart d st' ∉ p.events) ∧ p.after.session = none ∧ p.after.state = .aborted

/-- The opening of a session by `beginTransfer`, and what follows it. -/
structure Opening (s : Settings) (p : Passage) (opens : Log) (v : World) (i : SessionId) :
    Prop where
  prepared : Prepared { p.before with state := .processing } opens v i
  worked : Worked (v.device i) v p.after
  started : ∃ st, .saneStart (v.device i) st ∈ p.events
  begun : p.result = .ok true → p.after.session = some i ∧ ∃ pre par,
    p.events = opens ++ (pre ++ [.saneStart (v.device i) .good,
      .saneGetParameters (v.device i) .good par]) ∧ (pre ≠ [] → s.kind = .adfConcat)

theorem beginTransfer_opening {w : World} {fuel : ℕ} (h : w.state = .pending) {r : Except Stop Bool}
    {w' : World} (hrun : (beginTransfer s fuel).run (exec E) w = (r, w')) :
    ∃ opens v i, Opening s ⟨w, .beginTransfer fuel, r, w'⟩ opens v i := by
  obtain ⟨opens, v, i, evs, st, rest, st', u, hprep, hS, hR, hk, hu, hl, hb, hgood⟩ :=
    run_beginTransfer (E := E) (s := s) h fuel
  rw [hrun] at hb hgood
  have hv : v.log = w.log ++ opens := hprep.log
  have hvu : Worked (v.device i) v u := by
    refine ⟨⟨evs ++ rest, by rw [hl, hv, List.append_assoc _ evs], ?_⟩, hu.device, .inl hu.session⟩
    exact List.forall_mem_append.2 ⟨hS.on, hR.on⟩
  have hafter : Worked (v.device i) u w' ∧ ∃ evs', w'.log = u.log ++ evs' := by
    cases hb with
    | running _ => exact ⟨worked_adfStatus u _ _ _, [], by simp [World.become, World.withAdfStatus]⟩
    | ended adf reason _ _ => exact ⟨(worked_adfStatus u _ _ _).trans (worked_closed _), _, rfl⟩
    | spinning => exact ⟨.refl _ _, [], by simp⟩
  obtain ⟨hw, evs', hl'⟩ := hafter
  have hevents : World.eventsSince w' w = opens ++ (evs ++ rest) ++ evs' :=
    World.eventsSince_of_eq (by rw [hl', hl]; simp)
  refine ⟨opens, v, i, hprep, hvu.trans hw, ?_, ?_⟩
  · obtain ⟨st₀, hst₀⟩ := hS.started
    exact ⟨st₀, by simp [Passage.events, hevents, hst₀]⟩
  · rintro (rfl : r = .ok true)
    cases hb with
    | running hs =>
      obtain ⟨pre, par, hpre, hne⟩ := hR.good hS (hgood rfl)
      have hnil : evs' = [] := by
        simpa [World.become, World.withAdfStatus] using hl'
      refine ⟨hu.session.trans hprep.session, pre, par, ?_, fun hp => hk (hne hp)⟩
      simp only [Passage.events, hevents, hnil, hpre, List.append_nil]

theorem Opening.events {p : Passage} {opens : Log} {v : World} {i : SessionId}
    (h : Opening s p opens v i) : ∃ evs, p.events = opens ++ evs ∧ ∀ e ∈ evs, e.On (v.device i) := by
  obtain ⟨evs, hl, he⟩ := h.worked.log
  refine ⟨evs, World.eventsSince_of_eq ?_, he⟩
  rw [hl, h.prepared.log, List.append_assoc]

theorem Opening.held {p : Passage} {opens : Log} {v : World} {i : SessionId}
    (h : Opening s p opens v i) (hw : p.before.Held) (ha : p.Agreeable) : p.after.Held := by
  obtain ⟨evs, he, -⟩ := h.events
  have hv : v.Held := World.Held.prepared (w := { p.before with state := .processing })
    ⟨hw.disciplined, hw.owned, hw.opened⟩ h.prepared
    fun e hmem => ha e (he ▸ List.mem_append_left _ hmem)
  exact hv.worked h.prepared.session h.worked

/-- A call that opened a session well obeys; it does not if it opened it badly. -/
theorem Opening.obeys_iff {p : Passage} {opens : Log} {v : World} {i : SessionId}
    (h : Opening s p opens v i) (hw : p.before.Held) : p.Obeys s ↔ p.Agreeable := by
  obtain ⟨evs, he, hon⟩ := h.events
  have hagree : p.Agreeable ↔ ∀ e ∈ opens, e.agreeable := by
    rw [Passage.Agreeable, he, List.forall_mem_append]
    exact and_iff_left fun e hmem => (hon e hmem).agreeable
  have hanswer (st : SaneStatus) (hst : .openSession st ∈ p.events) : .openSession st ∈ opens := by
    rw [he] at hst
    exact (List.mem_append.1 hst).resolve_right fun hst => hon _ hst
  constructor
  · intro hob
    rw [hagree]
    rcases h.prepared.answered with rfl | ⟨st, hmem⟩
    · simp
    · by_contra hbad
      have hne : st ≠ .good := fun hg => hbad ((h.prepared.answer hmem).1 hg)
      obtain ⟨st', hst'⟩ := h.started
      exact (hob.refused st (he ▸ List.mem_append_left _ hmem) hne).1 _ _ hst'
  · intro ha
    refine ⟨fun fuel _ hr => ?_, fun st hmem hne => absurd ?_ hne⟩
    · obtain ⟨hs, pre, par, hev, hk⟩ := h.begun hr
      refine ⟨(h.held hw ha).opened (by simp [hs]), i, opens ++ pre, par, hs, ?_,
        fun ⟨d, st, hst⟩ => hk ?_⟩
      · rw [hev, h.worked.device i, List.append_assoc]
      · rintro rfl
        exact h.prepared.not_started d st (by simpa using hst)
    · rw [he] at hmem
      have hopen := (List.mem_append.1 hmem).resolve_right fun hmem => hon _ hmem
      exact (h.prepared.answer hopen).2 (hagree.1 ha)

/-- A call that opens no session. -/
structure Passage.Quiet (p : Passage) : Prop where
  events : ∀ e ∈ p.events, e.agreeable ∧ e.openStatus = none
  held : p.before.Held → p.after.Held
  result : ∀ fuel, p.call = .beginTransfer fuel → p.result ≠ .ok true

theorem Passage.Quiet.obeys {p : Passage} (h : p.Quiet) : p.Obeys s where
  begun fuel hc hr := absurd hr (h.result fuel hc)
  refused st hmem _ := by simpa [Event.openStatus] using (h.events _ hmem).2

theorem Worked.quiet {p : Passage} {i : SessionId} (h : Worked (p.before.device i) p.before p.after)
    (hs : p.before.session = some i) (hc : ∀ fuel, p.call = .beginTransfer fuel → p.result ≠ .ok true) :
    p.Quiet := by
  obtain ⟨evs, hl, he⟩ := h.log
  refine ⟨fun e hmem => ?_, fun hw => hw.worked hs h, hc⟩
  rw [Passage.events, World.eventsSince_of_eq hl] at hmem
  exact ⟨(he e hmem).agreeable, (he e hmem).openStatus⟩

theorem finishTransfer_text (fuel : ℕ) (good : Bool) (w : World) :
    (((JobCall.finishTransfer fuel good).text s).run (exec E) w).2 =
      ((finishTransfer s fuel good).run (exec E) w).2 := by
  simp only [JobCall.text, run_bind]
  rcases (finishTransfer s fuel good).run (exec E) w with ⟨e | _, x⟩ <;> rfl

/-- Every call either opens a session or is quiet. -/
theorem call_cases {p : Passage} (hw : p.before.Settled) (hp : p.Executes E s) :
    p.Quiet ∨ ∃ opens v i, Opening s p opens v i := by
  obtain ⟨w, c, r, w'⟩ := p
  have hquiet (hl : World.eventsSince w' w = []) (hh : World.Held w → w'.Held)
      (hr : ∀ fuel, c = .beginTransfer fuel → r ≠ .ok true) : Passage.Quiet ⟨w, c, r, w'⟩ :=
    ⟨by simp [Passage.events, hl], hh, hr⟩
  cases c with
  | beginTransfer fuel =>
    by_cases hpend : w.state = .pending
    · exact .inr (beginTransfer_opening hpend hp)
    · have hrun : (.ok false, w) = (r, w') := (run_beginTransfer_idle hpend fuel).symm.trans hp
      obtain ⟨rfl, rfl⟩ := Prod.mk.inj hrun
      exact .inl (hquiet (by simp [World.eventsSince]) id (by simp))
  | finishTransfer fuel good =>
    refine .inl ?_
    have hafter : w' = ((finishTransfer s fuel good).run (exec E) w).2 := by
      rw [← finishTransfer_text, show (JobCall.text s _).run _ w = (r, w') from hp]
    by_cases hproc : w.state = .processing
    · obtain ⟨i, hi⟩ := Option.ne_none_iff_exists'.1 (hw.session hproc)
      subst hafter
      exact (finishTransfer_worked (fun _ => hi) rfl).quiet hi (by simp)
    · rw [run_finishTransfer_idle hproc] at hafter
      subst hafter
      exact hquiet (by simp [World.eventsSince, World.attached])
        (fun hh => ⟨hh.disciplined, hh.owned, hh.opened⟩) (by simp)
  | cancel =>
    refine .inl ?_
    have hrun : (JobCall.cancel.text s).run (exec E) w =
        (.ok true, (w.become .canceled PWG_JOB_CANCELED_BY_USER).closed) := by
      simp [JobCall.text, run_bind, run_cancel]
    obtain ⟨rfl, rfl⟩ := Prod.mk.inj (hrun.symm.trans hp)
    have hrel := (w.become .canceled PWG_JOB_CANCELED_BY_USER).releases_releaseEvents
    refine ⟨fun e hmem => ?_, fun hh => ⟨?_, by simp, by simp⟩, by simp⟩
    · rw [Passage.events, World.eventsSince_of_eq rfl] at hmem
      exact ⟨(hrel.on (d := none) e hmem).agreeable, (hrel.on (d := none) e hmem).openStatus⟩
    · refine hh.disciplined.append_silent fun e hmem => ?_
      obtain ⟨x, rfl | rfl⟩ := hrel e hmem <;> rfl

theorem call_obeys_iff {p : Passage} (hw : p.before.Settled) (hh : p.before.Held)
    (hp : p.Executes E s) : (p.Obeys s ↔ p.Agreeable) ∧ (p.Agreeable → p.after.Held) := by
  rcases call_cases hw hp with h | ⟨opens, v, i, h⟩
  · exact ⟨iff_of_true h.obeys fun e he => (h.events e he).1, fun _ => h.held hh⟩
  · exact ⟨h.obeys_iff hh, h.held hh⟩

theorem Run.held {ps : List Passage} {w : World} (h : Run E s ps w)
    (ha : ∀ p ∈ ps, p.Agreeable) : w.Held := by
  induction h with
  | start accepted => exact held_initial accepted
  | call hps hp _ ih =>
    rw [List.forall_mem_cons] at ha
    exact (call_obeys_iff hps.settled (ih ha.2) hp).2 ha.1

theorem Run.obeys_iff {ps : List Passage} {w : World} (h : Run E s ps w) :
    (∀ p ∈ ps, p.Obeys s) ↔ ∀ p ∈ ps, p.Agreeable := by
  induction h with
  | start accepted => simp
  | call hps hp _ ih =>
    rw [List.forall_mem_cons, List.forall_mem_cons, ih]
    exact and_congr_left fun ha => (call_obeys_iff hps.settled (hps.held ha) hp).1

/-- In a run of calls, the last of which need not return, the backend is only
addressed as it should be exactly if it lets every `openSession` succeed. -/
theorem run_obeys_iff {ps : List Passage} {p : Passage} (h : Run E s ps p.before)
    (hp : p.Executes E s) :
    (Disciplined p.after.log ∧ ∀ q ∈ p :: ps, q.Obeys s) ↔ ∀ q ∈ p :: ps, q.Agreeable := by
  have hstep (ha : ∀ q ∈ ps, q.Agreeable) := call_obeys_iff h.settled (h.held ha) hp
  simp only [List.forall_mem_cons, h.obeys_iff]
  constructor
  · exact fun ⟨_, hob, ha⟩ => ⟨(hstep ha).1.1 hob, ha⟩
  · exact fun ⟨hag, ha⟩ => ⟨((hstep ha).2 hag).disciplined, (hstep ha).1.2 hag, ha⟩

theorem run_obeys_iff_gray :
    let E := Environment.scripted .gray [.good] []
    let s := Settings.gray .single MIME_TYPE_JPEG
    (Disciplined (beginning E s).after.log ∧ ∀ q ∈ [beginning E s], q.Obeys s) ↔
      ∀ q ∈ [beginning E s], q.Agreeable :=
  run_obeys_iff (.start true) (beginning_executes (by decide +kernel))

/-- A backend whose device is in use. -/
def Environment.busy (E : Environment) : Environment :=
  { E with saneOpen := fun _ => .deviceBusy }

/-- A device that could not be opened is started, through a null handle. -/
theorem not_obeys_busy :
    let E := (Environment.scripted .gray [.good] []).busy
    let s := Settings.gray .single MIME_TYPE_JPEG
    (beginning E s).Executes E s ∧ (beginning E s).before = .initial true ∧
      ¬ Disciplined (beginning E s).after.log ∧ ¬ (beginning E s).Obeys s := by
  refine ⟨beginning_executes (by decide +kernel), rfl, fun h => ?_, fun h => ?_⟩
  · have hlog : (firstPage (Environment.scripted .gray [.good] []).busy
        (.gray .single MIME_TYPE_JPEG)).log =
        [.saneOpen 0 .deviceBusy, .openSession .deviceBusy] ++
          .saneStart none .good :: [.saneGetParameters none .good .gray] := by decide +kernel
    obtain ⟨x, hx, -⟩ := h _ _ _ none hlog rfl
    cases hx
  · exact (h.refused .deviceBusy (by decide +kernel) (by decide)).1 none .good (by decide +kernel)

end AirSane.ScanJob
