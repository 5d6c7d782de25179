import AirSane.ScanJob.Calls
import AirSane.ScanJob.CallbackOrder

/-! # What a transfer passes on

`beginTransfer` moves no lines. `finishTransfer` writes the lines it reads, each
processed, in the order in which they come; only a transfer that aborts may
stop short.
-/

namespace AirSane.ScanJob
open Programs Program

variable {E : Environment} {s : Settings}

def Event.delivers : Event → Option (List UInt8)
  | .sessionRead .good line => some line
  | _ => none

def Event.writes : Event → Option (List UInt8)
  | .callback (.onWriteLine line) _ => some line
  | _ => none

/-- The lines that the backend delivered. -/
def delivered (log : Log) : List (List UInt8) := log.filterMap Event.delivers

/-- The lines that were handed to the encoder. -/
def written (log : Log) : List (List UInt8) := log.filterMap Event.writes

def Event.movesLine (e : Event) : Prop := e.delivers ≠ none ∨ e.writes ≠ none

/-- Events that move no line. -/
def Still (log : Log) : Prop := ∀ e ∈ log, ¬ e.movesLine

@[simp] theorem delivered_append (a b : Log) : delivered (a ++ b) = delivered a ++ delivered b := by
  simp [delivered]

@[simp] theorem written_append (a b : Log) : written (a ++ b) = written a ++ written b := by
  simp [written]

theorem Still.append {a b : Log} (ha : Still a) (hb : Still b) : Still (a ++ b) :=
  List.forall_mem_append.2 ⟨ha, hb⟩

theorem Still.delivered {log : Log} (h : Still log) : delivered log = [] := by
  apply List.filterMap_eq_nil_iff.2
  intro e he
  by_contra hne
  exact h e he (.inl hne)

theorem Still.written {log : Log} (h : Still log) : written log = [] := by
  apply List.filterMap_eq_nil_iff.2
  intro e he
  by_contra hne
  exact h e he (.inr hne)

theorem Quiet.still {log : Log} (h : Quiet log) : Still log := by
  intro e he hm
  have hq := h e he
  cases e with
  | sessionRead st line =>
    cases st <;> simp_all [Event.movesLine, Event.delivers, Event.writes, Event.quiet]
  | _ => simp_all [Event.movesLine, Event.delivers, Event.writes, Event.quiet]

theorem Event.configures.still {e : Event} (h : e.configures) : ¬ e.movesLine := by
  cases e <;> first | exact h.elim | simp [Event.movesLine, Event.delivers, Event.writes]

theorem Prepared.still {w v : World} {opens : Log} {i : SessionId} (h : Prepared w opens v i) :
    Still opens := by
  cases h with
  | kept _ => simp [Still]
  | opened _ _ hc =>
    apply Still.append
    · intro e he
      rcases List.mem_cons.1 he with rfl | he
      · simp [Event.movesLine, Event.delivers, Event.writes]
      · exact (hc e he).still
    · simp [Still, Event.movesLine, Event.delivers, Event.writes]

theorem beginTransfer_still {w w' : World} {fuel : ℕ} {r : Except Stop Bool}
    (h : (beginTransfer s fuel).run (exec E) w = (r, w')) :
    ∃ evs, w'.log = w.log ++ evs ∧ Still evs := by
  by_cases hp : w.state = .pending
  · obtain ⟨opens, v, i, evs, st, rest, st', u, hprep, hS, hR, -, hu, hl, hb, -⟩ :=
      run_beginTransfer (E := E) (s := s) hp fuel
    have hstill : Still (opens ++ evs ++ rest) :=
      (hprep.still.append hS.quiet.still).append hR.quiet.still
    rw [h] at hb
    cases hb with
    | running => exact ⟨_, by simpa [World.become, World.withAdfStatus] using hl, hstill⟩
    | @ended state adf reason =>
      have hrel := ((u.withAdfStatus adf).become state reason).releases_releaseEvents
      refine ⟨_, ?_, hstill.append hrel.quiet.still⟩
      simp [World.closed, World.become, World.withAdfStatus, hl]
    | spinning => exact ⟨_, by simpa using hl, hstill⟩
  · rw [run_beginTransfer_idle hp] at h
    obtain ⟨rfl, rfl⟩ := Prod.mk.inj h
    exact ⟨[], by simp, by simp [Still]⟩

/-- Since `base`, lines were passed on as they came, and all of them unless the
job aborted. -/
def Relayed (s : Settings) (base : Log) (w : World) : Prop :=
  ∃ evs, w.log = base ++ evs ∧ written evs <+: (delivered evs).map s.processed ∧
    (w.state ≠ .aborted → written evs = (delivered evs).map s.processed)

def Callback.writes : Callback → Option (List UInt8)
  | .onWriteLine line => some line
  | _ => none

theorem written_made (cs : List Call) : written (made cs) = (cs.map Prod.fst).filterMap Callback.writes := by
  simp only [written, made, List.filterMap_map]
  congr 1
  ext c
  rcases c with ⟨_ | _ | _ | _ | _, _⟩ <;> rfl

theorem map_fst_completed (calls : List Callback) : (completed calls).map Prod.fst = calls := by
  simp [completed, Function.comp_def]

theorem writes_lineCalls (e : Encoder) (line : List UInt8) :
    (e.lineCalls line).filterMap Callback.writes = [line] := by
  unfold Encoder.lineCalls
  split_ifs <;> rfl

theorem written_line (e : Encoder) (line : List UInt8) :
    written (made (completed (e.lineCalls line))) = [line] := by
  rw [written_made, map_fst_completed, writes_lineCalls]

theorem thrown_initial {e : Encoder} {calls : List Callback} {cs : List Call}
    (h : e.Thrown calls cs) : cs.map Prod.fst <+: calls := by
  cases h with
  | @intro pre post cb h _ _ =>
    refine ⟨post, ?_⟩
    rw [h, List.map_append, map_fst_completed]
    simp

/-- A failed attempt hands over the line or nothing. -/
theorem Unsent.written {e : Encoder} {line : List UInt8} {cs : List Call} {rest : Log}
    (h : Unsent e (e.lineCalls line) cs rest) : written (made cs ++ rest) <+: [line] := by
  cases h with
  | thrown ht =>
    rw [List.append_nil, written_made, ← writes_lineCalls e line]
    exact (thrown_initial ht).filterMap _
  | unflushed _ =>
    rw [written_append, written_line]
    exact ⟨[], rfl⟩

theorem delivered_made (cs : List Call) : delivered (made cs) = [] := by
  simp [delivered, made, Event.delivers]

/-- The events of a line that was sent. -/
theorem lines_sent {d : Option Handle} {reads : Log} (hr : Reads d reads) (e : Encoder)
    (line : List UInt8) :
    delivered (reads ++ [.sessionRead .good line] ++
        (made (completed (e.lineCalls (s.processed line))) ++ [.flush true])) = [line] ∧
      written (reads ++ [.sessionRead .good line] ++
        (made (completed (e.lineCalls (s.processed line))) ++ [.flush true])) =
          [s.processed line] := by
  simp only [delivered_append, written_append, hr.quiet.still.delivered, hr.quiet.still.written,
    delivered_made, written_line]
  exact ⟨rfl, rfl⟩

/-- The events of a line that could not be sent. -/
theorem lines_unsent {d : Option Handle} {reads rest : Log} {e : Encoder} {line : List UInt8}
    {cs : List Call} (hr : Reads d reads)
    (hcs : Unsent e (e.lineCalls (s.processed line)) cs rest) :
    delivered (reads ++ [.sessionRead .good line] ++ (made cs ++ rest)) = [line] ∧
      written (reads ++ [.sessionRead .good line] ++ (made cs ++ rest)) <+: [s.processed line] := by
  have hrest : delivered rest = [] := by cases hcs <;> rfl
  have hline : written (.sessionRead .good line :: (made cs ++ rest)) = written (made cs ++ rest) :=
    rfl
  constructor
  · simp only [delivered_append, hr.quiet.still.delivered, delivered_made, hrest]
    rfl
  · rw [List.append_assoc, List.singleton_append, written_append, hr.quiet.still.written, hline,
      List.nil_append]
    exact hcs.written

section
variable {base : Log} {w u : World} {i : SessionId}

theorem Relayed.extend {evs : Log} (h : Relayed s base w) (hl : u.log = w.log ++ evs)
    (hq : Quiet evs) (hu : u.state ≠ .aborted → w.state ≠ .aborted) : Relayed s base u := by
  obtain ⟨old, hlog, hw, ha⟩ := h
  refine ⟨old ++ evs, by rw [hl, hlog, List.append_assoc], ?_⟩
  simpa [hq.still.written, hq.still.delivered] using ⟨hw, fun h => ha (hu h)⟩

theorem LineStep.relayed {st : SaneStatus} (hstep : LineStep s i w (st, u))
    (hp : w.state = .processing) (hw : Relayed s base w) : Relayed s base u := by
  obtain ⟨old, hlog, hpre, ha⟩ := hw
  have heq := ha (by simp [hp])
  cases hstep with
  | ended hst hr hu _ _ =>
    apply Relayed.extend ⟨old, hlog, hpre, ha⟩ hu.log
    · exact hr.quiet.append (by simpa [Quiet, Event.quiet] using hst)
    · simp [hp]
  | @written line reads _ e hr he hu he' hs _ =>
    obtain ⟨hd, hw⟩ := lines_sent (s := s) hr e line
    refine ⟨_, by rw [hu.log, hlog, List.append_assoc], ?_, fun _ => ?_⟩
    · simp only [written_append, delivered_append, hd, hw, heq, List.map_append,
        List.map_singleton, List.prefix_rfl]
    · rw [written_append, delivered_append, hd, hw, heq, List.map_append, List.map_singleton]
  | @failed line reads rest cs x e e' hr he hcs hu he' hd =>
    have hrel := (x.become .aborted PWG_ERRORS_DETECTED).releases_releaseEvents.quiet.still
    obtain ⟨hd, hw⟩ := lines_unsent hr hcs
    refine ⟨old ++ (reads ++ [.sessionRead .good line] ++ (made cs ++ rest) ++
      (x.become .aborted PWG_ERRORS_DETECTED).releaseEvents), ?_, ?_, fun h => absurd rfl h⟩
    · simp [World.closed, World.become, hu.log, hlog]
    · rw [written_append, delivered_append, written_append, delivered_append, hd, hrel.written,
        hrel.delivered, heq, List.append_nil, List.append_nil, List.map_append]
      exact (List.prefix_append_right_inj _).2 hw

theorem LineRun.relayed {a b : SaneStatus × World} (hrun : LineRun s i a b)
    (hw : Relayed s base a.2) : Relayed s base b.2 := by
  induction hrun with
  | refl => exact hw
  | tail _ hstep ih => exact hstep.2.2.2.relayed hstep.2.2.1 ih

theorem ImageStep.relayed (hstep : ImageStep s i w u) (hw : Relayed s base w) :
    Relayed s base u := by
  cases hstep with
  | broken hl _ => exact hl.relayed hw
  | @finished st st' x v e evs hrun hx _ _ _ hr _ hv hlog hn =>
    obtain ⟨rel, hrel, hset⟩ := v.settle_log hn
    have hx' : Relayed s base x := hrun.relayed hw
    refine hx'.extend ?_ (hr.quiet.append hrel.quiet) (by simp [hx])
    rw [World.checked_log, hset, hlog, List.append_assoc]

theorem ImageRun.relayed (hrun : ImageRun s i w u) (hw : Relayed s base w) : Relayed s base u := by
  induction hrun with
  | refl => exact hw
  | tail _ hstep ih => exact hstep.2.relayed ih

end

theorem finishTransfer_relayed {w w' : World} {fuel : ℕ} {good : Bool}
    (h : (finishTransfer s fuel good).run (exec E) w = (.ok (), w')) : Relayed s w.log w' := by
  obtain ⟨i, hi⟩ := session_of_finishTransfer h
  obtain ⟨v, hv, ht⟩ := run_finishTransfer (E := E) hi fuel good
  have hset : Relayed s w.log v := by
    refine ⟨[], ?_, by simp [delivered, written], by simp [delivered, written]⟩
    cases hv <;> simp [World.attached, World.become, World.withEncoder]
  rw [h] at ht
  cases ht with
  | formatless => exact hset
  | @ended u e hrun hu he =>
    have hend : Still [.callback .onDocumentEnd true] := by
      simp [Still, Event.movesLine, Event.delivers, Event.writes]
    obtain ⟨evs, hlog, hw, ha⟩ := hrun.relayed hset
    refine ⟨evs ++ [.callback .onDocumentEnd true], ?_, ?_⟩
    · rw [(u.call_emitted e).log, hlog, List.append_assoc]
    · simpa [hend.delivered, hend.written] using ⟨hw, ha⟩

end AirSane.ScanJob
