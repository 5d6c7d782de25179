import AirSane.Server.StatusDocument
import AirSane.Stores.Registry
import Mathlib.Data.List.Lex

/-! # The jobs of a scanner

`createJob`, `getJob`, `cancelJob` and `purgeJobs` on the map of a scanner's jobs, each of
which holds the mutex of the map, between what threads do that hold a job: they report its
state, and say that it is active. A job that was purged goes on with whoever holds it.
-/

namespace AirSane
open Text Xml ScanJob Stores

/-- Strings in the order of a map. -/
def stringKey (s : Octets) : List ℕ := s.map UInt8.toNat

def jobView : View (List ℕ) JobRecord where
  key job := stringKey job.mUuid.toString
  lastActive := JobRecord.mLastActive

/-- The jobs with the map and the clock, what else status documents tell, and the documents
that have been written. -/
structure JobStore where
  mJobs : Registry (List ℕ) JobRecord
  state : ScannerState
  sent : List Octets

inductive StoreEvent where
  | pass (seconds : ℕ)
  /-- With the UUIDs that are drawn, and what is in the memory of the job. -/
  | createJob (draws : List Uuid) (memory : ℤ)
  | cancelJob (uuid : Octets)
  | report (id : ℕ) (state : ScanJob.State) (reason : StateReason) (images : ℤ)
  | active (id : ℕ)
  | purgeJobs (maxIdleSeconds : ℤ)
  | setOpen (isOpen : Bool)
  | setTemporaryAdfStatus (status : SaneStatus)
  | writeScannerStatusXml

namespace JobStore

def start (time : ℤ) (state : ScannerState) : JobStore := ⟨.empty time, state, []⟩

def getJob (st : JobStore) (uuid : Octets) : Option ℕ := st.mJobs.find (stringKey uuid)

/-- The constructor of a job. -/
def newJob (time : ℤ) (uuid : Uuid) (memory : ℤ) : JobRecord where
  mUuid := uuid
  mCreated := time
  mLastActive := time
  mState := .pending
  mStateReason := ⟨PWG_NONE, by decide⟩
  mImagesCompleted := memory

/-- Draws until there is no job of that name. -/
def createJob (draws : List Uuid) (memory : ℤ) (st : JobStore) : Option JobStore :=
  (draws.find? fun u => (st.getJob u.toString).isNone).map fun u =>
    { st with mJobs :=
        { st.mJobs with
          objects := st.mJobs.objects ++ [newJob st.mJobs.time u memory]
          entries := Registry.insert (stringKey u.toString) st.mJobs.objects.length
            st.mJobs.entries } }

/-- What a thread does to a job that it holds. -/
def modify (id : ℕ) (f : JobRecord → JobRecord) (st : JobStore) : Option JobStore :=
  st.mJobs.objects[id]?.map fun job =>
    { st with mJobs := { st.mJobs with objects := st.mJobs.objects.set id (f job) } }

def reported (state : ScanJob.State) (reason : StateReason) (images : ℤ) (job : JobRecord) :
    JobRecord :=
  { job with mState := state, mStateReason := reason, mImagesCompleted := images }

def activeAt (time : ℤ) (job : JobRecord) : JobRecord := { job with mLastActive := time }

/-- `ScanJob::cancel`, as far as others see it. -/
def canceled (job : JobRecord) : JobRecord :=
  { job with mState := .canceled, mStateReason := ⟨PWG_JOB_CANCELED_BY_USER, by decide⟩ }

def cancelJob (uuid : Octets) (st : JobStore) : Option JobStore :=
  match st.getJob uuid with
  | none => some st
  | some id => st.modify id canceled

/-- The loop of `purgeJobs`: the entries that stay, and how many do not. -/
def purgeLoop (idle : ℕ → Bool) : List (List ℕ × ℕ) → List (List ℕ × ℕ) × ℕ
  | [] => ([], 0)
  | e :: entries =>
    let rest := purgeLoop idle entries
    if idle e.2 then (rest.1, rest.2 + 1) else (e :: rest.1, rest.2)

/-- The job has not been active for longer. -/
def isIdle (st : JobStore) (maxIdleSeconds : ℤ) (id : ℕ) : Bool :=
  st.mJobs.objects[id]?.any fun job =>
    decide (maxIdleSeconds < job.idleSeconds st.mJobs.time)

def purgeJobs (maxIdleSeconds : ℤ) (st : JobStore) : JobStore × ℕ :=
  let rest := purgeLoop (st.isIdle maxIdleSeconds) st.mJobs.entries
  ({ st with mJobs := { st.mJobs with entries := rest.1 } }, rest.2)

/-- `Scanner::jobs`. -/
def jobs (st : JobStore) : List JobRecord :=
  st.mJobs.entries.filterMap fun e => st.mJobs.objects[e.2]?

def statusDocument (s : Scanner) (st : JobStore) : Octets :=
  st.state.statusDocument s st.mJobs.time st.jobs

def step (s : Scanner) (st : JobStore) : StoreEvent → Option JobStore
  | .pass seconds => some { st with mJobs := { st.mJobs with time := st.mJobs.time + seconds } }
  | .createJob draws memory => st.createJob draws memory
  | .cancelJob uuid => st.cancelJob uuid
  | .report id state reason images => st.modify id (reported state reason images)
  | .active id => st.modify id (activeAt st.mJobs.time)
  | .purgeJobs maxIdleSeconds => some (st.purgeJobs maxIdleSeconds).1
  | .setOpen isOpen => some { st with state := { st.state with isOpen := isOpen } }
  | .setTemporaryAdfStatus status =>
    some { st with state := { st.state with mTemporaryAdfStatus := status } }
  | .writeScannerStatusXml =>
    some { st with state := st.state.written, sent := st.sent ++ [st.statusDocument s] }

/-- The step of the registry that an event is: a change of the job to what it becomes, or
none but that no time passes. -/
def event (st : JobStore) : StoreEvent → Event JobRecord
  | .pass seconds => .pass seconds
  | .createJob draws memory =>
    match draws.find? fun u => (st.getJob u.toString).isNone with
    | some u => .add (newJob st.mJobs.time u memory)
    | none => .pass 0
  | .cancelJob uuid =>
    match (st.getJob uuid).bind fun id => st.mJobs.objects[id]?.map fun job => (id, job) with
    | some x => .change x.1 (canceled x.2)
    | none => .pass 0
  | .report id state reason images =>
    match st.mJobs.objects[id]? with
    | some job => .change id (reported state reason images job)
    | none => .pass 0
  | .active id =>
    match st.mJobs.objects[id]? with
    | some job => .change id (activeAt st.mJobs.time job)
    | none => .pass 0
  | .purgeJobs maxIdleSeconds => .purge maxIdleSeconds
  | _ => .pass 0

section
variable {s : Scanner} {st st' : JobStore} {e : StoreEvent}

theorem isIdle_iff {maxIdleSeconds : ℤ} {id : ℕ} :
    st.isIdle maxIdleSeconds id = true ↔ st.mJobs.Idle jobView maxIdleSeconds id := by
  rw [isIdle, Option.any_eq_true]
  exact exists_congr fun _ => and_congr_right fun _ => decide_eq_true_iff

theorem purgeLoop_fst (idle : ℕ → Bool) (entries : List (List ℕ × ℕ)) :
    (purgeLoop idle entries).1 = entries.filter fun e => !idle e.2 := by
  induction entries with
  | nil => rfl
  | cons e entries ih =>
    rw [purgeLoop]
    cases h : idle e.2 <;> simp [h, ih]

theorem simulates_modify {id : ℕ} {f : JobRecord → JobRecord}
    (hf : ∀ job, (f job).mUuid = job.mUuid) (h : st.modify id f = some st') :
    ∃ job, st.mJobs.objects[id]? = some job ∧
      st.mJobs.step jobView (.change id (f job)) = some st'.mJobs := by
  obtain ⟨job, hjob, rfl⟩ := Option.map_eq_some_iff.1 h
  refine ⟨job, hjob, if_pos ?_⟩
  rw [hjob]
  exact congrArg (fun u => some (stringKey u.toString)) (hf job).symm

/-- Every event is a step of the registry. -/
theorem simulates (h : st.step s e = some st') :
    st.mJobs.step jobView (st.event e) = some st'.mJobs := by
  have hpass (h : st'.mJobs = st.mJobs) : st.mJobs.step jobView (.pass 0) = some st'.mJobs := by
    rw [h]
    change some { st.mJobs with time := st.mJobs.time + 0 } = _
    rw [add_zero]
  cases e with
  | pass seconds =>
    obtain rfl := Option.some.inj h
    rfl
  | createJob draws memory =>
    obtain ⟨u, hu, rfl⟩ := Option.map_eq_some_iff.1 h
    have hfree := List.find?_some hu
    have hnew : stringKey u.toString ∉ st.mJobs.keys := by
      intro hm
      obtain ⟨x, hx, heq⟩ := List.mem_map.1 hm
      have hnone := Option.map_eq_none_iff.1 (Option.isNone_iff_eq_none.1 hfree)
      exact List.find?_eq_none.1 hnone x hx (by simpa using heq)
    rw [event, hu]
    exact if_neg hnew
  | cancelJob uuid =>
    change cancelJob uuid st = _ at h
    rw [cancelJob] at h
    cases hget : st.getJob uuid with
    | none =>
      rw [hget] at h
      obtain rfl := Option.some.inj h
      simp only [event, hget, Option.bind_none]
      exact hpass rfl
    | some id =>
      rw [hget] at h
      obtain ⟨job, hjob, hstep⟩ := simulates_modify (f := canceled) (fun _ => rfl) h
      simp only [event, hget, Option.bind_some, hjob, Option.map_some]
      exact hstep
  | report id state reason images =>
    obtain ⟨job, hjob, hstep⟩ :=
      simulates_modify (f := reported state reason images) (fun _ => rfl) h
    simp only [event, hjob]
    exact hstep
  | active id =>
    obtain ⟨job, hjob, hstep⟩ := simulates_modify (f := activeAt st.mJobs.time) (fun _ => rfl) h
    simp only [event, hjob]
    exact hstep
  | purgeJobs maxIdleSeconds =>
    obtain rfl := Option.some.inj h
    have hfilter : (st.mJobs.entries.filter fun e => ¬ st.mJobs.Idle jobView maxIdleSeconds e.2) =
        (purgeLoop (st.isIdle maxIdleSeconds) st.mJobs.entries).1 := by
      rw [purgeLoop_fst]
      refine List.filter_congr fun e _ => ?_
      simp [← isIdle_iff]
    change some (st.mJobs.purge jobView maxIdleSeconds) = _
    rw [Registry.purge, hfilter]
    rfl
  | setOpen isOpen =>
    obtain rfl := Option.some.inj h
    exact hpass rfl
  | setTemporaryAdfStatus status =>
    obtain rfl := Option.some.inj h
    exact hpass rfl
  | writeScannerStatusXml =>
    obtain rfl := Option.some.inj h
    exact hpass rfl

theorem sent_modify {id : ℕ} {f : JobRecord → JobRecord} (h : st.modify id f = some st') :
    st'.sent = st.sent ∧ st'.state = st.state := by
  obtain ⟨job, -, rfl⟩ := Option.map_eq_some_iff.1 h
  exact ⟨rfl, rfl⟩

/-- What an event does beside the jobs. -/
theorem state_step (h : st.step s e = some st') :
    (e = .writeScannerStatusXml ∧ st'.sent = st.sent ++ [st.statusDocument s] ∧
      st'.state = st.state.written) ∨
    st'.sent = st.sent ∧
      ((∃ isOpen, e = .setOpen isOpen ∧ st'.state = { st.state with isOpen := isOpen }) ∨
        (∃ status, e = .setTemporaryAdfStatus status ∧
          st'.state = { st.state with mTemporaryAdfStatus := status }) ∨ st'.state = st.state) := by
  cases e with
  | writeScannerStatusXml =>
    obtain rfl := Option.some.inj h
    exact .inl ⟨rfl, rfl, rfl⟩
  | setOpen isOpen =>
    obtain rfl := Option.some.inj h
    exact .inr ⟨rfl, .inl ⟨isOpen, rfl, rfl⟩⟩
  | setTemporaryAdfStatus status =>
    obtain rfl := Option.some.inj h
    exact .inr ⟨rfl, .inr (.inl ⟨status, rfl, rfl⟩)⟩
  | createJob draws memory =>
    obtain ⟨u, -, rfl⟩ := Option.map_eq_some_iff.1 h
    exact .inr ⟨rfl, .inr (.inr rfl)⟩
  | cancelJob uuid =>
    change cancelJob uuid st = _ at h
    rw [cancelJob] at h
    cases hget : st.getJob uuid with
    | none =>
      rw [hget] at h
      obtain rfl := Option.some.inj h
      exact .inr ⟨rfl, .inr (.inr rfl)⟩
    | some id =>
      rw [hget] at h
      have hm := sent_modify (f := canceled) h
      exact .inr ⟨hm.1, .inr (.inr hm.2)⟩
  | report id state reason images =>
    have hm := sent_modify (f := reported state reason images) h
    exact .inr ⟨hm.1, .inr (.inr hm.2)⟩
  | active id =>
    have hm := sent_modify (f := activeAt st.mJobs.time) h
    exact .inr ⟨hm.1, .inr (.inr hm.2)⟩
  | _ =>
    obtain rfl := Option.some.inj h
    exact .inr ⟨rfl, .inr (.inr rfl)⟩

theorem sent_step {doc : Octets} (h : st.step s e = some st') (hdoc : doc ∈ st'.sent)
    (hnew : doc ∉ st.sent) : e = .writeScannerStatusXml ∧ doc = st.statusDocument s := by
  rcases state_step h with ⟨he, hsent, -⟩ | ⟨hsent, -⟩
  · rw [hsent, List.mem_append, or_iff_right hnew] at hdoc
    exact ⟨he, List.mem_singleton.1 hdoc⟩
  · exact absurd (hsent ▸ hdoc) hnew

/-- The store keeps a registry. -/
def keeper (s : Scanner) : Keeper jobView JobStore StoreEvent where
  step := step s
  registry := mJobs
  event := event
  simulates := simulates

end

section
variable {s : Scanner} {st : JobStore} {es : List StoreEvent} {time : ℤ} {state : ScannerState}
  {id : ℕ} {job : JobRecord}

/-- A purge of the run has found the job idle for longer than it allows. -/
def PurgedIdle (s : Scanner) (time : ℤ) (state : ScannerState) (es : List StoreEvent) (id : ℕ) :
    Prop :=
  ∃ fs maxIdleSeconds gs u, es = fs ++ .purgeJobs maxIdleSeconds :: gs ∧
    (keeper s).run (start time state) fs = some u ∧
    ∃ job, u.mJobs.objects[id]? = some job ∧ maxIdleSeconds < job.idleSeconds u.mJobs.time

theorem event_eq_purge {e : StoreEvent} {limit : ℤ} (h : st.event e = .purge limit) :
    e = .purgeJobs limit := by
  cases e with
  | purgeJobs maxIdleSeconds => rw [Event.purge.inj h]
  | createJob draws memory =>
    simp only [event] at h
    split at h <;> cases h
  | cancelJob uuid =>
    simp only [event] at h
    split at h <;> cases h
  | report id state reason images =>
    simp only [event] at h
    split at h <;> cases h
  | active id =>
    simp only [event] at h
    split at h <;> cases h
  | _ => cases h

theorem purged_iff :
    (keeper s).Purged (start time state) es id ↔ PurgedIdle s time state es id := by
  constructor
  · rintro ⟨fs, e, gs, u, limit, rfl, hu, he, hidle⟩
    obtain rfl := event_eq_purge he
    exact ⟨fs, limit, gs, u, rfl, hu, hidle⟩
  · rintro ⟨fs, limit, gs, u, rfl, hu, hidle⟩
    exact ⟨fs, _, gs, u, limit, rfl, hu, rfl, hidle⟩

theorem stringKey_injective : Function.Injective stringKey :=
  List.map_injective_iff.2 fun _ _ => UInt8.toNat_inj.1

theorem consistent_run (hr : (keeper s).run (start time state) es = some st) :
    st.mJobs.Consistent jobView :=
  Keeper.consistent (K := keeper s) (Registry.consistent_empty time) hr

theorem registered_iff (hr : (keeper s).run (start time state) es = some st)
    (hjob : st.mJobs.objects[id]? = some job) :
    (stringKey job.mUuid.toString, id) ∈ st.mJobs.entries ↔ ¬ PurgedIdle s time state es id := by
  rw [← purged_iff]
  exact Keeper.registered_iff (K := keeper s) rfl hr hjob

/-- The jobs that are found, with their places. -/
def listed (st : JobStore) : List (ℕ × JobRecord) :=
  st.mJobs.entries.filterMap fun e => st.mJobs.objects[e.2]?.map fun job => (e.2, job)

theorem jobs_eq : st.jobs = st.listed.map Prod.snd := by
  rw [jobs, listed, List.map_filterMap]
  refine List.filterMap_congr fun e _ => ?_
  cases st.mJobs.objects[e.2]? <;> rfl

theorem keys_listed (h : st.mJobs.Consistent jobView) :
    st.listed.map (fun x => stringKey x.2.mUuid.toString) = st.mJobs.keys := by
  rw [listed, List.map_filterMap, Registry.keys, ← List.filterMap_eq_map]
  refine List.filterMap_congr fun e he => ?_
  obtain ⟨job, hjob, hkey⟩ := Option.map_eq_some_iff.1 (h.keyed e he)
  rw [hjob]
  exact congrArg some hkey

theorem mem_listed (h : st.mJobs.Consistent jobView) :
    (id, job) ∈ st.listed ↔ st.mJobs.objects[id]? = some job ∧
      (stringKey job.mUuid.toString, id) ∈ st.mJobs.entries := by
  rw [listed, List.mem_filterMap]
  constructor
  · rintro ⟨e, he, hjob⟩
    obtain ⟨x, hx, heq⟩ := Option.map_eq_some_iff.1 hjob
    obtain ⟨rfl, rfl⟩ := Prod.mk.inj heq
    have hkey := h.keyed e he
    rw [hx] at hkey
    have he' : e = (stringKey x.mUuid.toString, e.2) := Prod.ext (Option.some.inj hkey).symm rfl
    exact ⟨hx, he' ▸ he⟩
  · rintro ⟨hjob, he⟩
    exact ⟨_, he, by rw [hjob]; rfl⟩

/-- A document that was sent had been written at some point of the run. -/
theorem written_of_mem_sent {doc : Octets} (hr : (keeper s).run (start time state) es = some st)
    (hdoc : doc ∈ st.sent) : ∃ fs gs u, es = fs ++ .writeScannerStatusXml :: gs ∧
      (keeper s).run (start time state) fs = some u ∧ doc = u.statusDocument s := by
  induction es using List.reverseRecOn generalizing st with
  | nil =>
    obtain rfl := Option.some.inj hr
    cases hdoc
  | append_singleton es e ih =>
    rw [Keeper.run_append] at hr
    obtain ⟨u, hu, hs⟩ := Option.bind_eq_some_iff.1 hr
    rw [Keeper.run_singleton] at hs
    by_cases hold : doc ∈ u.sent
    · obtain ⟨fs, gs, w, rfl, hw, rfl⟩ := ih hu hold
      exact ⟨fs, gs ++ [e], w, by rw [List.append_assoc, List.cons_append], hw, rfl⟩
    · obtain ⟨rfl, rfl⟩ := sent_step hs hdoc hold
      exact ⟨es, [], u, rfl, hu, rfl⟩

end

end JobStore

open JobStore

/-- In every run, a job is found under its UUID until a purge finds it idle for too long,
and never again; whatever is found under a UUID is a job with this UUID. -/
theorem getJob_iff (s : Scanner) (time : ℤ) (state : ScannerState) (es : List StoreEvent)
    (st : JobStore) (hr : (keeper s).run (start time state) es = some st) :
    (∀ id job, st.mJobs.objects[id]? = some job →
      (st.getJob job.mUuid.toString = some id ↔ ¬ PurgedIdle s time state es id)) ∧
    ∀ uuid id, st.getJob uuid = some id →
      ∃ job, st.mJobs.objects[id]? = some job ∧ job.mUuid.toString = uuid := by
  have hconsistent := consistent_run hr
  refine ⟨fun id job hjob => ?_, fun uuid id hget => ?_⟩
  · rw [getJob, hconsistent.find_eq_some_iff, registered_iff hr hjob]
  · have hkeyed := hconsistent.keyed _ (hconsistent.find_eq_some_iff.1 hget)
    obtain ⟨job, hjob, hkey⟩ := Option.map_eq_some_iff.1 hkeyed
    exact ⟨job, hjob, stringKey_injective hkey⟩

/-- A scanner with a feeder. -/
def Scanner.sample : Scanner := { Scanner.of .empty with mUri := ascii "/eSCL" }

def ScannerState.idle : ScannerState := ⟨false, true, .good⟩

/-- Two jobs, of which one is active before the jobs are purged. -/
def twoJobs : List StoreEvent :=
  [.createJob [.ofRandom fun _ => 7] 0, .createJob [.ofRandom fun _ => 7, .ofRandom fun _ => 9] 0,
    .pass 200, .active 1, .pass 150, .purgeJobs 300, .setTemporaryAdfStatus .jammed,
    .writeScannerStatusXml]

theorem run_twoJobs : ∃ st doc, (keeper .sample).run (start 0 .idle) twoJobs = some st ∧
    st.mJobs.objects.length = 2 ∧ doc ∈ st.sent := by
  have hrun : ((keeper .sample).run (start 0 .idle) twoJobs).any (fun st =>
      decide (st.mJobs.objects.length = 2 ∧ st.sent.length = 1)) = true := by decide +kernel
  obtain ⟨st, hst, h⟩ := (Option.any_eq_true _ _).1 hrun
  obtain ⟨hjobs, hsent⟩ := of_decide_eq_true h
  obtain ⟨doc, hdoc⟩ := List.length_eq_one_iff.1 hsent
  exact ⟨st, doc, hst, hjobs, by rw [hdoc]; exact List.mem_singleton_self _⟩

theorem getJob_iff_twoJobs : ∃ st job, (keeper .sample).run (start 0 .idle) twoJobs = some st ∧
    st.mJobs.objects[1]? = some job ∧
      (st.getJob job.mUuid.toString = some 1 ↔ ¬ PurgedIdle .sample 0 .idle twoJobs 1) := by
  obtain ⟨st, -, hrun, hjobs, -⟩ := run_twoJobs
  have hlt : 1 < st.mJobs.objects.length := by omega
  exact ⟨st, _, hrun, List.getElem?_eq_getElem hlt, (getJob_iff .sample 0 .idle twoJobs st hrun).1 1 _
    (List.getElem?_eq_getElem hlt)⟩

/-- Every status document of a run lists the jobs that no purge has found idle by then, each
once, in the order of their UUIDs and with what they show of themselves at that time. -/
theorem status_documents (s : Scanner) (time : ℤ) (state : ScannerState) (es : List StoreEvent)
    (st : JobStore) (hs : Xml.Plain s.mUri) (hr : (keeper s).run (start time state) es = some st)
    (doc : Octets) (hdoc : doc ∈ st.sent) :
    ∃ fs gs u, es = fs ++ .writeScannerStatusXml :: gs ∧
      (keeper s).run (start time state) fs = some u ∧
      ∃ l : List (ℕ × JobRecord),
        statusOf doc = some (u.state.status s u.mJobs.time (l.map Prod.snd)) ∧
        (l.map fun x => stringKey x.2.mUuid.toString).Pairwise (· < ·) ∧
        ∀ id job, (id, job) ∈ l ↔
          u.mJobs.objects[id]? = some job ∧ ¬ PurgedIdle s time state fs id := by
  obtain ⟨fs, gs, u, rfl, hu, rfl⟩ := written_of_mem_sent hr hdoc
  have hconsistent := consistent_run hu
  refine ⟨fs, gs, u, rfl, hu, u.listed, ?_, ?_, fun id job => ?_⟩
  · rw [← jobs_eq]
    exact ScannerState.statusOf_statusDocument hs
  · rw [keys_listed hconsistent]
    exact hconsistent.sorted
  · rw [mem_listed hconsistent]
    exact and_congr_right fun hjob => registered_iff hu hjob

theorem status_documents_twoJobs : ∃ st doc,
    (keeper .sample).run (start 0 .idle) twoJobs = some st ∧ doc ∈ st.sent ∧
      (statusOf doc).isSome = true := by
  obtain ⟨st, doc, hrun, -, hdoc⟩ := run_twoJobs
  obtain ⟨-, -, u, -, -, l, hread, -⟩ :=
    status_documents .sample 0 .idle twoJobs st (by decide) hrun doc hdoc
  exact ⟨st, doc, hrun, hdoc, by rw [hread]; rfl⟩

/-- What the next status document would tell about the feeder. -/
def JobStore.adfState (s : Scanner) (st : JobStore) : Option Octets :=
  (statusOf (st.statusDocument s)).bind ScannerStatus.adfState

theorem adfState_eq {s : Scanner} {st : JobStore} (hs : Xml.Plain s.mUri)
    (hfeeder : st.state.hasFeeder = true) :
    st.adfState s = some (temporaryAdfStatusString st.state.mTemporaryAdfStatus) := by
  rw [adfState, statusDocument, ScannerState.statusOf_statusDocument hs, Option.bind_some,
    ScannerState.status, if_pos hfeeder]

end AirSane
