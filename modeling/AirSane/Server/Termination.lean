import AirSane.Programs.Machine
import Mathlib.Data.Int.Notation
import Mathlib.Data.Nat.Notation
import Mathlib.Logic.Function.Basic

/-! # Termination requests

`HttpServer::run` and `HttpServer::terminate`, with the reload loop of
`Server::run` around them: one step for each access to a shared cell or to the
internal pipe. Any number of threads call `terminate`. A request is recorded in
the status or in the pipe, and either place may be left behind unread.
-/

namespace AirSane.Termination
open Programs

/-- The signals that `terminate` is called with. -/
inductive Request where
  | SIGHUP | SIGTERM
  deriving DecidableEq

def Request.status : Request → ℤ
  | .SIGHUP => 1
  | .SIGTERM => 15

/-- A pipe whose writing end is open. -/
structure Pipe where
  writeFd : ℕ
  readOpen : Bool
  queue : List ℤ
  deriving DecidableEq

/-- A descriptor that is not the writing end leads elsewhere. -/
def Pipe.write (p : Pipe) (fd : Option ℕ) (value : ℤ) : Pipe :=
  if fd = some p.writeFd ∧ p.readOpen then { p with queue := p.queue ++ [value] } else p

/-- Where the server's thread is. `preparing` is the loop body of `Server::run`
up to its call of `HttpServer::run`, and the two last tests follow that call. -/
inductive Place where
  | preparing
  | makingPipe
  | failing
  | storingFd (fd : ℕ)
  | resettingStatus
  | settingUp
  | polling
  | reading
  | storingStatus (value : ℤ)
  | storingError (err : ℤ)
  | testingStatus (err : ℤ)
  | markingStatus (err : ℤ)
  | closingRead (err : ℤ)
  | closingWrite (err : ℤ)
  | resettingFd (err : ℤ)
  | leaving (err : ℤ)
  | testingHangup (ok : Bool)
  | testingTermination
  | exited (ok : Bool)
  deriving DecidableEq

/-- A thread in `terminate`. -/
inductive Caller where
  | outside
  | testing (r : Request)
  | storing (r : Request)
  | loading (r : Request)
  | writing (r : Request) (fd : Option ℕ)
  | returned (answer : Bool)
  deriving DecidableEq

/-- The shared cells, the threads, the number of times the loop has gone round,
and its value when a `terminate(SIGTERM)` returned for the first time. -/
structure State (T : Type) where
  mRunning : Bool
  mTerminationStatus : ℤ
  mLastError : ℤ
  mPipeWriteFd : Option ℕ
  pipe : Option Pipe
  place : Place
  caller : T → Caller
  reloads : ℕ
  asked : Option ℕ

namespace State
variable {T : Type}

def start : State T := ⟨false, 0, 0, none, none, .preparing, fun _ => .outside, 0, none⟩

def pending (c : State T) : List ℤ := (c.pipe.map Pipe.queue).getD []

/-- `close(mPipeWriteFd)`. -/
def closeWrite (c : State T) : Option Pipe := c.pipe.filter fun p => c.mPipeWriteFd ≠ some p.writeFd

variable [DecidableEq T]

def move (c : State T) (t : T) (p : Caller) : State T :=
  { c with caller := Function.update c.caller t p }

def answer (c : State T) (t : T) (r : Request) (ok : Bool) : State T :=
  { c.move t (.returned ok) with
    asked := if r = .SIGTERM then c.asked.or (some c.reloads) else c.asked }

/-- The branch of `terminate` for a server that is not running. -/
def store (c : State T) (t : T) (r : Request) : State T :=
  { c.answer t r true with mTerminationStatus := r.status }

def write (c : State T) (t : T) (r : Request) (fd : Option ℕ) : State T :=
  { c.answer t r (c.pipe.any fun p => fd = some p.writeFd ∧ p.readOpen) with
    pipe := c.pipe.map fun p => p.write fd r.status }

end State

inductive Action (T : Type) where
  | server
  | call (t : T) (r : Request)
  | test (t : T)
  | store (t : T) (r : Request)
  | load (t : T)
  | write (t : T) (r : Request) (fd : Option ℕ)

variable {T : Type}

/-- The steps. `serve` stands for a `poll` that returns for a connection or for
a signal; what happens on sockets and in the access file is open. -/
inductive Step [DecidableEq T] (c : State T) : Action T → State T → Prop where
  | badAccessFile (h : c.place = .preparing) : Step c .server { c with place := .exited false }
  | start (h : c.place = .preparing) (hr : c.mRunning = false) :
    Step c .server { c with mRunning := true, place := .makingPipe }
  | alreadyRunning (h : c.place = .preparing) (hr : c.mRunning = true) :
    Step c .server { c with place := .failing }
  | makePipe (fd : ℕ) (h : c.place = .makingPipe) :
    Step c .server { c with pipe := some ⟨fd, true, []⟩, place := .storingFd fd }
  | noPipe (err : ℤ) (h : c.place = .makingPipe) :
    Step c .server { c with mLastError := err, place := .failing }
  | fail (h : c.place = .failing) :
    Step c .server { c with mTerminationStatus := -1, place := .testingHangup false }
  | storeFd {fd : ℕ} (h : c.place = .storingFd fd) :
    Step c .server { c with mPipeWriteFd := some fd, place := .resettingStatus }
  | resetStatus (h : c.place = .resettingStatus) :
    Step c .server { c with mTerminationStatus := 0, place := .settingUp }
  | setUp (h : c.place = .settingUp) : Step c .server { c with place := .polling }
  | noSetUp (err : ℤ) (h : c.place = .settingUp) (he : err ≠ 0) :
    Step c .server { c with place := .storingError err }
  | serve (h : c.place = .polling) (hp : c.pending = []) : Step c .server c
  | poll (h : c.place = .polling) (hp : c.pending ≠ []) :
    Step c .server { c with place := .reading }
  | pollError (err : ℤ) (h : c.place = .polling) (he : err ≠ 0) :
    Step c .server { c with place := .storingError err }
  | read {p : Pipe} {value : ℤ} {rest : List ℤ} (h : c.place = .reading) (hp : c.pipe = some p)
      (hq : p.queue = value :: rest) :
    Step c .server { c with pipe := some { p with queue := rest }, place := .storingStatus value }
  | readError (err : ℤ) (h : c.place = .reading) (he : err ≠ 0) :
    Step c .server { c with place := .storingError err }
  | storeStatus {value : ℤ} (h : c.place = .storingStatus value) :
    Step c .server { c with mTerminationStatus := value, place := .storingError 0 }
  | storeError {err : ℤ} (h : c.place = .storingError err) :
    Step c .server { c with mLastError := err, place := .testingStatus err }
  | testStatus {err : ℤ} (h : c.place = .testingStatus err) :
    Step c .server { c with
      place := if err ≠ 0 ∧ c.mTerminationStatus = 0 then .markingStatus err else .closingRead err }
  | markStatus {err : ℤ} (h : c.place = .markingStatus err) :
    Step c .server { c with mTerminationStatus := -1, place := .closingRead err }
  | closeRead {err : ℤ} (h : c.place = .closingRead err) :
    Step c .server { c with
      pipe := c.pipe.map fun p => { p with readOpen := false }
      place := .closingWrite err }
  | closeWrite {err : ℤ} (h : c.place = .closingWrite err) :
    Step c .server { c with pipe := c.closeWrite, place := .resettingFd err }
  | resetFd {err : ℤ} (h : c.place = .resettingFd err) :
    Step c .server { c with mPipeWriteFd := none, place := .leaving err }
  | leave {err : ℤ} (h : c.place = .leaving err) :
    Step c .server { c with mRunning := false, place := .testingHangup (err = 0) }
  | reload (h : c.place = .testingHangup true) (hs : c.mTerminationStatus = Request.SIGHUP.status) :
    Step c .server { c with place := .preparing, reloads := c.reloads + 1 }
  | noReload (h : c.place = .testingHangup true)
      (hs : c.mTerminationStatus ≠ Request.SIGHUP.status) :
    Step c .server { c with place := .testingTermination }
  | notOk (h : c.place = .testingHangup false) : Step c .server { c with place := .exited false }
  | finish (h : c.place = .testingTermination) :
    Step c .server { c with
      place := .exited (c.mTerminationStatus = Request.SIGTERM.status) }
  | call {t : T} (r : Request) (h : c.caller t = .outside ∨ ∃ b, c.caller t = .returned b) :
    Step c (.call t r) (c.move t (.testing r))
  | test {t : T} {r : Request} (h : c.caller t = .testing r) :
    Step c (.test t) (c.move t (if c.mRunning then .loading r else .storing r))
  | store {t : T} {r : Request} (h : c.caller t = .storing r) :
    Step c (.store t r) (c.store t r)
  | load {t : T} {r : Request} (h : c.caller t = .loading r) :
    Step c (.load t) (c.move t (.writing r c.mPipeWriteFd))
  | write {t : T} {r : Request} {fd : Option ℕ} (h : c.caller t = .writing r fd) :
    Step c (.write t r fd) (c.write t r fd)

/-- In `poll`, with nothing in the pipe that would end it. -/
def State.Waiting (c : State T) : Prop := c.place = .polling ∧ c.pending = []

/-- A bound on the steps of the server's thread up to the end of an iteration
whose `poll` is not entered again. -/
def Place.stepsLeft : Place → ℕ
  | .exited _ => 0
  | .testingTermination => 1
  | .testingHangup _ => 2
  | .leaving _ | .failing => 3
  | .resettingFd _ => 4
  | .closingWrite _ => 5
  | .closingRead _ => 6
  | .markingStatus _ => 7
  | .testingStatus _ => 8
  | .storingError _ => 9
  | .storingStatus _ => 10
  | .reading => 11
  | .polling => 12
  | .settingUp => 13
  | .resettingStatus => 14
  | .storingFd _ => 15
  | .makingPipe => 16
  | .preparing => 17

/-- The server's thread has come to its end, or is free to make a step and gets
nearer to it with every step it makes. -/
def State.Leaves [DecidableEq T] (c : State T) : Prop :=
  (∃ ok, c.place = .exited ok) ∨
    (∃ c', Step c .server c') ∧
      ∀ c', Step c .server c' → c'.place.stepsLeft < c.place.stepsLeft

/-- What a caller of `terminate(SIGTERM)` may rely on. -/
structure Obeys [DecidableEq T] (c : State T) : Prop where
  waiting : c.asked ≠ none → ¬ c.Waiting
  /-- The loop does not go round again. -/
  reloads : ∀ n, c.asked = some n → c.reloads = n
  leaves : c.asked ≠ none → c.Leaves

/-- The pipe of this iteration exists and has not been read. -/
def Place.Unread : Place → Prop
  | .storingFd _ | .resettingStatus | .settingUp | .polling | .reading => True
  | _ => False

/-- The iteration has gone well, and what it is judged by is the stored status. -/
def Place.Judged : Place → Prop
  | .storingError err | .testingStatus err | .closingRead err | .closingWrite err
  | .resettingFd err | .leaving err => err = 0
  | .testingHangup ok => ok = true
  | _ => False

/-- This iteration is the last one: it fails, or `SIGTERM` is what it finds. -/
def State.Bound (c : State T) : Prop :=
  match c.place with
  | .preparing | .makingPipe => False
  | .storingFd _ | .resettingStatus | .settingUp | .polling | .reading =>
    c.pending.head? = some Request.SIGTERM.status
  | .storingStatus value => value = Request.SIGTERM.status
  | .storingError err | .testingStatus err | .closingRead err | .closingWrite err
  | .resettingFd err | .leaving err => err = 0 → c.mTerminationStatus = Request.SIGTERM.status
  | .markingStatus err => err ≠ 0
  | .testingHangup ok => ok = true → c.mTerminationStatus = Request.SIGTERM.status
  | .failing | .testingTermination | .exited _ => True

/-- A request to terminate meets the server where it is bound to see it: alone
in the pipe before the pipe is read, or in the status after that; no request to
reload takes its place in the status. -/
def Meets (c : State T) : Action T → Prop
  | .store _ .SIGTERM => c.Bound ∨ c.place.Judged
  | .store _ .SIGHUP => c.place.Judged → c.mTerminationStatus ≠ Request.SIGTERM.status
  | .write _ .SIGTERM fd => c.Bound ∨ c.place.Unread ∧
      ∃ p, c.pipe = some p ∧ fd = some p.writeFd ∧ p.readOpen ∧ p.queue = []
  | _ => True

section
variable {c c' : State T}

theorem bound_server [DecidableEq T] (hc : c.Bound) (h : Step c .server c') :
    c'.Bound ∧ c'.reloads = c.reloads := by
  cases h with
  | badAccessFile h | start h | alreadyRunning h | makePipe _ h | noPipe _ h =>
    simp only [State.Bound, h] at hc
  | storeFd h | resetStatus h | setUp h | poll h =>
    simp only [State.Bound, h] at hc
    exact ⟨hc, rfl⟩
  | serve h hp => exact ⟨hc, rfl⟩
  | noSetUp err h he | pollError err h he | readError err h he =>
    exact ⟨fun h0 => absurd h0 he, rfl⟩
  | read h hp hq =>
    simp [State.Bound, h, State.pending, hp, hq] at hc
    exact ⟨hc, rfl⟩
  | storeStatus h =>
    simp only [State.Bound, h] at hc
    exact ⟨fun _ => hc, rfl⟩
  | @testStatus err h =>
    simp only [State.Bound, h] at hc
    refine ⟨?_, rfl⟩
    by_cases hm : err ≠ 0 ∧ c.mTerminationStatus = 0
    · simp [State.Bound, hm]
    · simpa [State.Bound, hm] using hc
  | storeError h | closeRead h | closeWrite h | resetFd h | leave h =>
    simp only [State.Bound, h] at hc
    refine ⟨?_, rfl⟩
    simpa [State.Bound] using hc
  | markStatus h =>
    simp only [State.Bound, h] at hc
    exact ⟨fun h0 => absurd h0 hc, rfl⟩
  | reload h hs =>
    simp [State.Bound, h, hs, Request.status] at hc
  | fail h | noReload h hs | notOk h | finish h => exact ⟨by simp [State.Bound], rfl⟩

theorem bound_stepsLeft [DecidableEq T] (hc : c.Bound) (h : Step c .server c') :
    c'.place.stepsLeft < c.place.stepsLeft := by
  cases h with
  | serve h hp => simp [State.Bound, h, hp] at hc
  | reload h hs => simp [State.Bound, h, hs, Request.status] at hc
  | @testStatus err h =>
    by_cases hm : err ≠ 0 ∧ c.mTerminationStatus = 0 <;> simp [h, hm, Place.stepsLeft]
  | badAccessFile h | start h | alreadyRunning h | makePipe _ h | noPipe _ h | fail h | storeFd h
  | resetStatus h | setUp h | noSetUp _ h | poll h | pollError _ h | read h | readError _ h
  | storeStatus h | storeError h | markStatus h | closeRead h | closeWrite h | resetFd h | leave h
  | noReload h | notOk h | finish h => simp [h, Place.stepsLeft]

theorem bound_enabled [DecidableEq T] (hc : c.Bound) (hx : ∀ ok, c.place ≠ .exited ok) :
    ∃ c', Step c .server c' := by
  cases hp : c.place with
  | preparing => simp [State.Bound, hp] at hc
  | makingPipe => simp [State.Bound, hp] at hc
  | failing => exact ⟨_, .fail hp⟩
  | storingFd fd => exact ⟨_, .storeFd hp⟩
  | resettingStatus => exact ⟨_, .resetStatus hp⟩
  | settingUp => exact ⟨_, .setUp hp⟩
  | polling =>
    refine ⟨_, .poll hp fun hq => ?_⟩
    simp [State.Bound, hp, hq] at hc
  | reading =>
    have hq : c.pending.head? = some Request.SIGTERM.status := by
      simpa only [State.Bound, hp] using hc
    cases hpipe : c.pipe with
    | none => simp [State.pending, hpipe] at hq
    | some p =>
      cases hqueue : p.queue with
      | nil => simp [State.pending, hpipe, hqueue] at hq
      | cons value rest => exact ⟨_, .read hp hpipe hqueue⟩
  | storingStatus value => exact ⟨_, .storeStatus hp⟩
  | storingError err => exact ⟨_, .storeError hp⟩
  | testingStatus err => exact ⟨_, .testStatus hp⟩
  | markingStatus err => exact ⟨_, .markStatus hp⟩
  | closingRead err => exact ⟨_, .closeRead hp⟩
  | closingWrite err => exact ⟨_, .closeWrite hp⟩
  | resettingFd err => exact ⟨_, .resetFd hp⟩
  | leaving err => exact ⟨_, .leave hp⟩
  | testingHangup ok =>
    cases ok with
    | true => exact ⟨_, .noReload hp (by simp_all [State.Bound, Request.status])⟩
    | false => exact ⟨_, .notOk hp⟩
  | testingTermination => exact ⟨_, .finish hp⟩
  | exited ok => exact absurd hp (hx ok)

theorem bound_leaves [DecidableEq T] (hc : c.Bound) : c.Leaves := by
  by_cases hx : ∃ ok, c.place = .exited ok
  · exact .inl hx
  · exact .inr ⟨bound_enabled hc fun ok h => hx ⟨ok, h⟩, fun _ => bound_stepsLeft hc⟩

theorem asked_server [DecidableEq T] (h : Step c .server c') : c'.asked = c.asked := by
  cases h <;> rfl

/-- What the other threads must leave as it is. -/
theorem State.Bound.congr (hc : c.Bound) (hp : c'.place = c.place)
    (hq : c.pending.head? = some Request.SIGTERM.status →
      c'.pending.head? = some Request.SIGTERM.status)
    (hs : c.place.Judged → c.mTerminationStatus = Request.SIGTERM.status →
      c'.mTerminationStatus = Request.SIGTERM.status) : c'.Bound := by
  unfold State.Bound at hc ⊢
  unfold Place.Judged at hs
  rw [hp]
  cases hpl : c.place <;> simp only [hpl] at hc hs ⊢ <;> grind

theorem State.Bound.judged (hc : c.Bound) (hj : c.place.Judged) :
    c.mTerminationStatus = Request.SIGTERM.status := by
  unfold State.Bound at hc
  unfold Place.Judged at hj
  cases hp : c.place <;> simp_all

theorem bound_of_judged (hj : c.place.Judged)
    (hs : c.mTerminationStatus = Request.SIGTERM.status) : c.Bound := by
  unfold Place.Judged at hj
  unfold State.Bound
  cases hp : c.place <;> simp_all

theorem bound_of_unread (hu : c.place.Unread)
    (hq : c.pending.head? = some Request.SIGTERM.status) : c.Bound := by
  unfold Place.Unread at hu
  unfold State.Bound
  cases hp : c.place <;> simp_all

/-- If a request to terminate has returned, the server is on its way out. -/
structure Inv (c : State T) : Prop where
  bound : c.asked ≠ none → c.Bound
  reloads : ∀ n, c.asked = some n → c.reloads = n

theorem bound_not_waiting (hc : c.Bound) : ¬ c.Waiting := by
  intro hw
  simp [State.Bound, hw.1, hw.2] at hc

theorem Inv.obeys [DecidableEq T] (hc : Inv c) : Obeys c :=
  ⟨fun ha => bound_not_waiting (hc.bound ha), hc.reloads, fun ha => bound_leaves (hc.bound ha)⟩

theorem inv_start : Inv (.start : State T) := by
  constructor <;> simp [State.start]

/-- A caller returns: the request counts, if it is one to terminate. -/
theorem inv_answer (c' : State T) {r : Request} (hc : Inv c) (hr : c'.reloads = c.reloads)
    (ha : c'.asked = if r = .SIGTERM then c.asked.or (some c.reloads) else c.asked)
    (hb : c.asked ≠ none ∨ r = .SIGTERM → c'.Bound) :
    Inv c' := by
  by_cases ht : r = .SIGTERM
  · refine ⟨fun _ => hb (.inr ht), fun n hn => ?_⟩
    rw [ha] at hn
    cases hasked : c.asked with
    | none => simpa [ht, hasked, hr] using hn
    | some m =>
      rw [hr, hc.reloads m hasked]
      simpa [ht, hasked] using hn
  · have hsame : c'.asked = c.asked := by simp [ha, ht]
    rw [← hsame] at hb
    exact ⟨fun h => hb (.inl h), fun n hn => hr.trans (hc.reloads n (hsame ▸ hn))⟩

section
variable [DecidableEq T] {t : T} {r : Request} {fd : Option ℕ}

/-- A write adds to the pipe behind what is there. -/
theorem head_pending_write {v : ℤ} (h : c.pending.head? = some v) :
    (c.write t r fd).pending.head? = some v := by
  cases hp : c.pipe with
  | none => simp [State.pending, hp] at h
  | some p =>
    have hq : p.queue.head? = some v := by simpa [State.pending, hp] using h
    by_cases hfd : fd = some p.writeFd ∧ p.readOpen
    · simp [State.pending, State.write, hp, Pipe.write, hfd, hq]
    · simp [State.pending, State.write, hp, Pipe.write, hfd, hq]

theorem inv_store (hc : Inv c) (h : Meets c (.store t r)) : Inv (c.store t r) := by
  apply inv_answer (c.store t r) hc rfl rfl
  cases r with
  | SIGTERM =>
    rintro -
    rcases h with h | h
    · exact h.congr rfl id fun _ _ => rfl
    · exact bound_of_judged h rfl
  | SIGHUP =>
    intro ha
    have hb := hc.bound (ha.resolve_right (by simp))
    exact hb.congr rfl id fun hj hs => absurd hs (h hj)

theorem inv_write (hc : Inv c) (h : Meets c (.write t r fd)) : Inv (c.write t r fd) := by
  apply inv_answer (c.write t r fd) hc rfl rfl
  intro ha
  by_cases hb : c.Bound
  · exact hb.congr rfl head_pending_write fun _ => id
  · cases r with
    | SIGHUP => exact absurd (hc.bound (ha.resolve_right (by simp))) hb
    | SIGTERM =>
      obtain ⟨hu, p, hp, hfd, hopen, hq⟩ := h.resolve_left hb
      apply bound_of_unread (c := c.write t .SIGTERM fd) hu
      simp [State.pending, State.write, hp, Pipe.write, hfd, hopen, hq]

theorem inv_step {a : Action T} (hc : Inv c) (ha : Meets c a) (h : Step c a c') : Inv c' := by
  cases a with
  | server =>
    have hasked := asked_server h
    constructor
    · intro hn
      exact (bound_server (hc.bound (hasked ▸ hn)) h).1
    · intro n hn
      rw [hasked] at hn
      rw [(bound_server (hc.bound (by simp [hn])) h).2]
      exact hc.reloads n hn
  | call t r =>
    cases h
    exact ⟨hc.bound, hc.reloads⟩
  | test t =>
    cases h
    exact ⟨hc.bound, hc.reloads⟩
  | load t =>
    cases h
    exact ⟨hc.bound, hc.reloads⟩
  | store t r =>
    cases h
    exact inv_store hc ha
  | write t r fd =>
    cases h
    exact inv_write hc ha

end
end

/-- In a run where requests to terminate meet the server, none is lost. -/
theorem obeys_of_meets [DecidableEq T] {c : State T} (h : Reached Step Meets .start c) : Obeys c :=
  (h.invariant inv_start fun _ _ _ => inv_step).obeys

/-- Any run. -/
abbrev Runs [DecidableEq T] : State T → State T → Prop := Reached Step fun _ _ => True

section
variable [DecidableEq T] {c₀ c : State T} {allowed : State T → Action T → Prop}

theorem reached_polling (hs : ∀ c, allowed c .server) :
    Reached Step allowed (.start : State T)
      ⟨true, 0, 0, some 3, some ⟨3, true, []⟩, .polling, fun _ => .outside, 0, none⟩ := by
  have h₁ : Reached Step allowed (.start : State T) _ := Reached.start.step (hs _) (.start rfl rfl)
  have h₂ := (h₁.step (hs _) (.makePipe 3 rfl)).step (hs _) (.storeFd rfl)
  exact (h₂.step (hs _) (.resetStatus rfl)).step (hs _) (.setUp rfl)

/-- A server without a pipe has nothing that would keep it from waiting. -/
theorem lost_makingPipe (h : Runs c₀ c) (hp : c.place = .makingPipe) (ha : c.asked ≠ none) :
    ∃ c', Runs c₀ c' ∧ ¬ Obeys c' := by
  have h₁ := (h.step trivial (.makePipe 3 hp)).step trivial (.storeFd rfl)
  have h₂ := (h₁.step trivial (.resetStatus rfl)).step trivial (.setUp rfl)
  exact ⟨_, h₂, fun ho => ho.waiting ha ⟨rfl, rfl⟩⟩

theorem lost_preparing (h : Runs c₀ c) (hp : c.place = .preparing) (hr : c.mRunning = false)
    (ha : c.asked ≠ none) : ∃ c', Runs c₀ c' ∧ ¬ Obeys c' :=
  lost_makingPipe (h.step trivial (.start hp hr)) rfl ha

/-- A server that has read a request to reload drops the pipe. -/
theorem lost_storingStatus (h : Runs c₀ c)
    (hp : c.place = .storingStatus Request.SIGHUP.status) (ha : c.asked ≠ none) :
    ∃ c', Runs c₀ c' ∧ ¬ Obeys c' := by
  have h₁ := (h.step trivial (.storeStatus hp)).step trivial (.storeError rfl)
  have h₂ := (h₁.step trivial (.testStatus rfl)).step trivial (.closeRead rfl)
  have h₃ := (h₂.step trivial (.closeWrite rfl)).step trivial (.resetFd rfl)
  have h₄ := (h₃.step trivial (.leave rfl)).step trivial (.reload rfl rfl)
  exact lost_preparing h₄ rfl rfl ha

end

theorem obeys_of_meets_polling :
    ∃ c : State Unit, Reached Step Meets .start c ∧ c.asked = some 0 ∧ Obeys c := by
  have h₁ : Reached Step Meets (.start : State Unit) _ := reached_polling fun _ => trivial
  have h₂ := h₁.step (by exact trivial) (.call (t := ()) .SIGTERM (.inl rfl))
  have h₃ := h₂.step (by exact trivial) (.test (t := ()) (r := .SIGTERM) rfl)
  have h₄ := h₃.step (by exact trivial) (.load (t := ()) (r := .SIGTERM) rfl)
  have h₅ := h₄.step (by exact .inr ⟨trivial, _, rfl, rfl, rfl, rfl⟩)
    (.write (t := ()) (r := .SIGTERM) rfl)
  exact ⟨_, h₅, rfl, obeys_of_meets h₅⟩

/-- A whole call of `terminate` that finds the server running. -/
theorem runs_write [DecidableEq T] {c₀ c : State T} {t : T} (r : Request) (h : Runs c₀ c)
    (hr : c.mRunning = true) (ht : c.caller t = .outside ∨ ∃ b, c.caller t = .returned b) :
    Runs c₀ (((c.move t (.testing r)).move t (.loading r)).move t
      (.writing r c.mPipeWriteFd) |>.write t r c.mPipeWriteFd) := by
  have h₁ := h.step trivial (.call r ht)
  have h₂ := h₁.step trivial (.test (t := t) (r := r) (by simp [State.move]))
  have h₃ := h₂.step trivial (.load (t := t) (r := r) (by simp [State.move, hr]))
  have h₄ := h₃.step trivial (.write (t := t)
    (show _ = Caller.writing r c.mPipeWriteFd by simp [State.move]))
  simpa [State.move, hr] using h₄

/-- The first request, at `place`, never ends the server. -/
def Loses (place : Place) : Prop :=
  ∃ c : State Bool, Runs .start c ∧ c.place = place ∧ c.asked = some 0 ∧
    ∃ c', Runs c c' ∧ ¬ Obeys c'

/-- Requests that are lost: one that comes while devices are enumerated, one
that comes before the pipe has been made, and one behind a request to reload. -/
theorem lost_requests :
    Loses .preparing ∧ Loses .makingPipe ∧ Loses (.storingStatus Request.SIGHUP.status) := by
  refine ⟨?_, ?_, ?_⟩
  · have h₁ : Runs (.start : State Bool) _ := Reached.start.step trivial
      (.call (t := true) .SIGTERM (.inl rfl))
    have h₂ := h₁.step trivial (.test (t := true) (r := .SIGTERM) rfl)
    have h₃ := h₂.step trivial (.store (t := true) (r := .SIGTERM) rfl)
    exact ⟨_, h₃, rfl, rfl, lost_preparing .start rfl rfl nofun⟩
  · have h₁ : Runs (.start : State Bool) _ := Reached.start.step trivial (.start rfl rfl)
    have h₂ := runs_write (t := true) .SIGTERM h₁ rfl (.inl rfl)
    exact ⟨_, h₂, rfl, rfl, lost_makingPipe .start rfl nofun⟩
  · have h₁ : Runs (.start : State Bool) _ := reached_polling fun _ => trivial
    have h₂ := runs_write (t := true) .SIGHUP h₁ rfl (.inl rfl)
    have h₃ := runs_write (t := false) .SIGTERM h₂ rfl (.inl rfl)
    have h₄ := (h₃.step trivial (.poll rfl (by decide))).step trivial (.read rfl rfl rfl)
    exact ⟨_, h₄, rfl, rfl, lost_storingStatus .start rfl nofun⟩

end AirSane.Termination
