import AirSane.Server.Lifetimes
import Mathlib.Data.List.ReduceOption
import Mathlib.Data.Multiset.UnionInter

/-! # What the threads have in their hands

The text of each thread says which descriptors it has at every point, whatever the
answers are: it uses and closes no others and has given back everything at its end.
-/

namespace AirSane.Lifetimes
open Programs Program Interleaving

section Phases

/-- What the server's thread has, and the end of a pipe that it lent. -/
structure ServerPhase where
  owns : Multiset Fd
  lent : Option Fd

/-- The purge thread is inside the scope that it was lent something for, or at a
scanner that it has found. -/
inductive PurgePhase where
  | outside
  | inside (fd : Fd)
  | at (fd : Fd) (i : ℕ)

inductive RequestPhase where
  | outside
  | arrived (fd : Fd)
  | admitted (fd : Fd)

def RequestPhase.fd : RequestPhase → Option Fd
  | .outside => none
  | .arrived fd | .admitted fd => some fd

/-- Phases; `none` follows an answer that cannot come. -/
abbrev Phase : Thread → Type
  | .server => Option ServerPhase
  | .purge => PurgePhase
  | .request _ => RequestPhase

namespace ServerPhase

def Allowed (m : ServerPhase) : Command → Prop
  | .pushScanner | .clearScanners => m.lent = none
  | .close fd | .accept fd => ∀ x ∈ fd, x ∈ m.owns
  | .startThread fd => fd ∈ m.owns ∧ m.lent = none
  | .writeByte fd | .listen fd | .readStatus fd | .detach fd => fd ∈ m.owns
  | .join => m.lent ≠ none
  | .poll pipe sockets => pipe ∈ m.owns ∧ ∀ fd, some fd ∈ sockets → fd ∈ m.owns
  | .begin | .select _ | .hasEntry _ | .purgeJobs _ | .finish => False
  | .started | .isAllowed _ | .exchange _ => False
  | _ => True

def next (m : ServerPhase) : (c : Command) → Answer c → Option ServerPhase
  | .pipe _, some (r, x) => some { m with owns := x ::ₘ r ::ₘ m.owns }
  | .pipe .purgeThread, none => none
  | .socket, some fd | .accept _, some fd => some { m with owns := fd ::ₘ m.owns }
  | .close (some fd), _ | .detach fd, _ => some { m with owns := m.owns.erase fd }
  | .startThread fd, _ => some ⟨m.owns.erase fd, some fd⟩
  | .joinable, false => if m.lent.isSome then none else some m
  | .join, _ => some ⟨m.lent.elim m.owns fun fd => fd ::ₘ m.owns, none⟩
  | _, _ => some m

end ServerPhase

def serverDiscipline : Discipline Command Answer (Option ServerPhase) where
  allowed
    | none, _ => True
    | some m, c => m.Allowed c
  next
    | none, _, _ => none
    | some m, c, x => m.next c x

def purgeDiscipline : Discipline Command Answer PurgePhase where
  allowed
    | .outside, .begin => True
    | .inside fd, .select fd' => fd' = fd
    | .inside _, .hasEntry _ | .inside _, .finish => True
    | .at _ i, .purgeJobs j => j = i
    | _, _ => False
  next
    | _, .begin, fd => .inside fd
    | .inside fd, .hasEntry i, true => .at fd i
    | .at fd _, .purgeJobs _, _ => .inside fd
    | _, .finish, _ => .outside
    | m, _, _ => m

def requestDiscipline : Discipline Command Answer RequestPhase where
  allowed
    | .outside, .started => True
    | .arrived fd, .isAllowed fd' | .arrived fd, .close (some fd') => fd' = fd
    | .admitted fd, .exchange fd' | .admitted fd, .close (some fd') => fd' = fd
    | _, _ => False
  next
    | _, .started, fd => .arrived fd
    | .arrived fd, .isAllowed _, true => .admitted fd
    | _, .close _, _ => .outside
    | m, _, _ => m

end Phases

section Server
variable {α : Type} {m : ServerPhase} {o : Multiset Fd} {l : Option Fd}
  {Q : α → Option ServerPhase → Prop} {X : Option ServerPhase → Prop}

theorem obeys_access_bind {c : Command} {f : Answer c → ThreadM α} :
    (access c >>= f).Obeys serverDiscipline Q X (some m) ↔
      m.Allowed c ∧ ∀ x, (f x).Obeys serverDiscipline Q X (m.next c x) := .rfl

/-- The open ones of a list of sockets. -/
def opened (sockets : List (Option Fd)) : Multiset Fd := sockets.reduceOption

@[simp] theorem opened_nil : opened [] = 0 := rfl

@[simp] theorem opened_none (sockets : List (Option Fd)) :
    opened (none :: sockets) = opened sockets := rfl

@[simp] theorem opened_some (fd : Fd) (sockets : List (Option Fd)) :
    opened (some fd :: sockets) = fd ::ₘ opened sockets := rfl

theorem opened_append (a b : List (Option Fd)) : opened (a ++ b) = opened a + opened b := by
  rw [opened, List.reduceOption_append]
  rfl

theorem mem_opened {fd : Fd} {sockets : List (Option Fd)} :
    fd ∈ opened sockets ↔ some fd ∈ sockets :=
  List.reduceOption_mem_iff

theorem obeys_createListeningSocket : createListeningSocket.Obeys serverDiscipline
    (fun r k => k = some ⟨opened [r] + o, l⟩) X (some ⟨o, l⟩) := by
  refine obeys_access_bind.2 ⟨trivial, fun fd => ?_⟩
  cases fd with
  | none => exact congrArg some (congrArg (ServerPhase.mk · l) (Multiset.zero_add o).symm)
  | some fd =>
    have hfd : fd ∈ fd ::ₘ o := Multiset.mem_cons_self fd o
    refine obeys_access_bind.2 ⟨hfd, fun ok => ?_⟩
    cases ok with
    | true => simp [ServerPhase.next]
    | false =>
      refine obeys_access_bind.2 ⟨by simp [ServerPhase.Allowed], fun _ => ?_⟩
      simp [ServerPhase.next]

theorem obeys_listenOn (n : ℕ) (err : Bool) (sockets : List (Option Fd)) :
    (listenOn n err sockets).Obeys serverDiscipline (fun r k => k = some ⟨opened r.1 + o, l⟩) X
      (some ⟨opened sockets + o, l⟩) := by
  induction n generalizing err sockets with
  | zero => rfl
  | succ n ih =>
    apply obeys_createListeningSocket.bind
    rintro fd k rfl
    have hopened : opened [fd] + (opened sockets + o) = opened (sockets ++ [fd]) + o := by
      rw [opened_append, ← Multiset.add_assoc, Multiset.add_comm (opened [fd])]
    rw [hopened]
    cases fd with
    | some fd => exact ih err _
    | none =>
      refine obeys_access_bind.2 ⟨trivial, fun available => ?_⟩
      cases available with
      | true => exact ih err _
      | false => simpa [ServerPhase.next, opened_append] using ih true sockets

theorem obeys_acceptAll {connections : List (Option Fd × Bool)}
    (h : ∀ x ∈ connections, ∀ fd ∈ x.1, fd ∈ o) : (acceptAll connections).Obeys serverDiscipline
      (fun _ k => k = some ⟨o, l⟩) X (some ⟨o, l⟩) := by
  induction connections with
  | nil => rfl
  | cons x rest ih =>
    have hrest := ih fun y hy => h y (List.mem_cons_of_mem _ hy)
    obtain ⟨socket, _ | _⟩ := x
    · exact hrest
    · refine obeys_access_bind.2 ⟨h (socket, true) List.mem_cons_self, fun fd => ?_⟩
      cases fd with
      | none => exact hrest
      | some fd =>
        refine obeys_access_bind.2 ⟨Multiset.mem_cons_self fd o, fun _ => ?_⟩
        simpa [ServerPhase.next] using hrest

theorem obeys_closeAll (sockets : List (Option Fd)) : (closeAll sockets).Obeys serverDiscipline
    (fun _ k => k = some ⟨o, l⟩) X (some ⟨opened sockets + o, l⟩) := by
  induction sockets with
  | nil => simp [closeAll]
  | cons fd sockets ih =>
    refine obeys_access_bind.2 ⟨?_, fun _ => ?_⟩
    · cases fd <;> simp [ServerPhase.Allowed]
    · cases fd with
      | none => exact ih
      | some fd => simpa [ServerPhase.next] using ih

theorem obeys_pollPass {pipe : Fd} {sockets : List (Option Fd)} (hp : pipe ∈ o)
    (hs : ∀ fd, some fd ∈ sockets → fd ∈ o) : (pollPass pipe sockets).Obeys serverDiscipline
      (fun _ k => k = some ⟨o, l⟩) X (some ⟨o, l⟩) := by
  refine obeys_access_bind.2 ⟨⟨hp, hs⟩, fun r => ?_⟩
  cases r with
  | termination => exact obeys_access_bind.2 ⟨hp, fun _ => rfl⟩
  | connections revents =>
    refine (obeys_acceptAll ?_).bind fun _ k hk => hk
    intro x hx fd hfd
    obtain ⟨socket, b⟩ := x
    obtain rfl : socket = some fd := hfd
    exact hs fd (List.of_mem_zip hx).1
  | failed => rfl
  | interrupted => rfl

theorem obeys_pollLoop (fuel : ℕ) {pipe : Fd} {sockets : List (Option Fd)} (err : Bool)
    (hp : pipe ∈ o) (hs : ∀ fd, some fd ∈ sockets → fd ∈ o) :
    (pollLoop fuel pipe sockets err).Obeys serverDiscipline (fun _ k => k = some ⟨o, l⟩) X
      (some ⟨o, l⟩) := by
  cases err with
  | true => rfl
  | false =>
    refine obeys_iterate (I := fun k : Option ServerPhase => k = some ⟨o, l⟩) ?_ fuel () rfl
    rintro _ k rfl
    exact obeys_pollPass hp hs

theorem obeys_serve (fuel : ℕ) {pipe : Fd} (hp : pipe ∈ o) : (serve fuel pipe).Obeys
    serverDiscipline (fun _ k => k = some ⟨o, l⟩) X (some ⟨o, l⟩) := by
  refine obeys_access_bind.2 ⟨trivial, fun addresses => ?_⟩
  cases addresses with
  | none => rfl
  | some n =>
    have hlisten := obeys_listenOn (o := o) (l := l) (X := X) n false []
    rw [opened_nil, Multiset.zero_add] at hlisten
    apply hlisten.bind
    rintro ⟨sockets, err⟩ k rfl
    apply (obeys_pollLoop fuel err (Multiset.mem_add.2 (.inr hp)) fun fd hfd =>
      Multiset.mem_add.2 (.inl (mem_opened.2 hfd))).bind
    rintro err k rfl
    exact (obeys_closeAll sockets).bind fun _ k hk => hk

theorem obeys_runHttpServer (fuel : ℕ) : (runHttpServer fuel).Obeys serverDiscipline
    (fun _ k => k = some ⟨o, l⟩) X (some ⟨o, l⟩) := by
  refine obeys_access_bind.2 ⟨trivial, fun fds => ?_⟩
  cases fds with
  | none => rfl
  | some fds =>
    obtain ⟨readFd, writeFd⟩ := fds
    have hread : readFd ∈ writeFd ::ₘ readFd ::ₘ o := by simp
    apply (obeys_serve fuel hread).bind
    rintro err k rfl
    refine obeys_access_bind.2 ⟨by simp [ServerPhase.Allowed], fun _ => ?_⟩
    have herase : (writeFd ::ₘ readFd ::ₘ o).erase readFd = writeFd ::ₘ o := by
      rw [Multiset.cons_swap, Multiset.erase_cons_head]
    simp only [ServerPhase.next, herase]
    refine obeys_access_bind.2 ⟨by simp [ServerPhase.Allowed], fun _ => ?_⟩
    simp [ServerPhase.next]

/-- The phase is as said, unless there was an answer that cannot come. -/
def Unless (m : ServerPhase) (k : Option ServerPhase) : Prop := ∀ m' ∈ k, m' = m

theorem obeys_impossible (p : ThreadM α) (hQ : ∀ a, Q a none) (hX : X none) :
    p.Obeys serverDiscipline Q X none := by
  induction p with
  | ret a => exact hQ a
  | command c next ih => exact ⟨trivial, ih⟩
  | raise => exact hX
  | crash => trivial
  | spin => trivial

theorem Unless.obeys {p : ThreadM α} {k : Option ServerPhase} (hk : Unless m k)
    (hp : p.Obeys serverDiscipline Q X (some m)) (hQ : ∀ a, Q a none) (hX : X none) :
    p.Obeys serverDiscipline Q X k := by
  cases k with
  | none => exact obeys_impossible p hQ hX
  | some m' =>
    obtain rfl := hk m' rfl
    exact hp

theorem unless_some : Unless m (some m) := fun _ h => (Option.some.inj h).symm

theorem unless_none : Unless m none := fun _ h => by cases h

/-- The purge thread is lent the reading end of its pipe. -/
theorem obeys_startPurgeThread : startPurgeThread.Obeys serverDiscipline
    (fun fds k => Unless ⟨fds.2 ::ₘ o, some fds.1⟩ k) X (some ⟨o, none⟩) := by
  refine obeys_access_bind.2 ⟨trivial, fun fds => ?_⟩
  cases fds with
  | none => exact ⟨trivial, fun _ => unless_none⟩
  | some fds =>
    obtain ⟨readFd, writeFd⟩ := fds
    refine obeys_access_bind.2 ⟨by simp [ServerPhase.Allowed], fun _ => ?_⟩
    have herase : (writeFd ::ₘ readFd ::ₘ o).erase readFd = writeFd ::ₘ o := by
      rw [Multiset.cons_swap, Multiset.erase_cons_head]
    simp only [ServerPhase.next, herase]
    exact unless_some

/-- The end that was lent comes back with `join`, before it is closed. -/
theorem obeys_terminatePurgeThread (fds : Fd × Fd) (hX : X none) :
    (terminatePurgeThread fds).Obeys serverDiscipline (fun _ k => Unless ⟨o, none⟩ k) X
      (some ⟨fds.2 ::ₘ o, some fds.1⟩) := by
  refine obeys_access_bind.2 ⟨trivial, fun joinable => ?_⟩
  cases joinable with
  | false => exact obeys_impossible _ (fun _ => unless_none) hX
  | true =>
    refine obeys_access_bind.2 ⟨Multiset.mem_cons_self _ _, fun _ => ?_⟩
    refine obeys_access_bind.2 ⟨by simp [ServerPhase.Allowed], fun _ => ?_⟩
    refine obeys_access_bind.2 ⟨by simp [ServerPhase.Allowed], fun _ => ?_⟩
    simp only [ServerPhase.next, Option.elim, Multiset.erase_cons_head]
    refine ⟨by simp [serverDiscipline, ServerPhase.Allowed], fun _ => ?_⟩
    simpa [serverDiscipline, ServerPhase.next] using unless_some

theorem obeys_enumerate (fuel : ℕ) : (enumerate fuel).Obeys serverDiscipline
    (fun _ k => k = some ⟨o, none⟩) X (some ⟨o, none⟩) := by
  refine obeys_iterate (I := fun k : Option ServerPhase => k = some ⟨o, none⟩) ?_ fuel () rfl
  rintro _ k rfl
  refine obeys_access_bind.2 ⟨trivial, fun usable => ?_⟩
  cases usable with
  | true => exact obeys_access_bind.2 ⟨rfl, fun _ => rfl⟩
  | false => rfl

theorem obeys_serverPass (fuel : ℕ) (hX : X none) : (serverPass fuel).Obeys serverDiscipline
    (fun _ k => Unless ⟨o, none⟩ k) X (some ⟨o, none⟩) := by
  refine obeys_access_bind.2 ⟨trivial, fun accessFileOk => ?_⟩
  cases accessFileOk with
  | false => exact unless_some
  | true =>
    apply (obeys_enumerate fuel).bind
    rintro _ k rfl
    apply obeys_startPurgeThread.bind
    intro fds k hk
    refine hk.obeys ?_ (fun _ => unless_none) hX
    apply (obeys_runHttpServer fuel).bind
    rintro ok k rfl
    apply (obeys_terminatePurgeThread fds hX).bind
    intro _ k hk
    refine hk.obeys ?_ (fun _ => unless_none) hX
    refine obeys_access_bind.2 ⟨rfl, fun _ => ?_⟩
    cases ok with
    | false => exact unless_some
    | true =>
      refine obeys_access_bind.2 ⟨trivial, fun status => ?_⟩
      cases status <;> exact unless_some

theorem obeys_runServer (fuel : ℕ) (hX : X none) : (runServer fuel).Obeys serverDiscipline
    (fun _ k => Unless ⟨o, none⟩ k) X (some ⟨o, none⟩) := by
  refine obeys_iterate (I := fun k : Option ServerPhase => Unless ⟨o, none⟩ k) ?_ fuel () unless_some
  intro _ k hk
  exact hk.obeys (obeys_serverPass fuel hX) (fun _ => unless_none) hX

end Server

section Purge
variable {α : Type} {fd : Fd} {Q : α → PurgePhase → Prop} {X : PurgePhase → Prop}

theorem obeys_interruptibleSleep (fuel : ℕ) : (interruptibleSleep fuel fd).Obeys purgeDiscipline
    (fun _ k => k = .inside fd) X (.inside fd) := by
  refine obeys_iterate (I := fun k : PurgePhase => k = .inside fd) ?_ fuel () rfl
  rintro _ k rfl
  refine ⟨rfl, fun selected => ?_⟩
  cases selected <;> rfl

/-- A scanner is looked for before it is worked on. -/
theorem obeys_purgeAll (fuel : ℕ) : (purgeAll fuel).Obeys purgeDiscipline
    (fun _ k => k = .inside fd) X (.inside fd) := by
  refine obeys_iterate (I := fun k : PurgePhase => k = .inside fd) ?_ fuel 0 rfl
  rintro i k rfl
  refine ⟨trivial, fun found => ?_⟩
  cases found with
  | true => exact ⟨rfl, fun _ => rfl⟩
  | false => rfl

theorem obeys_threadFunc (fuel : ℕ) : (threadFunc fuel).Obeys purgeDiscipline
    (fun _ k => k = .outside) X .outside := by
  refine ⟨trivial, fun fd => ?_⟩
  have hloop : (iterate (fun _ => do
      if ← interruptibleSleep fuel fd then
        purgeAll fuel
        return .inl ()
      else return .inr ()) fuel () : ThreadM Unit).Obeys purgeDiscipline
        (fun _ k => k = .inside fd) X (.inside fd) := by
    refine obeys_iterate (I := fun k : PurgePhase => k = .inside fd) ?_ fuel () rfl
    rintro _ k rfl
    apply (obeys_interruptibleSleep fuel).bind
    rintro awake k rfl
    cases awake with
    | true => exact (obeys_purgeAll fuel).bind fun _ k hk => hk
    | false => rfl
  apply hloop.bind
  rintro _ k rfl
  exact ⟨trivial, fun _ => rfl⟩

end Purge

section Request
variable {X : RequestPhase → Prop}

theorem obeys_handleRequest (fuel : ℕ) (fd : Fd) : (handleRequest fuel fd).Obeys requestDiscipline
    (fun _ k => k = .outside) X (.arrived fd) := by
  refine ⟨rfl, fun allowed => ?_⟩
  cases allowed with
  | false => exact ⟨rfl, fun _ => rfl⟩
  | true =>
    have hloop : (iterate (fun _ => do
        if ← access (.exchange fd) then return .inl () else return .inr ()) fuel () :
        ThreadM Unit).Obeys requestDiscipline (fun _ k => k = .admitted fd) X (.admitted fd) := by
      refine obeys_iterate (I := fun k : RequestPhase => k = .admitted fd) ?_ fuel () rfl
      rintro _ k rfl
      refine ⟨rfl, fun more => ?_⟩
      cases more <;> rfl
    apply hloop.bind
    rintro _ k rfl
    exact ⟨rfl, fun _ => rfl⟩

end Request

/-- All threads come to rest without anything in their hands. -/
def watch (E : Surroundings) : (daemon E).Monitor Phase where
  discipline
    | .server => serverDiscipline
    | .purge => purgeDiscipline
    | .request _ => requestDiscipline
  entry
    | .runServer _ => some ⟨0, none⟩
    | .threadFunc _ => PurgePhase.outside
    | .handleRequest _ _ => RequestPhase.outside
  ends
    | .server, k => Unless ⟨0, none⟩ k
    | .purge, k => k = PurgePhase.outside
    | .request _, k => k = RequestPhase.outside
  rests
    | .server, k => Unless ⟨0, none⟩ k
    | .purge, k => k = PurgePhase.outside
    | .request _, k => k = RequestPhase.outside
  obeys k := by
    cases k with
    | runServer fuel => exact (obeys_runServer fuel trivial).bind fun _ k hk => hk
    | threadFunc fuel => exact obeys_threadFunc fuel
    | handleRequest n fuel => exact ⟨trivial, fun fd => obeys_handleRequest fuel fd⟩
  rests_of_ends {t m} h := by
    cases t <;> exact h

end AirSane.Lifetimes
