import AirSane.Programs.Interleaving
import Mathlib.Data.Finset.Defs

/-! # The threads of the daemon and their descriptors

`Server::run` with `HttpServer::run`, the thread that purges jobs, and the threads
that handle requests. The server's thread opens and closes the internal pipes and
the listening sockets, lends the purge thread one end of a pipe and the list of
scanners, and gives every connection away to a thread of its own.
-/

namespace AirSane.Lifetimes
open Programs Program

abbrev Fd := ℕ

inductive Thread where
  | server
  | purge
  | request (n : ℕ)
  deriving DecidableEq

inductive PipeUser where
  | purgeThread | httpServer
  deriving DecidableEq

/-- How `poll` returns: for the internal pipe, for the sockets with a bit set, on
an error, or for no reason that matters. -/
inductive Polled where
  | termination
  | connections (revents : List Bool)
  | failed
  | interrupted

/-- How `select` returns. -/
inductive Selected where
  | timeout | readable | interrupted | failed
  deriving DecidableEq

/-- What the two tests at the end of an iteration of `Server::run` find. -/
inductive Status where
  | hangup | termination | other

/-- A descriptor of `-1` is `none`. -/
inductive Command where
  | accessFileOk
  | usableScanner
  | pushScanner
  | clearScanners
  | terminationStatus
  | pipe (u : PipeUser)
  | close (fd : Option Fd)
  | startThread (fd : Fd)
  | joinable
  | writeByte (fd : Fd)
  | join
  | determineAddresses
  | socket
  | listen (fd : Fd)
  | addressNotAvailable
  | poll (pipe : Fd) (sockets : List (Option Fd))
  | readStatus (fd : Fd)
  | accept (fd : Option Fd)
  | detach (fd : Fd)
  | begin
  | select (fd : Fd)
  | hasEntry (i : ℕ)
  | purgeJobs (i : ℕ)
  | finish
  | started
  | isAllowed (fd : Fd)
  | exchange (fd : Fd)
  deriving DecidableEq

abbrev Answer : Command → Type
  | .accessFileOk | .usableScanner | .joinable | .listen _ | .addressNotAvailable => Bool
  | .readStatus _ | .hasEntry _ | .isAllowed _ | .exchange _ => Bool
  | .terminationStatus => Status
  | .pipe _ => Option (Fd × Fd)
  | .determineAddresses => Option ℕ
  | .socket | .accept _ => Option Fd
  | .poll _ _ => Polled
  | .begin | .started => Fd
  | .select _ => Selected
  | _ => Unit

abbrev ThreadM := Program Command Answer

abbrev access (c : Command) : ThreadM (Answer c) := .perform c

section HttpServer

/-- `createListeningSocket`: `setsockopt`, `bind` and `listen` are one command. -/
def createListeningSocket : ThreadM (Option Fd) := do
  match ← access .socket with
  | none => return none
  | some fd =>
    if ← access (.listen fd) then return some fd
    else
      access (.close (some fd))
      return none

/-- The loop over the addresses, and whether it has met an error. An address that
went away in the meantime leaves a descriptor of `-1`. -/
def listenOn : ℕ → Bool → List (Option Fd) → ThreadM (List (Option Fd) × Bool)
  | 0, err, sockets => return (sockets, err)
  | n + 1, err, sockets => do
    match ← createListeningSocket with
    | some fd => listenOn n err (sockets ++ [some fd])
    | none =>
      if ← access .addressNotAvailable then listenOn n err (sockets ++ [none])
      else listenOn n true sockets

/-- The loop over `pfds` after a `poll` that has found connections. -/
def acceptAll : List (Option Fd × Bool) → ThreadM Unit
  | [] => return ()
  | (_, false) :: rest => acceptAll rest
  | (socket, true) :: rest => do
    match ← access (.accept socket) with
    | some fd => do
      access (.detach fd)
      acceptAll rest
    | none => acceptAll rest

def pollPass (pipe : Fd) (sockets : List (Option Fd)) : ThreadM (Unit ⊕ Bool) := do
  match ← access (.poll pipe sockets) with
  | .termination => return .inr !(← access (.readStatus pipe))
  | .connections revents =>
    acceptAll (sockets.zip revents)
    return .inl ()
  | .failed => return .inr true
  | .interrupted => return .inl ()

def closeAll : List (Option Fd) → ThreadM Unit
  | [] => return ()
  | fd :: rest => do
    access (.close fd)
    closeAll rest

/-- The loop around `poll`, which is not entered after an error. -/
def pollLoop (fuel : ℕ) (pipe : Fd) (sockets : List (Option Fd)) (err : Bool) : ThreadM Bool :=
  if err then return true else iterate (fun _ => pollPass pipe sockets) fuel ()

/-- `HttpServer::Private::run` between its pipe and the sockets, with its error. -/
def serve (fuel : ℕ) (pipe : Fd) : ThreadM Bool := do
  match ← access .determineAddresses with
  | none => return true
  | some n =>
    let (sockets, err) ← listenOn n false []
    let err ← pollLoop fuel pipe sockets err
    closeAll sockets
    return err

/-- `HttpServer::Private::run`. -/
def runHttpServer (fuel : ℕ) : ThreadM Bool := do
  match ← access (.pipe .httpServer) with
  | none => return false
  | some (readFd, writeFd) =>
    let err ← serve fuel readFd
    access (.close (some readFd))
    access (.close (some writeFd))
    return !err

/-- `HttpServer::Private::handleRequest`. The destructor of the `fdbuf` closes the
connection, which a client that is not allowed sees at once. -/
def handleRequest (fuel : ℕ) (fd : Fd) : ThreadM Unit := do
  if ← access (.isAllowed fd) then
    iterate (fun _ => do
      if ← access (.exchange fd) then return .inl () else return .inr ()) fuel ()
  access (.close (some fd))

end HttpServer

section PurgeThread

/-- `PurgeThread::Private::start`, which does not look at what `pipe` returns. -/
def startPurgeThread : ThreadM (Fd × Fd) := do
  let fds ← access (.pipe .purgeThread)
  let (readFd, writeFd) := fds.getD (0, 0)
  access (.startThread readFd)
  return (readFd, writeFd)

/-- `PurgeThread::Private::terminate`. -/
def terminatePurgeThread (fds : Fd × Fd) : ThreadM Unit := do
  if ← access .joinable then
    access (.writeByte fds.2)
    access .join
  access (.close (some fds.1))
  access (.close (some fds.2))

/-- `PurgeThread::Private::interruptibleSleep`. -/
def interruptibleSleep (fuel : ℕ) (fd : Fd) : ThreadM Bool :=
  iterate (fun _ => do
    match ← access (.select fd) with
    | .interrupted => return .inl ()
    | .timeout => return .inr true
    | _ => return .inr false) fuel ()

/-- The loop over the scanners. -/
def purgeAll (fuel : ℕ) : ThreadM Unit :=
  iterate (fun i => do
    if ← access (.hasEntry i) then
      access (.purgeJobs i)
      return .inl (i + 1)
    else return .inr ()) fuel 0

/-- `PurgeThread::Private::threadFunc`, from the start of the thread to its end. -/
def threadFunc (fuel : ℕ) : ThreadM Unit := do
  let fd ← access .begin
  iterate (fun _ => do
    if ← interruptibleSleep fuel fd then
      purgeAll fuel
      return .inl ()
    else return .inr ()) fuel ()
  access .finish

end PurgeThread

section Server

/-- The loop over the devices, as far as the list of scanners goes. -/
def enumerate (fuel : ℕ) : ThreadM Unit :=
  iterate (fun _ => do
    if ← access .usableScanner then
      access .pushScanner
      return .inl ()
    else return .inr ()) fuel ()

/-- An iteration of `Server::run`. -/
def serverPass (fuel : ℕ) : ThreadM (Unit ⊕ Bool) := do
  if ← access .accessFileOk then
    enumerate fuel
    let fds ← startPurgeThread
    let ok ← runHttpServer fuel
    terminatePurgeThread fds
    access .clearScanners
    if ok then
      match ← access .terminationStatus with
      | .hangup => return .inl ()
      | .termination => return .inr true
      | .other => return .inr false
    else return .inr false
  else return .inr false

/-- `Server::run`. -/
def runServer (fuel : ℕ) : ThreadM Bool := iterate (fun _ => serverPass fuel) fuel ()

end Server

/-- Who holds a descriptor: a thread, a connection whose thread has not begun yet, or
something that this is not about. -/
inductive Holder where
  | server
  | request (n : ℕ)
  | handed
  | elsewhere
  deriving DecidableEq

/-- The `std::thread` of the purge thread, with the end of the pipe that it is given. -/
inductive Purging where
  | absent
  | started (fd : Fd)
  | inside (fd : Fd)
  | ended (fd : Fd)
  deriving DecidableEq

/-- The descriptors of the process, and what the threads share. -/
structure World where
  clock : ℕ
  table : Fd → Option Holder
  others : Finset Fd
  handed : List Fd
  admitted : Fd → Bool
  scanners : ℕ
  purging : Purging
  byteWritten : Bool

/-- The process before `Server::run`, with some descriptors in use. -/
def World.start (others : Finset Fd) : World where
  clock := 0
  table fd := if fd ∈ others then some .elsewhere else none
  others := others
  handed := []
  admitted _ := false
  scanners := 0
  purging := .absent
  byteWritten := false

/-- What the system and the clients answer, as time goes by. A descriptor that is in
use is never given out again. -/
structure Surroundings where
  accessFileOk : ℕ → Bool
  usableScanner : ℕ → Bool
  terminationStatus : ℕ → Status
  pipe : ℕ → Option (Fd × Fd)
  descriptor : ℕ → Option Fd
  determineAddresses : ℕ → Option ℕ
  listen : ℕ → Bool
  addressNotAvailable : ℕ → Bool
  poll : ℕ → Polled
  readStatus : ℕ → Bool
  select : ℕ → Selected
  nextThread : ℕ → Fd
  isAllowed : ℕ → Bool
  exchange : ℕ → Bool

namespace World
variable (E : Surroundings) (w : World)

def free (fd : Fd) : Bool := (w.table fd).isNone

def newDescriptor : Option Fd := (E.descriptor w.clock).filter w.free

def newPipe : Option (Fd × Fd) :=
  (E.pipe w.clock).filter fun p => w.free p.1 && w.free p.2 && p.1 != p.2

def tick : World := { w with clock := w.clock + 1 }

def give (fd : Fd) (h : Holder) : World := { w with table := Function.update w.table fd (some h) }

def give? (fd : Option Fd) (h : Holder) : World := fd.elim w fun fd => w.give fd h

/-- `close` asks nobody who holds the descriptor. -/
def close (fd : Fd) : World := { w with table := Function.update w.table fd none }

end World

/-- What a command of a thread does. A thread that has not been started does not
begin, and `join` does not return before the purge thread has ended. -/
def exec (E : Surroundings) (t : Thread) : Handler Command Answer World
  | .accessFileOk, w => some (E.accessFileOk w.clock, w.tick)
  | .usableScanner, w => some (E.usableScanner w.clock, w.tick)
  | .pushScanner, w => some ((), { w.tick with scanners := w.scanners + 1 })
  | .clearScanners, w => some ((), { w.tick with scanners := 0 })
  | .terminationStatus, w => some (E.terminationStatus w.clock, w.tick)
  | .pipe _, w => match w.newPipe E with
    | some (r, x) => some (some (r, x), (w.tick.give r .server).give x .server)
    | none => some (none, w.tick)
  | .close none, w => some ((), w.tick)
  | .close (some fd), w => some ((), w.tick.close fd)
  | .startThread fd, w => some ((), { w.tick with purging := .started fd, byteWritten := false })
  | .joinable, w => some (w.purging != .absent, w.tick)
  | .writeByte _, w => some ((), { w.tick with byteWritten := true })
  | .join, w => match w.purging with
    | .ended _ => some ((), { w.tick with purging := .absent })
    | _ => none
  | .determineAddresses, w => some (E.determineAddresses w.clock, w.tick)
  | .socket, w => some (w.newDescriptor E, w.tick.give? (w.newDescriptor E) .server)
  | .listen _, w => some (E.listen w.clock, w.tick)
  | .addressNotAvailable, w => some (E.addressNotAvailable w.clock, w.tick)
  | .poll _ _, w => some (E.poll w.clock, w.tick)
  | .readStatus _, w => some (E.readStatus w.clock, w.tick)
  | .accept none, w => some (none, w.tick)
  | .accept (some _), w => match w.newDescriptor E with
    | some fd => some (some fd, { w.tick.give fd .server with
        admitted := Function.update w.admitted fd false })
    | none => some (none, w.tick)
  | .detach fd, w => some ((), { w.tick.give fd .handed with handed := fd :: w.handed })
  | .begin, w => match w.purging with
    | .started fd => some (fd, { w.tick with purging := .inside fd })
    | _ => none
  | .select _, w => some (if w.byteWritten then .readable else E.select w.clock, w.tick)
  | .hasEntry i, w => some (decide (i < w.scanners), w.tick)
  | .purgeJobs _, w => some ((), w.tick)
  | .finish, w => match w.purging with
    | .inside fd => some ((), { w.tick with purging := .ended fd })
    | _ => none
  | .started, w => match t with
    | .request n => if E.nextThread w.clock ∈ w.handed then
        some (E.nextThread w.clock, { w.tick.give (E.nextThread w.clock) (.request n) with
          handed := w.handed.erase (E.nextThread w.clock) })
      else none
    | _ => none
  | .isAllowed fd, w => some (E.isAllowed w.clock,
      { w.tick with admitted := Function.update w.admitted fd (E.isAllowed w.clock) })
  | .exchange _, w => some (E.exchange w.clock, w.tick)

inductive Call where
  | runServer (fuel : ℕ)
  | threadFunc (fuel : ℕ)
  | handleRequest (n fuel : ℕ)

def Call.caller : Call → Thread
  | .runServer _ => .server
  | .threadFunc _ => .purge
  | .handleRequest n _ => .request n

/-- What a thread executes; the one of a request is given its connection when it starts. -/
def Call.text : Call → ThreadM Unit
  | .runServer fuel => do
    let _ ← Lifetimes.runServer fuel
    return ()
  | .threadFunc fuel => Lifetimes.threadFunc fuel
  | .handleRequest _ fuel => do
    Lifetimes.handleRequest fuel (← access .started)

/-- The threads of the daemon, in any order of their steps. -/
def daemon (E : Surroundings) : Interleaving Thread Call Command Answer World Unit where
  caller := Call.caller
  body := Call.text
  exec := exec E
  returned _ w := w

end AirSane.Lifetimes
