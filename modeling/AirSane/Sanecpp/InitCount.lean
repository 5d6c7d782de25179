import AirSane.Programs.Interleaving
import AirSane.Sanecpp.Types
import Mathlib.Data.Set.Card

/-! # When libsane is initialised

`sanecpp` counts who needs libsane: `init` objects, calls that are running, and
device handles that are shared. Any threads construct and destroy objects, open
and let go of devices and enumerate them, with their commands in any order; the
calls that libsane gets are a history of the library.
-/

namespace AirSane.Sanecpp
open Programs Program Interleaving Function

inductive SaneCall where
  | saneInit
  | saneExit
  | saneOpen (h : Option Handle)
  | saneClose (h : Handle)
  | saneGetDevices
  deriving DecidableEq

/-- What libsane is asked to be at a call. -/
structure Sane where
  initialised : Bool
  opened : List Handle

/-- The calls that SANE allows: initialising what is not, and everything else
only while it is; closing what is open, and no exit before all is closed. -/
def Sane.call (σ : Sane) : SaneCall → Option Sane
  | .saneInit => if σ.initialised then none else some { σ with initialised := true }
  | .saneExit => if σ.initialised ∧ σ.opened = [] then some { σ with initialised := false } else none
  | .saneOpen h => if σ.initialised then some { σ with opened := h.toList ++ σ.opened } else none
  | .saneClose h => if σ.initialised ∧ h ∈ σ.opened then
      some { σ with opened := σ.opened.filter (· ≠ h) } else none
  | .saneGetDevices => if σ.initialised then some σ else none

def Sane.calls (calls : List SaneCall) : Option Sane := calls.foldlM Sane.call ⟨false, []⟩

/-- The commands of `sanecpp`, with those by which an `init` object or a shared
handle comes to live or ends to. -/
inductive Command where
  | saneInitAddref
  | saneInitRelease
  | saneOpen
  | saneClose (h : Handle)
  | saneGetDevices
  | constructed
  | destroyed
  | share (h : Handle)
  | dropLast (h : Handle)

abbrev Answer : Command → Type
  | .saneOpen => SaneStatus × Handle
  | _ => Unit

/-- The reference count and the objects that live, and the calls to libsane. -/
structure Library where
  saneInitRefcount : ℤ
  inits : ℕ
  handles : List Handle
  opens : ℕ
  calls : List SaneCall

def Library.initial : Library := ⟨0, 0, [], 0, []⟩

variable {T : Type} [DecidableEq T]

/-- A command, with the status of every `sane_open` given. A failed assertion
has no result, nor has the end of what does not live. -/
def exec (statuses : ℕ → SaneStatus) : Handler Command Answer Library
  | .saneInitAddref, w => some ((), { w with
      saneInitRefcount := w.saneInitRefcount + 1
      calls := if w.saneInitRefcount + 1 = 1 then w.calls ++ [.saneInit] else w.calls })
  | .saneInitRelease, w => if 0 < w.saneInitRefcount then some ((), { w with
      saneInitRefcount := w.saneInitRefcount - 1
      calls := if w.saneInitRefcount - 1 = 0 then w.calls ++ [.saneExit] else w.calls }) else none
  | .saneOpen, w => some ((statuses w.opens, w.opens), { w with
      opens := w.opens + 1
      calls := w.calls ++
        [.saneOpen (if statuses w.opens = .good then some w.opens else none)] })
  | .saneClose h, w => some ((), { w with calls := w.calls ++ [.saneClose h] })
  | .saneGetDevices, w => some ((), { w with calls := w.calls ++ [.saneGetDevices] })
  | .constructed, w => some ((), { w with inits := w.inits + 1 })
  | .destroyed, w => if 0 < w.inits then some ((), { w with inits := w.inits - 1 }) else none
  | .share h, w => some ((), { w with handles := h :: w.handles })
  | .dropLast h, w =>
    if h ∈ w.handles then some ((), { w with handles := w.handles.erase h }) else none

abbrev Text := Program Command Answer Unit

def issue (c : Command) : Program Command Answer (Answer c) := perform c

/-- `init::init`. -/
def construct : Text := do
  issue .saneInitAddref
  issue .constructed

/-- `init::~init`. -/
def destruct : Text := do
  issue .destroyed
  issue .saneInitRelease

/-- `open`. -/
def openDevice : Text := do
  issue .saneInitAddref
  let answer ← issue .saneOpen
  if answer.1 = .good then issue (.share answer.2)
  else issue .saneInitRelease

/-- The deleter of a shared handle, when its last reference goes. -/
def deleter (h : Handle) : Text := do
  issue (.dropLast h)
  issue (.saneClose h)
  issue .saneInitRelease

/-- `enumerate_devices`. -/
def enumerateDevices : Text := do
  issue .saneInitAddref
  issue .saneGetDevices
  issue .saneInitRelease

inductive LibraryCall (T : Type) where
  | construct (t : T)
  | destruct (t : T)
  | openDevice (t : T)
  | deleter (t : T) (h : Handle)
  | enumerateDevices (t : T)

def LibraryCall.caller : LibraryCall T → T
  | .construct t | .destruct t | .openDevice t | .deleter t _ | .enumerateDevices t => t

def LibraryCall.text : LibraryCall T → Text
  | .construct _ => Sanecpp.construct
  | .destruct _ => Sanecpp.destruct
  | .openDevice _ => Sanecpp.openDevice
  | .deleter _ h => Sanecpp.deleter h
  | .enumerateDevices _ => Sanecpp.enumerateDevices

/-- Any threads that use the library. -/
def sharing (T : Type) (statuses : ℕ → SaneStatus) :
    Interleaving T (LibraryCall T) Command Answer Library Unit where
  caller := LibraryCall.caller
  body := LibraryCall.text
  exec _ := exec statuses
  returned _ w := w

end AirSane.Sanecpp
