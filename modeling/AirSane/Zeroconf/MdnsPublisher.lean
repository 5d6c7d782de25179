import AirSane.Text.Octets

/-! # The publisher of services

`MdnsPublisher` over avahi, with its client callback, which avahi may call before
it returns a new client. Announcing succeeds where there is a client. What avahi
reported and what was announced is kept beside the fields.
-/

namespace AirSane
open Text

/-- `AvahiClientState`. -/
inductive ClientState where
  | S_REGISTERING | S_RUNNING | S_COLLISION | FAILURE | CONNECTING
  deriving DecidableEq

def ClientState.connected : ClientState → Bool
  | S_REGISTERING | S_RUNNING | S_COLLISION => true
  | FAILURE | CONNECTING => false

/-- What `avahi_client_new` does: it may report states that are not failures, and
returns a client that may have a host name. -/
structure NewClient where
  reports : List ClientState
  noFailure : .FAILURE ∉ reports
  success : Bool
  hostNameFqdn : Option Octets

structure ServiceEntry (S : Type) where
  mpService : S
  /-- The client of the entry group, if there is one. -/
  mpEntryGroup : Option ℕ
  deriving DecidableEq

namespace ServiceEntry
variable {S : Type}

def unannounce (e : ServiceEntry S) : ServiceEntry S := { e with mpEntryGroup := none }

/-- The entry after `announce`, and whether that was successful. -/
def announce (client : Option ℕ) (e : ServiceEntry S) : ServiceEntry S × Bool :=
  match client with
  | none => (e.unannounce, false)
  | some c => ({ e with mpEntryGroup := some c }, true)

/-- The announcement that comes of `announce`. -/
def announcement (client : Option ℕ) (e : ServiceEntry S) : List (S × ℕ) :=
  client.toList.map fun c => (e.mpService, c)

end ServiceEntry

/-- `MdnsPublisher::Private`. Clients are numbered as avahi makes them. -/
structure MdnsPublisher (S : Type) where
  mpClient : Option ℕ
  mState : ClientState
  mHostnameFqdn : Octets
  mHostname : Octets
  mServices : List (ServiceEntry S)
  clients : ℕ
  /-- The last state that was reported of the newest client. -/
  reported : Option ClientState
  announced : List (S × ℕ)

namespace MdnsPublisher
variable {S : Type} (p : MdnsPublisher S)

def onConnected : MdnsPublisher S :=
  { p with
    mServices := p.mServices.map fun e => (e.announce p.mpClient).1
    announced := p.announced ++ p.mServices.flatMap (·.announcement p.mpClient) }

/-- `clientCallback`, where the last argument is what a failure leads to. -/
def clientCallback (state : ClientState) (onFailure : MdnsPublisher S → MdnsPublisher S) :
    MdnsPublisher S :=
  let p := { p with reported := some state }
  let p := if p.mState = .CONNECTING ∧ state.connected then p.onConnected else p
  let p := if state = .FAILURE then onFailure p else p
  { p with mState := state }

def destroyClient : MdnsPublisher S :=
  match p.mpClient with
  | some _ => { p with mServices := p.mServices.map (·.unannounce), mpClient := none }
  | none => p

/-- The reports of a new client, while the client before is gone. -/
def receive (reports : List ClientState) : MdnsPublisher S :=
  reports.foldl (fun p state => p.clientCallback state id) { p with
    clients := p.clients + 1
    reported := none }

def setHostname (name : Octets) : MdnsPublisher S :=
  { p with mHostnameFqdn := name, mHostname := name.takeWhile (· ≠ 46) }

def createClient (new : NewClient) : MdnsPublisher S :=
  let p := p.destroyClient.receive new.reports
  if new.success then
    let p := { p with mpClient := some p.clients }
    match new.hostNameFqdn with
    | some name => p.setHostname name
    | none => p
  else { p with mpClient := none }

def onDisconnected (new : NewClient) : MdnsPublisher S := p.destroyClient.createClient new

def onError : MdnsPublisher S := p.destroyClient

/-- The constructor. -/
def init (new : NewClient) : MdnsPublisher S :=
  createClient ⟨none, .CONNECTING, [], [], [], 0, none, []⟩ new

variable [DecidableEq S]

/-- `announce`, with what it returns. -/
def announce (v : S) : MdnsPublisher S × Bool :=
  if ∃ e ∈ p.mServices, e.mpService = v then (p, true)
  else
    let e := (⟨v, none⟩ : ServiceEntry S)
    ({ p with
        mServices := p.mServices ++ [(e.announce p.mpClient).1]
        announced := p.announced ++ e.announcement p.mpClient },
      (e.announce p.mpClient).2)

/-- `unannounce`, with what it returns. -/
def unannounce (v : S) : MdnsPublisher S × Bool :=
  if ∃ e ∈ p.mServices, e.mpService = v then
    ({ p with mServices := p.mServices.eraseP (·.mpService = v) }, true)
  else (p, false)

/-- `ServiceEntry::onCollision`: a new name, announced with the client of the group. -/
def onCollision (v : S) : MdnsPublisher S :=
  { p with
    mServices := p.mServices.map fun e =>
      if e.mpService = v then (e.announce e.mpEntryGroup).1 else e
    announced := p.announced ++ p.mServices.flatMap fun e =>
      if e.mpService = v then e.announcement e.mpEntryGroup else [] }

/-- `ServiceEntry::onError`. -/
def onGroupError (v : S) : MdnsPublisher S :=
  { p with mServices := p.mServices.map fun e => if e.mpService = v then e.unannounce else e }

end MdnsPublisher

/-- What happens to a publisher while no callback is in progress: calls of it,
reports of its client, and reports of the entry group of a service. -/
inductive Event (S : Type) where
  | announce (v : S)
  | unannounce (v : S)
  | connected (state : ClientState) (h : state.connected = true)
  | disconnected (new : NewClient)
  | failed
  | groupCollision (v : S)
  | groupFailure (v : S)

namespace MdnsPublisher
variable {S : Type} [DecidableEq S]

/-- A client reports as long as it is the current one, and so does an entry group. -/
def step (p : MdnsPublisher S) : Event S → Option (MdnsPublisher S)
  | .announce v => some (p.announce v).1
  | .unannounce v => some (p.unannounce v).1
  | .connected state _ => if p.mpClient.isSome then some (p.clientCallback state id) else none
  | .disconnected new =>
    if p.mpClient.isSome then some (p.clientCallback .FAILURE fun p => p.onDisconnected new) else none
  | .failed => if p.mpClient.isSome then some (p.clientCallback .FAILURE onError) else none
  | .groupCollision v =>
    if ∃ e ∈ p.mServices, e.mpService = v ∧ e.mpEntryGroup.isSome then some (p.onCollision v)
    else none
  | .groupFailure v =>
    if ∃ e ∈ p.mServices, e.mpService = v ∧ e.mpEntryGroup.isSome then some (p.onGroupError v)
    else none

def run (new : NewClient) (events : List (Event S)) : Option (MdnsPublisher S) :=
  events.foldlM step (init new)

end MdnsPublisher
end AirSane
