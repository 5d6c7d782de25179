import AirSane.Zeroconf.MdnsPublisher
import Mathlib.Data.List.Induction
import Mathlib.Data.List.Nodup

/-! # Services after the daemon was gone

A callback for a failure writes its state over the one that the callbacks of the
new client left. From then on no report is taken for the first one of a client, so
that services that were there before the failure are not announced again.
-/

namespace AirSane

/-- The services that are registered, and those among them that were so when the
last client was lost. -/
structure Registry (S : Type) where
  services : List S
  survivors : List S

def Registry.empty {S : Type} : Registry S := ⟨[], []⟩

section
variable {S : Type} [DecidableEq S]

def Registry.next (r : Registry S) : Event S → Registry S
  | .announce v => if v ∈ r.services then r else { r with services := r.services ++ [v] }
  | .unannounce v => ⟨r.services.erase v, r.survivors.filter (· ≠ v)⟩
  | .disconnected _ => ⟨r.services, r.services⟩
  | .connected _ _ => r
  | .failed => r
  | .groupCollision _ => r
  | .groupFailure _ => r

/-- The services whose registration is older than the client. -/
def survivors (events : List (Event S)) : List S :=
  (events.foldl Registry.next .empty).survivors

end

namespace MdnsPublisher
variable {S : Type}

/-- The last that was reported of the current client is that it is connected. -/
def Connected (p : MdnsPublisher S) (client : ℕ) : Prop :=
  p.mpClient = some client ∧ ∃ state, p.reported = some state ∧ state.connected = true

/-- All services are announced on the current client if it is connected. -/
def Reannounced (p : MdnsPublisher S) : Prop :=
  ∀ client, p.Connected client → ∀ e ∈ p.mServices, (e.mpService, client) ∈ p.announced

/-- What a registry says about a publisher: services are announced on the current
client but for the survivors, which have no entry group and will not get one. -/
structure Inv (p : MdnsPublisher S) (r : Registry S) : Prop where
  services : p.mServices.map (·.mpService) = r.services
  nodup : r.services.Nodup
  survivors : ∀ v ∈ r.survivors, v ∈ r.services
  state : p.mState = .CONNECTING → r.survivors = []
  client : ∀ c, p.mpClient = some c → c = p.clients
  announced : ∀ a ∈ p.announced, a.2 ≤ p.clients ∧ (a.2 = p.clients → a.1 ∉ r.survivors)
  current : p.mpClient.isSome → ∀ e ∈ p.mServices,
    e.mpService ∉ r.survivors → (e.mpService, p.clients) ∈ p.announced
  group : ∀ e ∈ p.mServices, ∀ c, e.mpEntryGroup = some c →
    p.mpClient = some c ∧ e.mpService ∉ r.survivors

section
variable {p : MdnsPublisher S} {r : Registry S} {state : ClientState} {new : NewClient}

theorem Inv.announced_iff (h : Inv p r) :
    p.Reannounced ↔ ∀ client, p.Connected client → r.survivors = [] := by
  constructor
  · intro hall client hc
    by_contra hne
    rcases List.exists_mem_of_ne_nil _ hne with ⟨v, hv⟩
    have hmem := h.survivors v hv
    rw [← h.services, List.mem_map] at hmem
    rcases hmem with ⟨e, he, rfl⟩
    have hannounced := hall client hc e he
    exact (h.announced _ hannounced).2 (h.client client hc.1) hv
  · intro hall client hc e he
    rw [h.client client hc.1]
    refine h.current (Option.isSome_of_mem hc.1) e he ?_
    rw [hall client hc]
    exact List.not_mem_nil

theorem Inv.onConnected (h : Inv p r) (hs : r.survivors = []) : Inv p.onConnected r := by
  have hnames : (fun e => ((ServiceEntry.announce p.mpClient e).1).mpService) =
      fun e : ServiceEntry S => e.mpService := by
    funext e
    cases hc : p.mpClient <;> rfl
  refine ⟨?_, h.nodup, h.survivors, h.state, h.client, ?_, ?_, ?_⟩
  · rw [MdnsPublisher.onConnected, List.map_map, ← h.services]
    exact congrArg (List.map · p.mServices) hnames
  · intro a ha
    rw [MdnsPublisher.onConnected, List.mem_append, List.mem_flatMap] at ha
    rcases ha with ha | ⟨e, he, ha⟩
    · exact h.announced a ha
    · cases hc : p.mpClient with
      | none => simp [ServiceEntry.announcement, hc] at ha
      | some c =>
        have hac : a = (e.mpService, c) := by simpa [ServiceEntry.announcement, hc] using ha
        rw [hac, hs]
        exact ⟨(h.client c hc).le, fun _ => List.not_mem_nil⟩
  · intro hsome e he hnot
    rcases List.mem_map.1 he with ⟨e', he', rfl⟩
    have hname : (e'.announce p.mpClient).1.mpService = e'.mpService := congrFun hnames e'
    rw [hname] at hnot ⊢
    exact List.mem_append_left _ (h.current hsome e' he' hnot)
  · intro e he c hc
    rcases List.mem_map.1 he with ⟨e', he', rfl⟩
    cases hclient : p.mpClient with
    | none =>
      rw [hclient] at hc
      cases hc
    | some c' =>
      rw [hclient] at hc
      rw [hs]
      exact ⟨hclient.trans hc, List.not_mem_nil⟩

theorem Inv.setState (h : Inv p r) (hs : state = .CONNECTING → r.survivors = []) :
    Inv { p with mState := state } r :=
  ⟨h.services, h.nodup, h.survivors, hs, h.client, h.announced, h.current, h.group⟩

theorem Inv.setReported (h : Inv p r) {reported : Option ClientState} :
    Inv { p with reported := reported } r :=
  ⟨h.services, h.nodup, h.survivors, h.state, h.client, h.announced, h.current, h.group⟩

theorem clientCallback_failure {onFailure : MdnsPublisher S → MdnsPublisher S} :
    p.clientCallback .FAILURE onFailure =
      { onFailure { p with reported := some .FAILURE } with mState := .FAILURE } := by
  simp [MdnsPublisher.clientCallback, ClientState.connected]

/-- A report that is no failure. -/
theorem Inv.clientCallback (h : Inv p r) (hs : state.connected = true) :
    Inv (p.clientCallback state id) r := by
  have hconnecting : state = .CONNECTING → r.survivors = [] := by
    rintro rfl
    cases hs
  have hfailure : state ≠ .FAILURE := by
    rintro rfl
    cases hs
  rw [MdnsPublisher.clientCallback]
  simp only [hs, and_true, hfailure, if_false]
  split_ifs with hstate
  · exact (h.setReported.onConnected (h.state hstate)).setState hconnecting
  · exact h.setReported.setState hconnecting

/-- No client, and no entry group. -/
structure Bare (p : MdnsPublisher S) : Prop where
  mpClient : p.mpClient = none
  group : ∀ e ∈ p.mServices, e.mpEntryGroup = none

theorem Bare.onConnected (h : Bare p) : p.onConnected = p := by
  have hservices : p.mServices.map (fun e => (e.announce p.mpClient).1) = p.mServices := by
    rw [h.mpClient]
    conv_rhs => rw [← List.map_id p.mServices]
    apply List.map_congr_left
    intro e he
    cases e with
    | mk v group =>
      have hnone := h.group _ he
      dsimp only at hnone
      rw [hnone]
      rfl
  have hannounced : p.mServices.flatMap (·.announcement p.mpClient) = [] := by
    rw [h.mpClient]
    exact List.flatMap_eq_nil_iff.2 fun e _ => rfl
  rw [MdnsPublisher.onConnected, hservices, hannounced, List.append_nil]

theorem Bare.clientCallback (h : Bare p) (hs : state ≠ .FAILURE) :
    p.clientCallback state id = { p with reported := some state, mState := state } := by
  have hreported : Bare { p with reported := some state } := ⟨h.mpClient, h.group⟩
  rw [MdnsPublisher.clientCallback]
  simp only [hs, if_false]
  split_ifs
  · rw [hreported.onConnected]
  · rfl

/-- Reports of a client that is not there yet announce nothing. -/
theorem Bare.foldl (h : Bare p) {reports : List ClientState} (hr : .FAILURE ∉ reports) :
    ∃ last state, reports.foldl (fun p state => p.clientCallback state id) p =
      { p with reported := last, mState := state } := by
  induction reports generalizing p with
  | nil => exact ⟨p.reported, p.mState, rfl⟩
  | cons state reports ih =>
    rw [List.mem_cons, not_or] at hr
    rw [List.foldl_cons, h.clientCallback fun hs => hr.1 hs.symm]
    exact ih (p := { p with reported := some state, mState := state }) ⟨h.mpClient, h.group⟩ hr.2

theorem bare_destroyClient (h : Inv p r) : Bare p.destroyClient := by
  rw [MdnsPublisher.destroyClient]
  cases hc : p.mpClient with
  | none =>
    refine ⟨hc, fun e he => ?_⟩
    cases hg : e.mpEntryGroup with
    | none => rfl
    | some c =>
      have hclient := (h.group e he c hg).1
      rw [hc] at hclient
      cases hclient
  | some c =>
    refine ⟨rfl, fun e he => ?_⟩
    rcases List.mem_map.1 he with ⟨e', -, rfl⟩
    rfl

theorem destroyClient_fields : p.destroyClient.mServices.map (·.mpService) =
      p.mServices.map (·.mpService) ∧
    p.destroyClient.clients = p.clients ∧ p.destroyClient.announced = p.announced := by
  rw [MdnsPublisher.destroyClient]
  cases p.mpClient with
  | none => exact ⟨rfl, rfl, rfl⟩
  | some c => exact ⟨by rw [List.map_map]; rfl, rfl, rfl⟩

theorem Bare.destroyClient (h : Bare p) : p.destroyClient = p := by
  rw [MdnsPublisher.destroyClient, h.mpClient]

variable (new) in
/-- A new client comes to the services without a word to them. -/
theorem Bare.createClient (h : Bare p) : ∃ client last state fqdn host,
    p.createClient new = { p with
      mpClient := client
      mState := state
      mHostnameFqdn := fqdn
      mHostname := host
      clients := p.clients + 1
      reported := last } ∧ ∀ c, client = some c → c = p.clients + 1 := by
  have hnext : Bare { p with clients := p.clients + 1, reported := none } := ⟨h.mpClient, h.group⟩
  rcases hnext.foldl new.noFailure with ⟨last, state, hfold⟩
  rw [MdnsPublisher.createClient, h.destroyClient, MdnsPublisher.receive, hfold]
  by_cases hs : new.success = true
  · rw [if_pos hs]
    cases new.hostNameFqdn with
    | none => exact ⟨some (p.clients + 1), last, state, _, _, rfl, fun c hc => (Option.some.inj hc).symm⟩
    | some name =>
      exact ⟨some (p.clients + 1), last, state, _, _, rfl, fun c hc => (Option.some.inj hc).symm⟩
  · rw [if_neg hs]
    exact ⟨none, last, state, _, _, rfl, fun c hc => by cases hc⟩

/-- After a new client all services are survivors, and none will be announced by
a report. -/
theorem Inv.createClient (h : Inv p r) :
    Inv { p.destroyClient.createClient new with mState := .FAILURE } ⟨r.services, r.services⟩ := by
  rcases (bare_destroyClient h).createClient new with
    ⟨client, last, state, fqdn, host, heq, hclient⟩
  have hfields := destroyClient_fields (p := p)
  have hnames : p.destroyClient.mServices.map (·.mpService) = r.services :=
    hfields.1.trans h.services
  rw [heq]
  refine ⟨hnames, h.nodup, fun v hv => hv, ?_, hclient, ?_, ?_, ?_⟩
  · intro hs
    cases hs
  · intro a ha
    have hold := (h.announced a (hfields.2.2 ▸ ha)).1
    rw [hfields.2.1]
    exact ⟨hold.trans (Nat.le_succ _), fun heq => absurd heq (Nat.lt_succ_of_le hold).ne⟩
  · intro _ e he hnot
    rw [← hnames] at hnot
    exact absurd (List.mem_map_of_mem he) hnot
  · intro e he c hc
    have hnone := (bare_destroyClient h).group e he
    rw [hnone] at hc
    cases hc

theorem Inv.destroyClient (h : Inv p r) : Inv p.destroyClient r := by
  have hbare := bare_destroyClient h
  have hfields := destroyClient_fields (p := p)
  refine ⟨hfields.1.trans h.services, h.nodup, h.survivors, ?_, ?_, ?_, ?_, ?_⟩
  · have hstate : p.destroyClient.mState = p.mState := by
      rw [MdnsPublisher.destroyClient]
      cases p.mpClient <;> rfl
    rw [hstate]
    exact h.state
  · intro c hc
    rw [hbare.mpClient] at hc
    cases hc
  · rw [hfields.2.1, hfields.2.2]
    exact h.announced
  · intro hsome
    rw [hbare.mpClient] at hsome
    cases hsome
  · intro e he c hc
    rw [hbare.group e he] at hc
    cases hc

theorem inv_init : Inv (init new : MdnsPublisher S) .empty := by
  have hbare : Bare (⟨none, .CONNECTING, [], [], [], 0, none, []⟩ : MdnsPublisher S) :=
    ⟨rfl, fun e he => by cases he⟩
  rcases hbare.createClient new with ⟨client, last, state, fqdn, host, heq, hclient⟩
  rw [init, heq]
  refine ⟨rfl, List.nodup_nil, fun v hv => hv, fun _ => rfl, hclient, ?_, ?_, ?_⟩
  · intro a ha
    cases ha
  · intro _ e he
    cases he
  · intro e he
    cases he

section
variable [DecidableEq S] {v : S}

theorem Inv.announce (h : Inv p r) : Inv (p.announce v).1 (r.next (.announce v)) := by
  have hiff : (∃ e ∈ p.mServices, e.mpService = v) ↔ v ∈ r.services := by
    rw [← h.services, List.mem_map]
  rw [MdnsPublisher.announce, Registry.next]
  by_cases hv : v ∈ r.services
  · rw [if_pos (hiff.2 hv), if_pos hv]
    exact h
  · have hnot : v ∉ r.survivors := fun hs => hv (h.survivors v hs)
    have hname : ((⟨v, none⟩ : ServiceEntry S).announce p.mpClient).1.mpService = v := by
      cases p.mpClient <;> rfl
    rw [if_neg (hiff.not.2 hv), if_neg hv]
    refine ⟨?_, ?_, ?_, h.state, h.client, ?_, ?_, ?_⟩
    · rw [List.map_append, h.services, List.map_singleton, hname]
    · rw [List.nodup_append]
      refine ⟨h.nodup, List.nodup_singleton v, fun x hx y hy hxy => hv ?_⟩
      rwa [← List.mem_singleton.1 hy, ← hxy]
    · exact fun w hw => List.mem_append_left _ (h.survivors w hw)
    · intro a ha
      rcases List.mem_append.1 ha with ha | ha
      · exact h.announced a ha
      · cases hc : p.mpClient with
        | none => simp [ServiceEntry.announcement, hc] at ha
        | some c =>
          have hac : a = (v, c) := by simpa [ServiceEntry.announcement, hc] using ha
          rw [hac]
          exact ⟨(h.client c hc).le, fun _ => hnot⟩
    · intro hsome e he hne
      rcases List.mem_append.1 he with he | he
      · exact List.mem_append_left _ (h.current hsome e he hne)
      · rw [List.mem_singleton.1 he, hname]
        rcases Option.isSome_iff_exists.1 hsome with ⟨c, hc⟩
        dsimp only at hc
        refine List.mem_append_right _ ?_
        simp [ServiceEntry.announcement, hc, h.client c hc]
    · intro e he c hg
      rcases List.mem_append.1 he with he | he
      · exact h.group e he c hg
      · rw [List.mem_singleton.1 he] at hg ⊢
        rw [hname]
        cases hc : p.mpClient with
        | none =>
          rw [hc] at hg
          cases hg
        | some c' =>
          rw [hc] at hg
          exact ⟨hg, hnot⟩

theorem Inv.unannounce (h : Inv p r) : Inv (p.unannounce v).1 (r.next (.unannounce v)) := by
  have hiff : (∃ e ∈ p.mServices, e.mpService = v) ↔ v ∈ r.services := by
    rw [← h.services, List.mem_map]
  rw [MdnsPublisher.unannounce, Registry.next]
  by_cases hv : v ∈ r.services
  · rw [if_pos (hiff.2 hv)]
    have hnames : (p.mServices.eraseP (·.mpService = v)).map (·.mpService) = r.services.erase v := by
      rw [← h.services, List.erase_eq_eraseP', List.eraseP_map]
      rfl
    have hmem : ∀ e ∈ p.mServices.eraseP (·.mpService = v), e ∈ p.mServices ∧ e.mpService ≠ v := by
      intro e he
      have hname : e.mpService ∈ r.services.erase v := hnames ▸ List.mem_map_of_mem he
      exact ⟨List.mem_of_mem_eraseP he, (h.nodup.mem_erase_iff.1 hname).1⟩
    refine ⟨hnames, h.nodup.erase v, ?_, ?_, h.client, ?_, ?_, ?_⟩
    · intro w hw
      rw [List.mem_filter, decide_eq_true_eq] at hw
      exact h.nodup.mem_erase_iff.2 ⟨hw.2, h.survivors w hw.1⟩
    · intro hs
      rw [h.state hs]
      rfl
    · intro a ha
      refine ⟨(h.announced a ha).1, fun heq hm => (h.announced a ha).2 heq ?_⟩
      exact (List.mem_filter.1 hm).1
    · intro hsome e he hne
      refine h.current hsome e (hmem e he).1 fun hs => hne ?_
      exact List.mem_filter.2 ⟨hs, decide_eq_true (hmem e he).2⟩
    · intro e he c hg
      have hold := h.group e (hmem e he).1 c hg
      exact ⟨hold.1, fun hm => hold.2 (List.mem_filter.1 hm).1⟩
  · have hsurvivors : r.survivors.filter (· ≠ v) = r.survivors := by
      rw [List.filter_eq_self]
      intro w hw
      exact decide_eq_true fun heq => hv (heq ▸ h.survivors w hw)
    rw [if_neg (hiff.not.2 hv), List.erase_of_not_mem hv, hsurvivors]
    exact h

theorem Inv.onCollision (h : Inv p r) : Inv (p.onCollision v) r := by
  have hentry (e : ServiceEntry S) : ((e.announce e.mpEntryGroup).1) = e := by
    cases e with
    | mk w group => cases group <;> rfl
  have hservices : (p.mServices.map fun e =>
      if e.mpService = v then (e.announce e.mpEntryGroup).1 else e) = p.mServices := by
    conv_rhs => rw [← List.map_id p.mServices]
    apply List.map_congr_left
    intro e he
    rw [hentry, ite_self]
    rfl
  rw [MdnsPublisher.onCollision, hservices]
  refine ⟨h.services, h.nodup, h.survivors, h.state, h.client, ?_, ?_, h.group⟩
  · intro a ha
    rcases List.mem_append.1 ha with ha | ha
    · exact h.announced a ha
    · rcases List.mem_flatMap.1 ha with ⟨e, he, ha⟩
      split_ifs at ha with hname
      · cases hg : e.mpEntryGroup with
        | none => simp [ServiceEntry.announcement, hg] at ha
        | some c =>
          have hac : a = (e.mpService, c) := by simpa [ServiceEntry.announcement, hg] using ha
          have hgroup := h.group e he c hg
          rw [hac]
          exact ⟨(h.client c hgroup.1).le, fun _ => hgroup.2⟩
      · cases ha
  · exact fun hsome e he hnot => List.mem_append_left _ (h.current hsome e he hnot)

theorem Inv.onGroupError (h : Inv p r) : Inv (p.onGroupError v) r := by
  have hnames : (fun e : ServiceEntry S => (if e.mpService = v then e.unannounce else e).mpService) =
      fun e => e.mpService := by
    funext e
    split_ifs <;> rfl
  refine ⟨?_, h.nodup, h.survivors, h.state, h.client, h.announced, ?_, ?_⟩
  · rw [MdnsPublisher.onGroupError, List.map_map, ← h.services]
    exact congrArg (List.map · p.mServices) hnames
  · intro hsome e he hnot
    rcases List.mem_map.1 he with ⟨e', he', rfl⟩
    rw [congrFun hnames e'] at hnot ⊢
    exact h.current hsome e' he' hnot
  · intro e he c hg
    rcases List.mem_map.1 he with ⟨e', he', rfl⟩
    split_ifs at hg ⊢
    · cases hg
    · exact h.group e' he' c hg

/-- Every event keeps what the registry says. -/
theorem Inv.step {p' : MdnsPublisher S} {event : Event S} (h : Inv p r)
    (hp : p.step event = some p') : Inv p' (r.next event) := by
  cases event with
  | announce v =>
    rw [← Option.some.inj hp]
    exact h.announce
  | unannounce v =>
    rw [← Option.some.inj hp]
    exact h.unannounce
  | connected state hs =>
    rw [MdnsPublisher.step] at hp
    split_ifs at hp
    rw [← Option.some.inj hp]
    exact h.clientCallback hs
  | disconnected new =>
    rw [MdnsPublisher.step] at hp
    split_ifs at hp
    rw [← Option.some.inj hp, clientCallback_failure]
    exact h.setReported.createClient
  | failed =>
    rw [MdnsPublisher.step] at hp
    split_ifs at hp
    rw [← Option.some.inj hp, clientCallback_failure]
    exact h.setReported.destroyClient.setState fun hs => by cases hs
  | groupCollision v =>
    rw [MdnsPublisher.step] at hp
    split_ifs at hp
    rw [← Option.some.inj hp]
    exact h.onCollision
  | groupFailure v =>
    rw [MdnsPublisher.step] at hp
    split_ifs at hp
    rw [← Option.some.inj hp]
    exact h.onGroupError

theorem inv_run {events : List (Event S)} (h : run new events = some p) :
    Inv p (events.foldl Registry.next .empty) := by
  induction events using List.reverseRecOn generalizing p with
  | nil =>
    rw [← Option.some.inj h]
    exact inv_init
  | append_singleton events event ih =>
    rw [run, List.foldlM_append] at h
    rcases Option.bind_eq_some_iff.1 h with ⟨q, hq, hstep⟩
    rw [List.foldl_append, List.foldl_cons, List.foldl_nil]
    rw [List.foldlM_cons] at hstep
    rcases Option.bind_eq_some_iff.1 hstep with ⟨q', hq', hlast⟩
    rw [← Option.some.inj hlast]
    exact (ih hq).step hq'

/-- In every state of a run all services are announced on a connected client exactly
if none is older than the client. -/
theorem reannounced_iff {events : List (Event S)} (h : run new events = some p) :
    p.Reannounced ↔ ∀ client, p.Connected client → survivors events = [] :=
  (inv_run h).announced_iff

end

end

end MdnsPublisher

/-- A daemon that runs when a client is made. -/
def NewClient.running : NewClient := ⟨[.S_RUNNING], by decide, true, none⟩

/-- A daemon that does not run yet. -/
def NewClient.waiting : NewClient := ⟨[.CONNECTING], by decide, true, none⟩

namespace MdnsPublisher

theorem reannounced_iff_started : ∃ p : MdnsPublisher ℕ,
    run .waiting [.announce 0, .connected .S_RUNNING rfl] = some p ∧ (p.Reannounced ↔
      ∀ client, p.Connected client →
        survivors [.announce 0, .connected .S_RUNNING rfl] = ([] : List ℕ)) :=
  ⟨_, rfl, reannounced_iff
    (show run .waiting [.announce 0, .connected .S_RUNNING rfl] = some _ from rfl)⟩

/-- A service that was announced before the daemon was restarted. -/
theorem not_reannounced_restart : ∃ p : MdnsPublisher ℕ,
    run .running [.announce 0, .disconnected .waiting, .connected .S_RUNNING rfl] = some p ∧
      ¬ p.Reannounced := by
  refine ⟨_, rfl, fun h => ?_⟩
  have hannounced := h 2 ⟨rfl, _, rfl, rfl⟩ ⟨0, none⟩ (by decide)
  revert hannounced
  decide

end MdnsPublisher
end AirSane
