import AirSane.Server.ThreadPhases
import AirSane.Stores.Holdings
import Mathlib.Data.Finset.Insert

/-! # Every descriptor has one holder

In all interleavings the table of descriptors agrees with what the threads have in
their hands. No thread uses or closes a descriptor that belongs to another one, and
the list of scanners stays as it is while the purge thread walks through it.
-/

namespace AirSane.Lifetimes
open Programs Program Interleaving Stores Function

variable {E : Surroundings}

/-- The end of a pipe that the purge thread was lent. -/
def Purging.fd : Purging → Option Fd
  | .absent => none
  | .started fd | .inside fd | .ended fd => some fd

theorem Purging.eq_absent {p : Purging} (h : p.fd = none) : p = .absent := by
  cases p with
  | absent => rfl
  | _ => cases h

/-- What the phases say each holder has. -/
def held (p : ServerPhase) (q : ℕ → RequestPhase) (w : World) : Holder → Multiset Fd
  | .server => p.lent.toList + p.owns
  | .request n => (q n).fd.toList
  | .handed => w.handed
  | .elsewhere => w.others.val

def PurgePhase.Fits (w : World) : PurgePhase → Prop
  | .outside => ∀ fd, w.purging ≠ .inside fd
  | .inside fd => w.purging = .inside fd
  | .at fd i => w.purging = .inside fd ∧ i < w.scanners

/-- The phases explain the world. -/
structure Consistent (p : ServerPhase) (r : PurgePhase) (q : ℕ → RequestPhase) (w : World) :
    Prop where
  holdings : Holdings w.table (held p q w)
  lent : p.lent = w.purging.fd
  purge : r.Fits w
  admitted : ∀ n fd, q n = .admitted fd → w.admitted fd = true

section
variable {p : ServerPhase} {r : PurgePhase} {q : ℕ → RequestPhase} {w w' : World} {fd : Fd}

/-- A pipe for the purge thread is there when it is asked for. -/
def World.Supplied (E : Surroundings) (w : World) (_ : Thread) (c : Command) : Prop :=
  c = .pipe .purgeThread → w.newPipe E ≠ none

instance (w : World) (t : Thread) (c : Command) : Decidable (w.Supplied E t c) :=
  inferInstanceAs (Decidable (_ → _))

theorem World.newDescriptor_free (h : w.newDescriptor E = some fd) : w.table fd = none := by
  have hfree := (Option.filter_eq_some_iff.1 h).2
  simpa [World.free] using hfree

theorem World.newPipe_free {fds : Fd × Fd} (h : w.newPipe E = some fds) :
    w.table fds.1 = none ∧ w.table fds.2 = none ∧ fds.1 ≠ fds.2 := by
  have hfree := (Option.filter_eq_some_iff.1 h).2
  simpa [World.free, and_assoc] using hfree

theorem Consistent.tick (h : Consistent p r q w) : Consistent p r q w.tick :=
  ⟨h.holdings, h.lent, h.purge, h.admitted⟩

/-- The server opens a descriptor. -/
theorem Consistent.give (h : Consistent p r q w) (hfd : w.table fd = none) :
    Consistent { p with owns := fd ::ₘ p.owns } r q (w.give fd .server) where
  holdings := by
    refine h.holdings.take hfd ?_ fun j hj => ?_
    · simp only [held]
      rw [Multiset.add_cons]
    · cases j with
      | server => exact absurd rfl hj
      | _ => rfl
  lent := h.lent
  purge := h.purge
  admitted := h.admitted

theorem mem_server (hfd : fd ∈ p.owns) : fd ∈ held p q w .server := Multiset.mem_add.2 (.inr hfd)

/-- What the server has not lent is not what it has lent. -/
theorem Consistent.not_lent (h : Consistent p r q w) (hfd : fd ∈ p.owns) : p.lent ≠ some fd := by
  intro hl
  have hnodup := h.holdings.nodup .server
  simp only [held, hl] at hnodup
  exact (Multiset.nodup_cons.1 hnodup).1 hfd

theorem Consistent.held_erase (h : Consistent p r q w) (hfd : fd ∈ p.owns) :
    held { p with owns := p.owns.erase fd } q w .server = (held p q w .server).erase fd := by
  have hl := h.not_lent hfd
  cases hp : p.lent with
  | none => simp [held, hp]
  | some x =>
    have hx : fd ≠ x := fun hx => hl (by rw [hp, hx])
    simp [held, hp, Multiset.erase_cons_tail _ hx.symm]

/-- The server closes a descriptor of its own. -/
theorem Consistent.close (h : Consistent p r q w) (hfd : fd ∈ p.owns) :
    Consistent { p with owns := p.owns.erase fd } r q (w.close fd) where
  holdings := by
    refine h.holdings.drop (mem_server hfd) (h.held_erase hfd) fun j hj => ?_
    cases j with
    | server => exact absurd rfl hj
    | _ => rfl
  lent := h.lent
  purge := h.purge
  admitted := h.admitted

/-- A connection is given away to the thread that will handle it. -/
theorem Consistent.detach (h : Consistent p r q w) (hfd : fd ∈ p.owns) :
    Consistent { p with owns := p.owns.erase fd } r q
      { w.give fd .handed with handed := fd :: w.handed } where
  holdings := by
    refine h.holdings.move (mem_server hfd) (by simp) (h.held_erase hfd) rfl fun j hj hj' => ?_
    cases j with
    | server => exact absurd rfl hj
    | handed => exact absurd rfl hj'
    | _ => rfl
  lent := h.lent
  purge := h.purge
  admitted := h.admitted

/-- A new connection has not been checked. -/
theorem Consistent.accept (h : Consistent p r q w) (hfd : w.table fd = none) :
    Consistent { p with owns := fd ::ₘ p.owns } r q
      { w.give fd .server with admitted := update w.admitted fd false } where
  holdings := (h.give hfd).holdings
  lent := h.lent
  purge := h.purge
  admitted n x hx := by
    have hne : x ≠ fd := by
      rintro rfl
      have hmem : x ∈ held p q w (.request n) := by simp [held, hx, RequestPhase.fd]
      exact h.holdings.not_mem_of_free hfd hmem
    exact (update_of_ne hne _ _).trans (h.admitted n x hx)

/-- The purge thread is not there unless something is lent to it. -/
theorem Consistent.outside (h : Consistent p r q w) (hl : p.lent = none) :
    w.purging = .absent ∧ r = .outside := by
  have habsent : w.purging = .absent := Purging.eq_absent (h.lent.symm.trans hl)
  refine ⟨habsent, ?_⟩
  have hpurge := h.purge
  cases r with
  | outside => rfl
  | inside fd => exact absurd (habsent.symm.trans hpurge) (by simp)
  | «at» fd i => exact absurd (habsent.symm.trans hpurge.1) (by simp)

theorem Consistent.scanners (h : Consistent p r q w) (hl : p.lent = none) (n : ℕ) :
    Consistent p r q { w with scanners := n } := by
  obtain ⟨habsent, rfl⟩ := h.outside hl
  exact ⟨h.holdings, h.lent, h.purge, h.admitted⟩

/-- The purge thread is made, and lent an end of its pipe. -/
theorem Consistent.startThread (h : Consistent p r q w) (hfd : fd ∈ p.owns) (hl : p.lent = none)
    (b : Bool) : Consistent ⟨p.owns.erase fd, some fd⟩ r q
      { w with purging := .started fd, byteWritten := b } where
  holdings := by
    refine h.holdings.congr fun j => ?_
    cases j with
    | server =>
      simp only [held, hl]
      simpa using Multiset.cons_erase hfd
    | _ => rfl
  lent := rfl
  purge := by
    obtain ⟨-, rfl⟩ := h.outside hl
    simp [PurgePhase.Fits]
  admitted := h.admitted

/-- The purge thread has ended, and what it was lent comes back. -/
theorem Consistent.join (h : Consistent p r q w) (hw : w.purging = .ended fd) :
    Consistent ⟨p.lent.elim p.owns fun fd => fd ::ₘ p.owns, none⟩ r q
      { w with purging := .absent } where
  holdings := by
    have hl : p.lent = some fd := by rw [h.lent, hw, Purging.fd]
    refine h.holdings.congr fun j => ?_
    cases j with
    | server => simp [held, hl]
    | _ => rfl
  lent := rfl
  purge := by
    have hpurge := h.purge
    cases r with
    | outside => simp [PurgePhase.Fits]
    | inside x => exact absurd (hw.symm.trans hpurge) (by simp)
    | «at» x i => exact absurd (hw.symm.trans hpurge.1) (by simp)
  admitted := h.admitted

/-- A step of the server's thread. -/
theorem Consistent.server {c : Command} {x : Answer c} (h : Consistent p r q w)
    (hc : p.Allowed c) (ha : w.Supplied E .server c) (hx : exec E .server c w = some (x, w')) :
    ∃ p', p.next c x = some p' ∧ Consistent p' r q w' := by
  cases c with
  | begin | select | hasEntry | purgeJobs | finish | started | isAllowed | exchange =>
    exact absurd hc id
  | pushScanner | clearScanners =>
    cases hx
    exact ⟨p, rfl, h.tick.scanners hc _⟩
  | pipe u =>
    cases hp : w.newPipe E with
    | none =>
      simp only [exec, hp] at hx
      cases hx
      cases u with
      | purgeThread => exact absurd hp (ha rfl)
      | httpServer => exact ⟨p, rfl, h.tick⟩
    | some fds =>
      obtain ⟨readFd, writeFd⟩ := fds
      obtain ⟨hr, hw, hne⟩ := World.newPipe_free hp
      simp only [exec, hp] at hx
      cases hx
      have hread := h.tick.give hr
      have hwrite : (w.tick.give readFd .server).table writeFd = none :=
        (update_of_ne hne.symm _ _).trans hw
      exact ⟨_, rfl, hread.give hwrite⟩
  | close fd =>
    cases fd with
    | none =>
      cases hx
      exact ⟨p, rfl, h.tick⟩
    | some fd =>
      cases hx
      exact ⟨_, rfl, h.tick.close (hc fd rfl)⟩
  | startThread fd =>
    cases hx
    exact ⟨_, rfl, h.tick.startThread hc.1 hc.2 false⟩
  | joinable =>
    cases hx
    by_cases hw : w.purging = .absent
    · have hl : p.lent = none := by rw [h.lent, hw, Purging.fd]
      refine ⟨p, ?_, h.tick⟩
      simp [ServerPhase.next, hw, hl]
    · refine ⟨p, ?_, h.tick⟩
      have hj : (w.purging != .absent) = true := by simpa using hw
      rw [hj]
      rfl
  | join =>
    cases hw : w.purging with
    | ended fd =>
      simp only [exec, hw] at hx
      cases hx
      exact ⟨_, rfl, h.tick.join hw⟩
    | _ => simp [exec, hw] at hx
  | socket =>
    cases hx
    cases hd : w.newDescriptor E with
    | none => exact ⟨p, rfl, h.tick⟩
    | some fd =>
      have hfree : w.table fd = none := World.newDescriptor_free hd
      exact ⟨_, rfl, h.tick.give hfree⟩
  | accept fd =>
    cases fd with
    | none =>
      cases hx
      exact ⟨p, rfl, h.tick⟩
    | some fd =>
      cases hd : w.newDescriptor E with
      | none =>
        simp only [exec, hd] at hx
        cases hx
        exact ⟨p, rfl, h.tick⟩
      | some fd' =>
        simp only [exec, hd] at hx
        cases hx
        have hfree : w.table fd' = none := World.newDescriptor_free hd
        exact ⟨_, rfl, h.tick.accept hfree⟩
  | detach fd =>
    cases hx
    exact ⟨_, rfl, h.tick.detach hc⟩
  | writeByte fd =>
    cases hx
    exact ⟨p, rfl, h.holdings, h.lent, h.purge, h.admitted⟩
  | _ =>
    cases hx
    exact ⟨p, rfl, h.tick⟩

/-- A step of the purge thread. -/
theorem Consistent.purgeThread {c : Command} {x : Answer c} (h : Consistent p r q w)
    (hc : purgeDiscipline.allowed r c) (hx : exec E .purge c w = some (x, w')) :
    Consistent p (purgeDiscipline.next r c x) q w' := by
  have hpurge := h.purge
  cases r with
  | outside =>
    cases c with
    | begin =>
      cases hw : w.purging with
      | started fd =>
        simp only [exec, hw] at hx
        cases hx
        exact ⟨h.holdings, by rw [h.lent, hw]; rfl, rfl, h.admitted⟩
      | _ => simp [exec, hw] at hx
    | _ => exact absurd hc id
  | inside fd =>
    cases c with
    | select fd' =>
      cases hx
      exact h.tick
    | hasEntry i =>
      cases hx
      by_cases hi : i < w.scanners
      · have hnext : purgeDiscipline.next (.inside fd) (.hasEntry i) (decide (i < w.scanners)) =
            .at fd i := by rw [decide_eq_true hi]; rfl
        rw [hnext]
        exact ⟨h.holdings, h.lent, ⟨hpurge, hi⟩, h.admitted⟩
      · have hnext : purgeDiscipline.next (.inside fd) (.hasEntry i) (decide (i < w.scanners)) =
            .inside fd := by rw [decide_eq_false hi]; rfl
        rw [hnext]
        exact h.tick
    | finish =>
      have hw : w.purging = .inside fd := hpurge
      simp only [exec, hw] at hx
      cases hx
      refine ⟨h.holdings, by rw [h.lent, hw]; rfl, ?_, h.admitted⟩
      simp [purgeDiscipline, PurgePhase.Fits]
    | _ => exact absurd hc id
  | «at» fd i =>
    cases c with
    | purgeJobs j =>
      cases hx
      exact ⟨h.holdings, h.lent, hpurge.1, h.admitted⟩
    | _ => exact absurd hc id

/-- The thread of a request gets a connection when it starts. -/
theorem Consistent.started {n : ℕ} (h : Consistent p r q w) (hq : q n = .outside)
    (hfd : fd ∈ w.handed) : Consistent p r (update q n (.arrived fd))
      { w.give fd (.request n) with handed := w.handed.erase fd } where
  holdings := by
    have hmem : fd ∈ held p q w .handed := hfd
    refine h.holdings.move hmem (by simp) ?_ ?_ fun j hj hj' => ?_
    · exact (Multiset.coe_erase w.handed fd).symm
    · simp [held, hq, RequestPhase.fd]
    · cases j with
      | handed => exact absurd rfl hj
      | request m =>
        have hm : m ≠ n := fun hm => hj' (by rw [hm])
        simp [held, hm]
      | _ => rfl
  lent := h.lent
  purge := h.purge
  admitted m x hx := by
    by_cases hm : m = n
    · simp [hm] at hx
    · rw [update_of_ne hm] at hx
      exact h.admitted m x hx

/-- No two requests have one connection. -/
theorem Consistent.request_inj (h : Consistent p r q w) {m n : ℕ} (hm : (q m).fd = some fd)
    (hn : (q n).fd = some fd) : m = n := by
  have hmem : fd ∈ held p q w (.request m) := by simp [held, hm]
  have hmem' : fd ∈ held p q w (.request n) := by simp [held, hn]
  by_contra hne
  exact h.holdings.not_mem hmem (fun heq => hne (Holder.request.inj heq).symm) hmem'

/-- The access file is asked about a connection. -/
theorem Consistent.isAllowed {n : ℕ} (h : Consistent p r q w) (hq : q n = .arrived fd) (b : Bool) :
    Consistent p r (update q n (if b then .admitted fd else .arrived fd))
      { w with admitted := update w.admitted fd b } where
  holdings := by
    refine h.holdings.congr fun j => ?_
    cases j with
    | request m =>
      by_cases hm : m = n
      · subst hm
        cases b <;> simp [held, hq, RequestPhase.fd]
      · simp [held, hm]
    | _ => rfl
  lent := h.lent
  purge := h.purge
  admitted m x hx := by
    by_cases hm : m = n
    · subst hm
      cases b with
      | false => simp at hx
      | true =>
        obtain rfl : fd = x := by simpa using hx
        exact update_self _ _ _
    · rw [update_of_ne hm] at hx
      have hne : x ≠ fd := by
        rintro rfl
        have hm' : (q m).fd = some x := by rw [hx, RequestPhase.fd]
        have hn' : (q n).fd = some x := by rw [hq, RequestPhase.fd]
        exact hm (h.request_inj hm' hn')
      exact (update_of_ne hne _ _).trans (h.admitted m x hx)

/-- The thread of a request closes its connection. -/
theorem Consistent.closed {n : ℕ} (h : Consistent p r q w) (hq : (q n).fd = some fd) :
    Consistent p r (update q n .outside) (w.close fd) where
  holdings := by
    have hlist : held p q w (.request n) = {fd} := by simp [held, hq]
    have hmem : fd ∈ held p q w (.request n) := by simp [hlist]
    refine h.holdings.drop hmem ?_ fun j hj => ?_
    · rw [hlist]
      simp [held, RequestPhase.fd]
    · cases j with
      | request m =>
        have hm : m ≠ n := fun hm => hj (by rw [hm])
        simp [held, hm]
      | _ => rfl
  lent := h.lent
  purge := h.purge
  admitted m x hx := by
    by_cases hm : m = n
    · simp [hm] at hx
    · rw [update_of_ne hm] at hx
      exact h.admitted m x hx

/-- A step of a thread that handles a request. -/
theorem Consistent.request {n : ℕ} {c : Command} {x : Answer c} (h : Consistent p r q w)
    (hc : requestDiscipline.allowed (q n) c) (hx : exec E (.request n) c w = some (x, w')) :
    Consistent p r (update q n (requestDiscipline.next (q n) c x)) w' := by
  cases hq : q n with
  | outside =>
    rw [hq] at hc
    cases c with
    | started =>
      simp only [exec] at hx
      split_ifs at hx with hmem
      cases hx
      exact h.tick.started hq hmem
    | _ => exact absurd hc id
  | arrived fd =>
    rw [hq] at hc
    cases c with
    | isAllowed fd' =>
      obtain rfl : fd' = fd := hc
      cases hx
      have hnext := h.tick.isAllowed hq (E.isAllowed w.clock)
      cases hb : E.isAllowed w.clock <;> rw [hb] at hnext <;> exact hnext
    | close fd' =>
      cases fd' with
      | none => exact absurd hc id
      | some fd' =>
        obtain rfl : fd' = fd := hc
        cases hx
        exact h.tick.closed (by rw [hq]; rfl)
    | _ => exact absurd hc id
  | admitted fd =>
    rw [hq] at hc
    cases c with
    | exchange fd' =>
      cases hx
      have hself : update q n (.admitted fd) = q := by rw [← hq, update_eq_self]
      simp only [requestDiscipline, hself]
      exact h.tick
    | close fd' =>
      cases fd' with
      | none => exact absurd hc id
      | some fd' =>
        obtain rfl : fd' = fd := hc
        cases hx
        exact h.tick.closed (by rw [hq]; rfl)
    | _ => exact absurd hc id

end

/-- What the phases of all threads explain. -/
def Explained (m : (t : Thread) → Phase t) (w : World) : Prop :=
  ∃ p, m .server = some p ∧ Consistent p (m .purge) (fun n => m (.request n)) w

theorem explained_server {m : (t : Thread) → Phase t} {w : World} {p : ServerPhase}
    (h : Consistent p (m .purge) (fun n => m (.request n)) w) :
    Explained (update m .server (some p)) w :=
  ⟨p, by simp, by simpa using h⟩

theorem explained_purge {m : (t : Thread) → Phase t} {w : World} {p : ServerPhase}
    {r : PurgePhase} (hp : m .server = some p)
    (h : Consistent p r (fun n => m (.request n)) w) : Explained (update m .purge r) w :=
  ⟨p, by simpa using hp, by simpa using h⟩

theorem explained_request {m : (t : Thread) → Phase t} {w : World} {p : ServerPhase} {n : ℕ}
    {k : RequestPhase} (hp : m .server = some p)
    (h : Consistent p (m .purge) (update (fun n => m (.request n)) n k) w) :
    Explained (update m (.request n) k) w := by
  refine ⟨p, by simpa using hp, ?_⟩
  have hq : (fun i => update m (.request n) k (.request i)) =
      update (fun n => m (.request n)) n k := by
    funext i
    by_cases hi : i = n
    · subst hi
      simp
    · have hne : Thread.request i ≠ .request n := fun heq => hi (Thread.request.inj heq)
      rw [update_of_ne hne, update_of_ne hi]
  rw [hq]
  simpa using h

/-- The phases go on explaining the world, as long as the purge thread gets its pipe. -/
def explanation (E : Surroundings) : (watch E).Invariant (World.Supplied E) where
  holds := Explained
  call {m w} k hr h := by
    obtain ⟨p, hp, hc⟩ := h
    cases k with
    | runServer fuel =>
      obtain rfl : p = ⟨0, none⟩ := hr p hp
      exact explained_server hc
    | threadFunc fuel =>
      have hout : m .purge = .outside := hr
      rw [hout] at hc
      exact explained_purge hp hc
    | handleRequest n fuel =>
      have hout : m (.request n) = .outside := hr
      have hself : update (fun n => m (.request n)) n .outside = fun n => m (.request n) := by
        rw [← hout, update_eq_self n (fun n => m (.request n))]
      rw [← hself] at hc
      exact explained_request hp hc
  perform {m w w' t c x} hc ha hx h := by
    obtain ⟨p, hp, hcons⟩ := h
    cases t with
    | server =>
      have hallowed : p.Allowed c := by
        have hc' : serverDiscipline.allowed (m .server) c := hc
        rwa [hp] at hc'
      obtain ⟨p', hp', hcons'⟩ := hcons.server hallowed ha hx
      have hnext : serverDiscipline.next (m .server) c x = some p' := by
        rw [hp]
        exact hp'
      have hexp := explained_server hcons'
      rw [← hnext] at hexp
      exact hexp
    | purge => exact explained_purge hp (hcons.purgeThread hc hx)
    | request n => exact explained_request hp (hcons.request hc hx)
  leave _ _ h := h

/-- The phases before any call. -/
def firstPhase : (t : Thread) → Phase t
  | .server => some ⟨0, none⟩
  | .purge => PurgePhase.outside
  | .request _ => RequestPhase.outside

theorem rests_firstPhase (t : Thread) : (watch E).rests t (firstPhase t) := by
  cases t with
  | server => exact unless_some
  | purge => rfl
  | request n => rfl

theorem explained_start (others : Finset Fd) : Explained firstPhase (.start others) := by
  refine ⟨⟨0, none⟩, rfl, ⟨fun j => ?_, fun j fd => ?_⟩, rfl, ?_, ?_⟩
  · cases j with
    | elsewhere => exact others.nodup
    | _ => exact List.nodup_nil
  · by_cases hfd : fd ∈ others <;> cases j <;> simp [held, World.start, firstPhase, hfd,
      RequestPhase.fd]
  · simp [PurgePhase.Fits, World.start, firstPhase]
  · simp [firstPhase]

/-- The descriptors that a command uses, closes or gives away. -/
def Command.names : Command → List Fd
  | .close fd | .accept fd => fd.toList
  | .startThread fd | .writeByte fd | .listen fd | .readStatus fd | .detach fd => [fd]
  | .select fd | .isAllowed fd | .exchange fd => [fd]
  | .poll fd sockets => fd :: sockets.reduceOption
  | _ => []

/-- The descriptor is in the hands of the thread. What the server has lent is in those
of the purge thread. -/
def World.Has (w : World) (fd : Fd) : Thread → Prop
  | .server => w.table fd = some .server ∧ w.purging.fd ≠ some fd
  | .purge => w.table fd = some .server ∧ w.purging = .inside fd
  | .request n => w.table fd = some (.request n)

/-- A command uses what its thread has, changes the list of scanners only when there
is no purge thread, works on an entry of the list that is there, and talks to a
client that the access file admits. -/
structure World.Proper (w : World) (t : Thread) (c : Command) : Prop where
  has : ∀ fd ∈ c.names, w.Has fd t
  alone : c = .pushScanner ∨ c = .clearScanners → w.purging = .absent
  entry : ∀ i, c = .purgeJobs i → i < w.scanners
  admitted : ∀ fd, c = .exchange fd → w.admitted fd = true

section
variable {p : ServerPhase} {r : PurgePhase} {q : ℕ → RequestPhase} {w : World} {c : Command}

theorem Consistent.has_server (h : Consistent p r q w) {fd : Fd} (hfd : fd ∈ p.owns) :
    w.Has fd .server :=
  ⟨h.holdings.table_eq (mem_server hfd), h.lent ▸ h.not_lent hfd⟩

theorem Consistent.proper_server (h : Consistent p r q w) (hc : p.Allowed c) :
    w.Proper .server c where
  has fd hfd := by
    cases c with
    | close fd' | accept fd' => exact h.has_server (hc fd (Option.mem_toList.1 hfd))
    | startThread fd' =>
      obtain rfl := List.mem_singleton.1 hfd
      exact h.has_server hc.1
    | writeByte fd' | listen fd' | readStatus fd' | detach fd' =>
      obtain rfl := List.mem_singleton.1 hfd
      exact h.has_server hc
    | poll pipe sockets =>
      rcases List.mem_cons.1 hfd with rfl | hfd
      · exact h.has_server hc.1
      · exact h.has_server (hc.2 fd (List.reduceOption_mem_iff.1 hfd))
    | select | isAllowed | exchange => exact absurd hc id
    | _ => simp [Command.names] at hfd
  alone := by
    rintro (rfl | rfl) <;> exact (h.outside hc).1
  entry i hi := by
    subst hi
    exact absurd hc id
  admitted fd hfd := by
    subst hfd
    exact absurd hc id

theorem Consistent.proper_purge (h : Consistent p r q w) (hc : purgeDiscipline.allowed r c) :
    w.Proper .purge c := by
  have hpurge := h.purge
  cases r with
  | outside =>
    cases c with
    | begin => exact ⟨by simp [Command.names], by simp, by simp, by simp⟩
    | _ => exact absurd hc id
  | inside fd =>
    cases c with
    | select fd' =>
      obtain rfl : fd' = fd := hc
      have hw : w.purging = .inside fd' := hpurge
      have hmem : fd' ∈ held p q w .server := by simp [held, h.lent, hw, Purging.fd]
      have hhas : w.Has fd' .purge := ⟨h.holdings.table_eq hmem, hw⟩
      exact ⟨by simpa [Command.names] using hhas, by simp, by simp, by simp⟩
    | hasEntry i => exact ⟨by simp [Command.names], by simp, by simp, by simp⟩
    | finish => exact ⟨by simp [Command.names], by simp, by simp, by simp⟩
    | _ => exact absurd hc id
  | «at» fd i =>
    cases c with
    | purgeJobs j =>
      obtain rfl : j = i := hc
      have hj : j < w.scanners := hpurge.2
      exact ⟨by simp [Command.names], by simp, by simpa using hj, by simp⟩
    | _ => exact absurd hc id

theorem Consistent.has_request (h : Consistent p r q w) {n : ℕ} {fd : Fd}
    (hq : (q n).fd = some fd) : w.Has fd (.request n) := by
  have hmem : fd ∈ held p q w (.request n) := by simp [held, hq]
  exact h.holdings.table_eq hmem

theorem Consistent.proper_request {n : ℕ} (h : Consistent p r q w)
    (hc : requestDiscipline.allowed (q n) c) : w.Proper (.request n) c := by
  cases hq : q n with
  | outside =>
    rw [hq] at hc
    cases c with
    | started => exact ⟨by simp [Command.names], by simp, by simp, by simp⟩
    | _ => exact absurd hc id
  | arrived fd =>
    have hhas : w.Has fd (.request n) := h.has_request (by rw [hq, RequestPhase.fd])
    rw [hq] at hc
    cases c with
    | isAllowed fd' =>
      obtain rfl : fd' = fd := hc
      exact ⟨by simpa [Command.names] using hhas, by simp, by simp, by simp⟩
    | close fd' =>
      cases fd' with
      | none => exact absurd hc id
      | some fd' =>
        obtain rfl : fd' = fd := hc
        exact ⟨by simpa [Command.names] using hhas, by simp, by simp, by simp⟩
    | _ => exact absurd hc id
  | admitted fd =>
    have hhas : w.Has fd (.request n) := h.has_request (by rw [hq, RequestPhase.fd])
    have hadmitted := h.admitted n fd hq
    rw [hq] at hc
    cases c with
    | exchange fd' =>
      obtain rfl : fd' = fd := hc
      exact ⟨by simpa [Command.names] using hhas, by simp, by simp, by simpa using hadmitted⟩
    | close fd' =>
      cases fd' with
      | none => exact absurd hc id
      | some fd' =>
        obtain rfl : fd' = fd := hc
        exact ⟨by simpa [Command.names] using hhas, by simp, by simp, by simp⟩
    | _ => exact absurd hc id

end

/-- One scanner, one socket and one client, who is admitted. -/
def Surroundings.oneClient : Surroundings where
  accessFileOk _ := true
  usableScanner n := n = 1
  terminationStatus _ := .termination
  pipe n := if n = 4 then some (3, 4) else some (5, 6)
  descriptor n := if n = 8 then some 7 else some 8
  determineAddresses _ := some 1
  listen _ := true
  addressNotAvailable _ := false
  poll _ := .connections [true]
  readStatus _ := true
  select _ := .timeout
  nextThread _ := 8
  isAllowed _ := true
  exchange _ := true

/-- The server gets as far as giving the connection away, and its thread is about to read. -/
def oneConnection : Option (Threads Thread Command Answer World Unit) :=
  follow (daemon .oneClient) (World.Supplied .oneClient) (.idle (.start {0, 1, 2}))
    (.call (.runServer 3) :: List.replicate 13 (.go .server) ++
      .call (.handleRequest 0 3) :: List.replicate 2 (.go (.request 0)))

def nextCommand : Option (ThreadM Unit) → Option Command
  | some (.command c _) => some c
  | _ => none

theorem of_nextCommand {text : Option (ThreadM Unit)} {c : Command} (h : nextCommand text = some c) :
    ∃ next, text = some (.command c next) := by
  rcases text with _ | ⟨a | ⟨c', next⟩ | _ | _ | _⟩
  case some.command =>
    obtain rfl : c' = c := Option.some.inj h
    exact ⟨next, rfl⟩
  all_goals cases h

end AirSane.Lifetimes
