import AirSane.Text.Octets
import Mathlib.Data.Int.Notation
import Mathlib.Logic.Function.Basic

/-! # Input through `fdbuf`

The get area of `fdbuf`: a buffer whose first byte is, from the second refill
on, a copy of the byte before the current position. The answers of `ioctl` and
`read` are inputs of each operation. Characters are taken one by one or, as
block and line reads do, in pieces of the get area.
-/

namespace AirSane
open Text

/-- `ioctl(FIONREAD)`: a size, `ENOTTY`, or another error. -/
inductive Fionread where
  | size (n : ℤ)
  | notTty
  | failed

/-- `read`: no data is end of file. -/
inductive ReadResult where
  | data (bytes : Octets)
  | interrupted
  | failed

/-- What the last operation has told its caller. -/
inductive Answer where
  | none
  | peeked (c : UInt8)
  | taken (c : UInt8)
  /-- End of file, after a `read` that found it or failed, or without one. -/
  | eof (found : Bool)
  deriving DecidableEq

/-- The buffer, `gptr` and `egptr` as positions in it (`eback` is its beginning)
and, for the record, the bytes that `read` returned, the characters that were
taken, the last answer, and whether memory outside of the buffer was read. -/
structure Fdbuf where
  mInbuf : ℕ → UInt8
  area : Option (ℕ × ℕ)
  received : Octets
  delivered : Octets
  answer : Answer
  crashed : Bool

namespace Fdbuf

def bufsize : ℕ := 4096
def mPutback : ℕ := 1

/-- The constructor. -/
def new (memory : ℕ → UInt8) : Fdbuf := ⟨memory, none, [], [], .none, false⟩

/-- The cells from `i` up to `j`. -/
def slice (memory : ℕ → UInt8) (i j : ℕ) : Octets := (List.range (j - i)).map fun k => memory (i + k)

/-- What the get area holds. -/
def pending (b : Fdbuf) : Octets :=
  match b.area with
  | none => []
  | some (g, e) => slice b.mInbuf g e

def crash (b : Fdbuf) : Fdbuf := { b with crashed := true }

def store (memory : ℕ → UInt8) (start : ℕ) (bytes : Octets) : ℕ → UInt8 :=
  fun i => if start ≤ i then bytes.getD (i - start) (memory i) else memory i

/-- The `memmove` of `underflow`, and where the new data goes. -/
def keepPutback (b : Fdbuf) : Fdbuf × ℕ :=
  match b.area with
  | none => (b, 0)
  | some (g, _) =>
    if g < mPutback then (b.crash, mPutback)
    else ({ b with mInbuf := Function.update b.mInbuf 0 (b.mInbuf (g - mPutback)) }, mPutback)

/-- The size that `read` is called with. -/
def requestSize (io : Fionread) (room : ℕ) : Option ℕ :=
  match io with
  | .size n => some (max (min n room) 1).toNat
  | .notTty => some room
  | .failed => none

/-- What `underflow` returns. -/
inductive Outcome where
  | char (c : UInt8)
  | eof (found : Bool)
  | crash

/-- `*gptr()`, in the buffer or not. -/
def current (b : Fdbuf) : Outcome :=
  match b.area with
  | none => .crash
  | some (g, _) => if g < bufsize then .char (b.mInbuf g) else .crash

/-- The branch of `underflow` for an empty get area. An interrupted `read`
leaves it as it is. -/
def refill (b : Fdbuf) (io : Fionread) (rd : ReadResult) : Outcome × Fdbuf :=
  let (b, start) := b.keepPutback
  match requestSize io (bufsize - start) with
  | none => (.eof false, b)
  | some n =>
    match rd with
    | .failed => (.eof true, b)
    | .interrupted => (b.current, b)
    | .data bytes =>
      if bytes.take n = [] then (.eof true, b)
      else
        let b := { b with
          mInbuf := store b.mInbuf start (bytes.take n)
          area := some (start, start + (bytes.take n).length)
          received := b.received ++ bytes.take n }
        (b.current, b)

/-- `gptr() >= egptr()`. -/
def exhausted (b : Fdbuf) : Bool :=
  match b.area with
  | none => true
  | some (g, e) => g ≥ e

/-- `fdbuf::underflow`, and `sgetc`, which makes the same test. -/
def underflow (b : Fdbuf) (io : Fionread) (rd : ReadResult) : Outcome × Fdbuf :=
  if b.exhausted then b.refill io rd else (b.current, b)

/-- `gbump`, over characters that are thereby delivered. -/
def bump (b : Fdbuf) (s : Octets) : Fdbuf :=
  { b with
    area := b.area.map fun a => (a.1 + s.length, a.2)
    delivered := b.delivered ++ s }

inductive Operation where
  | sgetc
  | sbumpc
  /-- Up to `k` characters, as far as they are in the get area. -/
  | take (k : ℕ)

def sgetc (b : Fdbuf) (io : Fionread) (rd : ReadResult) : Fdbuf :=
  match b.underflow io rd with
  | (.char c, b) => { b with answer := .peeked c }
  | (.eof found, b) => { b with answer := .eof found }
  | (.crash, b) => b.crash

/-- `sbumpc`, by `uflow` for an empty get area. -/
def sbumpc (b : Fdbuf) (io : Fionread) (rd : ReadResult) : Fdbuf :=
  match b.underflow io rd with
  | (.char c, b) => { b.bump [c] with answer := .taken c }
  | (.eof found, b) => { b with answer := .eof found }
  | (.crash, b) => b.crash

def step (b : Fdbuf) : Operation × Fionread × ReadResult → Fdbuf
  | (.sgetc, io, rd) => b.sgetc io rd
  | (.sbumpc, io, rd) => b.sbumpc io rd
  | (.take k, _, _) => { b.bump (b.pending.take k) with answer := .none }

/-- The byte before the current position. -/
def putback (b : Fdbuf) : Option UInt8 :=
  match b.area with
  | some (g + 1, _) => some (b.mInbuf g)
  | _ => none

/-- Nothing is lost, invented or reordered, the byte before the current position
is the last one delivered, and answers are true. -/
structure Faithful (b : Fdbuf) : Prop where
  alive : b.crashed = false
  stream : b.delivered ++ b.pending = b.received
  putback : ∀ c, b.delivered.getLast? = some c → b.putback = some c
  peeked : ∀ c, b.answer = .peeked c → b.pending.head? = some c
  taken : ∀ c, b.answer = .taken c → b.delivered.getLast? = some c
  eof : ∀ found, b.answer = .eof found → found = true

/-- If the operation has to read, it is not interrupted, and its `ioctl` answers
with a size or with `ENOTTY`. -/
def Uninterrupted (b : Fdbuf) : Operation × Fionread × ReadResult → Prop
  | (.take _, _, _) => True
  | (.sgetc, io, rd) | (.sbumpc, io, rd) =>
    b.exhausted = true → io ≠ .failed ∧ rd ≠ .interrupted

/-- The get area of a faithful buffer. -/
structure Inv (b : Fdbuf) : Prop where
  alive : b.crashed = false
  stream : b.delivered ++ b.pending = b.received
  putback : ∀ c, b.delivered.getLast? = some c → b.putback = some c
  empty : b.area = none → b.received = []
  inside : ∀ g e, b.area = some (g, e) → g ≤ e ∧ e ≤ bufsize ∧ b.received ≠ []

section
variable {b : Fdbuf} {memory : ℕ → UInt8} {i j : ℕ} {c : UInt8} {s : Octets}
  {io : Fionread} {rd : ReadResult}

@[simp] theorem slice_length : (slice memory i j).length = j - i := by simp [slice]

theorem slice_nil (h : j ≤ i) : slice memory i j = [] := by
  simp [slice, Nat.sub_eq_zero_of_le h]

theorem slice_cons (h : i < j) : slice memory i j = memory i :: slice memory (i + 1) j := by
  obtain ⟨k, rfl⟩ : ∃ k, j = i + (k + 1) := ⟨j - i - 1, by omega⟩
  have hlen : i + (k + 1) - (i + 1) = k := by omega
  rw [slice, slice, Nat.add_sub_cancel_left, hlen, List.range_succ_eq_map, List.map_cons,
    List.map_map]
  simp only [Nat.add_zero, Function.comp_def]
  congr 1
  apply List.map_congr_left
  intro x _
  congr 1
  omega

/-- What is stored is what is there. -/
theorem slice_store : slice (store memory i s) i (i + s.length) = s := by
  apply List.ext_getElem
  · simp
  · intro k hk hk'
    simp [slice, store, hk']

theorem store_lt (h : j < i) : store memory i s j = memory j := by
  simp [store, Nat.not_le.2 h]

theorem exhausted_iff : b.exhausted = true ↔ b.pending = [] := by
  cases ha : b.area with
  | none => simp [exhausted, pending, ha]
  | some a =>
    obtain ⟨g, e⟩ := a
    by_cases hge : e ≤ g
    · simp [exhausted, pending, ha, hge, slice_nil hge]
    · have hlt : g < e := Nat.lt_of_not_le hge
      simp [exhausted, pending, ha, hge, slice_cons hlt]

theorem current_eq (hb : Inv b) (hp : b.pending = c :: s) : b.current = .char c := by
  cases ha : b.area with
  | none => simp [pending, ha] at hp
  | some a =>
    obtain ⟨g, e⟩ := a
    obtain ⟨-, he, -⟩ := hb.inside g e ha
    have hlt : g < e := by
      by_contra hge
      simp [pending, ha, slice_nil (Nat.le_of_not_lt hge)] at hp
    simp only [pending, ha, slice_cons hlt, List.cons.injEq] at hp
    have hbuf : g < bufsize := by omega
    simp [current, ha, hbuf, hp.1]

/-- Moving the last character to the front of the buffer changes nothing. -/
theorem keepPutback_spec (hb : Inv b) (hx : b.pending = []) :
    ∃ memory start, b.keepPutback = ({ b with mInbuf := memory }, start) ∧
      Inv { b with mInbuf := memory } ∧ Fdbuf.pending { b with mInbuf := memory } = [] ∧
      start < bufsize ∧ ∀ c, b.delivered.getLast? = some c → start = 1 ∧ memory 0 = c := by
  have hall : b.received = b.delivered := by rw [← hb.stream, hx, List.append_nil]
  obtain ⟨memory, area, received, delivered, answer, crashed⟩ := b
  cases area with
  | none =>
    refine ⟨memory, 0, rfl, hb, hx, by decide, fun c hc => ?_⟩
    rw [← hall, hb.empty rfl] at hc
    simp at hc
  | some a =>
    obtain ⟨g, e⟩ := a
    obtain ⟨hge, he, hne⟩ := hb.inside g e rfl
    obtain ⟨c, hc⟩ : ∃ c, delivered.getLast? = some c := by
      rw [← Option.isSome_iff_exists, List.getLast?_isSome]
      exact fun hnil => hne (hall.trans hnil)
    obtain ⟨k, rfl⟩ : ∃ k, g = k + 1 := by
      cases g with
      | zero => exact absurd (hb.putback c hc) (by simp [putback])
      | succ k => exact ⟨k, rfl⟩
    have hk : memory k = c := by simpa [putback] using hb.putback c hc
    have hmem : Function.update memory 0 (memory k) k = memory k := by
      by_cases hk0 : k = 0 <;> simp [hk0]
    have hek : e ≤ k + 1 := by
      have hlen := congrArg List.length hx
      simp only [pending, slice_length, List.length_nil] at hlen
      omega
    have hpend : Fdbuf.pending ⟨Function.update memory 0 (memory k), some (k + 1, e), received,
        delivered, answer, crashed⟩ = [] := slice_nil hek
    refine ⟨Function.update memory 0 (memory k), 1, ?_, ⟨hb.alive, ?_, ?_, nofun, hb.inside⟩,
      hpend, by decide, fun c' hc' => ⟨rfl, ?_⟩⟩
    · simp [keepPutback, mPutback]
    · rw [hpend, List.append_nil]
      exact hall.symm
    · intro c' hc'
      have hput := hb.putback c' hc'
      simp only [putback] at hput ⊢
      rw [hmem]
      exact hput
    · rw [hc] at hc'
      rw [Function.update_self, hk]
      exact Option.some.inj hc'

theorem requestSize_le {room n : ℕ} (hroom : 0 < room) (h : requestSize io room = some n) :
    n ≤ room := by
  cases io with
  | size m =>
    simp only [requestSize, Option.some.injEq] at h
    omega
  | notTty =>
    simp only [requestSize, Option.some.injEq] at h
    omega
  | failed => simp [requestSize] at h

/-- New data behind the copy of the last character. -/
theorem inv_received (hb : Inv b) (hp : b.pending = []) {start : ℕ}
    (hs : s ≠ []) (hfit : start + s.length ≤ bufsize)
    (hstart : ∀ c, b.delivered.getLast? = some c → start = 1 ∧ b.mInbuf 0 = c) :
    Inv { b with
      mInbuf := store b.mInbuf start s
      area := some (start, start + s.length)
      received := b.received ++ s } := by
  refine ⟨hb.alive, ?_, ?_, by simp, ?_⟩
  · have hstream := hb.stream
    rw [hp, List.append_nil] at hstream
    simp only [pending, slice_store, hstream]
  · intro c hc
    obtain ⟨rfl, h0⟩ := hstart c hc
    simp only [putback]
    rw [store_lt (by omega), h0]
  · rintro g e hge
    obtain ⟨rfl, rfl⟩ := Prod.mk.inj (Option.some.inj hge)
    exact ⟨by omega, hfit, by simp [hs]⟩

/-- What `underflow` answers, if it is not interrupted. -/
theorem underflow_spec (hb : Inv b)
    (hio : b.exhausted = true → io ≠ .failed ∧ rd ≠ .interrupted) :
    ∃ b', Inv b' ∧ b'.delivered = b.delivered ∧ b'.answer = b.answer ∧
      ((b.underflow io rd = (.eof true, b') ∧ b'.pending = []) ∨
        ∃ c s, b.underflow io rd = (.char c, b') ∧ b'.pending = c :: s) := by
  by_cases hx : b.exhausted = true
  · obtain ⟨hio, hrd⟩ := hio hx
    obtain ⟨memory, start, hkeep, hinv, hpend, hstart, hlast⟩ :=
      keepPutback_spec hb (exhausted_iff.1 hx)
    rw [underflow, if_pos hx, refill, hkeep]
    dsimp only
    cases hn : requestSize io (bufsize - start) with
    | none => cases io <;> simp_all [requestSize]
    | some n =>
      cases rd with
      | interrupted => exact absurd rfl hrd
      | failed => exact ⟨_, hinv, rfl, rfl, .inl ⟨rfl, hpend⟩⟩
      | data bytes =>
        dsimp only
        by_cases hnil : bytes.take n = []
        · rw [if_pos hnil]
          exact ⟨_, hinv, rfl, rfl, .inl ⟨rfl, hpend⟩⟩
        · rw [if_neg hnil]
          have hle := requestSize_le (by omega) hn
          have hfit : start + (bytes.take n).length ≤ bufsize := by
            rw [List.length_take]
            omega
          have hinv' := inv_received hinv hpend hnil hfit hlast
          obtain ⟨c, s, hcs⟩ := List.exists_cons_of_ne_nil hnil
          refine ⟨_, hinv', rfl, rfl, .inr ⟨c, s, ?_, ?_⟩⟩
          · rw [current_eq hinv' (c := c) (s := s)]
            exact slice_store.trans hcs
          · exact slice_store.trans hcs
  · cases hp : b.pending with
    | nil => exact absurd (exhausted_iff.2 hp) hx
    | cons c s =>
      refine ⟨b, hb, rfl, rfl, .inr ⟨c, s, ?_, hp⟩⟩
      rw [underflow, if_neg hx, current_eq hb hp]

theorem inv_answer {a : Answer} (hb : Inv b) : Inv { b with answer := a } :=
  ⟨hb.alive, hb.stream, hb.putback, hb.empty, hb.inside⟩

theorem inv_bump_one (hb : Inv b) (hp : b.pending = c :: s) :
    Inv (b.bump [c]) ∧ (b.bump [c]).pending = s := by
  obtain ⟨memory, area, received, delivered, answer, crashed⟩ := b
  cases area with
  | none => simp [pending] at hp
  | some a =>
    obtain ⟨g, e⟩ := a
    obtain ⟨-, he, hne⟩ := hb.inside g e rfl
    have hlt : g < e := by
      by_contra hge
      simp [pending, slice_nil (Nat.le_of_not_lt hge)] at hp
    have hslice : slice memory g e = c :: s := hp
    rw [slice_cons hlt] at hslice
    obtain ⟨hc, hs⟩ := List.cons.inj hslice
    refine ⟨⟨hb.alive, ?_, ?_, nofun, ?_⟩, hs⟩
    · have hstream : delivered ++ slice memory g e = received := hb.stream
      rw [slice_cons hlt, hc] at hstream
      simpa [bump, pending] using hstream
    · intro c' hc'
      simpa [bump, putback, hc] using hc'
    · rintro g' e' hge
      obtain ⟨rfl, rfl⟩ := Prod.mk.inj (Option.some.inj hge)
      exact ⟨hlt, he, hne⟩

theorem bump_cons : b.bump (c :: s) = (b.bump [c]).bump s := by
  cases h : b.area <;> simp [bump, h, Nat.add_assoc, Nat.add_comm 1]

theorem inv_bump (hb : Inv b) {t : Octets} (hp : b.pending = s ++ t) :
    Inv (b.bump s) ∧ (b.bump s).pending = t := by
  induction s generalizing b with
  | nil =>
    have hsame : b.bump [] = b := by
      obtain ⟨memory, area, received, delivered, answer, crashed⟩ := b
      cases area <;> simp [bump]
    rw [hsame]
    exact ⟨hb, hp⟩
  | cons c s ih =>
    obtain ⟨hb', hp'⟩ := inv_bump_one hb hp
    rw [bump_cons]
    exact ih hb' hp'

/-- One operation that is not interrupted. -/
theorem step_faithful {op : Operation × Fionread × ReadResult} (hb : Inv b)
    (hu : b.Uninterrupted op) : Inv (b.step op) ∧ Faithful (b.step op) := by
  obtain ⟨op, io, rd⟩ := op
  cases op with
  | sgetc =>
    obtain ⟨b', hb', -, -, ⟨hr, hp⟩ | ⟨c, s, hr, hp⟩⟩ := underflow_spec hb hu
    · have hstep : b.step (.sgetc, io, rd) = { b' with answer := .eof true } := by
        simp [step, sgetc, hr]
      rw [hstep]
      exact ⟨inv_answer hb', hb'.alive, hb'.stream, hb'.putback, nofun, nofun, by simp⟩
    · have hstep : b.step (.sgetc, io, rd) = { b' with answer := .peeked c } := by
        simp [step, sgetc, hr]
      have hhead : b'.pending.head? = some c := by simp [hp]
      rw [hstep]
      refine ⟨inv_answer hb', hb'.alive, hb'.stream, hb'.putback, ?_, nofun, nofun⟩
      rintro c' ⟨rfl⟩
      exact hhead
  | sbumpc =>
    obtain ⟨b', hb', -, -, ⟨hr, hp⟩ | ⟨c, s, hr, hp⟩⟩ := underflow_spec hb hu
    · have hstep : b.step (.sbumpc, io, rd) = { b' with answer := .eof true } := by
        simp [step, sbumpc, hr]
      rw [hstep]
      exact ⟨inv_answer hb', hb'.alive, hb'.stream, hb'.putback, nofun, nofun, by simp⟩
    · have hstep : b.step (.sbumpc, io, rd) = { b'.bump [c] with answer := .taken c } := by
        simp [step, sbumpc, hr]
      have hb'' := (inv_bump_one hb' hp).1
      rw [hstep]
      refine ⟨inv_answer hb'', hb''.alive, hb''.stream, hb''.putback, nofun, ?_, nofun⟩
      rintro c' ⟨rfl⟩
      simp [bump]
  | take k =>
    have hb' := (inv_bump hb (List.take_append_drop k b.pending).symm).1
    exact ⟨inv_answer hb', hb'.alive, hb'.stream, hb'.putback, nofun, nofun, nofun⟩

/-- `underflow` without new data: an end of file that was not found, or whatever
stands behind the get area. -/
theorem underflow_interrupted (hb : Inv b) (hx : b.exhausted = true)
    (h : io = .failed ∨ rd = .interrupted) :
    ∃ b', Inv b' ∧ b'.pending = [] ∧
      (b.underflow io rd = (.eof false, b') ∨ b.underflow io rd = (b'.current, b')) := by
  obtain ⟨memory, start, hkeep, hinv, hpend, -, -⟩ := keepPutback_spec hb (exhausted_iff.1 hx)
  refine ⟨_, hinv, hpend, ?_⟩
  rw [underflow, if_pos hx, refill, hkeep]
  dsimp only
  cases hn : requestSize io (bufsize - start) with
  | none => exact .inl rfl
  | some n =>
    rcases h with rfl | rfl
    · simp [requestSize] at hn
    · exact .inr rfl

theorem interrupted_of_not
    (h : ¬ (b.exhausted = true → io ≠ .failed ∧ rd ≠ .interrupted)) :
    b.exhausted = true ∧ (io = .failed ∨ rd = .interrupted) := by
  rw [Classical.not_imp, not_and_or, not_not, not_not] at h
  exact h

theorem current_ne_eof {found : Bool} : b.current ≠ .eof found := by
  cases ha : b.area with
  | none => simp [current, ha]
  | some a =>
    simp only [current, ha]
    split <;> simp

theorem crash_unfaithful : ¬ Faithful b.crash := by
  intro h
  simpa [crash] using h.alive

theorem eof_unfaithful : ¬ Faithful { b with answer := .eof false } := by
  intro h
  simpa using h.eof false rfl

theorem peeked_unfaithful (hp : b.pending = []) : ¬ Faithful { b with answer := .peeked c } := by
  intro h
  have hhead := h.peeked c rfl
  have hpend : pending { b with answer := .peeked c } = [] := hp
  rw [hpend] at hhead
  cases hhead

/-- A character that was not read makes more characters than bytes. -/
theorem taken_unfaithful (hb : Inv b) (hp : b.pending = []) {a : Answer} :
    ¬ Faithful { b.bump [c] with answer := a } := by
  intro h
  have hlen := congrArg List.length h.stream
  have hall := congrArg List.length hb.stream
  simp only [bump, List.length_append, List.length_singleton, hp, List.length_nil] at hlen hall
  omega

/-- An operation that is interrupted, or whose `ioctl` fails, answers with a
character that was not read or with an end of file that was not found. -/
theorem step_unfaithful {op : Operation × Fionread × ReadResult} (hb : Inv b)
    (hu : ¬ b.Uninterrupted op) : ¬ Faithful (b.step op) := by
  obtain ⟨op, io, rd⟩ := op
  cases op with
  | sgetc =>
    obtain ⟨hx, hbad⟩ := interrupted_of_not hu
    obtain ⟨b', hb', hp, hr | hr⟩ := underflow_interrupted hb hx hbad
    · simp only [step, sgetc, hr]
      apply eof_unfaithful
    · simp only [step, sgetc, hr]
      cases hc : b'.current with
      | char c => apply peeked_unfaithful hp
      | eof found => exact absurd hc current_ne_eof
      | crash => apply crash_unfaithful
  | sbumpc =>
    obtain ⟨hx, hbad⟩ := interrupted_of_not hu
    obtain ⟨b', hb', hp, hr | hr⟩ := underflow_interrupted hb hx hbad
    · simp only [step, sbumpc, hr]
      apply eof_unfaithful
    · simp only [step, sbumpc, hr]
      cases hc : b'.current with
      | char c => apply taken_unfaithful hb' hp
      | eof found => exact absurd hc current_ne_eof
      | crash => apply crash_unfaithful
  | take k => exact absurd trivial hu

end

/-- `P` at every operation of a run. -/
def Always (P : Fdbuf → Operation × Fionread × ReadResult → Prop) :
    Fdbuf → List (Operation × Fionread × ReadResult) → Prop
  | _, [] => True
  | b, op :: ops => P b op ∧ Always P (b.step op) ops

theorem inv_new (memory : ℕ → UInt8) : Inv (new memory) :=
  ⟨rfl, rfl, nofun, fun _ => rfl, nofun⟩

theorem always_iff {b : Fdbuf} (hb : Inv b) (ops : List (Operation × Fionread × ReadResult)) :
    Always (fun b op => Faithful (b.step op)) b ops ↔ Always Uninterrupted b ops := by
  induction ops generalizing b with
  | nil => exact Iff.rfl
  | cons op ops ih =>
    by_cases hu : b.Uninterrupted op
    · obtain ⟨hinv, hfaithful⟩ := step_faithful hb hu
      simp only [Always, hu, hfaithful, true_and]
      exact ih hinv
    · have hbad := step_unfaithful hb hu
      simp only [Always, hu, hbad, false_and]

/-- Input is faithful as long as no operation that has to read is interrupted. -/
theorem faithful_iff (memory : ℕ → UInt8) (ops : List (Operation × Fionread × ReadResult)) :
    Always (fun b op => Faithful (b.step op)) (new memory) ops ↔
      Always Uninterrupted (new memory) ops :=
  always_iff (inv_new memory) ops

/-- One byte arrives and is taken; the next `read` is interrupted, and the byte
behind it is taken as well. -/
theorem unfaithful_interrupted :
    ¬ Always (fun b op => Faithful (b.step op)) (new fun _ => 0)
      [(.sbumpc, .size 1, .data [65]), (.sbumpc, .size 0, .interrupted)] := by
  rintro ⟨-, h, -⟩
  have hstream := h.stream
  revert hstream
  decide

end Fdbuf
end AirSane
