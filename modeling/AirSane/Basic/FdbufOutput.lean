import AirSane.Basic.Fdbuf

/-! # Output through `fdbuf`

The put area of `fdbuf`: a buffer whose last slot is outside of the range that
the stream fills by itself, and is left to `overflow`. What `write` returns is
an input, for every call and the size that it is asked for.
-/

namespace AirSane
open Text

/-- `write`: a number of bytes, `EINTR`, or another error. -/
inductive WriteResult where
  | taken (k : ℕ)
  | interrupted
  | failed

/-- The buffer, `pptr` as a position in it (`pbase` is its beginning), the total
that was written, and, for the record, the bytes that the descriptor has taken,
the number of calls of `write`, and the furthest that `pptr` has been. -/
structure PutArea where
  mOutbuf : ℕ → UInt8
  pptr : ℕ
  mTotalWritten : ℕ
  written : Octets
  calls : ℕ
  high : ℕ

/-- The result of a `write` by its number and by the size asked for. -/
abbrev Descriptor := ℕ → ℕ → WriteResult

inductive Seekdir where
  | beg | cur | «end»
  deriving DecidableEq

inductive Openmode where
  | «in» | out | both
  deriving DecidableEq

inductive Insertion where
  | sputc (c : UInt8)
  /-- A block, which is put as if by repeated `sputc`. -/
  | sputn (s : Octets)
  | flush

def Insertion.chars : Insertion → Octets
  | .sputc c => [c]
  | .sputn s => s
  | .flush => []

def inserted (ops : List Insertion) : Octets := (ops.map Insertion.chars).flatten

namespace PutArea
open Fdbuf

/-- `epptr`. -/
def epptr : ℕ := bufsize - 1

/-- The constructor. -/
def new (memory : ℕ → UInt8) : PutArea := ⟨memory, 0, 0, [], 0, 0⟩

/-- `*pptr() = c; pbump(1)`. -/
def store (b : PutArea) (c : UInt8) : PutArea :=
  { b with
    mOutbuf := Function.update b.mOutbuf b.pptr c
    pptr := b.pptr + 1
    high := max b.high (b.pptr + 1) }

/-- The loop of `sync`: `n` bytes to write from position `p` on, with whether
it succeeds. -/
def syncLoop (fd : Descriptor) : ℕ → ℕ → ℕ → PutArea → Option (Bool × PutArea)
  | 0, _, _, _ => none
  | fuel + 1, p, n, b =>
    if n = 0 then some (true, b)
    else
      let b' := { b with calls := b.calls + 1 }
      match fd b.calls n with
      | .failed => some (false, b')
      | .interrupted => syncLoop fd fuel p n b'
      | .taken k => syncLoop fd fuel (p + k) (n - k) { b' with
          mTotalWritten := b.mTotalWritten + k
          written := b.written ++ slice b.mOutbuf p (p + k) }

/-- `fdbuf::sync`. -/
def sync (fd : Descriptor) (fuel : ℕ) (b : PutArea) : Option (Bool × PutArea) :=
  syncLoop fd fuel 0 b.pptr { b with pptr := 0 }

/-- `sputc`, by `overflow` where the declared range is full. -/
def sputc (fd : Descriptor) (fuel : ℕ) (b : PutArea) (c : UInt8) : Option (Bool × PutArea) :=
  if b.pptr < epptr then some (true, b.store c) else (b.store c).sync fd fuel

/-- `sputn`, up to a character that cannot be put. -/
def sputn (fd : Descriptor) (fuel : ℕ) : Octets → PutArea → Option (Bool × PutArea)
  | [], b => some (true, b)
  | c :: s, b => do
    match ← b.sputc fd fuel c with
    | (true, b) => sputn fd fuel s b
    | (false, b) => return (false, b)

def step (fd : Descriptor) (fuel : ℕ) (b : PutArea) : Insertion → Option (Bool × PutArea)
  | .sputc c => b.sputc fd fuel c
  | .sputn s => b.sputn fd fuel s
  | .flush => b.sync fd fuel

/-- Insertions one after the other; a stream that fails takes no more. -/
def run (fd : Descriptor) (fuel : ℕ) : List Insertion → PutArea → Option (Bool × PutArea)
  | [], b => some (true, b)
  | op :: ops, b => do
    match ← b.step fd fuel op with
    | (true, b) => run fd fuel ops b
    | (false, b) => return (false, b)

/-- `fdbuf::seekoff`. -/
def seekoff (b : PutArea) (offset : ℤ) (dir : Seekdir) (mode : Openmode) : ℤ :=
  if offset = 0 ∧ dir = .cur ∧ mode = .out then b.mTotalWritten + b.pptr else -1

def tellp (b : PutArea) : ℤ := b.seekoff 0 .cur .out

/-- What happens to all insertions so far. -/
structure Faithful (b : PutArea) (ops : List Insertion) : Prop where
  order : b.written ++ slice b.mOutbuf 0 b.pptr = inserted ops
  flushed : ops.getLast? = some .flush → b.written = inserted ops
  inside : b.high ≤ bufsize
  position : b.tellp = (inserted ops).length

end PutArea

/-- Every `write` is interrupted or takes at least one byte and at most what it
is asked for, and is not interrupted for ever. -/
structure Descriptor.Serves (fd : Descriptor) : Prop where
  takes : ∀ i n, 0 < n → fd i n = .interrupted ∨ ∃ k, fd i n = .taken k ∧ 1 ≤ k ∧ k ≤ n
  resumes : ∀ i n, 0 < n → ∃ j, fd (i + j) n ≠ .interrupted

namespace PutArea
open Fdbuf
variable {fd : Descriptor} {b b' : PutArea} {s : Octets} {c : UInt8}

theorem slice_append {memory : ℕ → UInt8} {i j k : ℕ} (hij : i ≤ j) (hjk : j ≤ k) :
    slice memory i j ++ slice memory j k = slice memory i k := by
  induction hij using Nat.decreasingInduction with
  | self => simp [slice_nil]
  | of_succ i hi ih =>
    rw [slice_cons hi, List.cons_append, ih, ← slice_cons (Nat.lt_of_lt_of_le hi hjk)]

theorem slice_update {memory : ℕ → UInt8} {i : ℕ} :
    slice (Function.update memory i c) 0 (i + 1) = slice memory 0 i ++ [c] := by
  have hlast : slice (Function.update memory i c) i (i + 1) = [c] := by
    rw [slice_cons (by omega), slice_nil (by omega), Function.update_self]
  have hfirst : slice (Function.update memory i c) 0 i = slice memory 0 i := by
    apply List.map_congr_left
    intro k hk
    have hlt : k < i - 0 := List.mem_range.1 hk
    exact Function.update_of_ne (by omega) _ _
  rw [← slice_append (Nat.zero_le i) (Nat.le_succ i), hfirst, hlast]

/-- All of the bytes, in whatever pieces, after any number of interruptions. -/
theorem syncLoop_spec (hfd : fd.Serves) (n p : ℕ) (b : PutArea) :
    ∃ fuel₀ calls, ∀ fuel ≥ fuel₀, syncLoop fd fuel p n b = some (true, { b with
      calls := calls
      mTotalWritten := b.mTotalWritten + n
      written := b.written ++ slice b.mOutbuf p (p + n) }) := by
  induction n using Nat.strong_induction_on generalizing p b with
  | _ n ih =>
    by_cases hn : n = 0
    · subst hn
      refine ⟨1, b.calls, fun fuel hfuel => ?_⟩
      obtain ⟨fuel, rfl⟩ : ∃ k, fuel = k + 1 := ⟨fuel - 1, by omega⟩
      simp [syncLoop, slice_nil]
    · have hpos : 0 < n := by omega
      have htaken (b : PutArea) (h : fd b.calls n ≠ .interrupted) :
          ∃ fuel₀ calls, ∀ fuel ≥ fuel₀, syncLoop fd fuel p n b = some (true, { b with
            calls := calls
            mTotalWritten := b.mTotalWritten + n
            written := b.written ++ slice b.mOutbuf p (p + n) }) := by
        obtain ⟨k, hk, hk₁, hkn⟩ := (hfd.takes b.calls n hpos).resolve_left h
        obtain ⟨fuel₀, calls, hloop⟩ := ih (n - k) (by omega) (p + k) { b with
          calls := b.calls + 1
          mTotalWritten := b.mTotalWritten + k
          written := b.written ++ slice b.mOutbuf p (p + k) }
        refine ⟨fuel₀ + 1, calls, fun fuel hfuel => ?_⟩
        obtain ⟨fuel, rfl⟩ : ∃ k, fuel = k + 1 := ⟨fuel - 1, by omega⟩
        have hend : p + k + (n - k) = p + n := by omega
        have htotal : b.mTotalWritten + k + (n - k) = b.mTotalWritten + n := by omega
        simp only [syncLoop, hn, if_false, hk, hloop fuel (by omega), hend, htotal,
          List.append_assoc, slice_append (Nat.le_add_right p k) (by omega : p + k ≤ p + n)]
      obtain ⟨j, hj⟩ := hfd.resumes b.calls n hpos
      induction j generalizing b with
      | zero => exact htaken b hj
      | succ j hrest =>
        by_cases hint : fd b.calls n = .interrupted
        · have hj' : fd (b.calls + 1 + j) n ≠ .interrupted := by
            rw [Nat.add_right_comm]
            exact hj
          obtain ⟨fuel₀, calls, hloop⟩ := hrest { b with calls := b.calls + 1 } hj'
          refine ⟨fuel₀ + 1, calls, fun fuel hfuel => ?_⟩
          obtain ⟨fuel, rfl⟩ : ∃ k, fuel = k + 1 := ⟨fuel - 1, by omega⟩
          simp only [syncLoop, hn, if_false, hint, hloop fuel (by omega)]
        · exact htaken b hint

/-- The put area between two insertions, with what was inserted. -/
structure Holds (b : PutArea) (s : Octets) : Prop where
  order : b.written ++ slice b.mOutbuf 0 b.pptr = s
  total : b.mTotalWritten = b.written.length
  room : b.pptr ≤ epptr
  inside : b.high ≤ bufsize

/-- With enough fuel a function succeeds, in one and the same state. -/
def Returns (f : ℕ → Option (Bool × PutArea)) (b : PutArea) : Prop :=
  ∃ fuel₀, ∀ fuel ≥ fuel₀, f fuel = some (true, b)

/-- A function that is followed by another one. -/
theorem Returns.bind {f : ℕ → Option (Bool × PutArea)} {g : ℕ → PutArea → Option (Bool × PutArea)}
    (hf : Returns f b) (hg : Returns (g · b) b') : Returns (fun fuel => do
      match ← f fuel with
      | (true, b) => g fuel b
      | (false, b) => return (false, b)) b' := by
  obtain ⟨n, hn⟩ := hf
  obtain ⟨k, hk⟩ := hg
  refine ⟨max n k, fun fuel hfuel => ?_⟩
  have hfirst := hn fuel (le_trans (Nat.le_max_left n k) hfuel)
  have hnext := hk fuel (le_trans (Nat.le_max_right n k) hfuel)
  simp only [hfirst]
  exact hnext

/-- A flush writes all that is held, even where the reserved slot is in use. -/
theorem sync_spec (hfd : fd.Serves) (ho : b.written ++ slice b.mOutbuf 0 b.pptr = s)
    (ht : b.mTotalWritten = b.written.length) (hi : b.high ≤ bufsize) :
    ∃ b', Returns (b.sync fd) b' ∧ b'.Holds s ∧ b'.written = s := by
  obtain ⟨fuel₀, calls, hloop⟩ := syncLoop_spec hfd b.pptr 0 { b with pptr := 0 }
  rw [Nat.zero_add] at hloop
  refine ⟨_, ⟨fuel₀, hloop⟩, ⟨?_, ?_, Nat.zero_le _, hi⟩, ho⟩
  · simpa [slice_nil] using ho
  · simp [ht]

theorem sputc_spec (hfd : fd.Serves) (hb : b.Holds s) :
    ∃ b', Returns (b.sputc fd · c) b' ∧ b'.Holds (s ++ [c]) := by
  have horder : (b.store c).written ++ slice (b.store c).mOutbuf 0 (b.store c).pptr = s ++ [c] := by
    simp only [store, slice_update, ← hb.order, List.append_assoc]
  have hpptr := hb.room
  have hinside : (b.store c).high ≤ bufsize := by
    have hhigh := hb.inside
    simp only [store, epptr, bufsize] at hpptr hhigh ⊢
    omega
  by_cases hlt : b.pptr < epptr
  · exact ⟨b.store c, ⟨0, fun fuel _ => if_pos hlt⟩, horder, hb.total, hlt, hinside⟩
  · obtain ⟨b', ⟨fuel₀, hsync⟩, hholds, -⟩ := sync_spec hfd horder hb.total hinside
    exact ⟨b', ⟨fuel₀, fun fuel hfuel => (if_neg hlt).trans (hsync fuel hfuel)⟩, hholds⟩

theorem sputn_spec (hfd : fd.Serves) (t : Octets) (hb : b.Holds s) :
    ∃ b', Returns (b.sputn fd · t) b' ∧ b'.Holds (s ++ t) := by
  induction t generalizing b s with
  | nil => exact ⟨b, ⟨0, fun _ _ => rfl⟩, by simpa using hb⟩
  | cons c t ih =>
    obtain ⟨b₁, hfirst, hb₁⟩ := sputc_spec (c := c) hfd hb
    obtain ⟨b₂, hrest, hb₂⟩ := ih hb₁
    exact ⟨b₂, hfirst.bind hrest, by simpa using hb₂⟩

/-- One insertion; a flush leaves nothing in the buffer. -/
theorem step_spec (hfd : fd.Serves) (op : Insertion) (hb : b.Holds s) :
    ∃ b', Returns (b.step fd · op) b' ∧ b'.Holds (s ++ op.chars) ∧
      (op = .flush → b'.written = s) := by
  cases op with
  | sputc c =>
    obtain ⟨b', hrun, hb'⟩ := sputc_spec (c := c) hfd hb
    exact ⟨b', hrun, hb', nofun⟩
  | sputn t =>
    obtain ⟨b', hrun, hb'⟩ := sputn_spec hfd t hb
    exact ⟨b', hrun, hb', nofun⟩
  | flush =>
    obtain ⟨b', hrun, hb', hw⟩ := sync_spec hfd hb.order hb.total hb.inside
    exact ⟨b', hrun, by simpa [Insertion.chars] using hb', fun _ => hw⟩

theorem run_spec (hfd : fd.Serves) (ops : List Insertion) (hb : b.Holds s) :
    ∃ b', Returns (run fd · ops b) b' ∧ b'.Holds (s ++ inserted ops) ∧
      (ops.getLast? = some .flush → b'.written = s ++ inserted ops) := by
  induction ops generalizing b s with
  | nil => exact ⟨b, ⟨0, fun _ _ => rfl⟩, by simpa [inserted] using hb, nofun⟩
  | cons op ops ih =>
    obtain ⟨b₁, hfirst, hb₁, hflush⟩ := step_spec hfd op hb
    obtain ⟨b₂, hrest, hb₂, hlast⟩ := ih hb₁
    have hall : s ++ op.chars ++ inserted ops = s ++ inserted (op :: ops) := by simp [inserted]
    rw [hall] at hb₂ hlast
    refine ⟨b₂, hfirst.bind hrest, hb₂, fun h => ?_⟩
    cases ops with
    | nil =>
      obtain rfl : op = .flush := by simpa using h
      obtain ⟨n, hn⟩ := hrest
      have hsame : b₁ = b₂ := by simpa [run] using hn n (Nat.le_refl n)
      rw [← hsame, hflush rfl]
      simp [inserted, Insertion.chars]
    | cons op' ops => exact hlast (by simpa using h)

theorem holds_new (memory : ℕ → UInt8) : (new memory).Holds [] :=
  ⟨rfl, rfl, Nat.zero_le _, Nat.zero_le _⟩

theorem Holds.tellp (hb : b.Holds s) : b.tellp = s.length := by
  have hlen := congrArg List.length hb.order
  rw [List.length_append, slice_length, Nat.sub_zero, ← hb.total] at hlen
  simp [PutArea.tellp, seekoff, ← hlen]

/-- Whatever is inserted, and however it is written, output is faithful at every
moment between two insertions. -/
theorem output_faithful (hfd : fd.Serves) (memory : ℕ → UInt8) (ops : List Insertion) :
    ∃ b, Returns (run fd · ops (new memory)) b ∧ b.Faithful ops := by
  obtain ⟨b, hrun, hb, hlast⟩ := run_spec hfd ops (holds_new memory)
  rw [List.nil_append] at hb hlast
  exact ⟨b, hrun, hb.order, hlast, hb.inside, hb.tellp⟩

/-- A descriptor that is interrupted every other time, and takes one byte. -/
def byteByByte : Descriptor := fun i _ => if i % 2 = 0 then .interrupted else .taken 1

theorem serves_byteByByte : byteByByte.Serves where
  takes i n hn := by
    by_cases hi : i % 2 = 0
    · exact .inl (if_pos hi)
    · exact .inr ⟨1, if_neg hi, by omega, by omega⟩
  resumes i n hn := by
    refine ⟨1 - i % 2, ?_⟩
    have hodd : (i + (1 - i % 2)) % 2 ≠ 0 := by omega
    simp [byteByByte, hodd]

theorem output_faithful_byteByByte :
    ∃ b, Returns (run byteByByte · [.sputn (ascii "ab"), .flush] (new fun _ => 0)) b ∧
      b.Faithful [.sputn (ascii "ab"), .flush] :=
  output_faithful serves_byteByByte (fun _ => 0) _

end PutArea
end AirSane
