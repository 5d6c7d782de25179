import AirSane.Basic.FdbufOutput

/-! # The destination of JPEG data

`OstreamDestinationMgr` hands libjpeg a buffer and writes it to the stream when it
is full, and what is in it at the end. The library works on the two fields of the
destination, or on copies of them that it stores back from time to time.
-/

namespace AirSane
open Text Fdbuf PutArea

/-- The buffer, the fields of `jpeg_destination_mgr` with the pointer as a position in
the buffer, and the stream by the bytes that it has taken. -/
structure OstreamDestinationMgr where
  next_output_byte : ℕ
  free_in_buffer : ℕ
  buffer : ℕ → UInt8
  os : Option Octets

namespace OstreamDestinationMgr

/-- `sizeof(buffer)`. -/
def size : ℕ := 4096

def init (d : OstreamDestinationMgr) : OstreamDestinationMgr :=
  { d with free_in_buffer := size, next_output_byte := 0 }

def term (d : OstreamDestinationMgr) : OstreamDestinationMgr :=
  { d with os := d.os.map fun written => written ++ slice d.buffer 0 (size - d.free_in_buffer) }

def empty_buffer (d : OstreamDestinationMgr) : OstreamDestinationMgr :=
  { d with free_in_buffer := 0, next_output_byte := size }.term.init

end OstreamDestinationMgr

/-- The library with its destination and its copies of the fields. -/
structure Compressor where
  dest : OstreamDestinationMgr
  next_output_byte : ℕ
  free_in_buffer : ℕ

/-- What the library does for its output. -/
inductive JpegOutput where
  | store (b : UInt8)
  /-- The fields of the destination are brought up to date. -/
  | update
  | empty_output_buffer
  deriving DecidableEq

/-- The bytes of the output. -/
def JpegOutput.bytes (ops : List JpegOutput) : Octets :=
  ops.filterMap fun
    | .store b => some b
    | _ => none

namespace Compressor
open OstreamDestinationMgr

/-- The copies are those of the fields. -/
def load (d : OstreamDestinationMgr) : Compressor := ⟨d, d.next_output_byte, d.free_in_buffer⟩

def update (c : Compressor) : Compressor :=
  { c with dest := { c.dest with
      next_output_byte := c.next_output_byte
      free_in_buffer := c.free_in_buffer } }

/-- A byte is stored while there is room, and the buffer emptied if there is none. -/
def step (c : Compressor) : JpegOutput → Option Compressor
  | .store b =>
    if 0 < c.free_in_buffer then
      some {
        dest := { c.dest with buffer := Function.update c.dest.buffer c.next_output_byte b }
        next_output_byte := c.next_output_byte + 1
        free_in_buffer := c.free_in_buffer - 1 }
    else none
  | .update => some c.update
  | .empty_output_buffer => if c.free_in_buffer = 0 then some (load c.dest.empty_buffer) else none

def run (c : Compressor) (ops : List JpegOutput) : Option Compressor := ops.foldlM step c

end Compressor

open OstreamDestinationMgr Compressor

/-- From `jpeg_start_compress` in `JpegEncoder::onImageBegin` to `jpeg_finish_compress` in
`JpegEncoder::onImageEnd`. -/
def OstreamDestinationMgr.compress (d : OstreamDestinationMgr) (destination : Option Octets)
    (ops : List JpegOutput) : Option OstreamDestinationMgr :=
  ((load { d with os := destination }.init).run ops).map fun c => c.update.dest.term

/-- The output of a library that empties the buffer as soon as it is full, and brings
the fields up to date at some places: after every byte, as libjpeg does, or after the
last byte of a block, as libjpeg-turbo does. -/
def JpegOutput.of (updates : Octets → Bool) : ℕ → Octets → List JpegOutput
  | _, [] => []
  | free, b :: rest =>
    .store b :: ((if updates rest then [.update] else []) ++
      if free ≤ 1 then .empty_output_buffer :: JpegOutput.of updates size rest
      else JpegOutput.of updates (free - 1) rest)

section
variable {c c' : Compressor} {d d' : OstreamDestinationMgr} {out s : Octets} {ops : List JpegOutput}
  {op : JpegOutput} {memory : ℕ → UInt8} {b : UInt8}

/-- What the stream has taken and the library has stored since. -/
structure Compressor.Holds (c : Compressor) (memory : ℕ → UInt8) (s : Octets) : Prop where
  order : ∃ written, c.dest.os = some written ∧
    written ++ slice c.dest.buffer 0 c.next_output_byte = s
  room : c.next_output_byte + c.free_in_buffer = size
  outside : ∀ i ≥ size, c.dest.buffer i = memory i

theorem Compressor.Holds.update (h : c.Holds memory s) : c.update.Holds memory s :=
  ⟨h.order, h.room, h.outside⟩

/-- With fields that are up to date all of the output is written. -/
theorem Compressor.Holds.term (h : c.Holds memory s) : c.update.dest.term.os = some s := by
  obtain ⟨written, hos, horder⟩ := h.order
  have hcount : size - c.free_in_buffer = c.next_output_byte := by
    have hroom := h.room
    omega
  rw [OstreamDestinationMgr.term, Compressor.update]
  simp only [hos, hcount, Option.map_some, horder]

theorem Compressor.Holds.store (h : c.Holds memory s) (hfree : 0 < c.free_in_buffer) :
    ∃ c', c.step (.store b) = some c' ∧ c'.Holds memory (s ++ [b]) ∧
      c'.free_in_buffer = c.free_in_buffer - 1 := by
  obtain ⟨written, hos, horder⟩ := h.order
  have hroom := h.room
  refine ⟨_, if_pos hfree, ⟨⟨written, hos, ?_⟩, ?_, fun i hi => ?_⟩, rfl⟩
  · simp only [slice_update, ← horder, List.append_assoc]
  · simp only
    omega
  · have hne : i ≠ c.next_output_byte := by omega
    exact (Function.update_of_ne hne _ _).trans (h.outside i hi)

/-- A full buffer is written, whatever the fields say. -/
theorem Compressor.Holds.empty (h : c.Holds memory s) (hfull : c.free_in_buffer = 0) :
    ∃ c', c.step .empty_output_buffer = some c' ∧ c'.Holds memory s ∧ c'.free_in_buffer = size := by
  obtain ⟨written, hos, horder⟩ := h.order
  have hroom := h.room
  have hend : c.next_output_byte = size := by omega
  have hwritten : (load c.dest.empty_buffer).dest.os = some s := by
    rw [hend] at horder
    simp [load, empty_buffer, OstreamDestinationMgr.term, init, hos, horder]
  refine ⟨_, if_pos hfull, ⟨⟨s, hwritten, ?_⟩, rfl, h.outside⟩, rfl⟩
  simp [load, empty_buffer, init, slice_nil]

/-- A step adds its byte to the output, if it has one. -/
theorem Compressor.Holds.step (h : c.Holds memory s) (hs : c.step op = some c') :
    c'.Holds memory (s ++ JpegOutput.bytes [op]) := by
  cases op with
  | store b =>
    by_cases hfree : 0 < c.free_in_buffer
    · obtain ⟨c'', hstep, hc, -⟩ := h.store (b := b) hfree
      obtain rfl : c'' = c' := Option.some.inj (hstep.symm.trans hs)
      exact hc
    · simp [Compressor.step, hfree] at hs
  | update =>
    obtain rfl : c.update = c' := Option.some.inj hs
    simpa [JpegOutput.bytes] using h.update
  | empty_output_buffer =>
    by_cases hfull : c.free_in_buffer = 0
    · obtain ⟨c'', hstep, hc, -⟩ := h.empty hfull
      obtain rfl : c'' = c' := Option.some.inj (hstep.symm.trans hs)
      simpa [JpegOutput.bytes] using hc
    · simp [Compressor.step, hfull] at hs

theorem Compressor.Holds.run (h : c.Holds memory s) (hs : c.run ops = some c') :
    c'.Holds memory (s ++ JpegOutput.bytes ops) := by
  induction ops generalizing c s with
  | nil =>
    obtain rfl : c = c' := Option.some.inj hs
    simpa [JpegOutput.bytes] using h
  | cons op ops ih =>
    rw [Compressor.run, List.foldlM_cons] at hs
    obtain ⟨next, hnext, hrest⟩ := Option.bind_eq_some_iff.1 hs
    have hall := ih (h.step hnext) hrest
    rwa [List.append_assoc, JpegOutput.bytes, JpegOutput.bytes, ← List.filterMap_append,
      List.singleton_append] at hall

@[simp] theorem JpegOutput.bytes_append (ops ops' : List JpegOutput) :
    JpegOutput.bytes (ops ++ ops') = JpegOutput.bytes ops ++ JpegOutput.bytes ops' :=
  List.filterMap_append

theorem JpegOutput.bytes_of (updates : Octets → Bool) (free : ℕ) (bytes : Octets) :
    JpegOutput.bytes (JpegOutput.of updates free bytes) = bytes := by
  induction bytes generalizing free with
  | nil => rfl
  | cons b rest ih =>
    have hupdate : JpegOutput.bytes (if updates rest then [.update] else []) = [] := by
      split_ifs <;> rfl
    have hrest : JpegOutput.bytes (if free ≤ 1 then
        .empty_output_buffer :: JpegOutput.of updates size rest
        else JpegOutput.of updates (free - 1) rest) = rest := by
      split_ifs
      · exact ih size
      · exact ih (free - 1)
    rw [JpegOutput.of]
    refine congrArg (b :: ·) ?_
    exact (JpegOutput.bytes_append _ _).trans (by rw [hupdate, hrest]; rfl)

theorem Compressor.run_append {ops' : List JpegOutput} {c'' : Compressor}
    (h : c.run ops = some c') (h' : c'.run ops' = some c'') : c.run (ops ++ ops') = some c'' := by
  rw [Compressor.run, List.foldlM_append]
  exact Option.bind_eq_some_iff.2 ⟨c', h, h'⟩

theorem Compressor.run_cons {c'' : Compressor} (h : c.step op = some c')
    (h' : c'.run ops = some c'') : c.run (op :: ops) = some c'' := by
  rw [Compressor.run, List.foldlM_cons]
  exact Option.bind_eq_some_iff.2 ⟨c', h, h'⟩

/-- There is a run for all bytes. -/
theorem Compressor.Holds.exists_run (h : c.Holds memory s) (hfree : 0 < c.free_in_buffer)
    (updates : Octets → Bool) (bytes : Octets) :
    ∃ c', c.run (JpegOutput.of updates c.free_in_buffer bytes) = some c' := by
  induction bytes generalizing c s with
  | nil => exact ⟨c, rfl⟩
  | cons b rest ih =>
    obtain ⟨c₁, hstore, hc₁, hfree₁⟩ := h.store (b := b) hfree
    obtain ⟨c₂, hupdate, hc₂, hfree₂⟩ : ∃ c₂,
        c₁.run (if updates rest then [.update] else []) = some c₂ ∧ c₂.Holds memory (s ++ [b]) ∧
          c₂.free_in_buffer = c₁.free_in_buffer := by
      split_ifs
      · exact ⟨c₁.update, rfl, hc₁.update, rfl⟩
      · exact ⟨c₁, rfl, hc₁, rfl⟩
    have hrest : ∃ c', c₂.run (if c.free_in_buffer ≤ 1 then
        .empty_output_buffer :: JpegOutput.of updates size rest
        else JpegOutput.of updates (c.free_in_buffer - 1) rest) = some c' := by
      split_ifs with hfull
      · obtain ⟨c₃, hempty, hc₃, hfree₃⟩ := hc₂.empty (by omega)
        obtain ⟨c', hrun⟩ := ih hc₃ (by rw [hfree₃]; decide)
        rw [hfree₃] at hrun
        exact ⟨c', run_cons hempty hrun⟩
      · obtain ⟨c', hrun⟩ := ih hc₂ (by omega)
        rw [hfree₂, hfree₁] at hrun
        exact ⟨c', hrun⟩
    obtain ⟨c', hrun⟩ := hrest
    exact ⟨c', run_cons hstore (run_append hupdate hrun)⟩

/-- The stream gets the bytes of the output, all of them and in their order, and nothing
is stored outside of the buffer. There is such output for all bytes, and with fields
that are up to date at any places. -/
theorem compress_exact (d : OstreamDestinationMgr) (out bytes : Octets) :
    (∀ updates, ∃ d', d.compress (some out) (JpegOutput.of updates size bytes) = some d' ∧
      d'.os = some (out ++ bytes)) ∧
    ∀ ops, JpegOutput.bytes ops = bytes → ∀ d', d.compress (some out) ops = some d' →
      d'.os = some (out ++ bytes) ∧ ∀ i ≥ size, d'.buffer i = d.buffer i := by
  have hstart : (load { d with os := some out }.init).Holds d.buffer out :=
    ⟨⟨out, rfl, by simp [load, init, slice_nil]⟩, rfl, fun _ _ => rfl⟩
  have hall : ∀ ops, JpegOutput.bytes ops = bytes → ∀ d', d.compress (some out) ops = some d' →
      d'.os = some (out ++ bytes) ∧ ∀ i ≥ size, d'.buffer i = d.buffer i := by
    rintro ops rfl d' hd
    obtain ⟨c, hrun, rfl⟩ := Option.map_eq_some_iff.1 hd
    have hend := hstart.run hrun
    exact ⟨hend.term, hend.outside⟩
  refine ⟨fun updates => ?_, hall⟩
  obtain ⟨c, hrun⟩ := hstart.exists_run (Nat.zero_lt_succ _) updates bytes
  have hd := congrArg (Option.map fun c => c.update.dest.term) hrun
  exact ⟨_, hd, (hall _ (JpegOutput.bytes_of updates size bytes) _ hd).1⟩

/-- One buffer of bytes, from a library that leaves the fields as they are. -/
theorem compress_exact_full :
    let d : OstreamDestinationMgr := ⟨0, 0, fun _ => 0, none⟩
    let bytes : Octets := List.replicate size 255
    ∃ d', d.compress (some []) (JpegOutput.of (fun _ => false) size bytes) = some d' ∧
      d'.os = some bytes ∧ ∀ i ≥ size, d'.buffer i = 0 := by
  intro d bytes
  obtain ⟨d', hd, -⟩ := (compress_exact d [] bytes).1 fun _ => false
  exact ⟨d', hd, (compress_exact d [] bytes).2 _ (JpegOutput.bytes_of _ _ _) d' hd⟩

end
end AirSane
