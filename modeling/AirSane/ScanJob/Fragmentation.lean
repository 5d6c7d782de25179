import AirSane.Programs.Discipline
import AirSane.ScanJob.Lines

/-! # Lines from pieces

A backend may split the data of a frame in any way. `session::read` puts the
pieces together, so that the lines depend on the data alone.
-/

namespace AirSane.ScanJob
open Programs Program

variable {E E' : Environment} {data : List UInt8} {st : SaneStatus}

/-- The bytes of a successful `sane_read`. -/
def Event.received : Event → List UInt8
  | .saneRead _ .good bytes => bytes
  | _ => []

def received (evs : Log) : List UInt8 := evs.flatMap Event.received

@[simp] theorem received_nil : received [] = [] := rfl

@[simp] theorem received_append (evs evs' : Log) :
    received (evs ++ evs') = received evs ++ received evs' := List.flatMap_append

@[simp] theorem received_singleton (e : Event) : received [e] = e.received := by simp [received]

/-- After `base` the backend hands out the data of one frame in pieces of its own
choice, not empty and no longer than asked for, and then answers `st`. -/
structure HandsOut (E : Environment) (base : Log) (data : List UInt8) (st : SaneStatus) : Prop where
  piece (evs : Log) (maxLength : ℕ) (hm : 0 < maxLength) (hd : received evs <+: data)
    (hne : received evs ≠ data) : ∃ bytes, bytes ≠ [] ∧ bytes.length ≤ maxLength ∧
      E.saneRead (base ++ evs) maxLength = (.good, bytes) ∧ received evs ++ bytes <+: data
  ended (evs : Log) (maxLength : ℕ) (hm : 0 < maxLength) (hd : received evs = data) :
    E.saneRead (base ++ evs) maxLength = (st, [])

/-- A backend that hands out up to `grain` bytes at a time. -/
def Environment.grained (data : List UInt8) (st : SaneStatus) (grain : ℕ) : Environment where
  __ := Environment.scripted .zero [] []
  saneRead := fun log maxLength =>
    let rest := data.drop (received log).length
    if rest = [] then (st, []) else (.good, rest.take (min grain maxLength))

theorem handsOut_grained (data : List UInt8) (st : SaneStatus) {grain : ℕ} (hg : 0 < grain) :
    HandsOut (.grained data st grain) [] data st where
  piece evs maxLength hm hd hne := by
    obtain ⟨rest, rfl⟩ := hd
    have hrest : rest ≠ [] := fun h => hne (by simp [h])
    refine ⟨rest.take (min grain maxLength), ?_, by simp, by simp [Environment.grained, hrest], ?_⟩
    · have := List.length_pos_iff.2 hrest
      rw [← List.length_pos_iff, List.length_take]
      omega
    · exact (List.prefix_append_right_inj _).2 (List.take_prefix _ _)
  ended evs maxLength _ hd := by simp [Environment.grained, hd]

/-- A read of `size` bytes at a position of the data, with its status. -/
def dataLine (data : List UInt8) (st : SaneStatus) (size position : ℕ) : SaneStatus × List UInt8 :=
  (if position + size ≤ data.length then .good else st, (data.drop position).take size)

theorem dataLine_length {size position : ℕ} (hst : st ≠ .good)
    (h : (dataLine data st size position).1 = .good) :
    (dataLine data st size position).2.length = size := by
  simp only [dataLine, List.length_take, List.length_drop] at h ⊢
  split_ifs at h with hp
  · omega
  · exact absurd h hst

theorem dataLine_status {size position : ℕ} (h : (dataLine data st size position).1 ≠ .good) :
    (dataLine data st size position).1 = st := by
  simp only [dataLine] at h ⊢
  split_ifs at h ⊢
  · exact absurd rfl h
  · rfl

/-- Repeated calls of `session::read` and what each of them returned. -/
def readLines (fuel : ℕ) (i : SessionId) (size : ℕ) : ℕ → JobM (List (SaneStatus × List UInt8))
  | 0 => return []
  | n + 1 => do
    let r ← Session.read fuel i size
    return r :: (← readLines fuel i size n)

/-- The backend has handed out the data up to a position. -/
def World.At (base : Log) (data : List UInt8) (position : ℕ) (w : World) : Prop :=
  ∃ evs, w.log = base ++ evs ∧ received evs = data.take position

namespace World.At
variable {base : Log} {position : ℕ} {w : World}

theorem start (w : World) : w.At w.log data 0 := ⟨[], by simp⟩

theorem record (h : w.At base data position) (e : Event) (he : e.received = []) :
    (w.record e).At base data position := by
  obtain ⟨evs, hl, hr⟩ := h
  exact ⟨evs ++ [e], by simp [World.record, hl], by simp [hr, he]⟩

/-- Before the end of the data a piece takes the position forward. -/
theorem piece (h : w.At base data position) (hE : HandsOut E base data st)
    (hp : position < data.length) (i : SessionId) {maxLength : ℕ} (hm : 0 < maxLength) :
    ∃ n, 0 < n ∧ n ≤ maxLength ∧ position + n ≤ data.length ∧
      w.piece E maxLength = (.good, (data.drop position).take n) ∧
      (w.record (w.pieceEvent E i maxLength)).At base data (position + n) := by
  obtain ⟨evs, hl, hr⟩ := h
  have hne : received evs ≠ data := by
    intro heq
    have hlen := congrArg List.length (hr.symm.trans heq)
    simp only [List.length_take] at hlen
    omega
  obtain ⟨bytes, hb, hlen, hread, hpre⟩ :=
    hE.piece evs maxLength hm (hr ▸ List.take_prefix position data) hne
  have htake : received evs ++ bytes = data.take (position + bytes.length) := by
    rw [List.prefix_iff_eq_take.1 hpre]
    simp [hr, hp.le]
  have hbytes : bytes = (data.drop position).take bytes.length := by
    have happend : data.take position ++ bytes =
        data.take position ++ (data.drop position).take bytes.length := by
      rw [← hr, htake, hr, List.take_add]
    exact List.append_cancel_left happend
  have hpiece : w.piece E maxLength = (.good, bytes) := by
    simp [World.piece, hl, hread, List.take_of_length_le hlen]
  have hend : position + bytes.length ≤ data.length := by
    have := hpre.length_le
    simp only [List.length_append, hr, List.length_take] at this
    omega
  refine ⟨bytes.length, List.length_pos_iff.2 hb, hlen, hend, by rw [hpiece, ← hbytes], ?_⟩
  refine ⟨evs ++ [w.pieceEvent E i maxLength], by simp [World.record, hl], ?_⟩
  rw [received_append, received_singleton, ← htake, World.pieceEvent, hpiece]
  rfl

/-- At the end of the data the frame's last status comes without bytes. -/
theorem last (h : w.At base data position) (hE : HandsOut E base data st) (hst : st ≠ .good)
    (hp : data.length ≤ position) (i : SessionId) {maxLength : ℕ} (hm : 0 < maxLength) :
    w.piece E maxLength = (st, []) ∧
      (w.record (w.pieceEvent E i maxLength)).At base data position := by
  obtain ⟨evs, hl, hr⟩ := h
  have hpiece : w.piece E maxLength = (st, []) := by
    simp [World.piece, hl, hE.ended evs maxLength hm (hr.trans (List.take_of_length_le hp))]
  refine ⟨hpiece, World.At.record ⟨evs, hl, hr⟩ _ ?_⟩
  rw [World.pieceEvent, hpiece]
  cases st <;> rfl

end World.At

/-- The loop of `session::read` with part of its buffer filled: what is missing
is taken from the data, whatever the pieces are. -/
theorem run_readLoop_handsOut {base : Log} (hE : HandsOut E base data st) (hst : st ≠ .good)
    (i : SessionId) {size : ℕ} (fuel : ℕ) {position : ℕ} {buffer : List UInt8} {w : World}
    (hw : w.At base data position) (hb : buffer.length ≤ size) (hf : size - buffer.length < fuel)
    (hp : position ≤ data.length ∨ buffer.length < size) :
    ∃ u, (iterate (Session.readPass i size) fuel buffer).run (exec E) w =
        (.ok (if position + (size - buffer.length) ≤ data.length then .good else st,
          buffer ++ (data.drop position).take (size - buffer.length)), u) ∧
      u.At base data (position + (size - buffer.length)) := by
  induction fuel generalizing position buffer w with
  | zero => omega
  | succ fuel ih =>
    by_cases hfull : buffer.length < size
    · have hpass := run_readPass (E := E) i w hfull
      set missing := size - buffer.length with hmissing
      have hm : 0 < missing := by omega
      by_cases hend : position < data.length
      · obtain ⟨n, hn, hnm, hnd, hpiece, hat⟩ := hw.piece hE hend i hm
        have hlen : (buffer ++ (data.drop position).take n).length = buffer.length + n := by
          simp
          omega
        have hle : (buffer ++ (data.drop position).take n).length ≤ size := by omega
        obtain ⟨u, hrun, hu⟩ := ih hat hle (by omega) (.inl hnd)
        have hrest : size - (buffer ++ (data.drop position).take n).length = missing - n := by
          omega
        have hsum : position + n + (missing - n) = position + missing := by omega
        rw [hrest, hsum] at hrun hu
        refine ⟨u, ?_, hu⟩
        simp only [iterate, run_bind, hpass, hpiece, if_true, hrun, Prod.mk.injEq,
          Except.ok.injEq, true_and, and_true]
        rw [List.append_assoc, ← List.drop_drop, ← List.take_add, Nat.add_sub_cancel' hnm]
      · -- the frame is over, the buffer stays partly filled
        obtain ⟨hpiece, hat⟩ := hw.last hE hst (not_lt.1 hend) i hm
        have hdrop : data.drop position = [] := List.drop_of_length_le (not_lt.1 hend)
        have hover : ¬ position + missing ≤ data.length := by omega
        refine ⟨w.record (w.pieceEvent E i missing), ?_, ?_⟩
        · simp only [iterate, run_bind, hpass, hpiece, hst, if_false, run_ret, hdrop, hover,
            List.take_nil]
        · obtain ⟨evs, hl, hr⟩ := hat
          refine ⟨evs, hl, ?_⟩
          rw [hr, List.take_of_length_le (not_lt.1 hend), List.take_of_length_le (by omega)]
    · have hzero : size - buffer.length = 0 := by omega
      have hle : position ≤ data.length := hp.resolve_right hfull
      refine ⟨w, ?_, by simpa [hzero] using hw⟩
      simp [iterate, run_bind, run_readPass_full i w hfull, hzero, hle]

/-- One call of `session::read` returns the line at the position of the backend. -/
theorem run_read_handsOut {base : Log} (hE : HandsOut E base data st) (hst : st ≠ .good)
    (i : SessionId) {size fuel position : ℕ} (hs : 0 < size) (hf : size < fuel) {w : World}
    (hw : w.At base data position) :
    ∃ u, (Session.read fuel i size).run (exec E) w = (.ok (dataLine data st size position), u) ∧
      u.At base data (position + size) := by
  have hempty : ([] : List UInt8).length ≤ size := Nat.zero_le size
  obtain ⟨u, hrun, hu⟩ := run_readLoop_handsOut hE hst i fuel hw hempty (by simpa using hf) (.inr hs)
  set r := dataLine data st size position with hr
  refine ⟨(u.setSession i fun x => { x with status := r.1 }).record (.sessionRead r.1 r.2), ?_,
    World.At.record hu _ rfl⟩
  simp only [Session.read, run_bind, hrun, run_perform, exec]
  rfl

theorem run_readLines {base : Log} (hE : HandsOut E base data st) (hst : st ≠ .good)
    (i : SessionId) {size fuel : ℕ} (hs : 0 < size) (hf : size < fuel) (n : ℕ) {position : ℕ}
    {w : World} (hw : w.At base data position) :
    ((readLines fuel i size n).run (exec E) w).1 =
      .ok ((List.range n).map fun k => dataLine data st size (position + k * size)) := by
  induction n generalizing position w with
  | zero => rfl
  | succ n ih =>
    obtain ⟨u, hrun, hu⟩ := run_read_handsOut hE hst i hs hf hw
    have hrest := ih hu
    rcases hr : (readLines fuel i size n).run (exec E) u with ⟨r, v⟩
    rw [hr] at hrest
    obtain rfl : r = _ := hrest
    have hpos (k : ℕ) : position + size + k * size = position + (k + 1) * size := by ring
    simp [readLines, run_bind, hrun, hr, List.range_succ_eq_map, hpos, Function.comp_def]

/-- `session::read` asks for no more than what is left of its buffer. The
discipline counts the bytes that the buffer of the current line holds. -/
def withinBuffer (size : ℕ) : Discipline Command Answer ℕ where
  allowed filled
    | .saneRead _ maxLength => filled + maxLength ≤ size
    | _ => True
  next filled
    | .saneRead _ _, r => filled + r.2.length
    | .trace (.sessionRead _ _), _ => 0
    | _, _ => filled

theorem obeys_read (fuel : ℕ) (i : SessionId) (size : ℕ) :
    (Session.read fuel i size).Obeys (withinBuffer size) (fun _ filled => filled = 0)
      (fun _ => True) 0 := by
  unfold Session.read
  apply Obeys.bind (Q := fun _ _ => True)
  · apply obeys_iterate_inv (I := fun buffer filled => filled = buffer.length) _ fuel [] rfl
    rintro buffer _ rfl
    simp only [Session.readPass, access, perform, command_bind, ret_bind, pure_eq, obeys_ite,
      obeys_command, obeys_ret, Sum.elim_inl, Sum.elim_inr]
    refine ⟨fun hb => ⟨?_, fun r => ⟨fun _ => ?_, fun _ => trivial⟩⟩, fun _ => trivial⟩
    · simp only [withinBuffer]
      omega
    · simp [withinBuffer]
  · intro r filled _
    exact ⟨trivial, fun _ => ⟨trivial, fun _ => rfl⟩⟩

theorem obeys_readLines (fuel : ℕ) (i : SessionId) (size n : ℕ) :
    (readLines fuel i size n).Obeys (withinBuffer size) (fun _ filled => filled = 0)
      (fun _ => True) 0 := by
  induction n with
  | zero => rfl
  | succ n ih =>
    apply (obeys_read fuel i size).bind
    rintro r _ rfl
    apply ih.bind
    rintro rest _ rfl
    rfl

/-- Two backends that split the same data differently answer repeated reads
alike: line after line of the data, good as long as they are complete, and then
the status of the backend. Neither is asked for more than the buffer has room for. -/
theorem readLines_independent {w w' : World} (hst : st ≠ .good) (h : HandsOut E w.log data st)
    (h' : HandsOut E' w'.log data st) (i i' : SessionId) {size : ℕ} (hs : 0 < size) (n : ℕ) :
    ∃ lines, lines = (List.range n).map (fun k => dataLine data st size (k * size)) ∧
      (∀ fuel > size, ((readLines fuel i size n).run (exec E) w).1 = .ok lines ∧
        ((readLines fuel i' size n).run (exec E') w').1 = .ok lines) ∧
      (∀ r ∈ lines, (r.1 = .good → r.2.length = size) ∧ (r.1 ≠ .good → r.1 = st)) ∧
      ∀ fuel, (readLines fuel i size n).Obeys (withinBuffer size) (fun _ _ => True)
        (fun _ => True) 0 := by
  refine ⟨_, rfl, fun fuel hf => ⟨?_, ?_⟩, ?_, fun fuel => ?_⟩
  · simpa using run_readLines h hst i hs hf n (World.At.start w)
  · simpa using run_readLines h' hst i' hs hf n (World.At.start w')
  · intro r hr
    obtain ⟨k, -, rfl⟩ := List.mem_map.1 hr
    exact ⟨dataLine_length hst, dataLine_status⟩
  · exact (obeys_readLines fuel i size n).imp fun _ _ _ => trivial

/-- Five bytes in lines of two, one by one and three at a time. -/
theorem readLines_independent_five :
    let E := Environment.grained [1, 2, 3, 4, 5] .eof
    ∃ lines, lines = [(.good, [1, 2]), (.good, [3, 4]), (.eof, [5])] ∧
      (∀ fuel > 2, ((readLines fuel 0 2 3).run (exec (E 1)) (.initial true)).1 = .ok lines ∧
        ((readLines fuel 0 2 3).run (exec (E 3)) (.initial true)).1 = .ok lines) ∧
      (∀ r ∈ lines, (r.1 = SaneStatus.good → r.2.length = 2) ∧ (r.1 ≠ .good → r.1 = .eof)) ∧
      ∀ fuel, (readLines fuel 0 2 3).Obeys (withinBuffer 2) (fun _ _ => True)
        (fun _ => True) 0 := by
  have hsplit {n : ℕ} (hn : 0 < n) :
      HandsOut (.grained [1, 2, 3, 4, 5] .eof n) (World.initial true).log [1, 2, 3, 4, 5] .eof :=
    handsOut_grained _ _ hn
  obtain ⟨lines, hl, h⟩ := readLines_independent (by decide : SaneStatus.eof ≠ .good)
    (hsplit one_pos) (hsplit three_pos) 0 0 two_pos 3
  exact ⟨lines, hl.trans (by decide), h⟩

end AirSane.ScanJob
