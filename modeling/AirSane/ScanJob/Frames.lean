import AirSane.ScanJob.FinishTransfer

/-! # Frames and what becomes of them

A frame begins with a `sane_start` that leads to frame parameters; it is made of
the lines that are read until the next one. The tally of a log lists its frames,
the latest first, with what the backend delivered and what the encoder took.
-/

namespace AirSane.ScanJob
open Programs Program

variable {E : Environment} {s : Settings}

structure Frame where
  delivered : List (List UInt8)
  written : List (List UInt8)
  ended : Option SaneStatus
  deriving DecidableEq

namespace Frame

def new : Frame := ⟨[], [], none⟩

def deliver (f : Frame) (line : List UInt8) : Frame := { f with delivered := f.delivered ++ [line] }

def write (f : Frame) (line : List UInt8) : Frame := { f with written := f.written ++ [line] }

@[simp] theorem deliver_ended (f : Frame) (line : List UInt8) : (f.deliver line).ended = f.ended :=
  rfl

@[simp] theorem write_ended (f : Frame) (line : List UInt8) : (f.write line).ended = f.ended := rfl

@[simp] theorem deliver_delivered (f : Frame) (line : List UInt8) :
    (f.deliver line).delivered = f.delivered ++ [line] := rfl

@[simp] theorem write_delivered (f : Frame) (line : List UInt8) :
    (f.write line).delivered = f.delivered := rfl

/-- How one event changes the frames seen so far. -/
def observe : List Frame → Event → List Frame
  | fs, .saneGetParameters _ st _ => if st = .good then new :: fs else fs
  | f :: fs, .sessionRead st line =>
    if st = .good then f.deliver line :: fs else { f with ended := some st } :: fs
  | f :: fs, .callback (.onWriteLine line) true => f.write line :: fs
  | fs, _ => fs

end Frame

def frames (log : Log) : List Frame := log.foldl Frame.observe []

/-- The frames of a transfer, the one it found started included. -/
def World.framesSince (w' w : World) : List Frame :=
  (frames w'.log).take ((frames w'.log).length + 1 - (frames w.log).length)

/-- Events that no frame notices. -/
def Unnoticed (evs : Log) : Prop := ∀ fs, evs.foldl Frame.observe fs = fs

theorem frames_append (log evs : Log) :
    frames (log ++ evs) = evs.foldl Frame.observe (frames log) := by
  simp [frames]

theorem Unnoticed.append {a b : Log} (ha : Unnoticed a) (hb : Unnoticed b) : Unnoticed (a ++ b) :=
  fun fs => by rw [List.foldl_append, ha, hb]

theorem unnoticed_of_forall {evs : Log} (h : ∀ e ∈ evs, ∀ fs, Frame.observe fs e = fs) :
    Unnoticed evs := by
  intro fs
  induction evs with
  | nil => rfl
  | cons e evs ih =>
    rw [List.foldl_cons, h e (by simp)]
    exact ih fun x hx => h x (by simp [hx])

theorem Reads.unnoticed {d : Option Handle} {evs : Log} (h : Reads d evs) : Unnoticed evs :=
  unnoticed_of_forall fun e he fs => by
    obtain ⟨st, bytes, rfl⟩ := h e he
    cases fs <;> rfl

theorem Releases.unnoticed {evs : Log} (h : Releases evs) : Unnoticed evs :=
  unnoticed_of_forall fun e he fs => by
    obtain ⟨x, rfl | rfl⟩ := h e he <;> cases fs <;> rfl

theorem Starts.foldl_observe {d : Option Handle} {evs : Log} {st : SaneStatus}
    (h : Starts d evs st) (fs : List Frame) :
    evs.foldl Frame.observe fs = if st = .good then .new :: fs else fs := by
  cases h with
  | refused hst => cases fs <;> simp [Frame.observe, hst]
  | parameters st p => cases fs <;> simp [Frame.observe]

theorem Starts.ne_nil {d : Option Handle} {evs : Log} {st : SaneStatus} (h : Starts d evs st) :
    evs ≠ [] := by
  cases h <;> simp

theorem Restarted.eq_or_eof {d : Option Handle} {evs : Log} {st st' : SaneStatus}
    (h : Restarted d st evs st') : (evs = [] ∧ st' = st) ∨ (evs ≠ [] ∧ st = .eof) := by
  cases h with
  | refl => exact .inl ⟨rfl, rfl⟩
  | again h _ => exact .inr ⟨by simp [h.ne_nil], rfl⟩

/-- Restarting adds one frame if it comes to a frame at all. -/
theorem Restarted.foldl_observe {d : Option Handle} {evs : Log} {st st' : SaneStatus}
    (h : Restarted d st evs st') (fs : List Frame) :
    evs.foldl Frame.observe fs = if evs ≠ [] ∧ st' = .good then .new :: fs else fs := by
  induction h with
  | refl st => simp
  | @again evs rest st₁ st' h hr ih =>
    rw [List.foldl_append, h.foldl_observe]
    rcases hr.eq_or_eof with ⟨rfl, rfl⟩ | ⟨hne, rfl⟩
    · simp [h.ne_nil]
    · simp [ih, hne]

/-- What the calls for a line change: the line is written. -/
theorem foldl_observe_made (e : Encoder) (line : List UInt8) (f : Frame) (fs : List Frame) :
    (made (completed (e.lineCalls line))).foldl Frame.observe (f :: fs) = f.write line :: fs := by
  unfold Encoder.lineCalls
  split_ifs <;> rfl

/-- A failed attempt adds at most one line to what was written. -/
theorem foldl_observe_unsent {e : Encoder} {line : List UInt8} {cs : List Call} {rest : Log}
    (h : Unsent e (e.lineCalls line) cs rest) (f : Frame) (fs : List Frame) :
    ∃ f' : Frame, f'.delivered = f.delivered ∧ f'.ended = f.ended ∧
      (made cs ++ rest).foldl Frame.observe (f :: fs) = f' :: fs := by
  have hcalls (cs : List Call) (f : Frame) : ∃ f' : Frame, f'.delivered = f.delivered ∧
      f'.ended = f.ended ∧ (made cs).foldl Frame.observe (f :: fs) = f' :: fs := by
    induction cs generalizing f with
    | nil => exact ⟨f, rfl, rfl, rfl⟩
    | cons c cs ih =>
      have hone : ∃ f₁ : Frame, f₁.delivered = f.delivered ∧ f₁.ended = f.ended ∧
          Frame.observe (f :: fs) (.callback c.1 c.2) = f₁ :: fs := by
        rcases c with ⟨_ | _ | _ | _ | _, _ | _⟩ <;>
          first | exact ⟨f, rfl, rfl, rfl⟩ | exact ⟨f.write _, rfl, rfl, rfl⟩
      obtain ⟨f₁, hd, he, ho⟩ := hone
      obtain ⟨f', hd', he', ho'⟩ := ih f₁
      refine ⟨f', hd'.trans hd, he'.trans he, ?_⟩
      rw [made, List.map_cons, List.foldl_cons, ho]
      exact ho'
  cases h with
  | thrown _ => simpa using hcalls cs f
  | unflushed _ =>
    obtain ⟨f', hd, he, ho⟩ := hcalls (completed (e.lineCalls line)) f
    exact ⟨f', hd, he, by simp [List.foldl_append, ho, Frame.observe]⟩

end AirSane.ScanJob
