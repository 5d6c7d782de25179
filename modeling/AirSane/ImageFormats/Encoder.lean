import Mathlib.Algebra.Ring.Int.Defs
import Mathlib.Algebra.Ring.Nat
import Mathlib.Data.Nat.Notation
import Mathlib.Tactic.Set
import Mathlib.Tactic.SplitIfs

/-! # The data of an image encoder

The protected fields of `ImageEncoder`, the virtual callbacks of its
subclasses and the explicit checks that make them throw.
-/

namespace AirSane

/-- `JpegEncoder`, `PdfEncoder`, `PngEncoder`. -/
inductive EncoderKind where
  | jpeg | pdf | png
  deriving DecidableEq, Repr

def MIME_TYPE_JPEG := "image/jpeg"
def MIME_TYPE_PDF := "application/pdf"
def MIME_TYPE_PNG := "image/png"

/-- The encoder that `finishTransfer` creates for a document format. -/
def EncoderKind.ofDocumentFormat (format : String) : Option EncoderKind :=
  if format = MIME_TYPE_JPEG then some .jpeg
  else if format = MIME_TYPE_PDF then some .pdf
  else if format = MIME_TYPE_PNG then some .png
  else none

theorem EncoderKind.ofDocumentFormat_eq_pdf {format : String} {kind : EncoderKind}
    (h : ofDocumentFormat format = some kind) : kind = .pdf ↔ format = MIME_TYPE_PDF := by
  unfold ofDocumentFormat at h
  split_ifs at h with h₁ h₂ h₃ <;> obtain rfl := Option.some.inj h
  · simp [h₁, MIME_TYPE_JPEG, MIME_TYPE_PDF]
  · simp [h₂]
  · simp [h₃, MIME_TYPE_PNG, MIME_TYPE_PDF]

inductive Colorspace where
  | unknown | grayscale | rgb
  deriving DecidableEq, Repr

/-- The virtual functions of `ImageEncoder`. -/
inductive Callback where
  | onDocumentBegin
  | onImageBegin
  | onWriteLine (line : List UInt8)
  | onImageEnd
  | onDocumentEnd
  deriving DecidableEq, Repr

/-- A virtual call and whether it came back without throwing. -/
abbrev Call := Callback × Bool

def completed (calls : List Callback) : List Call := calls.map fun cb => (cb, true)

@[simp] theorem completed_append (a b : List Callback) :
    completed (a ++ b) = completed a ++ completed b := by
  simp [completed]

structure Encoder where
  kind : EncoderKind
  width : ℤ
  height : ℤ
  components : ℤ
  bitDepth : ℤ
  dpi : ℤ
  orientationDegrees : ℤ
  bytesPerLine : ℤ
  currentLine : ℤ
  currentImage : ℤ
  colorspace : Colorspace
  destination : Bool
  deriving DecidableEq, Repr

namespace Encoder

/-- `ImageEncoder::ImageEncoder`. -/
def new (kind : EncoderKind) : Encoder where
  kind := kind
  width := 0
  height := 0
  components := 0
  bitDepth := 0
  dpi := 0
  orientationDegrees := 0
  bytesPerLine := 0
  currentLine := 0
  currentImage := 0
  colorspace := .unknown
  destination := false

/-- Reduction to the range of a 32-bit `int`. -/
def int32 (x : ℤ) : ℤ := x.bmod (2 ^ 32)

def componentsOf : Colorspace → ℤ
  | .grayscale => 1
  | .rgb => 3
  | .unknown => 1

/-- The assignments of `onParamChange`, after its check. -/
def refresh (e : Encoder) : Encoder :=
  { e with
    components := componentsOf e.colorspace
    bytesPerLine := (int32 (componentsOf e.colorspace * e.width * e.bitDepth)).tdiv 8 }

def linesLeftInCurrentImage (e : Encoder) : ℤ := e.height - e.currentLine

/-- The counters of `writeLine`: the line counter wraps at the image height. -/
def advance (e : Encoder) : Encoder :=
  if e.currentLine + 1 = e.height then
    { e with currentLine := 0, currentImage := e.currentImage + 1 }
  else { e with currentLine := e.currentLine + 1 }

/-- Whether the subclass overrides the callback; the base versions of the
document callbacks are empty. -/
def overrides (e : Encoder) : Callback → Bool
  | .onDocumentBegin => e.kind = .pdf
  | .onDocumentEnd => e.kind = .pdf
  | _ => true

/-- The explicit checks at the head of a callback: `false` throws. -/
def admits (e : Encoder) : Callback → Bool
  | .onDocumentBegin => e.kind ≠ .pdf || e.dpi ≠ 0
  | .onImageBegin => match e.kind with
    | .pdf => true
    | .png => e.currentImage ≤ 0 && e.orientationDegrees = 0
    | .jpeg => (e.bitDepth = 8 || e.bitDepth = 16) && e.currentImage ≤ 0 &&
        e.orientationDegrees = 0
  | _ => true

/-- Whether the callback calls into libjpeg or libpng, which may throw. -/
def callsLibrary (e : Encoder) (cb : Callback) : Bool := e.overrides cb && e.kind ≠ .pdf

/-- Whether the callback has a way to throw at this point. -/
def mayThrow (e : Encoder) (cb : Callback) : Bool := !e.admits cb || e.callsLibrary cb

/-- The virtual calls that `writeLine` makes on an encoder with a destination. -/
def lineCalls (e : Encoder) (line : List UInt8) : List Callback :=
  (if e.currentLine = 0 ∧ e.currentImage = 0 then [.onDocumentBegin] else []) ++
    (if e.currentLine = 0 then [.onImageBegin] else []) ++ [.onWriteLine line] ++
    if e.advance.currentLine = 0 then [.onImageEnd] else []

@[simp] theorem refresh_currentLine (e : Encoder) : e.refresh.currentLine = e.currentLine := rfl
@[simp] theorem refresh_currentImage (e : Encoder) : e.refresh.currentImage = e.currentImage := rfl
@[simp] theorem refresh_height (e : Encoder) : e.refresh.height = e.height := rfl
@[simp] theorem refresh_destination (e : Encoder) : e.refresh.destination = e.destination := rfl
@[simp] theorem refresh_kind (e : Encoder) : e.refresh.kind = e.kind := rfl
@[simp] theorem refresh_dpi (e : Encoder) : e.refresh.dpi = e.dpi := rfl

@[simp] theorem advance_height (e : Encoder) : e.advance.height = e.height := by
  unfold advance
  split <;> rfl

@[simp] theorem advance_destination (e : Encoder) : e.advance.destination = e.destination := by
  unfold advance
  split <;> rfl

@[simp] theorem advance_kind (e : Encoder) : e.advance.kind = e.kind := by
  unfold advance
  split <;> rfl

@[simp] theorem advance_dpi (e : Encoder) : e.advance.dpi = e.dpi := by
  unfold advance
  split <;> rfl

/-- Where `n` lines of height `h` lead: the line counter and the completed
images. A height that is not positive is never reached. -/
def lineAt (h : ℤ) (n : ℕ) : ℤ := if 0 < h then n % h else n

def imagesAt (h : ℤ) (n : ℕ) : ℤ := if 0 < h then n / h else 0

@[simp] theorem lineAt_zero (h : ℤ) : lineAt h 0 = 0 := by simp [lineAt]

@[simp] theorem imagesAt_zero (h : ℤ) : imagesAt h 0 = 0 := by simp [imagesAt]

/-- The counters after one more line. -/
theorem advance_at {e : Encoder} {n : ℕ} (hl : e.currentLine = lineAt e.height n) :
    e.advance.currentLine = lineAt e.height (n + 1) ∧
      e.advance.currentImage = e.currentImage + (imagesAt e.height (n + 1) - imagesAt e.height n) := by
  by_cases hh : 0 < e.height
  · simp only [lineAt, imagesAt, hh, if_true] at hl ⊢
    have hdiv := Int.mul_ediv_add_emod n e.height
    have hlt := Int.emod_lt_of_pos n hh
    have hne : e.height ≠ 0 := by omega
    have hnn := Int.emod_nonneg n hne
    set q := (n : ℤ) / e.height
    set r := (n : ℤ) % e.height
    have hn : ((n + 1 : ℕ) : ℤ) = (r + 1) + e.height * q := by push_cast; omega
    rw [hn, Int.add_mul_emod_self_left, Int.add_mul_ediv_left _ _ hne]
    by_cases hfull : e.currentLine + 1 = e.height
    · have hr : r + 1 = e.height := by omega
      simp [advance, hfull, hr, Int.ediv_self hne]
    · have hr : r + 1 < e.height := by omega
      rw [Int.emod_eq_of_lt (by omega) hr, Int.ediv_eq_zero_of_lt (by omega) hr]
      simp only [advance, hfull, if_false]
      simp [hl]
  · simp only [lineAt, imagesAt, hh, if_false] at hl ⊢
    have hfull : e.currentLine + 1 ≠ e.height := by omega
    simp only [advance, hfull, if_false]
    simp [hl]

/-- The last of some of these calls threw. -/
inductive Thrown (e : Encoder) (calls : List Callback) : List Call → Prop where
  | intro {pre post : List Callback} {cb : Callback} (h : calls = pre ++ cb :: post)
      (ha : ∀ x ∈ pre, e.admits x) (hc : e.mayThrow cb = true) :
    Thrown e calls (completed pre ++ [(cb, false)])

namespace Thrown
variable {e e' : Encoder} {a b : List Callback} {cs : List Call}

theorem append_left (ha : ∀ x ∈ a, e.admits x) (h : e.Thrown b cs) :
    e.Thrown (a ++ b) (completed a ++ cs) := by
  cases h with
  | @intro pre post cb h hp hc =>
    have hsplit : a ++ b = a ++ pre ++ cb :: post := by simp [h]
    simpa using intro hsplit (List.forall_mem_append.2 ⟨ha, hp⟩) hc

theorem append_right (h : e.Thrown a cs) (b : List Callback) : e.Thrown (a ++ b) cs := by
  cases h with
  | @intro pre post cb h hp hc =>
    have hsplit : a ++ b = pre ++ cb :: (post ++ b) := by simp [h]
    exact .intro hsplit hp hc

theorem congr (h : e.Thrown a cs) (ha : ∀ cb ∈ a, e.admits cb = e'.admits cb)
    (hc : ∀ cb ∈ a, e.callsLibrary cb = e'.callsLibrary cb) : e'.Thrown a cs := by
  cases h with
  | @intro pre post cb h hp hm =>
    refine .intro h (fun x hx => ?_) ?_
    · rw [← ha x (by simp [h, hx])]
      exact hp x hx
    · rw [mayThrow, ← ha cb (by simp [h]), ← hc cb (by simp [h])]
      exact hm

/-- The first call threw, or it came back and a later one did. -/
theorem cons_cases {cb : Callback} (h : e.Thrown (cb :: a) cs) :
    (cs = [(cb, false)] ∧ e.mayThrow cb = true) ∨
      ∃ cs', cs = (cb, true) :: cs' ∧ e.admits cb = true ∧ e.Thrown a cs' := by
  cases h with
  | @intro pre post x h hp hc =>
    cases pre with
    | nil =>
      obtain ⟨rfl, rfl⟩ := List.cons.inj h
      exact .inl ⟨rfl, hc⟩
    | cons y pre =>
      obtain ⟨rfl, rfl⟩ := List.cons.inj h
      exact .inr ⟨_, rfl, hp cb (by simp), .intro rfl (fun z hz => hp z (by simp [hz])) hc⟩

theorem not_nil (h : e.Thrown [] cs) : False := by
  cases h with
  | @intro pre post x h _ _ => simp at h

end Thrown

/-- Only a PDF document without a resolution fails to begin. -/
theorem mayThrow_onDocumentBegin (e : Encoder) :
    e.mayThrow .onDocumentBegin = true ↔ e.kind = .pdf ∧ e.dpi = 0 := by
  by_cases hk : e.kind = .pdf <;> simp [mayThrow, admits, callsLibrary, overrides, hk]

theorem admits_onDocumentBegin (e : Encoder) :
    e.admits .onDocumentBegin = true ↔ ¬ (e.kind = .pdf ∧ e.dpi = 0) := by
  by_cases hk : e.kind = .pdf <;> simp [admits, hk]

end Encoder
end AirSane
