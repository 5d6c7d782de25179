import AirSane.ImageFormats.PngResources

/-! # The images of a transfer

A transfer that libpng does not interrupt sends none of the lines of an image, or all of
them, or else it leaves a struct behind.
-/

namespace AirSane
open Text Web Programs OwnerCall

namespace PngEncoder

variable {p : PngEncoder} {answers : PngAnswers} {ops : List (Op × PngAnswers)}

/-- The state after an image: another one is refused. -/
theorem kept_after (hi : 0 < p.encoder.currentImage) (hl : p.encoder.currentLine = 0)
    (hd : p.encoder.destination = true) (hp : p.mpPng = none) (lines : List Octets) :
    p.Kept (lines.map fun line => (.writeLine line, answers)) := by
  have hb : ¬ p.Begins := fun h => absurd h.1 (not_le.2 hi)
  induction lines with
  | nil => exact hp
  | cons line lines ih =>
    refine ⟨fun _ => by simp [hl, hb], ?_⟩
    have hthrown : p.writeLine answers line = (p, false) := by
      rw [writeLine_first hd hl, onImageBegin_of_not_begins hb]
      rfl
    rw [step, hthrown]
    exact ih

section
variable (hyes : ∀ c, answers c = true)
include hyes

theorem returns_of_yes (p : PngEncoder) (c : PngCall) : p.returns answers c = true := by
  simp [returns, hyes]

theorem putLine_eq (line : Octets) (hd : p.encoder.destination = true) :
    (p.putLine answers line).1.encoder = p.encoder.advance ∧
      (p.putLine answers line).1.mpPng =
        if p.encoder.advance.currentLine = 0 then none else p.mpPng := by
  have hd' : p.encoder.advance.destination = true := by rw [Encoder.advance_destination, hd]
  unfold putLine onWriteLine finishLine onImageEnd
  simp only [andThen, returns_of_yes hyes, if_true, hd', and_true]
  split_ifs <;> exact ⟨rfl, rfl⟩

theorem kept_putLine_last (hd : p.encoder.destination = true) (hi : 0 ≤ p.encoder.currentImage)
    (hfull : p.encoder.currentLine + 1 = p.encoder.height) (lines : List Octets) :
    (p.putLine answers line).1.Kept (lines.map fun line => (.writeLine line, answers)) := by
  obtain ⟨hencoder, hheld⟩ := putLine_eq hyes line hd
  have hadvance : p.encoder.advance =
      { p.encoder with currentLine := 0, currentImage := p.encoder.currentImage + 1 } :=
    if_pos hfull
  rw [hadvance] at hencoder hheld
  refine kept_after ?_ ?_ ?_ hheld lines
  · rw [hencoder]
    exact Int.lt_add_one_of_le hi
  · rw [hencoder]
  · rw [hencoder]
    exact hd

theorem putLine_inside (line : Octets) (hd : p.encoder.destination = true)
    (hl : 0 ≤ p.encoder.currentLine) (hfull : p.encoder.currentLine + 1 ≠ p.encoder.height) :
    (p.putLine answers line).1.encoder =
        { p.encoder with currentLine := p.encoder.currentLine + 1 } ∧
      (p.putLine answers line).1.mpPng = p.mpPng := by
  obtain ⟨hencoder, hheld⟩ := putLine_eq hyes line hd
  have hadvance : p.encoder.advance =
      { p.encoder with currentLine := p.encoder.currentLine + 1 } := if_neg hfull
  have hinside : p.encoder.currentLine + 1 ≠ 0 := by omega
  rw [hadvance] at hencoder hheld
  exact ⟨hencoder, hheld.trans (if_neg hinside)⟩

/-- Behind a line of an image, the other ones have to come. -/
theorem kept_putLine (line : Octets) (hd : p.encoder.destination = true)
    (hi : 0 ≤ p.encoder.currentImage) (hl : 0 ≤ p.encoder.currentLine) (hp : p.mpPng ≠ none)
    (lines : List Octets) :
    (p.putLine answers line).1.Kept (lines.map fun line => (.writeLine line, answers)) ↔
      p.encoder.currentLine < p.encoder.height ∧
        p.encoder.height ≤ p.encoder.currentLine + 1 + lines.length := by
  induction lines generalizing p line with
  | nil =>
    by_cases hfull : p.encoder.currentLine + 1 = p.encoder.height
    · exact iff_of_true (kept_putLine_last hyes hd hi hfull []) (by rw [List.length_nil]; omega)
    · have hheld := (putLine_inside hyes line hd hl hfull).2
      refine iff_of_false (fun h => hp (hheld.symm.trans h)) ?_
      rw [List.length_nil]
      omega
  | cons next lines ih =>
    by_cases hfull : p.encoder.currentLine + 1 = p.encoder.height
    · exact iff_of_true (kept_putLine_last hyes hd hi hfull (next :: lines)) (by omega)
    · obtain ⟨hencoder, hheld⟩ := putLine_inside hyes line hd hl hfull
      rw [← hheld] at hp
      generalize (p.putLine answers line).1 = q at *
      have hline : q.encoder.currentLine = p.encoder.currentLine + 1 := by rw [hencoder]
      have hdest : q.encoder.destination = true := by rw [hencoder, hd]
      have hheight : q.encoder.height = p.encoder.height := by rw [hencoder]
      have himage : 0 ≤ q.encoder.currentImage := by
        rw [hencoder]
        exact hi
      have hinside : q.encoder.currentLine ≠ 0 := by omega
      have hkeeps : q.Keeps answers (.writeLine next) := fun _ => by simpa [hinside] using hp
      have hstep : q.step answers (.writeLine next) = q.putLine answers next :=
        writeLine_later hdest hinside
      refine (and_iff_right hkeeps).trans ?_
      rw [hstep, ih next hdest himage (by omega) hp, hline, hheight, List.length_cons]
      push_cast
      omega

/-- Before an image: either none of its lines comes, or all do. -/
theorem kept_lines (hd : p.encoder.destination = true) (hb : p.Begins)
    (hi : p.encoder.currentImage = 0) (hl : p.encoder.currentLine = 0) (hp : p.mpPng = none)
    (lines : List Octets) :
    p.Kept (lines.map fun line => (.writeLine line, answers)) ↔
      lines = [] ∨ 0 < p.encoder.height ∧ p.encoder.height ≤ lines.length := by
  cases lines with
  | nil => exact iff_of_true hp (.inl rfl)
  | cons line lines =>
    obtain ⟨hbegin, hencoder, hback⟩ := onImageBegin_of_begins answers hb
    have hheld : (p.onImageBegin answers).1.mpPng ≠ none := by
      have hmade : p.made answers = some p.structs := if_pos (hyes _)
      rw [hbegin.held]
      exact hmade ▸ Option.some_ne_none _
    have hkeeps : p.Keeps answers (.writeLine line) := fun _ => by simp [hl, hp, hyes]
    have hstep : p.step answers (.writeLine line) =
        (p.onImageBegin answers).1.putLine answers line := by
      rw [step, writeLine_first hd hl, andThen, if_pos (hback (returns_of_yes hyes _))]
    have hput := kept_putLine hyes line (hencoder ▸ hd) (hencoder ▸ hi.ge)
      (hencoder ▸ hl.ge) hheld lines
    rw [hencoder, hl] at hput
    refine (and_iff_right hkeeps).trans ?_
    rw [hstep, hput, List.length_cons]
    simp only [List.cons_ne_nil, false_or]
    push_cast
    omega

end

theorem kept_append (hkeeps : ∀ op ∈ ops, ∀ p, Keeps op.2 p op.1)
    (rest : List (Op × PngAnswers)) : p.Kept (ops ++ rest) ↔ (p.run ops).Kept rest := by
  induction ops generalizing p with
  | nil => exact .rfl
  | cons op ops ih =>
    refine (and_iff_right (hkeeps op List.mem_cons_self p)).trans ?_
    exact ih fun op hop => hkeeps op (List.mem_cons_of_mem _ hop)

/-- The setters that `finishTransfer` calls. -/
def setUp (e : Encoder) : List Op :=
  [.setResolutionDpi e.dpi, .setColorspace e.colorspace, .setWidth e.width, .setHeight e.height,
    .setBitDepth e.bitDepth, .setDestination true]

/-- An image with no failure of libpng. -/
def transfer (e : Encoder) (lines : List Octets) : List (Op × PngAnswers) :=
  (setUp e).map (·, fun _ => true) ++ lines.map fun line => (.writeLine line, fun _ => true)

/-- A transfer is balanced if it sends nothing of the image or all of it. -/
theorem libpngBalanced_transfer (e : Encoder) (lines : List Octets)
    (hsize : e.bitDepth = 16 →
      0 ≤ Encoder.int32 (e.width * Encoder.componentsOf e.colorspace)) :
    LibpngBalanced (transfer e lines) ↔
      lines = [] ∨ 0 < e.height ∧ e.height ≤ lines.length := by
  have hsetters : ∀ op ∈ (setUp e).map (·, fun _ => true), ∀ p, Keeps op.2 p op.1 := by
    simp [setUp, Keeps]
  have hstate : (run new ((setUp e).map (·, fun _ => true))).encoder = Encoder.refresh
      { Encoder.new .png with
        width := e.width
        height := e.height
        bitDepth := e.bitDepth
        dpi := e.dpi
        colorspace := e.colorspace
        destination := true } := rfl
  have hheld : (run new ((setUp e).map (·, fun _ => true))).mpPng = none := rfl
  have hlog : (run new (transfer e lines)).Logged := logged_run logged_new
  refine hlog.balanced_iff.trans ((kept_iff logged_new).trans ((and_iff_right trivial).trans ?_))
  refine (kept_append hsetters _).trans ?_
  generalize run new ((setUp e).map (·, fun _ => true)) = p at *
  have hbegins : p.Begins := by
    rw [Begins, hstate]
    exact ⟨le_rfl, rfl, hsize⟩
  refine (kept_lines (fun _ => rfl) ?_ hbegins ?_ ?_ hheld lines).trans ?_ <;> rw [hstate] <;> rfl

/-- The client leaves after the first of two lines. -/
theorem not_libpngBalanced_left : ∃ (e : Encoder) (lines : List Octets),
    e.height = 2 ∧ lines.length = 1 ∧
      (run new (transfer e lines)).destructor = [.create (some 0), .use (some 0)] ∧
      ¬ LibpngBalanced (transfer e lines) := by
  refine ⟨{ Encoder.new .png with
    width := 1
    height := 2
    bitDepth := 8
    dpi := 300
    colorspace := .grayscale }, [[0]], rfl, rfl, by decide, fun h => ?_⟩
  exact absurd (h.matched 0 (by decide)) (by decide)

end PngEncoder
end AirSane
