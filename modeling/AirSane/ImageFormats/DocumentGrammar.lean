import AirSane.ImageFormats.Encoder

/-! # The grammar of a document

The order in which an encoder expects its virtual functions to be called, and
what writing lines contributes to it. The counters of the encoder say how far
the document has come.
-/

namespace AirSane

def writtenLines (lines : List (List UInt8)) : List Call :=
  completed (lines.map .onWriteLine)

/-- An image that was begun, got exactly `h` lines and was ended. -/
inductive CompleteImage (h : ℤ) : List Call → Prop where
  | intro {lines : List (List UInt8)} (hl : (lines.length : ℤ) = h) :
    CompleteImage h ((.onImageBegin, true) :: writtenLines lines ++ [(.onImageEnd, true)])

/-- An image that stops short: a call threw, or no more lines came. A height
that is not positive is never reached. -/
inductive IncompleteImage (h : ℤ) : List Call → Prop where
  | begin : IncompleteImage h [(.onImageBegin, false)]
  | writing {lines : List (List UInt8)} (hl : (lines.length : ℤ) < h ∨ h ≤ 0) :
    IncompleteImage h ((.onImageBegin, true) :: writtenLines lines)
  | line {lines : List (List UInt8)} (last : List UInt8) (hl : (lines.length : ℤ) < h ∨ h ≤ 0) :
    IncompleteImage h ((.onImageBegin, true) :: writtenLines lines ++ [(.onWriteLine last, false)])
  | ending {lines : List (List UInt8)} (hl : (lines.length : ℤ) = h) :
    IncompleteImage h ((.onImageBegin, true) :: writtenLines lines ++ [(.onImageEnd, false)])

/-- The calls of a document that has not been ended. -/
inductive OpenDocument (h : ℤ) : List Call → Prop where
  | intro {images : List (List Call)} {rest : List Call} (hi : ∀ c ∈ images, CompleteImage h c)
      (hr : rest = [] ∨ IncompleteImage h rest) :
    OpenDocument h ((.onDocumentBegin, true) :: (images.flatten ++ rest))

inductive DocumentGrammar (h : ℤ) : List Call → Prop where
  | empty : DocumentGrammar h []
  | document {calls : List Call} (hc : OpenDocument h calls) (b : Bool) :
    DocumentGrammar h (calls ++ [(.onDocumentEnd, b)])

theorem not_openDocument_nil {h : ℤ} : ¬ OpenDocument h [] := nofun

theorem not_openDocument_begin_false {h : ℤ} {calls : List Call} :
    ¬ OpenDocument h ((.onDocumentBegin, false) :: calls) := nofun

theorem documentGrammar_end_iff {h : ℤ} {calls : List Call} {b : Bool} :
    DocumentGrammar h (calls ++ [(.onDocumentEnd, b)]) ↔ OpenDocument h calls := by
  refine ⟨fun hd => ?_, fun hc => .document hc b⟩
  generalize hx : calls ++ [(Callback.onDocumentEnd, b)] = x at hd
  cases hd with
  | empty => simp at hx
  | document hc b' =>
    obtain rfl := List.append_inj_left' hx rfl
    exact hc

namespace Encoder

/-- The calls that an encoder of height `h` has received, read off its counters. -/
inductive Received (h : ℤ) (e : Encoder) : List Call → Prop where
  | nothing (hl : e.currentLine = 0) (hi : e.currentImage = 0) : Received h e []
  | images {images : List (List Call)} (hc : ∀ c ∈ images, CompleteImage h c)
      (hne : images ≠ []) (hl : e.currentLine = 0) (hi : e.currentImage = images.length) :
    Received h e ((.onDocumentBegin, true) :: images.flatten)
  | lines {images : List (List Call)} {lines : List (List UInt8)}
      (hc : ∀ c ∈ images, CompleteImage h c) (hne : lines ≠ [])
      (hl : e.currentLine = lines.length) (hlt : (lines.length : ℤ) < h ∨ h ≤ 0)
      (hi : e.currentImage = images.length) :
    Received h e ((.onDocumentBegin, true) ::
      (images.flatten ++ (.onImageBegin, true) :: writtenLines lines))

theorem Received.openDocument {h : ℤ} {e : Encoder} {calls : List Call}
    (hr : e.Received h calls) (hne : calls ≠ []) : OpenDocument h calls := by
  cases hr with
  | nothing => exact absurd rfl hne
  | @images images hc _ _ _ => simpa using OpenDocument.intro hc (.inl rfl)
  | lines hc _ _ hlt _ => exact .intro hc (.inr (.writing hlt))

/-- The calls of a line, sorted by what they find: a document and an image are
begun where needed, the line is written, an image it completes is ended. -/
theorem Received.lineCalls {h : ℤ} {e : Encoder} {calls : List Call} (hr : e.Received h calls)
    (line : List UInt8) : ∃ pre images lines, (∀ c ∈ images, CompleteImage h c) ∧
      (e.currentImage : ℤ) = images.length ∧ e.currentLine = (lines.length : ℤ) ∧
      ((lines.length : ℤ) < h ∨ h ≤ 0) ∧
      e.lineCalls line = pre ++ .onWriteLine line ::
        (if e.advance.currentLine = 0 then [.onImageEnd] else []) ∧
      calls ++ completed pre = (.onDocumentBegin, true) ::
        (images.flatten ++ (.onImageBegin, true) :: writtenLines lines) ∧
      ((calls = [] ∧ pre = [.onDocumentBegin, .onImageBegin] ∧ images = [] ∧ lines = []) ∨
        (calls = (.onDocumentBegin, true) :: images.flatten ∧ pre = [.onImageBegin] ∧ lines = []) ∨
        pre = []) := by
  cases hr with
  | nothing hl hi =>
    exact ⟨[.onDocumentBegin, .onImageBegin], [], [], by simp, by simpa using hi, by simpa using hl,
      by simp; omega, by simp [Encoder.lineCalls, hl, hi], by simp [completed, writtenLines],
      by simp⟩
  | @images images hc hne hl hi =>
    have himg : e.currentImage ≠ 0 := by
      have := List.length_pos_iff.2 hne
      omega
    exact ⟨[.onImageBegin], images, [], hc, hi, by simpa using hl, by simp; omega,
      by simp [Encoder.lineCalls, hl, himg], by simp [completed, writtenLines], by simp⟩
  | @lines images lines hc hne hl hlt hi =>
    have hline : e.currentLine ≠ 0 := by
      have := List.length_pos_iff.2 hne
      omega
    exact ⟨[], images, lines, hc, hi, hl, hlt, by simp [Encoder.lineCalls, hline],
      by simp [completed], by simp⟩

theorem Received.written {h : ℤ} {e : Encoder} {calls : List Call} (hr : e.Received h calls)
    (hh : e.height = h) (line : List UInt8) :
    e.advance.Received h (calls ++ completed (e.lineCalls line)) := by
  obtain ⟨pre, images, lines, hc, hi, hl, hlt, hcalls, hpre, -⟩ := hr.lineCalls line
  rw [hcalls, completed_append, ← List.append_assoc, hpre]
  by_cases hfull : e.currentLine + 1 = e.height
  · have hadv : e.advance = { e with currentLine := 0, currentImage := e.currentImage + 1 } := by
      simp [advance, hfull]
    have himage : CompleteImage h ((.onImageBegin, true) :: writtenLines (lines ++ [line]) ++
        [(.onImageEnd, true)]) := .intro (by simp; omega)
    have himages : ∀ x ∈ images ++ [(.onImageBegin, true) :: writtenLines (lines ++ [line]) ++
        [(.onImageEnd, true)]], CompleteImage h x :=
      List.forall_mem_append.2 ⟨hc, by simpa using himage⟩
    have := Received.images (e := e.advance) himages (by simp) (by simp [hadv])
      (by simp [hadv, hi])
    simpa [hadv, writtenLines, completed] using this
  · have hadv : e.advance = { e with currentLine := e.currentLine + 1 } := by
      simp [advance, hfull]
    have hne : e.currentLine + 1 ≠ 0 := by omega
    have hnil : lines ++ [line] ≠ [] := by simp
    have := Received.lines (h := h) (e := e.advance) hc hnil (by simp [hadv, hl]) (by simp; omega)
      (by simp [hadv, hi])
    simpa [hadv, hne, writtenLines, completed] using this

/-- A throw while a line is written leaves an open document, unless it is the
document that could not be begun. -/
theorem Received.thrown {h : ℤ} {e : Encoder} {calls cs : List Call} (hr : e.Received h calls)
    (hh : e.height = h) {line : List UInt8} (ht : e.Thrown (e.lineCalls line) cs) :
    (calls = [] ∧ cs = [(.onDocumentBegin, false)] ∧ e.mayThrow .onDocumentBegin) ∨
      ((calls = [] → e.admits .onDocumentBegin) ∧ OpenDocument h (calls ++ cs)) := by
  obtain ⟨pre, images, lines, hc, hi, hl, hlt, hcalls, hpre, hcase⟩ := hr.lineCalls line
  have hline {cs : List Call} (h' : e.Thrown (.onWriteLine line ::
      (if e.advance.currentLine = 0 then [.onImageEnd] else [])) cs) :
        OpenDocument h ((.onDocumentBegin, true) ::
          (images.flatten ++ (.onImageBegin, true) :: writtenLines lines) ++ cs) := by
    rcases h'.cons_cases with ⟨rfl, -⟩ | ⟨cs', rfl, -, ht'⟩
    · simpa using OpenDocument.intro hc (.inr (.line line hlt))
    · by_cases hfull : e.advance.currentLine = 0
      · simp only [hfull, if_true] at ht'
        rcases ht'.cons_cases with ⟨rfl, -⟩ | ⟨cs'', -, -, ht''⟩
        · have hlen : ((lines ++ [line]).length : ℤ) = h := by
            unfold advance at hfull
            split at hfull
            · simp
              omega
            · simp only at hfull
              omega
          simpa [writtenLines, completed] using
            OpenDocument.intro hc (.inr (.ending hlen))
        · exact ht''.not_nil.elim
      · simp only [hfull, if_false] at ht'
        exact ht'.not_nil.elim
  rw [hcalls] at ht
  rcases hcase with ⟨rfl, rfl, rfl, rfl⟩ | ⟨rfl, rfl, rfl⟩ | rfl
  · rcases ht.cons_cases with ⟨rfl, hm⟩ | ⟨cs', rfl, ha, ht'⟩
    · exact .inl ⟨rfl, rfl, hm⟩
    · refine .inr ⟨fun _ => ha, ?_⟩
      rcases ht'.cons_cases with ⟨rfl, -⟩ | ⟨cs'', rfl, -, ht''⟩
      · have hnone : ∀ c ∈ ([] : List (List Call)), CompleteImage h c := by simp
        simpa using OpenDocument.intro hnone (.inr .begin)
      · simpa [writtenLines, completed] using hline ht''
  · refine .inr ⟨by simp, ?_⟩
    rcases ht.cons_cases with ⟨rfl, -⟩ | ⟨cs', rfl, -, ht'⟩
    · simpa using OpenDocument.intro hc (.inr .begin)
    · simpa [writtenLines, completed] using hline ht'
  · refine .inr ⟨fun h' => ?_, ?_⟩
    · simp [h', completed] at hpre
    · rw [show completed [] = [] from rfl, List.append_nil] at hpre
      rw [hpre]
      exact hline ht

theorem Received.begins {h : ℤ} {e : Encoder} (hr : e.Received h []) (line : List UInt8) :
    .onDocumentBegin ∈ e.lineCalls line := by
  cases hr with
  | nothing hl hi => simp [Encoder.lineCalls, hl, hi]

theorem completed_lineCalls_ne_nil (e : Encoder) (line : List UInt8) :
    completed (e.lineCalls line) ≠ [] := by
  simp [completed, lineCalls]

end Encoder
end AirSane
