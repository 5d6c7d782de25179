import AirSane.ImageFormats.PdfEncoder

/-! # Cross-references of PDF documents

What the encoder has written of a document is followed as a text with numbered
objects: image by image, line by line, and whatever the stream has sent of it.
-/

namespace AirSane
open Text

section
variable (ctx : PdfContext) (e : Encoder)

/-- What begins the image after `i` others. -/
def imageHead (i : ℕ) : List Piece :=
  [.defobj (3 * i + 2), .text (pageText ctx e (3 * i + 4) (3 * i + 3)), .defobj (3 * i + 3),
    .text (imageText e)]

def imageTail (i : ℕ) : List Piece :=
  [.text endImageText, .defobj (3 * i + 4), .text (contentsText ctx e)]

def linePieces (lines : List Octets) : List Piece :=
  lines.map fun line => .text (lineBytes e (lineBufferSize e) line)

def imagePieces (i : ℕ) (lines : List Octets) : List Piece :=
  imageHead ctx e i ++ linePieces e lines ++ imageTail ctx e i

def imagesPieces (images : List (List Octets)) : List Piece :=
  (images.mapIdx (imagePieces ctx e)).flatten

def documentTail (n : ℕ) (mInfoString : Octets) : List Piece :=
  [.defobj 1, .text (pagesText n ((List.range n).map fun i => 3 * i + 2)),
    .defobj (3 * n + 2), .text catalogText, .defobj (3 * n + 3), .text (infoText mInfoString)]

/-- The entries of the info dictionary. -/
def infoString (mInfoDict : Dictionary) : Octets :=
  (mInfoDict.assign (ascii "CreationDate") ctx.creationDate).flatMap infoEntry

/-- The document as far as it consists of objects. -/
def documentPieces (images : List (List Octets)) (mInfoString : Octets) : List Piece :=
  .text pdfHeader :: imagesPieces ctx e images ++ documentTail images.length mInfoString

end

/-- A document: its pieces, its cross-reference table and the place of the table. -/
structure CrossReferenced (ctx : PdfContext) (e : Encoder) (images : List (List Octets))
    (mInfoString : Octets) (ps : List Piece) (table : List (ℕ × ℕ)) (startxref : ℕ)
    (bytes : Octets) : Prop where
  layout : bytes = printAll ps ++ (xrefText table ++
    trailerText (table.length + 1) (3 * images.length + 2) (3 * images.length + 3)
      (fileid ctx mInfoString) ++ startxrefText startxref)
  /-- In-use entries for the numbers from 1 in order, -/
  numbers : table.map Prod.fst = List.range' 1 (3 * images.length + 3)
  /-- each of which is defined once, -/
  once : (defined ps).Perm (List.range' 1 (3 * images.length + 3))
  /-- where its entry says, -/
  place : ∀ x ∈ table, DefinedAt ps x.1 x.2
  /-- in ten digits. -/
  digits : bytes.length < 10 ^ 10 → ∀ x ∈ table,
    (tenDigits x.2).length = 10 ∧ value 10 (tenDigits x.2) = x.2
  xref : startxref = (printAll ps).length
  root : ∃ a b, ps = a ++ [.defobj (3 * images.length + 2), .text catalogText] ++ b
  info : ∃ a b, ps = a ++ [.defobj (3 * images.length + 3), .text (infoText mInfoString)] ++ b
  pages : ∃ a b, ps = a ++ [.defobj 1, .text (pagesText images.length
    ((List.range images.length).map fun i => 3 * i + 2))] ++ b
  page : ∀ i lines, images[i]? = some lines → ∃ a b, ps = a ++
    [.defobj (3 * i + 2), .text (pageText ctx e (3 * i + 4) (3 * i + 3)),
      .defobj (3 * i + 3), .text (imageText e)] ++ linePieces e lines ++
      [.text endImageText, .defobj (3 * i + 4), .text (contentsText ctx e)] ++ b

/-- The encoder's notes on a text that it has written behind `before`. -/
structure Noted (before : Octets) (p : PdfEncoder) (ps : List Piece) : Prop where
  content : p.os.content = before ++ printAll ps
  begins : p.mBegin = before.length
  objects : p.mObjects = offsets 0 ps

section
variable {ctx : PdfContext} {e : Encoder} {p : PdfEncoder} {before : Octets} {ps qs : List Piece}
  {x : Piece}

theorem noted_emit (h : Noted before p ps) : Noted before (p.emit x) (ps ++ [x]) := by
  have hlen : p.os.tellp - p.mBegin = (printAll ps).length := by
    rw [p.os.tellp_eq, h.content, h.begins, List.length_append, Nat.add_sub_cancel_left]
  cases x with
  | text s =>
    refine ⟨?_, h.begins, ?_⟩
    · simp [PdfEncoder.emit, h.content]
    · rw [offsets_append]
      simp [PdfEncoder.emit, h.objects, offsets]
  | defobj id =>
    refine ⟨?_, h.begins, ?_⟩
    · simp [PdfEncoder.emit, h.content]
    · rw [offsets_append]
      simp [PdfEncoder.emit, h.objects, offsets, hlen]

theorem noted_emits (qs : List Piece) (h : Noted before p ps) : Noted before (p.emits qs) (ps ++ qs) := by
  induction qs generalizing p ps with
  | nil =>
    rw [List.append_nil]
    exact h
  | cons q qs ih =>
    have hq := ih (noted_emit (x := q) h)
    rw [List.append_assoc] at hq
    exact hq

theorem noted_flush (h : Noted before p ps) : Noted before { p with os := p.os.flush } ps :=
  ⟨by rw [← h.content]; exact p.os.content_flush, h.begins, h.objects⟩

end

/-- Between images, and inside of one. -/
structure Between (ctx : PdfContext) (e : Encoder) (before info : Octets)
    (images : List (List Octets)) (p : PdfEncoder) : Prop where
  noted : Noted before p (.text pdfHeader :: imagesPieces ctx e images)
  counter : p.mObj = 3 * images.length + 1
  lineBuffer : p.mLineBuffer = lineBufferSize e
  infoString : p.mInfoString = info

structure Inside (ctx : PdfContext) (e : Encoder) (before info : Octets)
    (images : List (List Octets)) (lines : List Octets) (p : PdfEncoder) : Prop where
  noted : Noted before p (.text pdfHeader :: imagesPieces ctx e images ++
    (imageHead ctx e images.length ++ linePieces e lines))
  counter : p.mObj = 3 * images.length + 3
  lineBuffer : p.mLineBuffer = lineBufferSize e
  infoString : p.mInfoString = info

section
variable {ctx : PdfContext} {e : Encoder} {p : PdfEncoder} {before info line : Octets}
  {images : List (List Octets)} {lines : List Octets}

theorem imagesPieces_concat : imagesPieces ctx e (images ++ [lines]) =
    imagesPieces ctx e images ++ imagePieces ctx e images.length lines := by
  simp [imagesPieces]

@[simp] theorem emits_mObj {qs : List Piece} : (p.emits qs).mObj = p.mObj := by
  induction qs generalizing p with
  | nil => rfl
  | cons q qs ih =>
    have hq : (p.emit q).mObj = p.mObj := by cases q <;> rfl
    exact ih.trans hq

@[simp] theorem emits_mLineBuffer {qs : List Piece} : (p.emits qs).mLineBuffer = p.mLineBuffer := by
  induction qs generalizing p with
  | nil => rfl
  | cons q qs ih =>
    have hq : (p.emit q).mLineBuffer = p.mLineBuffer := by cases q <;> rfl
    exact ih.trans hq

@[simp] theorem emits_mInfoString {qs : List Piece} : (p.emits qs).mInfoString = p.mInfoString := by
  induction qs generalizing p with
  | nil => rfl
  | cons q qs ih =>
    have hq : (p.emit q).mInfoString = p.mInfoString := by cases q <;> rfl
    exact ih.trans hq

theorem between_onDocumentBegin (hdpi : e.dpi ≠ 0) (hp : p.os.content = before)
    (hinfo : infoString ctx p.mInfoDict = info) :
    ∃ p', p.onDocumentBegin ctx e = some p' ∧ Between ctx e before info [] p' := by
  refine ⟨_, by rw [PdfEncoder.onDocumentBegin, if_neg hdpi], ⟨?_, ?_, ?_⟩, rfl, rfl, hinfo⟩
  · rw [Destination.content_write, hp]
    simp [imagesPieces]
  · rw [← hp]
    exact p.os.tellp_eq
  · rfl

theorem inside_onImageBegin (h : Between ctx e before info images p) :
    Inside ctx e before info images [] (p.onImageBegin ctx e) := by
  have hnoted := noted_emits (imageHead ctx e images.length) h.noted
  have hpieces : [.defobj (p.mObj + 1), .text (pageText ctx e (p.mObj + 1 + 2) (p.mObj + 1 + 1)),
      .defobj (p.mObj + 2), .text (imageText e)] = imageHead ctx e images.length := by
    rw [h.counter]
    rfl
  refine ⟨?_, ?_, ?_, ?_⟩
  · simp only [PdfEncoder.onImageBegin, hpieces, linePieces, List.map_nil, List.append_nil]
    exact ⟨hnoted.content, hnoted.begins, hnoted.objects⟩
  · simp [PdfEncoder.onImageBegin, h.counter]
  · simp [PdfEncoder.onImageBegin, h.lineBuffer]
  · simp [PdfEncoder.onImageBegin, h.infoString]

theorem inside_onWriteLine (line : Octets) (h : Inside ctx e before info images lines p) :
    Inside ctx e before info images (lines ++ [line]) (p.onWriteLine e line) := by
  refine ⟨?_, h.counter, h.lineBuffer, h.infoString⟩
  have hnoted := noted_emit (x := .text (lineBytes e p.mLineBuffer line)) h.noted
  rw [h.lineBuffer] at hnoted
  simpa [PdfEncoder.onWriteLine, linePieces, h.lineBuffer] using hnoted

theorem between_onImageEnd (h : Inside ctx e before info images lines p) :
    Between ctx e before info (images ++ [lines]) (p.onImageEnd ctx e) := by
  have hnoted := noted_emits (imageTail ctx e images.length) h.noted
  have hpieces : [.text endImageText, .defobj (p.mObj + 1), .text (contentsText ctx e)] =
      imageTail ctx e images.length := by
    rw [h.counter]
    rfl
  refine ⟨?_, ?_, ?_, ?_⟩
  · rw [imagesPieces_concat, imagePieces]
    simp only [PdfEncoder.onImageEnd, hpieces]
    rw [List.append_assoc] at hnoted
    exact ⟨hnoted.content, hnoted.begins, hnoted.objects⟩
  · simp only [PdfEncoder.onImageEnd, h.counter, List.length_append, List.length_singleton]
    omega
  · simp [PdfEncoder.onImageEnd, h.lineBuffer]
  · simp [PdfEncoder.onImageEnd, h.infoString]

end

/-- The encoder with its counters at a line of an image. -/
def Encoder.placed (e : Encoder) (line image : ℕ) : Encoder :=
  { e with currentLine := line, currentImage := image }

section
variable {e : Encoder} {l i : ℕ}

theorem placed_self (hline : e.currentLine = 0) (himage : e.currentImage = 0) :
    e.placed 0 0 = e := by
  cases e
  cases hline
  cases himage
  rfl

theorem advance_placed_full (h : (l : ℤ) + 1 = e.height) :
    (e.placed l i).advance = e.placed 0 (i + 1) := by
  have hfull : (e.placed l i).currentLine + 1 = (e.placed l i).height := h
  rw [Encoder.advance, if_pos hfull]
  rfl

theorem advance_placed_short (h : ¬ (l : ℤ) + 1 = e.height) :
    (e.placed l i).advance = e.placed (l + 1) i := by
  have hshort : ¬ (e.placed l i).currentLine + 1 = (e.placed l i).height := h
  rw [Encoder.advance, if_neg hshort]
  rfl

end

/-- How far a document of lines has come: complete images and lines of the next
one, as the counters of the encoder have it. -/
structure Progress (ctx : PdfContext) (e : Encoder) (before info : Octets)
    (images : List (List Octets)) (lines : List Octets) (w : PdfWriter) : Prop where
  encoder : w.encoder = e.placed lines.length images.length
  full : ∀ x ∈ images, (x.length : ℤ) = e.height
  short : (lines.length : ℤ) < e.height
  state : (images = [] ∧ lines = [] ∧ w.pdf.os.content = before ∧
      infoString ctx w.pdf.mInfoDict = info) ∨
    (images ≠ [] ∧ lines = [] ∧ Between ctx e before info images w.pdf) ∨
    (lines ≠ [] ∧ Inside ctx e before info images lines w.pdf)

/-- The calls before a line is written. -/
def beginCalls (e : Encoder) : List Callback :=
  (if e.currentLine = 0 ∧ e.currentImage = 0 then [.onDocumentBegin] else []) ++
    if e.currentLine = 0 then [.onImageBegin] else []

theorem lineCalls_eq (e : Encoder) (line : Octets) : e.lineCalls line = beginCalls e ++
    ([.onWriteLine line] ++ if e.advance.currentLine = 0 then [.onImageEnd] else []) := by
  simp [Encoder.lineCalls, beginCalls]

section
variable {ctx : PdfContext} {e : Encoder} {w : PdfWriter} {before info line : Octets}
  {images : List (List Octets)} {lines : List Octets}

theorem inside_beginCalls (hdpi : e.dpi ≠ 0) (h : Progress ctx e before info images lines w) :
    ∃ p, (beginCalls w.encoder).foldlM (fun (p : PdfEncoder) cb => p.call ctx w.encoder cb) w.pdf =
      some p ∧ Inside ctx e before info images lines p := by
  rw [h.encoder]
  rcases h.state with ⟨rfl, rfl, hcontent, hinfo⟩ | ⟨hne, rfl, hbetween⟩ | ⟨hne, hinside⟩
  · obtain ⟨p, hp, hbetween⟩ := between_onDocumentBegin hdpi hcontent hinfo
    have hcalls : beginCalls (e.placed 0 0) = [.onDocumentBegin, .onImageBegin] := by
      simp [beginCalls, Encoder.placed]
    refine ⟨p.onImageBegin ctx e, ?_, inside_onImageBegin hbetween⟩
    rw [List.length_nil, List.length_nil, hcalls, List.foldlM_cons]
    change (w.pdf.onDocumentBegin ctx e >>= _) = _
    rw [hp]
    rfl
  · have himages : (images.length : ℤ) ≠ 0 := by
      have hpos := List.length_pos_iff.2 hne
      omega
    have hcalls : beginCalls (e.placed 0 images.length) = [.onImageBegin] := by
      simp [beginCalls, Encoder.placed, hne]
    refine ⟨w.pdf.onImageBegin ctx e, ?_, inside_onImageBegin hbetween⟩
    rw [List.length_nil, hcalls]
    rfl
  · have hlines : (lines.length : ℤ) ≠ 0 := by
      have hpos := List.length_pos_iff.2 hne
      omega
    have hcalls : beginCalls (e.placed lines.length images.length) = [] := by
      simp [beginCalls, Encoder.placed, hne]
    refine ⟨w.pdf, ?_, hinside⟩
    rw [hcalls]
    rfl

/-- One more line. -/
theorem progress_writeLine (hdpi : e.dpi ≠ 0) (h : Progress ctx e before info images lines w)
    (line : Octets) : ∃ w', w.writeLine ctx line = some w' ∧
      ((((lines ++ [line]).length : ℤ) = e.height ∧
          Progress ctx e before info (images ++ [lines ++ [line]]) [] w') ∨
        (((lines ++ [line]).length : ℤ) < e.height ∧
          Progress ctx e before info images (lines ++ [line]) w')) := by
  obtain ⟨p, hp, hinside⟩ := inside_beginCalls hdpi h
  have hline := inside_onWriteLine line hinside
  have hshort := h.short
  by_cases hfull : (lines.length : ℤ) + 1 = e.height
  · have hadvance : w.encoder.advance = e.placed 0 (images ++ [lines ++ [line]]).length := by
      rw [h.encoder, advance_placed_full hfull, List.length_append, List.length_singleton]
    refine ⟨⟨w.encoder.advance, (p.onWriteLine e line).onImageEnd ctx e⟩, ?_, .inl ⟨?_, ?_⟩⟩
    · have hend : w.encoder.advance.currentLine = 0 := by rw [hadvance]; rfl
      rw [PdfWriter.writeLine, lineCalls_eq, if_pos hend, List.foldlM_append, hp, h.encoder]
      rfl
    · simpa using hfull
    · refine ⟨hadvance, ?_, by simp; omega, .inr (.inl ⟨by simp, rfl, between_onImageEnd hline⟩)⟩
      intro x hx
      rcases List.mem_append.1 hx with hx | hx
      · exact h.full x hx
      · rw [List.mem_singleton.1 hx]
        simpa using hfull
  · have hadvance : w.encoder.advance = e.placed (lines ++ [line]).length images.length := by
      rw [h.encoder, advance_placed_short hfull, List.length_append, List.length_singleton]
    have hlt : ((lines ++ [line]).length : ℤ) < e.height := by
      simp only [List.length_append, List.length_singleton, Nat.cast_add, Nat.cast_one]
      omega
    refine ⟨⟨w.encoder.advance, p.onWriteLine e line⟩, ?_, .inr ⟨hlt, ?_⟩⟩
    · have hend : ¬ w.encoder.advance.currentLine = 0 := by
        rw [hadvance]
        change ¬ ((lines ++ [line]).length : ℤ) = 0
        rw [List.length_append, List.length_singleton]
        omega
      rw [PdfWriter.writeLine, lineCalls_eq, if_neg hend, List.foldlM_append, hp, h.encoder]
      rfl
    · exact ⟨hadvance, h.full, hlt, .inr (.inr ⟨by simp, hline⟩)⟩

theorem progress_flush (h : Progress ctx e before info images lines w) :
    Progress ctx e before info images lines ⟨w.encoder, { w.pdf with os := w.pdf.os.flush }⟩ := by
  refine ⟨h.encoder, h.full, h.short, ?_⟩
  rcases h.state with ⟨hi, hl, hcontent, hinfo⟩ | ⟨hi, hl, hb⟩ | ⟨hl, hb⟩
  · exact .inl ⟨hi, hl, by rw [← hcontent]; exact w.pdf.os.content_flush, hinfo⟩
  · exact .inr (.inl ⟨hi, hl, noted_flush hb.noted, hb.counter, hb.lineBuffer, hb.infoString⟩)
  · exact .inr (.inr ⟨hl, noted_flush hb.noted, hb.counter, hb.lineBuffer, hb.infoString⟩)

/-- A document up to its end. -/
theorem progress_run (hdpi : e.dpi ≠ 0) (ops : List DocumentOp)
    (h : Progress ctx e before info images lines w) :
    ∃ images' lines' w', ops.foldlM (fun w op => w.step ctx op) w = some w' ∧
      Progress ctx e before info images' lines' w' ∧
      images'.flatten ++ lines' = images.flatten ++ lines ++ ops.filterMap DocumentOp.written := by
  induction ops generalizing images lines w with
  | nil => exact ⟨images, lines, w, rfl, h, by simp⟩
  | cons op ops ih =>
    cases op with
    | line s =>
      obtain ⟨w', hw, hnext⟩ := progress_writeLine hdpi h s
      have hrun : (DocumentOp.line s :: ops).foldlM (fun w op => w.step ctx op) w =
          ops.foldlM (fun w op => w.step ctx op) w' := by
        rw [List.foldlM_cons, PdfWriter.step, hw]
        rfl
      rw [hrun]
      rcases hnext with ⟨_, hprogress⟩ | ⟨_, hprogress⟩
      · obtain ⟨images', lines', w'', hfold, hp, hflat⟩ := ih hprogress
        exact ⟨images', lines', w'', hfold, hp, by simp [hflat, DocumentOp.written]⟩
      · obtain ⟨images', lines', w'', hfold, hp, hflat⟩ := ih hprogress
        exact ⟨images', lines', w'', hfold, hp, by simp [hflat, DocumentOp.written]⟩
    | flush =>
      obtain ⟨images', lines', w', hfold, hp, hflat⟩ := ih (progress_flush h)
      exact ⟨images', lines', w', hfold, hp, hflat⟩

/-- All lines of `n` images are `n` images. -/
theorem Progress.complete {n : ℕ} (h : Progress ctx e before info images lines w)
    (hlines : ((images.flatten ++ lines).length : ℤ) = n * e.height) :
    images.length = n ∧ lines = [] := by
  obtain ⟨m, hm⟩ : ∃ m : ℕ, (m : ℤ) = e.height := by
    have hshort := h.short
    exact ⟨e.height.toNat, by omega⟩
  have hshort : lines.length < m := by
    have hshort := h.short
    omega
  have hflat : images.flatten.length = images.length * m := by
    have hlengths : images.map List.length = images.map fun _ => m := by
      apply List.map_congr_left
      intro x hx
      have hx := h.full x hx
      omega
    rw [List.length_flatten, hlengths, List.map_const', List.sum_replicate_nat]
  have hsum : images.length * m + lines.length = n * m := by
    rw [← hm, List.length_append, hflat] at hlines
    exact_mod_cast hlines
  have hn : images.length = n := by
    apply Nat.le_antisymm
    · by_contra hlt
      have hmul := Nat.mul_le_mul_right m (Nat.lt_of_not_le hlt)
      rw [Nat.succ_mul] at hmul
      omega
    · by_contra hlt
      have hmul := Nat.mul_le_mul_right m (Nat.lt_of_not_le hlt)
      rw [Nat.succ_mul] at hmul
      omega
  refine ⟨hn, List.eq_nil_of_length_eq_zero ?_⟩
  rw [hn] at hsum
  omega

end

section
variable (ctx : PdfContext) (e : Encoder) (images : List (List Octets)) (info : Octets)

/-- By stride the loop comes to every page. -/
theorem kids_eq {fuel i n : ℕ} (h : n - i ≤ fuel) :
    kids fuel (3 * i + 2) (3 * n + 1) = (List.range' i (n - i)).map fun i => 3 * i + 2 := by
  induction fuel generalizing i with
  | zero =>
    rw [Nat.le_zero.1 h]
    rfl
  | succ fuel ih =>
    by_cases hi : i < n
    · have hmore : 3 * i + 2 < 3 * n + 1 := by omega
      have hnext : n - i = (n - (i + 1)) + 1 := by omega
      rw [kids, if_pos hmore, hnext, List.range'_succ, List.map_cons]
      have hrest := ih (i := i + 1) (by omega)
      rw [Nat.mul_succ] at hrest
      exact congrArg _ hrest
    · have hdone : ¬ 3 * i + 2 < 3 * n + 1 := by omega
      have hzero : n - i = 0 := by omega
      rw [kids, if_neg hdone, hzero]
      rfl

theorem defined_linePieces (lines : List Octets) : defined (linePieces e lines) = [] := by
  simp [defined, linePieces, Piece.defines]

/-- The objects of the images are numbered one after the other. -/
theorem defined_imagesPieces :
    defined (imagesPieces ctx e images) = List.range' 2 (3 * images.length) := by
  induction images using List.reverseRecOn with
  | nil => rfl
  | append_singleton images lines ih =>
    have himage : defined (imagePieces ctx e images.length lines) =
        List.range' (2 + 3 * images.length) 3 := by
      rw [imagePieces, defined_append, defined_append, defined_linePieces, Nat.add_comm 2]
      rfl
    rw [imagesPieces_concat, defined_append, ih, himage, List.range'_append_1, List.length_append]
    rfl

theorem defined_documentPieces : (defined (documentPieces ctx e images info)).Perm
    (List.range' 1 (3 * images.length + 3)) := by
  have htail : defined (documentTail images.length info) =
      [1, 3 * images.length + 2, 3 * images.length + 3] := rfl
  have hcons : defined (documentPieces ctx e images info) =
      defined (imagesPieces ctx e images ++ documentTail images.length info) := rfl
  have hrange : List.range' 1 (3 * images.length + 3) = 1 :: (List.range' 2 (3 * images.length) ++
      [3 * images.length + 2, 3 * images.length + 3]) := by
    rw [List.range'_succ, Nat.add_comm 1, ← List.range'_append_1, Nat.add_comm 2]
    rfl
  rw [hcons, defined_append, defined_imagesPieces, htail, hrange]
  exact List.perm_middle

theorem imagesPieces_append_cons (lines : List Octets) (rest : List (List Octets)) :
    imagesPieces ctx e (images ++ lines :: rest) = imagesPieces ctx e images ++
      imagePieces ctx e images.length lines ++
        (rest.mapIdx fun j => imagePieces ctx e (j + 1 + images.length)).flatten := by
  simp [imagesPieces, List.mapIdx_append, List.mapIdx_cons]

theorem imagesPieces_split {i : ℕ} {lines : List Octets} (h : images[i]? = some lines) :
    ∃ a b, imagesPieces ctx e images = a ++ imagePieces ctx e i lines ++ b := by
  obtain ⟨hi, rfl⟩ := List.getElem?_eq_some_iff.1 h
  have hsplit : images.take i ++ images[i] :: images.drop (i + 1) = images := by simp
  have hpieces := imagesPieces_append_cons ctx e (images.take i) images[i] (images.drop (i + 1))
  rw [hsplit, List.length_take, Nat.min_eq_left hi.le] at hpieces
  exact ⟨_, _, hpieces⟩

end

section
variable {ctx : PdfContext} {e e' : Encoder} {p : PdfEncoder} {before info : Octets}
  {images : List (List Octets)}

/-- The end of a document of complete images. -/
theorem crossReferenced_onDocumentEnd (h : Between ctx e before info images p)
    (hcount : e'.currentImage = images.length) : ∃ bytes ps table startxref,
      (p.onDocumentEnd ctx e').os.content = before ++ bytes ∧
        CrossReferenced ctx e images info ps table startxref bytes := by
  have hkids : kids p.mObj 2 p.mObj = (List.range images.length).map fun i => 3 * i + 2 := by
    rw [h.counter, List.range_eq_range']
    exact kids_eq (i := 0) (by omega)
  have htail : [.defobj 1, .text (pagesText e'.currentImage (kids p.mObj 2 p.mObj)),
      .defobj (p.mObj + 1), .text catalogText, .defobj (p.mObj + 2),
      .text (infoText p.mInfoString)] = documentTail images.length info := by
    rw [hkids, hcount, h.counter, h.infoString]
    rfl
  have hnoted : Noted before (p.emits (documentTail images.length info))
      (documentPieces ctx e images info) := noted_emits _ h.noted
  have hstart : (p.emits (documentTail images.length info)).os.tellp -
      (p.emits (documentTail images.length info)).mBegin =
        (printAll (documentPieces ctx e images info)).length := by
    rw [Destination.tellp_eq, hnoted.content, hnoted.begins, List.length_append,
      Nat.add_sub_cancel_left]
  refine ⟨_, documentPieces ctx e images info, sortById (offsets 0 (documentPieces ctx e images info)),
    _, ?_, ⟨rfl, ?_, ?_, ?_, ?_, rfl, ?_, ?_, ?_, ?_⟩⟩
  · simp only [PdfEncoder.onDocumentEnd, htail]
    rw [Destination.content_write, hnoted.content, hnoted.objects, hstart, h.counter, h.infoString,
      List.append_assoc]
    rfl
  · apply sortById_ids
    rw [offsets_ids]
    exact defined_documentPieces ctx e images info
  · exact defined_documentPieces ctx e images info
  · exact fun x hx => definedAt_sortById hx
  · intro hsize x hx
    obtain ⟨a, b, hps, hoffset⟩ := definedAt_sortById hx
    refine ⟨tenDigits_length ?_, value_tenDigits⟩
    rw [hps, printAll_append, List.append_assoc, List.length_append] at hsize
    omega
  · exact ⟨.text pdfHeader :: imagesPieces ctx e images ++ (documentTail images.length info).take 2,
      (documentTail images.length info).drop 4, by simp [documentPieces, documentTail]⟩
  · exact ⟨.text pdfHeader :: imagesPieces ctx e images ++ (documentTail images.length info).take 4,
      [], by simp [documentPieces, documentTail]⟩
  · exact ⟨.text pdfHeader :: imagesPieces ctx e images, (documentTail images.length info).drop 2,
      by simp [documentPieces, documentTail]⟩
  · intro i lines hi
    obtain ⟨a, b, hsplit⟩ := imagesPieces_split ctx e images hi
    refine ⟨.text pdfHeader :: a, b ++ documentTail images.length info, ?_⟩
    simp [documentPieces, hsplit, imagePieces, imageHead, imageTail]

end

/-- Where 72 dots are an inch. -/
def PdfContext.standard : PdfContext where
  hashing := ⟨[], fun _ _ => 0⟩
  creationDate := ascii "D:20230101000000Z"
  time := 0
  pdfunits := fun dpi px => Web.integer (72 * px / dpi)

/-- For pages of one gray pixel, on a stream that has something on it. -/
def PdfWriter.pixel : PdfWriter where
  encoder :=
    { Encoder.new .pdf with
      width := 1, height := 1, components := 1, bitDepth := 8, dpi := 72, bytesPerLine := 1
      colorspace := .grayscale }
  pdf := ⟨[], 0, 0, .nil, [], 0, 0, ⟨ascii "sent", ⟨4, ascii "not yet"⟩, rfl⟩⟩

end AirSane
