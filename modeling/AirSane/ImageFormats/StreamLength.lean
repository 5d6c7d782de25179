import AirSane.ImageFormats.InfoObject

/-! # The length of an image stream

`PdfEncoder::onImageBegin` writes the length of the data that the lines of the image
are to come to, as a product of `int`s.
-/

namespace AirSane
open Text Web

/-- A scan line of whole bytes, one or three components of each pixel. -/
structure Encoder.Scans (e : Encoder) : Prop where
  refreshed : e.refresh = e
  width : 1 ≤ e.width
  height : 1 ≤ e.height
  depth : e.bitDepth = 8 ∨ e.bitDepth = 16
  /-- The line fits in an `int`. -/
  line : e.components * e.width * (e.bitDepth / 8) < 2 ^ 31

/-- The data of an image is as long as it is said to be, and no product overflows. -/
structure LengthExact (ctx : PdfContext) (e : Encoder) (p : PdfEncoder) (lines : List Octets) :
    Prop where
  lineProduct : Encoder.int32 (e.components * e.width * e.bitDepth) =
    e.components * e.width * e.bitDepth
  imageProduct : Encoder.int32 (e.height * e.bytesPerLine) = e.height * e.bytesPerLine
  length : ∃ head data, (p.onImageBegin ctx e).os.content =
      head ++ ascii "\n/Length " ++ integer data.length ++ ascii "\n>>\nstream\n" ∧
    (lines.foldl (fun p line => p.onWriteLine e line) (p.onImageBegin ctx e)).os.content =
      (p.onImageBegin ctx e).os.content ++ data ∧
    ∃ tail, ((lines.foldl (fun p line => p.onWriteLine e line)
      (p.onImageBegin ctx e)).onImageEnd ctx e).os.content =
        (p.onImageBegin ctx e).os.content ++ data ++ ascii "\nendstream\n" ++ tail

variable {ctx : PdfContext} {e : Encoder} {p : PdfEncoder} {lines : List Octets} {n : ℤ}

theorem int32_eq_iff : Encoder.int32 n = n ↔ -2 ^ 31 ≤ n ∧ n < 2 ^ 31 := by
  rw [Encoder.int32, Int.bmod_eq_iff (by decide)]
  omega

namespace Encoder.Scans

theorem components_pos (h : e.Scans) : 1 ≤ e.components := by
  have hc : e.components = componentsOf e.colorspace := congrArg components h.refreshed.symm
  rw [hc]
  cases e.colorspace <;> decide

theorem pixels_pos (h : e.Scans) : 1 ≤ e.components * e.width := by
  have hpos := mul_pos (lt_of_lt_of_le one_pos h.components_pos) (lt_of_lt_of_le one_pos h.width)
  omega

/-- Without an overflow a line has the bytes of its pixels. -/
theorem bytesPerLine_eq (h : e.Scans) (hp : e.components * e.width * e.bitDepth < 2 ^ 31) :
    e.bytesPerLine = e.components * e.width * (e.bitDepth / 8) := by
  have hb : e.bytesPerLine = (int32 (componentsOf e.colorspace * e.width * e.bitDepth)).tdiv 8 :=
    congrArg bytesPerLine h.refreshed.symm
  have hc : componentsOf e.colorspace = e.components := congrArg components h.refreshed
  have hpos := h.pixels_pos
  rw [hc] at hb
  generalize e.components * e.width = m at *
  have hint : int32 (m * e.bitDepth) = m * e.bitDepth := by
    rw [int32_eq_iff]
    rcases h.depth with hd | hd <;> rw [hd] at hp ⊢ <;> omega
  rw [hb, hint, Int.tdiv_eq_ediv_of_nonneg (by rcases h.depth with hd | hd <;> rw [hd] <;> omega)]
  rcases h.depth with hd | hd <;> rw [hd] <;> omega

end Encoder.Scans

theorem length_htons (s : Octets) : (htons s).length = s.length := by
  induction s using htons.induct with
  | case1 a b s ih => simp [htons, ih]
  | case2 s hs => rw [htons.eq_2 s hs]

/-- What is written of a whole line has its length. -/
theorem length_lineBytes (h : e.Scans) (hp : e.components * e.width * e.bitDepth < 2 ^ 31)
    {line : Octets} (hl : (line.length : ℤ) = e.components * e.width * (e.bitDepth / 8)) :
    ((lineBytes e (lineBufferSize e) line).length : ℤ) = e.bytesPerLine := by
  have hb := h.bytesPerLine_eq hp
  have hpos := h.pixels_pos
  rw [lineBytes, lineBufferSize]
  generalize e.components * e.width = m at *
  split_ifs with hd hne hne
  · have hbytes : e.bytesPerLine = m * 2 := by rw [hb, hd]; rfl
    have hline : (line.length : ℤ) = m * 2 := by rw [hl, hd]; rfl
    rw [List.length_take, length_htons, List.length_take]
    omega
  · omega
  · exact absurd rfl hne
  · rw [List.length_take]
    omega

theorem content_onWriteLines (lines : List Octets) (p : PdfEncoder) :
    (lines.foldl (fun p line => p.onWriteLine e line) p).os.content =
      p.os.content ++ lines.flatMap (lineBytes e p.mLineBuffer) := by
  induction lines generalizing p with
  | nil => simp
  | cons line lines ih =>
    have hbuffer : (p.onWriteLine e line).mLineBuffer = p.mLineBuffer := rfl
    have hcontent : (p.onWriteLine e line).os.content =
        p.os.content ++ lineBytes e p.mLineBuffer line := Destination.content_write _ _
    rw [List.foldl_cons, ih, hbuffer, hcontent, List.flatMap_cons, List.append_assoc]

theorem length_flatMap_lineBytes {k : ℤ}
    (h : ∀ line ∈ lines, ((lineBytes e (lineBufferSize e) line).length : ℤ) = k) :
    ((lines.flatMap (lineBytes e (lineBufferSize e))).length : ℤ) = lines.length * k := by
  induction lines with
  | nil => simp
  | cons line lines ih =>
    rw [List.flatMap_cons, List.length_append, Nat.cast_add, h line (by simp),
      ih fun line hm => h line (by simp [hm]), List.length_cons, Nat.cast_succ, add_mul, one_mul,
      add_comm]

/-- The end of what begins an image. -/
theorem content_onImageBegin (ctx : PdfContext) (e : Encoder) (p : PdfEncoder) : ∃ head,
    (p.onImageBegin ctx e).os.content = head ++ ascii "\n/Length " ++
      integer (Encoder.int32 (e.height * e.bytesPerLine)) ++ ascii "\n>>\nstream\n" := by
  have hcontent : (p.onImageBegin ctx e).os.content = p.os.content ++ printAll
      [.defobj (p.mObj + 1), .text (pageText ctx e (p.mObj + 1 + 2) (p.mObj + 1 + 1)),
        .defobj (p.mObj + 2), .text (imageText e)] := content_emits _ _
  obtain ⟨head, himage⟩ : ∃ head, imageText e = head ++ (ascii "\n/Length " ++
      integer (Encoder.int32 (e.height * e.bytesPerLine)) ++ ascii "\n>>\nstream\n") :=
    ⟨_, by rw [imageText, List.append_assoc _ (ascii "\n/Length "),
      List.append_assoc _ (ascii "\n/Length " ++ _)]⟩
  refine ⟨p.os.content ++ (Piece.define (p.mObj + 1) ++ (pageText ctx e (p.mObj + 1 + 2)
    (p.mObj + 1 + 1) ++ (Piece.define (p.mObj + 2) ++ head))), ?_⟩
  rw [hcontent]
  simp [printAll, Piece.print, himage]

theorem content_onImageEnd (ctx : PdfContext) (e : Encoder) (p : PdfEncoder) : ∃ tail,
    (p.onImageEnd ctx e).os.content = p.os.content ++ ascii "\nendstream\n" ++ tail := by
  have hcontent : (p.onImageEnd ctx e).os.content = p.os.content ++ printAll
      [.text endImageText, .defobj (p.mObj + 1), .text (contentsText ctx e)] := content_emits _ _
  have hend : endImageText = ascii "\nendstream\n" ++ ascii "endobj\n" := rfl
  refine ⟨ascii "endobj\n" ++ (Piece.define (p.mObj + 1) ++ contentsText ctx e), ?_⟩
  rw [hcontent]
  simp [printAll, Piece.print, hend]

/-- The length is that of the data exactly if neither the bits of a line nor the bytes of
the image are too many for an `int`. -/
theorem lengthExact_iff {p₀ p₁ : PdfEncoder} {calls : List (Encoder × Callback)} (h : e.Scans)
    (hbegin : p₀.call ctx e .onDocumentBegin = some p₁)
    (hcalls : ∀ c ∈ calls, c.2 ≠ .onDocumentBegin) (hp : p₁.calls ctx calls = some p)
    (hlines : (lines.length : ℤ) = e.height)
    (hfull : ∀ line ∈ lines, (line.length : ℤ) = e.components * e.width * (e.bitDepth / 8)) :
    LengthExact ctx e p lines ↔ e.components * e.width * e.bitDepth < 2 ^ 31 ∧
      e.height * (e.components * e.width * (e.bitDepth / 8)) < 2 ^ 31 := by
  constructor
  · intro hexact
    have hline := (int32_eq_iff.1 hexact.lineProduct).2
    have himage := (int32_eq_iff.1 hexact.imageProduct).2
    rw [h.bytesPerLine_eq hline] at himage
    exact ⟨hline, himage⟩
  · rintro ⟨hline, himage⟩
    have hb := h.bytesPerLine_eq hline
    have hpixels := h.pixels_pos
    have hheight := h.height
    have hnonneg : 0 ≤ e.components * e.width * (e.bitDepth / 8) := by
      rcases h.depth with hd | hd <;> rw [hd] <;> omega
    have hline' : Encoder.int32 (e.components * e.width * e.bitDepth) =
        e.components * e.width * e.bitDepth := by
      rw [int32_eq_iff]
      rcases h.depth with hd | hd <;> rw [hd] at hline ⊢ <;> omega
    have himage' : Encoder.int32 (e.height * e.bytesPerLine) = e.height * e.bytesPerLine := by
      have hpos := mul_nonneg (le_trans zero_le_one hheight) hnonneg
      rw [int32_eq_iff, hb]
      omega
    have hbuffer : (p.onImageBegin ctx e).mLineBuffer = lineBufferSize e := by
      have hfirst : p₁.mLineBuffer = lineBufferSize e := by
        change (if e.dpi = 0 then none else some _) = some p₁ at hbegin
        split_ifs at hbegin
        rw [← Option.some.inj hbegin]
      have hcall : p.call ctx e .onImageBegin = some (p.onImageBegin ctx e) := rfl
      rw [(call_kept (by simp) hcall).2, (calls_kept hcalls hp).2, hfirst]
    obtain ⟨head, hhead⟩ := content_onImageBegin ctx e p
    have hdata := content_onWriteLines (e := e) lines (p.onImageBegin ctx e)
    rw [hbuffer] at hdata
    have hlength : ((lines.flatMap (lineBytes e (lineBufferSize e))).length : ℤ) =
        e.height * e.bytesPerLine := by
      rw [length_flatMap_lineBytes fun line hm => length_lineBytes h hline (hfull line hm), hlines]
    obtain ⟨tail, htail⟩ := content_onImageEnd ctx e
      (lines.foldl (fun p line => p.onWriteLine e line) (p.onImageBegin ctx e))
    refine ⟨hline', himage', head, _, ?_, hdata, tail, ?_⟩
    · rw [hlength, hhead, himage']
    · rw [htail, hdata]

theorem lengthExact_iff_pixel : ∃ p, PdfEncoder.titled.call .standard PdfWriter.pixel.encoder
    .onDocumentBegin = some p ∧ LengthExact .standard PdfWriter.pixel.encoder p [[0]] := by
  have hscans : PdfWriter.pixel.encoder.Scans := ⟨rfl, by decide, by decide, .inl rfl, by decide⟩
  obtain ⟨p, hbegin⟩ : ∃ p, PdfEncoder.titled.call .standard PdfWriter.pixel.encoder
      .onDocumentBegin = some p := ⟨_, rfl⟩
  have hcalls : p.calls .standard [] = some p := rfl
  have hlines : ∀ line ∈ [[(0 : UInt8)]], (line.length : ℤ) = 1 := by decide
  exact ⟨p, hbegin, (lengthExact_iff hscans hbegin (by simp) hcalls rfl hlines).2 (by decide)⟩

/-- 20000 lines of as many pixels, in color and 16 bits. -/
def Encoder.poster : Encoder := Encoder.refresh { Encoder.new .pdf with
  width := 20000
  height := 20000
  bitDepth := 16
  dpi := 600
  colorspace := .rgb }

theorem not_lengthExact_poster : ∃ (p : PdfEncoder) (lines : List Octets),
    Encoder.poster.Scans ∧
      PdfEncoder.titled.call .standard .poster .onDocumentBegin = some p ∧
      (lines.length : ℤ) = Encoder.poster.height ∧
      (∀ line ∈ lines, (line.length : ℤ) = 120000) ∧
      (∃ head, (p.onImageBegin .standard .poster).os.content =
        head ++ ascii "\n/Length " ++ integer (-1894967296) ++ ascii "\n>>\nstream\n") ∧
      ¬ LengthExact .standard .poster p lines := by
  refine ⟨_, List.replicate 20000 (List.replicate 120000 0), ⟨rfl, by decide, by decide, .inr rfl,
    by decide⟩, rfl, by rw [List.length_replicate]; rfl, fun line hm => ?_,
      content_onImageBegin .standard .poster _, fun h => absurd h.imageProduct (by decide)⟩
  rw [List.eq_of_mem_replicate hm, List.length_replicate]
  rfl

end AirSane
