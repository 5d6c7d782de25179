import AirSane.ImageFormats.DocumentTokens
import AirSane.Lists.MapM

/-! # Documents read back

A reader that knows nothing of the encoder finds the pages in its documents: from the end
of the file the table, from the table the catalog and the pages, and on each page the
image that was written.
-/

namespace AirSane
open Text Web Pdf

/-- A cross-reference table as it is read. -/
def readerTable (table : List (ℕ × ℕ)) : List (ℤ × ℤ) := table.map fun x => (x.1, x.2)

section
variable {ctx : PdfContext} {e : Encoder} {id contents strip n : ℕ} {s k : Octets} {t : Token}
  {table : List (ℕ × ℕ)}

theorem isWord_eq_false {k : String} (h : t ≠ .word (ascii k)) : isWord k t = false :=
  decide_eq_false h

/-- The end of a document says where its table is. -/
theorem startxref_startxrefText (s : Octets) (n : ℕ) :
    startxref (s ++ startxrefText n) = some (n : ℤ) := by
  have hsplit : s ++ startxrefText n = s ++ ascii "%PDF-raster-1.0\n" ++
      (115 :: ascii "tartxref" ++ (ascii "\n" ++ (numeral 10 n ++ ascii "\n%%EOF\n"))) := by
    have htext : ascii "%PDF-raster-1.0\nstartxref\n" =
        ascii "%PDF-raster-1.0\n" ++ (115 :: ascii "tartxref" ++ ascii "\n") := by decide +kernel
    rw [startxrefText, htext]
    simp only [List.append_assoc]
  have hbehind : (115 : UInt8) ∉ ascii "\n" ++ (numeral 10 n ++ ascii "\n%%EOF\n") := by
    intro h
    rcases List.mem_append.1 h with h | h
    · exact absurd h (by decide)
    rcases List.mem_append.1 h with h | h
    · exact absurd (isDecimal_of_mem_numeral h) (by decide)
    · exact absurd h (by decide)
  have hparts : Fits [.fixed (ascii "\n") [], .atom (numeral 10 n) (.number n),
      .fixed (ascii "\n%%EOF\n") []] :=
    .fixed (by decide) (.atom regular_numeral atom_numeral (by decide) (.fixed (by decide) .nil))
  have hrun := run_parts hparts
  have hs : ascii "startxref" = 115 :: ascii "tartxref" := by decide
  simp only [List.flatMap_cons, List.flatMap_nil, Part.print, Part.tokens, List.append_nil,
    List.nil_append] at hrun
  rw [startxref, hs, hsplit, behindLast_eq (by decide) hbehind, Option.bind_some, hrun]

/-- The keywords of a table and a trailer. -/
theorem xrefParts_tokens {size root info : ℕ} {fileid : Octets}
    (h : t ∈ (xrefParts table ++ trailerParts size root info fileid).flatMap Part.tokens) :
    isWord "startxref" t = false := by
  have hwords : ascii "startxref" ∉ [ascii "xref", ascii "f", ascii "n", ascii "trailer",
      ascii "R"] := by decide
  simp only [List.mem_cons, List.not_mem_nil, or_false, not_or] at hwords
  apply isWord_eq_false
  rintro rfl
  simp [xrefParts, trailerParts, Part.tokens, List.flatMap_assoc, hwords] at h

/-- Parts without these keywords. -/
def Plain (ps : List Part) : Prop :=
  ∀ t ∈ ps.flatMap Part.tokens, (isWord "endobj" t || isWord "stream" t) = false

theorem plain_iff {ps : List Part} : Plain ps ↔
    .word (ascii "endobj") ∉ ps.flatMap Part.tokens ∧
      .word (ascii "stream") ∉ ps.flatMap Part.tokens := by
  constructor
  · intro h
    constructor <;> intro hm <;> exact absurd (h _ hm) (by decide)
  · rintro ⟨hobj, hstream⟩ t ht
    have ho : t ≠ .word (ascii "endobj") := fun h => hobj (h ▸ ht)
    have hs : t ≠ .word (ascii "stream") := fun h => hstream (h ▸ ht)
    rw [isWord_eq_false ho, isWord_eq_false hs]
    rfl

theorem words_ne : (¬ ascii "endobj" = ascii "obj" ∧ ¬ ascii "endobj" = ascii "R") ∧
    ¬ ascii "stream" = ascii "obj" ∧ ¬ ascii "stream" = ascii "R" := by decide

theorem pageParts_plain (h : ctx.Measures e) : Plain (pageParts ctx e id contents strip) := by
  rw [plain_iff]
  rcases numeric_cases h.width with ⟨w, hw, -⟩ | ⟨hw, -⟩ <;>
    rcases numeric_cases h.height with ⟨v, hv, -⟩ | ⟨hv, -⟩ <;>
    simp [pageParts, objParts, Part.tokens, hw, hv, words_ne]

theorem imageParts_plain (length : ℤ) : Plain (imageParts e id length) := by
  rw [plain_iff]
  simp [imageParts, objParts, Part.tokens, words_ne]

theorem contentsParts_plain : Plain (contentsParts ctx e id) := by
  rw [plain_iff]
  simp [contentsParts, objParts, Part.tokens, words_ne]

theorem pagesParts_plain (count : ℤ) (pages : List ℕ) : Plain (pagesParts count pages) := by
  rw [plain_iff]
  simp [pagesParts, kidsParts, objParts, Part.tokens, List.flatMap_assoc, words_ne]

theorem catalogParts_plain : Plain (catalogParts id) := by
  rw [plain_iff]
  simp [catalogParts, objParts, Part.tokens, words_ne]

end

section
variable {ctx : PdfContext} {e : Encoder} {images : List (List Octets)} {info : Octets}
  {ps a b : List Piece} {table : List (ℕ × ℕ)} {start id : ℕ} {bytes : Octets}

/-- Behind the objects of a document. -/
def documentEnd (ctx : PdfContext) (images : List (List Octets)) (info : Octets)
    (table : List (ℕ × ℕ)) (start : ℕ) : Octets :=
  xrefText table ++ trailerText (table.length + 1) (3 * images.length + 2)
    (3 * images.length + 3) (fileid ctx info) ++ startxrefText start

/-- The table leads to each object. -/
theorem CrossReferenced.find (h : CrossReferenced ctx e images info ps table start bytes)
    (hps : ps = a ++ .defobj id :: b) : ∃ offset : ℕ,
      (readerTable table).find? (·.1 = (id : ℤ)) = some ((id : ℤ), (offset : ℤ)) ∧
      bytes.drop offset =
        Piece.define id ++ (printAll b ++ documentEnd ctx images info table start) := by
  have hnodup : (defined ps).Nodup := h.once.nodup_iff.2 List.nodup_range'
  have hid : id ∈ table.map Prod.fst := by
    rw [h.numbers, ← h.once.mem_iff, hps, defined_append]
    exact List.mem_append_right _ (List.mem_cons_self (l := defined b))
  obtain ⟨x, hx, rfl⟩ := List.mem_map.1 hid
  obtain ⟨y, hy⟩ : ∃ y, table.find? (·.1 = x.1) = some y :=
    Option.isSome_iff_exists.1 (List.find?_isSome.2 ⟨x, hx, by simp⟩)
  have hyx : y.1 = x.1 := by simpa using List.find?_some hy
  have hplace := h.place y (List.mem_of_find?_eq_some hy)
  rw [hps] at hnodup hplace
  rw [hyx] at hplace
  have hoffset := definedAt_unique hnodup hplace
  refine ⟨y.2, ?_, ?_⟩
  · rw [readerTable, List.find?_map]
    have hsame : (fun z : ℤ × ℤ => decide (z.1 = (x.1 : ℤ))) ∘
        (fun z : ℕ × ℕ => ((z.1 : ℤ), (z.2 : ℤ))) = fun z => decide (z.1 = x.1) := by
      funext z
      simp
    rw [hsame, hy, Option.map_some, hyx]
  · rw [h.layout, hps, hoffset, printAll_append, List.append_assoc, List.drop_left]
    simp only [printAll, List.flatMap_cons, Piece.print, documentEnd, List.append_assoc]

/-- The entries and the trailer from what stands in the file. -/
theorem readTable_printed (h : table.map Prod.fst = List.range' 1 table.length) (trailer : Obj) :
    readTable (.word (ascii "xref") :: .int 0 :: .int (table.length + 1 : ℕ) :: .int 0 ::
        .int 65535 :: .word (ascii "f") ::
        (table.flatMap (fun e => [.int e.2, .int 0, .word (ascii "n")]) ++
          [.word (ascii "trailer"), trailer])) = some (readerTable table, trailer) := by
  have hentries := readEntries_eq h [.word (ascii "trailer"), trailer]
  have hone : (0 : ℤ) + 1 = (1 : ℕ) := rfl
  have hfree : ascii "f" ≠ ascii "n" := by decide
  simp only [readTable, if_true, Int.toNat_natCast, readEntries, hone, hentries, hfree, if_false,
    Option.map_some, Option.bind_some]
  rfl

/-- From the end of a document to its table and its trailer. -/
theorem CrossReferenced.readTrailer
    (h : CrossReferenced ctx e images info ps table start bytes) :
    readTrailer bytes = some (readerTable table, trailerObj (table.length + 1)
      (3 * images.length + 2) (3 * images.length + 3) (fileid ctx info)) := by
  have hfileid : ∀ b ∈ fileid ctx info, isRegular b = true := by
    have hall : ∀ b : UInt8, (b = 45 ∨ (digitValue b).isSome = true) → isRegular b = true :=
      forall_byte (by decide +kernel)
    exact fun b hb => hall b (Uuid.toString_isChar (List.mem_filter.1 hb).1)
  have hstart : startxref bytes = some (start : ℤ) := by
    rw [h.layout, ← List.append_assoc]
    exact startxref_startxrefText _ _
  have hdrop : bytes.drop start = xrefText table ++ trailerText (table.length + 1)
      (3 * images.length + 2) (3 * images.length + 3) (fileid ctx info) ++ startxrefText start := by
    rw [h.layout, h.xref, List.drop_left]
  have hread := readTo_parts (isWord "startxref") (s := ascii "startxref")
    (t := numeral 10 start ++ ascii "\n%%EOF\n")
    ((xrefParts_fits table).append (trailerParts_fits hfileid (table.length + 1)
      (3 * images.length + 2) (3 * images.length + 3)))
    (fun t ht => xrefParts_tokens ht) ⟨by decide, forall_mem_of_all (by decide)⟩ (by decide)
  rw [xrefParts_print] at hread
  have hnumbers : table.map Prod.fst = List.range' 1 table.length := by
    rw [h.numbers, ← List.length_map (f := Prod.fst), h.numbers, List.length_range']
  rw [Pdf.readTrailer, hstart]
  simp only [Option.bind_eq_bind, Option.bind_some, Int.toNat_natCast, hdrop, hread,
    xrefParts_parse, readTable_printed hnumbers]

/-- A document as the table and a reader have it. -/
def documentFile (table : List (ℕ × ℕ)) (bytes : Octets) : File where
  bytes := bytes
  table := readerTable table

/-- An object of a document, from parts that print what the document has there. -/
theorem CrossReferenced.objectAt {parts : List Part} {k rest : Octets} {x : Obj}
    (h : CrossReferenced ctx e images info ps table start bytes)
    (hps : ps = a ++ .defobj id :: b)
    (hprint : parts.flatMap Part.print ++ (k ++ LF :: rest) =
      Piece.define id ++ (printAll b ++ documentEnd ctx images info table start))
    (hfits : Fits parts) (hplain : Plain parts)
    (hk : k = ascii "endobj" ∨ k = ascii "stream")
    (hparse : parse (parts.flatMap Part.tokens) =
      some [.int id, .int 0, .word (ascii "obj"), x]) :
    (documentFile table bytes).objectAt id = some (x, decide (k = ascii "stream"), rest) := by
  obtain ⟨offset, hfind, hdrop⟩ := h.find hps
  rw [← hprint] at hdrop
  exact File.objectAt_eq hfind hdrop hfits hk hplain hparse

theorem printAll_text_append (s t : Octets) :
    printAll (.text s :: b) ++ t = s ++ (printAll b ++ t) :=
  List.append_assoc s (printAll b) t

theorem CrossReferenced.catalog (h : CrossReferenced ctx e images info ps table start bytes) :
    (documentFile table bytes).object (3 * images.length + 2 : ℕ) =
      some (.dict [(ascii "Type", .name (ascii "Catalog")), (ascii "Pages", .ref 1 0)]) := by
  obtain ⟨a, b, hps⟩ := h.root
  have hsplit : ps = a ++ .defobj (3 * images.length + 2) :: (.text catalogText :: b) := by
    rw [hps, List.append_assoc]
    rfl
  have hprint := catalogParts_print (3 * images.length + 2)
    (printAll b ++ documentEnd ctx images info table start)
  rw [← printAll_text_append] at hprint
  exact File.object_eq (h.objectAt hsplit hprint catalogParts_fits catalogParts_plain (.inl rfl)
    catalogParts_parse)

theorem CrossReferenced.pagesObject
    (h : CrossReferenced ctx e images info ps table start bytes) :
    (documentFile table bytes).object 1 = some (.dict [(ascii "Type", .name (ascii "Pages")),
      (ascii "Count", .int images.length),
      (ascii "Kids",
        .array ((List.range images.length).map fun i => .ref (3 * i + 2 : ℕ) 0))]) := by
  obtain ⟨a, b, hps⟩ := h.pages
  set pages := (List.range images.length).map fun i => 3 * i + 2 with hpages
  have hsplit : ps = a ++ .defobj 1 :: (.text (pagesText images.length pages) :: b) := by
    rw [hps, List.append_assoc]
    rfl
  have hprint := pagesParts_print images.length pages
    (printAll b ++ documentEnd ctx images info table start)
  rw [← printAll_text_append] at hprint
  have hobject := File.object_eq (h.objectAt hsplit hprint (pagesParts_fits _ _)
    (pagesParts_plain _ _) (.inl rfl) (pagesParts_parse _ _))
  rw [hpages, List.map_map] at hobject
  exact hobject

/-- The lines of an image behind its dictionary. -/
theorem printAll_linePieces (e : Encoder) (lines : List Octets) :
    printAll (linePieces e lines) = lines.flatMap (lineBytes e (lineBufferSize e)) := by
  induction lines with
  | nil => rfl
  | cons line lines ih =>
    rw [List.flatMap_cons, ← ih]
    rfl

theorem readTo_endstream (s : Octets) :
    (readTo (fun _ => true) .between (ascii "endstream" ++ LF :: s)).map (fun r => r.2.1) =
      some (.word (ascii "endstream")) := by
  rw [readTo_word ⟨by decide, forall_mem_of_all (by decide)⟩ rfl]
  rfl

/-- The data of an image, without an overflow in its length. -/
theorem CrossReferenced.imageStream
    (h : CrossReferenced ctx e images info ps table start bytes) (he : e.Scans)
    {data : Octets} (hlength : Encoder.int32 (e.height * e.bytesPerLine) = data.length) {i : ℕ}
    {lines : List Octets} (hi : images[i]? = some lines)
    (hdata : lines.flatMap (lineBytes e (lineBufferSize e)) = data) :
    (documentFile table bytes).readImage (3 * i + 3 : ℕ) = some
      { width := e.width
        height := e.height
        colorSpace := csname e.components
        bitsPerComponent := e.bitDepth
        data := data } := by
  obtain ⟨a, b, hps⟩ := h.page i lines hi
  set tail := [.text endImageText, .defobj (3 * i + 4), .text (contentsText ctx e)] ++ b with htail
  have hsplit : ps = (a ++ [.defobj (3 * i + 2), .text (pageText ctx e (3 * i + 4) (3 * i + 3))]) ++
      .defobj (3 * i + 3) :: (.text (imageText e) :: (linePieces e lines ++ tail)) := by
    rw [hps, htail]
    simp only [List.append_assoc, List.cons_append, List.nil_append]
  have hrest : printAll (linePieces e lines ++ tail) ++ documentEnd ctx images info table start =
      data ++ (ascii "\n" ++ (ascii "endstream" ++ LF :: (ascii "endobj\n" ++
        (printAll (tail.drop 1) ++ documentEnd ctx images info table start)))) := by
    have hend : endImageText = ascii "\n" ++ (ascii "endstream" ++ LF :: ascii "endobj\n") := by
      decide +kernel
    rw [printAll_append, printAll_linePieces, hdata, htail, List.cons_append, List.append_assoc,
      printAll_text_append, hend]
    simp only [List.append_assoc, List.cons_append, List.drop_one, List.tail_cons]
  have hprint := imageParts_print e (3 * i + 3)
    (printAll (linePieces e lines ++ tail) ++ documentEnd ctx images info table start)
  rw [← printAll_text_append, hlength, hrest] at hprint
  have hobject := h.objectAt hsplit hprint (imageParts_fits he _) (imageParts_plain _) (.inr rfl)
    (imageParts_parse _)
  rw [decide_eq_true rfl] at hobject
  have hbreak : Fits [.fixed (ascii "\n") []] := .fixed (by decide) .nil
  have hend := readTo_parts (fun _ => true) (s := ascii "endstream") (t := ascii "endobj\n" ++
      (printAll (tail.drop 1) ++ documentEnd ctx images info table start))
    hbreak (by simp [Part.tokens])
    ⟨by decide, forall_mem_of_all (by decide)⟩ rfl
  have hstream := File.stream_eq hobject rfl (by
    simp only [List.flatMap_cons, List.flatMap_nil, Part.print, List.append_nil] at hend
    rw [hend]
    rfl)
  rw [File.readImage, hstream]
  rfl

/-- What is drawn on a page. -/
theorem CrossReferenced.contentsStream
    (h : CrossReferenced ctx e images info ps table start bytes) {i : ℕ} {lines : List Octets}
    (hi : images[i]? = some lines) :
    (documentFile table bytes).stream (3 * i + 4 : ℕ) =
      some (.dict [(ascii "Length", .int (pagedef ctx e).length)], pagedef ctx e) := by
  obtain ⟨a, b, hps⟩ := h.page i lines hi
  have hsplit : ps = (a ++ [.defobj (3 * i + 2), .text (pageText ctx e (3 * i + 4) (3 * i + 3)),
      .defobj (3 * i + 3), .text (imageText e)] ++ linePieces e lines ++ [.text endImageText]) ++
      .defobj (3 * i + 4) :: (.text (contentsText ctx e) :: b) := by
    rw [hps]
    simp only [List.append_assoc, List.cons_append, List.nil_append]
  have hprint := contentsParts_print ctx e (3 * i + 4)
    (printAll b ++ documentEnd ctx images info table start)
  rw [← printAll_text_append (contentsText ctx e)] at hprint
  have hobject := h.objectAt hsplit hprint contentsParts_fits contentsParts_plain (.inr rfl)
    contentsParts_parse
  rw [decide_eq_true rfl] at hobject
  have hend : ascii "endstream\n\nendobj\n" =
      ascii "endstream" ++ LF :: ascii "\nendobj\n" := by decide +kernel
  refine File.stream_eq hobject rfl ?_
  rw [hend, List.append_assoc]
  exact readTo_endstream _

/-- One page: its dictionary, what is drawn on it and the image. -/
theorem CrossReferenced.readPage (h : CrossReferenced ctx e images info ps table start bytes)
    (hm : ctx.Measures e) (he : e.Scans) {i : ℕ} {lines : List Octets}
    (hi : images[i]? = some lines)
    (hlength : Encoder.int32 (e.height * e.bytesPerLine) =
      (lines.flatMap (lineBytes e (lineBufferSize e))).length) :
    (documentFile table bytes).readPage (3 * i + 2 : ℕ) = some (pageOf ctx e lines) := by
  obtain ⟨a, b, hps⟩ := h.page i lines hi
  have hsplit : ps = a ++ .defobj (3 * i + 2) ::
      (.text (pageText ctx e (3 * i + 4) (3 * i + 3)) :: (.defobj (3 * i + 3) ::
        .text (imageText e) :: (linePieces e lines ++ ([.text endImageText, .defobj (3 * i + 4),
          .text (contentsText ctx e)] ++ b)))) := by
    rw [hps]
    simp only [List.append_assoc, List.cons_append, List.nil_append]
  have hprint := pageParts_print ctx e (3 * i + 2) (3 * i + 4) (3 * i + 3)
    (printAll (.defobj (3 * i + 3) ::
      .text (imageText e) :: (linePieces e lines ++ ([.text endImageText, .defobj (3 * i + 4),
          .text (contentsText ctx e)] ++ b))) ++ documentEnd ctx images info table start)
  rw [← printAll_text_append] at hprint
  have hobject := File.object_eq (h.objectAt hsplit hprint (pageParts_fits hm)
    (pageParts_plain hm) (.inl rfl) (pageParts_parse hm))
  have hcontent := run_parts (pagedefParts_fits hm)
  have hdrawn := pagedefParts_parse hm
  rw [pagedefParts_print] at hcontent
  exact File.readPage_eq hobject rfl rfl (h.contentsStream hi) (by rw [hcontent]; exact hdrawn)
    rfl rfl rfl rfl rfl rfl (h.imageStream he hlength hi rfl)

/-- All pages, one for each image. -/
theorem CrossReferenced.readPages (h : CrossReferenced ctx e images info ps table start bytes)
    (hm : ctx.Measures e) (he : e.Scans)
    (hlength : ∀ lines ∈ images, Encoder.int32 (e.height * e.bytesPerLine) =
      (lines.flatMap (lineBytes e (lineBufferSize e))).length) :
    readPages bytes = some (images.map (pageOf ctx e)) := by
  have hkids : ((List.range images.length).map fun i => Obj.ref (3 * i + 2 : ℕ) 0).mapM
      (fun kid => kid.asRef.bind (documentFile table bytes).readPage) =
        some (images.map (pageOf ctx e)) := by
    rw [Lists.mapM_eq_some_iff, List.forall₂_map_left_iff, List.forall₂_map_right_iff,
      List.forall₂_iff_get]
    refine ⟨List.length_range, fun i hi hi' => ?_⟩
    have himage : images[i]? = some images[i] := List.getElem?_eq_getElem hi'
    simpa [Obj.asRef] using h.readPage hm he himage (hlength _ (List.getElem_mem hi'))
  refine readPages_eq h.readTrailer rfl h.catalog rfl rfl h.pagesObject rfl ?_ rfl hkids
  rw [List.length_map, List.length_range]
  rfl

end

/-- The samples of a line that the scanner has delivered, in the order of the host. -/
def Encoder.lineSamples (e : Encoder) (line : Octets) : List ℕ :=
  if e.bitDepth = 16 then littleEndian (line.take e.bytesPerLine.toNat)
  else (line.take e.bytesPerLine.toNat).map UInt8.toNat

section
variable {ctx : PdfContext} {e : Encoder} {line : Octets} {lines : List Octets}

/-- A line with bytes to spare. -/
theorem length_lineBytes_of_le (h : e.Scans) (hp : e.components * e.width * e.bitDepth < 2 ^ 31)
    (hl : e.bytesPerLine ≤ line.length) :
    ((lineBytes e (lineBufferSize e) line).length : ℤ) = e.bytesPerLine := by
  have hb := h.bytesPerLine_eq hp
  have hpos := h.pixels_pos
  rw [lineBytes, lineBufferSize]
  generalize e.components * e.width = m at *
  split_ifs with hd hne hne
  · have hbytes : e.bytesPerLine = m * 2 := by rw [hb, hd]; rfl
    rw [List.length_take, length_htons, List.length_take]
    omega
  · omega
  · exact absurd rfl hne
  · have hnonneg : 0 ≤ e.bytesPerLine := by
      rw [hb]
      rcases h.depth with hd | hd <;> rw [hd] <;> omega
    rw [List.length_take]
    omega

theorem bigEndian_htons (s : Octets) : bigEndian (htons s) = littleEndian s := by
  induction s using htons.induct with
  | case1 a b s ih => rw [htons, bigEndian, ih, littleEndian]
  | case2 s hs =>
    rw [htons.eq_2 s hs]
    rcases s with _ | ⟨a, _ | ⟨b, s⟩⟩
    · rfl
    · rfl
    · exact (hs a b s rfl).elim

/-- A page has the samples of its lines. -/
theorem samples_pageOf (h : e.Scans) (hp : e.components * e.width * e.bitDepth < 2 ^ 31)
    (hl : ∀ line ∈ lines, e.bytesPerLine ≤ line.length) :
    (pageOf ctx e lines).image.samples = lines.flatMap e.lineSamples := by
  have hb := h.bytesPerLine_eq hp
  have hpos := h.pixels_pos
  have hlength := fun line hm => length_lineBytes_of_le h hp (hl line hm)
  generalize hm : e.components * e.width = m at *
  by_cases hd : e.bitDepth = 16
  · have hbytes : e.bytesPerLine = m * 2 := by rw [hb, hd]; rfl
    have hbuffer : lineBufferSize e = m.toNat := by rw [lineBufferSize, if_pos hd, hm]
    have hline (line : Octets) (hl : line ∈ lines) :
        bigEndian (lineBytes e (lineBufferSize e) line) = e.lineSamples line := by
      have hne : lineBufferSize e ≠ 0 := by omega
      have htwo : 2 * lineBufferSize e = e.bytesPerLine.toNat := by omega
      rw [lineBytes, if_pos hne, htwo, List.take_of_length_le, bigEndian_htons, Encoder.lineSamples,
        if_pos hd]
      rw [length_htons, List.length_take]
      omega
    rw [Image.samples, pageOf, if_pos hd, bigEndian_flatMap (n := m.toNat) fun line hl => by
      have := hlength line hl
      omega]
    exact List.flatMap_congr hline
  · have hbuffer : lineBufferSize e = 0 := if_neg hd
    rw [Image.samples, pageOf, if_neg hd, List.map_flatMap]
    refine List.flatMap_congr fun line _ => ?_
    rw [lineBytes, hbuffer, Encoder.lineSamples, if_neg hd]
    rfl

end

/-- A document that is ended behind complete images. -/
theorem Between.readPages {ctx : PdfContext} {e e' : Encoder} {before info : Octets}
    {images : List (List Octets)} {p : PdfEncoder} (h : Between ctx e before info images p)
    (hcount : e'.currentImage = images.length) (he : e.Scans) (hm : ctx.Measures e)
    (hbits : e.components * e.width * e.bitDepth < 2 ^ 31)
    (hbytes : e.height * e.bytesPerLine < 2 ^ 31)
    (hfull : ∀ x ∈ images, (x.length : ℤ) = e.height)
    (hlines : ∀ line ∈ images.flatten, e.bytesPerLine ≤ line.length) :
    ∃ bytes, (p.onDocumentEnd ctx e').os.content = before ++ bytes ∧
      readPages bytes = some (images.map (pageOf ctx e)) ∧
      ∀ x ∈ images, (pageOf ctx e x).image.samples = x.flatMap e.lineSamples := by
  obtain ⟨bytes, ps, table, start, hcontent, href⟩ := crossReferenced_onDocumentEnd h hcount
  have hlines' : ∀ x ∈ images, ∀ line ∈ x, e.bytesPerLine ≤ line.length :=
    fun x hx line hl => hlines line (List.mem_flatten.2 ⟨x, hx, hl⟩)
  refine ⟨bytes, hcontent, href.readPages hm he fun x hx => ?_, fun x hx =>
    samples_pageOf he hbits (hlines' x hx)⟩
  have hline := fun line hl => length_lineBytes_of_le he hbits (hlines' x hx line hl)
  rw [length_flatMap_lineBytes hline, hfull x hx, int32_eq_iff]
  have hnonneg : 0 ≤ e.height * e.bytesPerLine := by
    have hheight := he.height
    have hpixels := he.pixels_pos
    rw [he.bytesPerLine_eq hbits]
    rcases he.depth with hd | hd <;> rw [hd] <;> positivity
  omega

/-- The images of a document up to its end. -/
theorem document_images {ctx : PdfContext} {w : PdfWriter} {n : ℕ} {ops : List DocumentOp}
    (hline : w.encoder.currentLine = 0) (himage : w.encoder.currentImage = 0)
    (hdpi : w.encoder.dpi ≠ 0) (hheight : 1 ≤ w.encoder.height) (hn : 1 ≤ n)
    (hops : ((ops.filterMap DocumentOp.written).length : ℤ) = n * w.encoder.height) :
    ∃ (w' : PdfWriter) (images : List (List Octets)),
      ops.foldlM (fun w op => w.step ctx op) w = some w' ∧
      w'.encoder.currentImage = images.length ∧ images.length = n ∧
      (∀ x ∈ images, (x.length : ℤ) = w.encoder.height) ∧
      images.flatten = ops.filterMap DocumentOp.written ∧
      Between ctx w.encoder w.pdf.os.content (infoString ctx w.pdf.mInfoDict) images w'.pdf := by
  have hbegin : Progress ctx w.encoder w.pdf.os.content (infoString ctx w.pdf.mInfoDict) [] []
      w := by
    refine ⟨?_, by simp, by simp; omega, .inl ⟨rfl, rfl, rfl, rfl⟩⟩
    rw [List.length_nil, List.length_nil, placed_self hline himage]
  obtain ⟨images, lines, w', hrun, hprogress, hflat⟩ := progress_run hdpi ops hbegin
  rw [List.flatten_nil, List.nil_append, List.nil_append] at hflat
  rw [← hflat] at hops
  obtain ⟨hlength, rfl⟩ := hprogress.complete hops
  rw [List.append_nil] at hflat
  refine ⟨w', images, hrun, by rw [hprogress.encoder]; rfl, hlength, hprogress.full, hflat, ?_⟩
  rcases hprogress.state with ⟨rfl, _⟩ | ⟨_, _, hb⟩ | ⟨hl, _⟩
  · rw [List.length_nil] at hlength
    omega
  · exact hb
  · exact absurd rfl hl

theorem PdfContext.measures_standard (e : Encoder) : PdfContext.standard.Measures e := by
  have hnumeric (n : ℤ) : Numeric (integer n) := by
    refine ⟨regular_integer n, ?_⟩
    by_contra hne
    have hatom := atom_integer n
    rw [Bool.or_eq_true, not_or, Bool.not_eq_true, Bool.not_eq_true] at hne
    rw [atom, hne.1, hne.2] at hatom
    cases hatom
  exact ⟨hnumeric (72 * e.width / e.dpi), hnumeric (72 * e.height / e.dpi)⟩

end AirSane
