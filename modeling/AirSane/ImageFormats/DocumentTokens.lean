import AirSane.ImageFormats.CrossReference
import AirSane.ImageFormats.StreamLength
import AirSane.Pdf.Reader

/-! # The texts of a document as tokens

Each object that the PDF encoder writes, its cross-reference table and its trailer, as
the tokens that a reader finds in them and the objects that the tokens are.
-/

namespace AirSane
open Text Web Pdf

/-- Lengths print as numbers. -/
structure PdfContext.Measures (ctx : PdfContext) (e : Encoder) : Prop where
  width : Numeric (ctx.pdfunits e.dpi e.width)
  height : Numeric (ctx.pdfunits e.dpi e.height)

section
variable (ctx : PdfContext) (e : Encoder)

/-- The page that shows an image of these lines, all over the page. -/
def pageOf (lines : List Octets) : Page where
  rotate := e.orientationDegrees
  mediaBox := [.int 0, .int 0, numberOf (ctx.pdfunits e.dpi e.width),
    numberOf (ctx.pdfunits e.dpi e.height)]
  matrix := [numberOf (ctx.pdfunits e.dpi e.width), .int 0, .int 0,
    numberOf (ctx.pdfunits e.dpi e.height), .int 0, .int 0]
  image :=
    { width := e.width
      height := e.height
      colorSpace := csname e.components
      bitsPerComponent := e.bitDepth
      data := lines.flatMap (lineBytes e (lineBufferSize e)) }

/-- The number of an object, and its beginning. -/
def objParts (id : ℕ) (s : Octets) (ts : List Token) : List Part :=
  [.atom (numeral 10 id) (.number id),
    .fixed (ascii " 0 obj" ++ s) (.number 0 :: .word (ascii "obj") :: ts)]

def pageParts (id contents strip : ℕ) : List Part :=
  objParts id (ascii "<<\n/Type/Page\n/Contents ")
    [.dictOpen, .name (ascii "Type"), .name (ascii "Page"), .name (ascii "Contents")] ++
  [.atom (numeral 10 contents) (.number contents),
    .fixed (ascii " 0 R" ++ ascii "\n/Rotate ")
      [.number 0, .word (ascii "R"), .name (ascii "Rotate")],
    .atom (integer e.orientationDegrees) (.number e.orientationDegrees),
    .fixed (ascii "\n/MediaBox [ 0 0 ")
      [.name (ascii "MediaBox"), .arrayOpen, .number 0, .number 0],
    .atom (ctx.pdfunits e.dpi e.width) (atom (ctx.pdfunits e.dpi e.width)),
    .fixed (ascii " ") [],
    .atom (ctx.pdfunits e.dpi e.height) (atom (ctx.pdfunits e.dpi e.height)),
    .fixed (ascii " ]\n/Parent 1 0 R\n/Resources << /XObject << /strip0 ")
      [.arrayClose, .name (ascii "Parent"), .number 1, .number 0, .word (ascii "R"),
        .name (ascii "Resources"), .dictOpen, .name (ascii "XObject"), .dictOpen,
        .name (ascii "strip0")],
    .atom (numeral 10 strip) (.number strip),
    .fixed (ascii " 0 R" ++ ascii " >> >>\n>>\n")
      [.number 0, .word (ascii "R"), .dictClose, .dictClose, .dictClose]]

def imageParts (id : ℕ) (length : ℤ) : List Part :=
  objParts id (ascii "\n<<\n/Type /XObject\n/Subtype /Image\n/Width ")
    [.dictOpen, .name (ascii "Type"), .name (ascii "XObject"), .name (ascii "Subtype"),
      .name (ascii "Image"), .name (ascii "Width")] ++
  [.atom (integer e.width) (.number e.width),
    .fixed (ascii "\n/Height ") [.name (ascii "Height")],
    .atom (integer e.height) (.number e.height),
    .fixed (ascii "\n/ColorSpace /" ++ (csname e.components ++ ascii "\n/BitsPerComponent "))
      [.name (ascii "ColorSpace"), .name (csname e.components), .name (ascii "BitsPerComponent")],
    .atom (integer e.bitDepth) (.number e.bitDepth),
    .fixed (ascii "\n/Length ") [.name (ascii "Length")],
    .atom (integer length) (.number length),
    .fixed (ascii "\n>>\n") [.dictClose]]

def contentsParts (id : ℕ) : List Part :=
  objParts id (ascii "\n<<\n/Length ") [.dictOpen, .name (ascii "Length")] ++
  [.atom (numeral 10 (pagedef ctx e).length) (.number (pagedef ctx e).length),
    .fixed (ascii "\n>>\n") [.dictClose]]

/-- What is drawn on a page. -/
def pagedefParts : List Part :=
  [.atom (ctx.pdfunits e.dpi e.width) (atom (ctx.pdfunits e.dpi e.width)),
    .fixed (ascii " 0 0 ") [.number 0, .number 0],
    .atom (ctx.pdfunits e.dpi e.height) (atom (ctx.pdfunits e.dpi e.height)),
    .fixed (ascii " 0 0 cm\n/strip0 Do\n")
      [.number 0, .number 0, .word (ascii "cm"), .name (ascii "strip0"), .word (ascii "Do")]]

def kidsParts (pages : List ℕ) : List Part :=
  pages.flatMap fun id =>
    [.atom (numeral 10 id) (.number id),
      .fixed (ascii " 0 R" ++ ascii "\n") [.number 0, .word (ascii "R")]]

def pagesParts (count : ℤ) (pages : List ℕ) : List Part :=
  objParts 1 (ascii "\n<<\n/Type/Pages\n/Count ")
    [.dictOpen, .name (ascii "Type"), .name (ascii "Pages"), .name (ascii "Count")] ++
  [.atom (integer count) (.number count),
    .fixed (ascii "\n/Kids [\n") [.name (ascii "Kids"), .arrayOpen]] ++ kidsParts pages ++
  [.fixed (ascii "\n]\n>>\n") [.arrayClose, .dictClose]]

def catalogParts (id : ℕ) : List Part :=
  objParts id (ascii "<<\n/Type/Catalog\n/Pages 1 0 R\n>>\n")
    [.dictOpen, .name (ascii "Type"), .name (ascii "Catalog"), .name (ascii "Pages"), .number 1,
      .number 0, .word (ascii "R"), .dictClose]

def xrefParts (table : List (ℕ × ℕ)) : List Part :=
  [.fixed (ascii "xref\n0 ") [.word (ascii "xref"), .number 0],
    .atom (numeral 10 (table.length + 1)) (.number (table.length + 1 : ℕ)),
    .fixed (ascii "\n0000000000 65535 f \n") [.number 0, .number 65535, .word (ascii "f")]] ++
  table.flatMap fun obj =>
    [.atom (tenDigits obj.2) (.number obj.2),
      .fixed (ascii " 00000 n \n") [.number 0, .word (ascii "n")]]

def trailerParts (size root info : ℕ) (fileid : Octets) : List Part :=
  [.fixed (ascii "trailer\n<<\n/Size ") [.word (ascii "trailer"), .dictOpen, .name (ascii "Size")],
    .atom (numeral 10 size) (.number size),
    .fixed (ascii "\n/Root ") [.name (ascii "Root")],
    .atom (numeral 10 root) (.number root),
    .fixed (ascii " 0 R" ++ ascii "\n/Info ")
      [.number 0, .word (ascii "R"), .name (ascii "Info")],
    .atom (numeral 10 info) (.number info),
    .fixed (ascii " 0 R" ++ ascii "\n/ID [\n")
      [.number 0, .word (ascii "R"), .name (ascii "ID"), .arrayOpen],
    .fixed (ascii "<" ++ (fileid ++ ascii ">")) [.hex fileid],
    .fixed (ascii "\n") [],
    .fixed (ascii "<" ++ (fileid ++ ascii ">")) [.hex fileid],
    .fixed (ascii "\n]\n>>\n" ++ ascii "%PDF-raster-1.0\n") [.arrayClose, .dictClose]]

end

section
variable {ctx : PdfContext} {e : Encoder} {id contents strip : ℕ} {rest : Octets}

theorem regular_integer (n : ℤ) : Regular (integer n) := by
  unfold integer
  split
  · have hdigits := @regular_numeral n.natAbs
    refine ⟨by simp [ascii], fun b hb => ?_⟩
    rcases List.mem_append.1 hb with hb | hb
    · exact forall_mem_of_all (p := fun b => isRegular b = true) (by decide) b hb
    · exact hdigits.2 b hb
  · exact regular_numeral

theorem atom_integer (n : ℤ) : atom (integer n) = .number n := by
  unfold integer
  split
  · rename_i hn
    have hminus : ascii "-" ++ numeral 10 n.natAbs = 45 :: numeral 10 n.natAbs := rfl
    rw [hminus, atom_negative numeral_ne_nil fun _ => isDecimal_of_mem_numeral,
      value_numeral (by omega) (by omega)]
    congr 1
    omega
  · rw [atom_numeral]
    congr 1
    omega

theorem pageParts_fits (h : ctx.Measures e) : Fits (pageParts ctx e id contents strip) := by
  refine .atom regular_numeral atom_numeral (by decide +kernel)
    (.fixed (by decide +kernel) ?_)
  refine .atom regular_numeral atom_numeral (by decide +kernel)
    (.fixed (by decide +kernel) ?_)
  refine .atom (regular_integer _) (atom_integer _) (by decide +kernel)
    (.fixed (by decide +kernel) ?_)
  refine .atom h.width.1 rfl (by decide +kernel)
    (.fixed (by decide +kernel) ?_)
  refine .atom h.height.1 rfl (by decide +kernel)
    (.fixed (by decide +kernel) ?_)
  exact .atom regular_numeral atom_numeral (by decide +kernel)
    (.fixed (by decide +kernel) .nil)

theorem pageParts_print (ctx : PdfContext) (e : Encoder) (id contents strip : ℕ)
    (rest : Octets) : (pageParts ctx e id contents strip).flatMap Part.print ++
      (ascii "endobj" ++ LF :: rest) =
    Piece.define id ++ (pageText ctx e contents strip ++ rest) := by
  have hend : ascii " >> >>\n>>\nendobj\n" = ascii " >> >>\n>>\n" ++ (ascii "endobj" ++ [LF]) := by
    decide +kernel
  simp only [pageParts, objParts, List.flatMap_cons, List.flatMap_nil, Part.print, Piece.define,
    pageText, reference, hend, List.append_assoc, List.nil_append, List.cons_append,
    List.append_nil]

theorem pageParts_parse (h : ctx.Measures e) :
    parse ((pageParts ctx e id contents strip).flatMap Part.tokens) =
      some [.int id, .int 0, .word (ascii "obj"),
        .dict [(ascii "Type", .name (ascii "Page")), (ascii "Contents", .ref contents 0),
          (ascii "Rotate", .int e.orientationDegrees),
          (ascii "MediaBox", .array (pageOf ctx e []).mediaBox), (ascii "Parent", .ref 1 0),
          (ascii "Resources",
            .dict [(ascii "XObject", .dict [(ascii "strip0", .ref strip 0)])])]] := by
  simp only [pageParts, pageOf]
  rcases numeric_cases h.width with ⟨w, hw, hw'⟩ | ⟨hw, hw'⟩ <;>
    rcases numeric_cases h.height with ⟨v, hv, hv'⟩ | ⟨hv, hv'⟩ <;>
    rw [hw, hw', hv, hv'] <;> rfl

/-- The color spaces of scan lines. -/
theorem csname_cases (he : e.Scans) :
    csname e.components = ascii "DeviceGray" ∨ csname e.components = ascii "DeviceRGB" := by
  have hc : e.components = Encoder.componentsOf e.colorspace :=
    congrArg Encoder.components he.refreshed.symm
  rw [hc]
  cases e.colorspace with
  | rgb => exact .inr (by decide +kernel)
  | _ => exact .inl (by decide +kernel)

theorem imageParts_fits (he : e.Scans) (length : ℤ) : Fits (imageParts e id length) := by
  have hcs : State.run .between
      (ascii "\n/ColorSpace /" ++ (csname e.components ++ ascii "\n/BitsPerComponent ")) =
        (.between, [.name (ascii "ColorSpace"), .name (csname e.components),
          .name (ascii "BitsPerComponent")]) := by
    rcases csname_cases he with h | h <;> rw [h] <;> decide +kernel
  refine .atom regular_numeral atom_numeral (by decide +kernel)
    (.fixed (by decide +kernel) ?_)
  refine .atom (regular_integer _) (atom_integer _) (by decide +kernel)
    (.fixed (by decide +kernel) ?_)
  refine .atom (regular_integer _) (atom_integer _) rfl (.fixed hcs ?_)
  refine .atom (regular_integer _) (atom_integer _) (by decide +kernel)
    (.fixed (by decide +kernel) ?_)
  exact .atom (regular_integer _) (atom_integer _) (by decide +kernel)
    (.fixed (by decide +kernel) .nil)

theorem imageParts_print (e : Encoder) (id : ℕ) (rest : Octets) :
    (imageParts e id (Encoder.int32 (e.height * e.bytesPerLine))).flatMap Part.print ++
        (ascii "stream" ++ LF :: rest) =
      Piece.define id ++ (imageText e ++ rest) := by
  have hend : ascii "\n>>\nstream\n" = ascii "\n>>\n" ++ (ascii "stream" ++ [LF]) := by
    decide +kernel
  simp only [imageParts, objParts, List.flatMap_cons, List.flatMap_nil, Part.print, Piece.define,
    imageText, hend, List.append_assoc, List.nil_append, List.cons_append, List.append_nil]

theorem imageParts_parse (length : ℤ) :
    parse ((imageParts e id length).flatMap Part.tokens) =
      some [.int id, .int 0, .word (ascii "obj"),
        .dict [(ascii "Type", .name (ascii "XObject")), (ascii "Subtype", .name (ascii "Image")),
          (ascii "Width", .int e.width), (ascii "Height", .int e.height),
          (ascii "ColorSpace", .name (csname e.components)),
          (ascii "BitsPerComponent", .int e.bitDepth), (ascii "Length", .int length)]] := rfl

theorem contentsParts_fits : Fits (contentsParts ctx e id) := by
  refine .atom regular_numeral atom_numeral (by decide +kernel)
    (.fixed (by decide +kernel) ?_)
  exact .atom regular_numeral atom_numeral (by decide +kernel)
    (.fixed (by decide +kernel) .nil)

theorem contentsParts_print (ctx : PdfContext) (e : Encoder) (id : ℕ) (rest : Octets) :
    (contentsParts ctx e id).flatMap Part.print ++
        (ascii "stream" ++ LF :: (pagedef ctx e ++ (ascii "endstream\n\nendobj\n" ++ rest))) =
      Piece.define id ++ (contentsText ctx e ++ rest) := by
  have hend : ascii "\n>>\nstream\n" = ascii "\n>>\n" ++ (ascii "stream" ++ [LF]) := by
    decide +kernel
  simp only [contentsParts, objParts, List.flatMap_cons, List.flatMap_nil, Part.print, Piece.define,
    contentsText, hend, List.append_assoc, List.nil_append, List.cons_append, List.append_nil]

theorem contentsParts_parse : parse ((contentsParts ctx e id).flatMap Part.tokens) =
    some [.int id, .int 0, .word (ascii "obj"),
      .dict [(ascii "Length", .int (pagedef ctx e).length)]] := rfl

theorem pagedefParts_fits (h : ctx.Measures e) : Fits (pagedefParts ctx e) := by
  refine .atom h.width.1 rfl (by decide +kernel)
    (.fixed (by decide +kernel) ?_)
  exact .atom h.height.1 rfl (by decide +kernel)
    (.fixed (by decide +kernel) .nil)

theorem pagedefParts_print : (pagedefParts ctx e).flatMap Part.print = pagedef ctx e := by
  simp only [pagedefParts, pagedef, List.flatMap_cons, List.flatMap_nil, Part.print,
    List.append_assoc, List.append_nil]

theorem pagedefParts_parse (h : ctx.Measures e) :
    parse ((pagedefParts ctx e).flatMap Part.tokens) = some ((pageOf ctx e []).matrix ++
      [.word (ascii "cm"), .name (ascii "strip0"), .word (ascii "Do")]) := by
  simp only [pagedefParts, pageOf]
  rcases numeric_cases h.width with ⟨w, hw, hw'⟩ | ⟨hw, hw'⟩ <;>
    rcases numeric_cases h.height with ⟨v, hv, hv'⟩ | ⟨hv, hv'⟩ <;>
    rw [hw, hw', hv, hv'] <;> rfl

theorem pagesParts_fits (count : ℤ) (pages : List ℕ) : Fits (pagesParts count pages) := by
  have hkid : ∀ id ∈ pages, Fits [.atom (numeral 10 id) (.number id),
      .fixed (ascii " 0 R" ++ ascii "\n") [.number 0, .word (ascii "R")]] := fun id _ =>
    .atom regular_numeral atom_numeral (by decide +kernel)
    (.fixed (by decide +kernel) .nil)
  refine Fits.append (Fits.append ?_ (Fits.flatMap hkid)) (.fixed (by decide +kernel) .nil)
  refine .atom regular_numeral atom_numeral (by decide +kernel)
    (.fixed (by decide +kernel) ?_)
  exact .atom (regular_integer _) (atom_integer _) (by decide +kernel)
    (.fixed (by decide +kernel) .nil)

theorem pagesParts_print (count : ℤ) (pages : List ℕ) (rest : Octets) :
    (pagesParts count pages).flatMap Part.print ++ (ascii "endobj" ++ LF :: rest) =
      Piece.define 1 ++ (pagesText count pages ++ rest) := by
  have hend : ascii "\n]\n>>\nendobj\n" = ascii "\n]\n>>\n" ++ (ascii "endobj" ++ [LF]) := by
    decide +kernel
  have hkids : (kidsParts pages).flatMap Part.print =
      pages.flatMap fun id => reference id ++ ascii "\n" := by
    simp only [kidsParts, List.flatMap_assoc, List.flatMap_cons, List.flatMap_nil, Part.print,
      reference, List.append_assoc, List.append_nil]
  simp only [pagesParts, objParts, List.flatMap_cons, List.flatMap_nil, List.flatMap_append, hkids,
    Part.print, Piece.define, pagesText, hend, List.append_assoc, List.nil_append, List.cons_append,
    List.append_nil]

theorem pagesParts_parse (count : ℤ) (pages : List ℕ) :
    parse ((pagesParts count pages).flatMap Part.tokens) =
      some [.int 1, .int 0, .word (ascii "obj"),
        .dict [(ascii "Type", .name (ascii "Pages")), (ascii "Count", .int count),
          (ascii "Kids", .array (pages.map fun id : ℕ => .ref id 0))]] := by
  have hkids : Feeds ((kidsParts pages).flatMap Part.tokens)
      (pages.map fun id : ℕ => .ref id 0) := by
    have hall := Feeds.flatMap (f := fun id : ℕ => [.number id, .number 0, .word (ascii "R")])
      (g := fun id => [.ref id 0]) (fun id isDict ys st => rfl) pages
    simpa only [kidsParts, List.flatMap_assoc, List.flatMap_cons, List.flatMap_nil, Part.tokens,
      List.append_nil, List.cons_append, List.nil_append, ← List.map_eq_flatMap] using hall
  have hhead : Feeds [.name (ascii "Type"), .name (ascii "Pages"), .name (ascii "Count"),
      .number count, .name (ascii "Kids")] [.name (ascii "Type"), .name (ascii "Pages"),
        .name (ascii "Count"), .int count, .name (ascii "Kids")] := fun _ _ _ => rfl
  have hobj : Feeds [.number 1, .number 0, .word (ascii "obj")]
      [.int 1, .int 0, .word (ascii "obj")] := fun _ _ _ => rfl
  have hall := (hobj.append ((hhead.append hkids.array).dict rfl)).parse
  simpa only [pagesParts, objParts, List.flatMap_cons, List.flatMap_nil, List.flatMap_append,
    Part.tokens, List.append_assoc, List.nil_append, List.cons_append, List.append_nil,
    Nat.cast_one] using hall

theorem catalogParts_fits : Fits (catalogParts id) :=
  .atom regular_numeral atom_numeral (by decide +kernel)
    (.fixed (by decide +kernel) .nil)

theorem catalogParts_print (id : ℕ) (rest : Octets) :
    (catalogParts id).flatMap Part.print ++ (ascii "endobj" ++ LF :: rest) =
      Piece.define id ++ (catalogText ++ rest) := by
  have hend : ascii "<<\n/Type/Catalog\n/Pages 1 0 R\n>>\nendobj\n" =
      ascii "<<\n/Type/Catalog\n/Pages 1 0 R\n>>\n" ++ (ascii "endobj" ++ [LF]) := by decide +kernel
  simp only [catalogParts, objParts, List.flatMap_cons, List.flatMap_nil, Part.print, Piece.define,
    catalogText, hend, List.append_assoc, List.nil_append, List.cons_append, List.append_nil]

theorem catalogParts_parse : parse ((catalogParts id).flatMap Part.tokens) =
    some [.int id, .int 0, .word (ascii "obj"),
      .dict [(ascii "Type", .name (ascii "Catalog")), (ascii "Pages", .ref 1 0)]] := rfl

theorem isDecimal_of_mem_tenDigits {n : ℕ} {b : UInt8} (h : b ∈ tenDigits n) :
    isDecimal b = true := by
  rcases List.mem_append.1 h with h | h
  · rw [(List.mem_replicate.1 h).2]
    decide
  · exact isDecimal_of_mem_numeral h

theorem tenDigits_ne_nil (n : ℕ) : tenDigits n ≠ [] :=
  List.append_ne_nil_of_right_ne_nil _ numeral_ne_nil

theorem xrefParts_fits (table : List (ℕ × ℕ)) : Fits (xrefParts table) := by
  have hentry : ∀ obj ∈ table, Fits [.atom (tenDigits obj.2) (.number obj.2),
      .fixed (ascii " 00000 n \n") [.number 0, .word (ascii "n")]] := by
    intro obj _
    have hatom := atom_digits (tenDigits_ne_nil obj.2) fun _ => isDecimal_of_mem_tenDigits
    rw [value_tenDigits] at hatom
    exact .atom (regular_digits (tenDigits_ne_nil _) fun _ => isDecimal_of_mem_tenDigits) hatom
      (by decide +kernel) (.fixed (by decide +kernel) .nil)
  refine Fits.append ?_ (Fits.flatMap hentry)
  exact .fixed (by decide +kernel) (.atom regular_numeral atom_numeral (by decide +kernel)
    (.fixed (by decide +kernel) .nil))

theorem trailerParts_fits {fileid : Octets} (h : ∀ b ∈ fileid, isRegular b = true)
    (size root info : ℕ) : Fits (trailerParts size root info fileid) := by
  refine .fixed (by decide +kernel) (.atom regular_numeral atom_numeral (by decide +kernel) ?_)
  refine .fixed (by decide +kernel) (.atom regular_numeral atom_numeral (by decide +kernel) ?_)
  refine .fixed (by decide +kernel) (.atom regular_numeral atom_numeral (by decide +kernel) ?_)
  refine .fixed (by decide +kernel) (.fixed (State.run_hex h) (.fixed (by decide +kernel) ?_))
  exact .fixed (State.run_hex h) (.fixed (by decide +kernel) .nil)

theorem xrefParts_print (table : List (ℕ × ℕ)) (size root info startxref : ℕ)
    (fileid : Octets) :
    (xrefParts table ++ trailerParts size root info fileid).flatMap Part.print ++
        (ascii "startxref" ++ LF :: (numeral 10 startxref ++ ascii "\n%%EOF\n")) =
      xrefText table ++ trailerText size root info fileid ++ startxrefText startxref := by
  have hid : ascii "\n/ID [\n<" = ascii "\n/ID [\n" ++ ascii "<" := rfl
  have hbetween : ascii ">\n<" = ascii ">" ++ (ascii "\n" ++ ascii "<") := by decide +kernel
  have hclose : ascii ">\n]\n>>\n" = ascii ">" ++ ascii "\n]\n>>\n" := by decide +kernel
  have hend : ascii "%PDF-raster-1.0\nstartxref\n" =
      ascii "%PDF-raster-1.0\n" ++ (ascii "startxref" ++ [LF]) := by decide +kernel
  simp only [xrefParts, trailerParts, xrefText, trailerText, startxrefText, reference,
    List.flatMap_append, List.flatMap_assoc, List.flatMap_cons, List.flatMap_nil, Part.print, hid,
    hbetween, hclose, hend, List.append_assoc, List.nil_append, List.cons_append, List.append_nil]

def trailerObj (size root info : ℕ) (fileid : Octets) : Obj :=
  .dict [(ascii "Size", .int size), (ascii "Root", .ref root 0), (ascii "Info", .ref info 0),
    (ascii "ID", .array [.hex fileid, .hex fileid])]

theorem xrefParts_parse (table : List (ℕ × ℕ)) (size root info : ℕ) (fileid : Octets) :
    parse ((xrefParts table ++ trailerParts size root info fileid).flatMap Part.tokens) =
      some (.word (ascii "xref") :: .int 0 :: .int (table.length + 1 : ℕ) :: .int 0 ::
        .int 65535 :: .word (ascii "f") ::
        (table.flatMap (fun e => [.int e.2, .int 0, .word (ascii "n")]) ++
          [.word (ascii "trailer"), trailerObj size root info fileid])) := by
  have hxref : Feeds [.word (ascii "xref")] [.word (ascii "xref")] := .word (by decide)
  have hhead : Feeds [.number 0, .number (table.length + 1 : ℕ), .number 0, .number 65535,
      .word (ascii "f")] [.int 0, .int (table.length + 1 : ℕ), .int 0, .int 65535,
        .word (ascii "f")] := fun _ _ _ => rfl
  have hentries := Feeds.flatMap
    (f := fun e : ℕ × ℕ => [.number e.2, .number 0, .word (ascii "n")])
    (g := fun e => [.int e.2, .int 0, .word (ascii "n")]) (fun e isDict ys st => rfl) table
  have htrailer : Feeds [.word (ascii "trailer")] [.word (ascii "trailer")] := .word (by decide)
  have hentry : Feeds [.name (ascii "Size"), .number size, .name (ascii "Root"), .number root,
      .number 0, .word (ascii "R"), .name (ascii "Info"), .number info, .number 0,
      .word (ascii "R"), .name (ascii "ID"), .arrayOpen, .hex fileid, .hex fileid, .arrayClose]
      [.name (ascii "Size"), .int size, .name (ascii "Root"), .ref root 0, .name (ascii "Info"),
        .ref info 0, .name (ascii "ID"), .array [.hex fileid, .hex fileid]] := fun _ _ _ => rfl
  have hall := (hxref.append (hhead.append (hentries.append
    (htrailer.append (hentry.dict rfl))))).parse
  simpa only [xrefParts, trailerParts, trailerObj, List.flatMap_append, List.flatMap_assoc,
    List.flatMap_cons, List.flatMap_nil, Part.tokens, List.append_assoc, List.nil_append,
    List.cons_append, List.append_nil] using hall

end
end AirSane
