import AirSane.ImageFormats.CrossReference
import AirSane.Text.LiteralStrings

/-! # The info object

The document information as `PdfEncoder` prints it and as a reader of PDF documents
finds it.
-/

namespace AirSane
open Text Text.Literal

def Alphanumeric (key : Octets) : Prop :=
  key ≠ [] ∧ ∀ b ∈ key, 48 ≤ b ∧ b ≤ 57 ∨ 65 ≤ b ∧ b ≤ 90 ∨ 97 ≤ b ∧ b ≤ 122

/-- `pdfDate`, from what `strftime` prints. -/
def pdfDate (buf : Octets) : Octets := ascii "D:" ++ buf ++ ascii "Z"

/-- A dictionary whose entries are all printed. -/
def Printable (d : Dictionary) : Prop := ∀ e ∈ d, Alphanumeric e.1 ∧ e.2 ≠ []

/-- The calls of a document between its beginning and its end. -/
def PdfEncoder.calls (ctx : PdfContext) (p : PdfEncoder) (calls : List (Encoder × Callback)) :
    Option PdfEncoder :=
  calls.foldlM (fun p c => p.call ctx c.1 c.2) p

/-- `pdfStringEncode` of a character. -/
def encodeChar (c : UInt8) : Octets :=
  if c = 10 then ascii "\\n"
  else if c = 9 then ascii "\\t"
  else if c = 13 then ascii "\\r"
  else if c = 8 then ascii "\\b"
  else if c = 12 then ascii "\\f"
  else if c ∈ ascii "()\\" then ascii "\\" ++ [c]
  else [c]

variable {key v : Octets} {e : Octets × Octets} {d : Dictionary}

theorem pdfStringEncode_eq : pdfStringEncode v = v.flatMap encodeChar := rfl

theorem undone_encodeChar : Undone encodeChar := by
  intro b t
  have hbackslash : ascii "\\" = [92] := rfl
  have hletter : ascii "\\n" = [92, 110] ∧ ascii "\\t" = [92, 116] ∧ ascii "\\r" = [92, 114] ∧
      ascii "\\b" = [92, 98] ∧ ascii "\\f" = [92, 102] := by decide
  rw [encodeChar]
  split_ifs with hn ht hr hb hf hp
  · rw [hn, hletter.1]
    exact read_escape (by decide)
  · rw [ht, hletter.2.1]
    exact read_escape (by decide)
  · rw [hr, hletter.2.2.1]
    exact read_escape (by decide)
  · rw [hb, hletter.2.2.2.1]
    exact read_escape (by decide)
  · rw [hf, hletter.2.2.2.2]
    exact read_escape (by decide)
  · have hvalue : escapeValue b = some b := by
      have hall : ∀ c ∈ ascii "()\\", escapeValue c = some c := forall_mem_of_all (by decide)
      exact hall b hp
    rw [hbackslash]
    exact read_escape hvalue
  · refine read_plain fun hm => ?_
    have hcases : ∀ c ∈ ascii "()\\\r", c ∈ ascii "()\\" ∨ c = 13 :=
      forall_mem_of_all (by decide)
    exact (hcases b hm).elim hp hr

theorem isName_of_alphanumeric (h : Alphanumeric key) : IsName key := by
  have hall : ∀ b : UInt8, 48 ≤ b ∧ b ≤ 57 ∨ 65 ≤ b ∧ b ≤ 90 ∨ 97 ≤ b ∧ b ≤ 122 →
      isRegular b = true ∧ b ≠ 35 := forall_byte (by decide +kernel)
  exact fun b hb => hall b (h.2 b hb)

theorem pdfNameEncode_of_alphanumeric (h : Alphanumeric key) : pdfNameEncode key = key := by
  have hplain (b : UInt8) (hb : b ∈ key) : b ∉ ascii "\n\r\t " := by
    intro hm
    have hwhite : ∀ c ∈ ascii "\n\r\t ", isRegular c = false := forall_mem_of_all (by decide)
    have hregular := (isName_of_alphanumeric h b hb).1
    rw [hwhite b hm] at hregular
    cases hregular
  calc pdfNameEncode key = key.flatMap fun b => [b] :=
        List.flatMap_congr fun b hb => if_neg (hplain b hb)
    _ = key := by simp

theorem infoEntry_eq (hk : Alphanumeric e.1) (hv : e.2 ≠ []) :
    infoEntry e = printEntry encodeChar e := by
  have hparts : ascii "/" = [47] ∧ ascii " (" = [32, 40] ∧ ascii ")\n" = [41, LF] := by decide
  rw [infoEntry, if_pos ⟨hk.1, hv⟩, pdfNameEncode_of_alphanumeric hk, pdfStringEncode_eq, hparts.1,
    hparts.2.1, hparts.2.2]
  simp [printEntry]

/-- What is printed of a dictionary is read back, up to the end of the object. -/
theorem readDictionary_infoText (h : Printable d) (t : Octets) :
    readDictionary (infoText (d.flatMap infoEntry) ++ t) = some (d, ascii "\nendobj\n" ++ t) := by
  have hend : ascii ">>\nendobj\n" = ascii ">>" ++ ascii "\nendobj\n" := rfl
  have hentries : d.flatMap infoEntry = d.flatMap (printEntry encodeChar) :=
    List.flatMap_congr fun e he => infoEntry_eq (h e he).1 (h e he).2
  have hread := readDictionary_print undone_encodeChar
    (fun e he => isName_of_alphanumeric (h e he).1) (ascii "\nendobj\n" ++ t)
  rw [infoText, hentries, hend]
  simpa only [List.append_assoc] using hread

theorem printable_creationDate (h : Printable d) (buf : Octets) :
    Printable (d.assign (ascii "CreationDate") (pdfDate buf)) := by
  intro e he
  rcases Dictionary.mem_assign he with he | rfl
  · exact h e he
  · have hkey : Alphanumeric (ascii "CreationDate") :=
      ⟨by decide, forall_mem_of_all (by decide)⟩
    exact ⟨hkey, by simp [pdfDate, ascii]⟩

theorem content_emits (p : PdfEncoder) (ps : List Piece) :
    (p.emits ps).os.content = p.os.content ++ printAll ps := by
  induction ps generalizing p with
  | nil => simp [PdfEncoder.emits, printAll]
  | cons x ps ih =>
    have hx : (p.emit x).os.content = p.os.content ++ x.print := by
      cases x <;> exact Destination.content_write _ _
    exact (ih _).trans (by rw [hx, List.append_assoc]; rfl)

/-- The last object of a document. -/
theorem content_onDocumentEnd (ctx : PdfContext) (e : Encoder) (q : PdfEncoder) :
    ∃ before tail, (q.onDocumentEnd ctx e).os.content = q.os.content ++ before ++
      Piece.define (q.mObj + 2) ++ infoText q.mInfoString ++ tail := by
  obtain ⟨tail, htail⟩ : ∃ tail, (q.onDocumentEnd ctx e).os.content =
      (q.emits [.defobj 1, .text (pagesText e.currentImage (kids q.mObj 2 q.mObj)),
        .defobj (q.mObj + 1), .text catalogText, .defobj (q.mObj + 2),
        .text (infoText q.mInfoString)]).os.content ++ tail := ⟨_, Destination.content_write _ _⟩
  refine ⟨printAll [.defobj 1, .text (pagesText e.currentImage (kids q.mObj 2 q.mObj)),
    .defobj (q.mObj + 1), .text catalogText], tail, ?_⟩
  rw [htail, content_emits]
  simp [printAll, Piece.print]

/-- Only the beginning of a document sets the entries and the buffer. -/
theorem call_kept {ctx : PdfContext} {e : Encoder} {p q : PdfEncoder} {cb : Callback}
    (hcb : cb ≠ .onDocumentBegin) (h : p.call ctx e cb = some q) :
    q.mInfoString = p.mInfoString ∧ q.mLineBuffer = p.mLineBuffer := by
  cases cb with
  | onDocumentBegin => exact absurd rfl hcb
  | onImageBegin =>
    rw [← Option.some.inj h, PdfEncoder.onImageBegin]
    exact ⟨emits_mInfoString, emits_mLineBuffer⟩
  | onWriteLine line =>
    rw [← Option.some.inj h]
    exact ⟨rfl, rfl⟩
  | onImageEnd =>
    rw [← Option.some.inj h, PdfEncoder.onImageEnd]
    exact ⟨emits_mInfoString, emits_mLineBuffer⟩
  | onDocumentEnd =>
    rw [← Option.some.inj h, PdfEncoder.onDocumentEnd]
    exact ⟨emits_mInfoString, emits_mLineBuffer⟩

theorem calls_kept {ctx : PdfContext} {calls : List (Encoder × Callback)} {p q : PdfEncoder}
    (hcb : ∀ c ∈ calls, c.2 ≠ .onDocumentBegin) (h : p.calls ctx calls = some q) :
    q.mInfoString = p.mInfoString ∧ q.mLineBuffer = p.mLineBuffer := by
  induction calls generalizing p with
  | nil =>
    rw [← Option.some.inj h]
    exact ⟨rfl, rfl⟩
  | cons c calls ih =>
    rw [PdfEncoder.calls, List.foldlM_cons] at h
    obtain ⟨p', hp, hq⟩ := Option.bind_eq_some_iff.1 h
    have hfirst := call_kept (hcb c (by simp)) hp
    have hrest := ih (fun c hc => hcb c (by simp [hc])) hq
    exact ⟨hrest.1.trans hfirst.1, hrest.2.trans hfirst.2⟩

/-- The info object of a document says what the dictionary said at its beginning,
with the date. -/
theorem info_readBack {ctx : PdfContext} {e : Encoder} {p p' q : PdfEncoder} {buf : Octets}
    {calls : List (Encoder × Callback)} (e' : Encoder) (hd : Printable p.mInfoDict)
    (hdate : ctx.creationDate = pdfDate buf) (hbegin : p.call ctx e .onDocumentBegin = some p')
    (hcalls : ∀ c ∈ calls, c.2 ≠ .onDocumentBegin) (hq : p'.calls ctx calls = some q) :
    ∃ r before object tail, q.call ctx e' .onDocumentEnd = some r ∧
      r.os.content = q.os.content ++ before ++ Piece.define (q.mObj + 2) ++ object ++ tail ∧
      readDictionary (object ++ tail) =
        some (p.mInfoDict.assign (ascii "CreationDate") (pdfDate buf), ascii "\nendobj\n" ++ tail) := by
  have hinfo : q.mInfoString = (p.mInfoDict.assign (ascii "CreationDate") (pdfDate buf)).flatMap
      infoEntry := by
    rw [(calls_kept hcalls hq).1, ← hdate]
    change (if e.dpi = 0 then none else some _) = some p' at hbegin
    split_ifs at hbegin
    rw [← Option.some.inj hbegin]
  obtain ⟨before, tail, hcontent⟩ := content_onDocumentEnd ctx e' q
  refine ⟨_, before, infoText q.mInfoString, tail, rfl, hcontent, ?_⟩
  rw [hinfo]
  exact readDictionary_infoText (printable_creationDate hd buf) tail

/-- An encoder whose title has to be escaped. -/
def PdfEncoder.titled : PdfEncoder :=
  ⟨[], 0, 0, [(ascii "Title", ascii "a) >>\r\n\\")], [], 0, 0, ⟨[], ⟨0, []⟩, rfl⟩⟩

theorem info_readBack_titled : ∃ p' r before object tail,
    PdfEncoder.titled.call .standard PdfWriter.pixel.encoder .onDocumentBegin = some p' ∧
      p'.call .standard PdfWriter.pixel.encoder .onDocumentEnd = some r ∧
      r.os.content = p'.os.content ++ before ++ Piece.define (p'.mObj + 2) ++ object ++ tail ∧
      readDictionary (object ++ tail) = some (Dictionary.assign
        [(ascii "Title", ascii "a) >>\r\n\\")] (ascii "CreationDate")
          (pdfDate (ascii "20230101000000")), ascii "\nendobj\n" ++ tail) := by
  have hprintable : Printable PdfEncoder.titled.mInfoDict := by
    intro e he
    obtain rfl := List.mem_singleton.1 he
    exact ⟨⟨by decide, forall_mem_of_all (by decide)⟩, by decide⟩
  have hnone : ∀ c ∈ ([] : List (Encoder × Callback)), c.2 ≠ .onDocumentBegin := by simp
  have hdate : PdfContext.standard.creationDate = pdfDate (ascii "20230101000000") := rfl
  obtain ⟨p', hbegin⟩ : ∃ p', PdfEncoder.titled.call .standard PdfWriter.pixel.encoder
      .onDocumentBegin = some p' := ⟨_, rfl⟩
  have hcalls : p'.calls .standard [] = some p' := rfl
  obtain ⟨r, before, object, tail, h⟩ :=
    info_readBack PdfWriter.pixel.encoder hprintable hdate hbegin hnone hcalls
  exact ⟨p', r, before, object, tail, hbegin, h⟩

end AirSane
