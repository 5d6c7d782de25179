import AirSane.Server.Features
import AirSane.ScanJob.Determined

/-! # Four descriptions of one scanner

When the list of input sources, the capabilities document, the announced records
and the jobs made from tickets say the same about a scanner.
-/

namespace AirSane
open Text

/-- What a job asks of an initialised scanner. -/
def Init2.description {S : Type} (i : Init2 S) : ScanJob.ScannerDescription where
  hasPlaten := i.mpPlaten.isSome
  platenSourceName := (i.mpPlaten.map (·.mSourceName)).getD []
  adfSimplexSourceName := (i.mpAdfSimplex.map (·.mSourceName)).getD []
  adfDuplexSourceName := (i.mpAdfDuplex.map (·.mSourceName)).getD []
  grayScanModeName := i.mGrayScanModeName
  colorScanModeName := i.mColorScanModeName
  maxWidthPx300dpi := i.mMaxWidthPx300dpi
  maxHeightPx300dpi := i.mMaxHeightPx300dpi

section
variable {v : Service} {c : Bool} {key : String} {text : Octets}

theorem getString_setTxt : (v.setTxt key text).mTxtRecord.getString (ascii key) = text :=
  Dictionary.getString_assign_self

theorem getString_setTxtIf : (v.setTxtIf c key text).mTxtRecord.getString (ascii key) =
    if c then text else v.mTxtRecord.getString (ascii key) := by
  cases c with
  | true => exact getString_setTxt
  | false => rfl

end

/-- A record of the announced service. -/
def record (cfg : Settings) (scanner : Scanner) (key : String) : Octets :=
  (buildMdnsService cfg scanner).mTxtRecord.getString (ascii key)

section
variable {cfg : Settings} {scanner : Scanner}

theorem record_is : record cfg scanner "is" =
    commaList ((if scanner.data.hasPlaten then [ascii "platen"] else []) ++
      if scanner.data.hasAdf then [ascii "adf"] else []) := by
  rw [record, buildMdnsService, getString_setTxtIf_ne (by decide), getString_setTxtIf_ne (by decide),
    getString_setTxt_ne (by decide), getString_setTxtIf, getString_setTxtIf_ne (by decide),
    getString_setTxt_ne (by decide), getString_setTxt_ne (by decide),
    getString_setTxt_ne (by decide), getString_setTxt_ne (by decide),
    getString_setTxtIf_ne (by decide), getString_setTxt_ne (by decide),
    getString_setTxt_ne (by decide)]
  cases scanner.data.hasPlaten <;> cases scanner.data.hasAdf <;> rfl

theorem record_duplex :
    record cfg scanner "duplex" = ascii (if scanner.data.hasDuplexAdf then "T" else "F") := by
  rw [record, buildMdnsService, getString_setTxtIf_ne (by decide), getString_setTxtIf_ne (by decide),
    getString_setTxt]

/-- What stands between the commas of a record. -/
def entries (text : Octets) : List Octets := text.splitOn 44

theorem adf_mem_entries :
    ascii "adf" ∈ entries (record cfg scanner "is") ↔ scanner.data.hasAdf = true := by
  rw [record_is]
  cases scanner.data.hasPlaten <;> cases scanner.data.hasAdf <;> decide

theorem platen_mem_entries :
    ascii "platen" ∈ entries (record cfg scanner "is") ↔ scanner.data.hasPlaten = true := by
  rw [record_is]
  cases scanner.data.hasPlaten <;> cases scanner.data.hasAdf <;> decide

theorem record_duplex_eq :
    record cfg scanner "duplex" = ascii "T" ↔ scanner.data.hasDuplexAdf = true := by
  rw [record_duplex]
  cases scanner.data.hasDuplexAdf <;> decide

end

section
variable {S : Type} {print : ℤ → Octets} {i : Init2 S} {scanner : Scanner} {name : String}

theorem mem_elements_capabilities (hs : name ∉ ["scan:ScannerCapabilities", "pwg:Version", "pwg:MakeAndModel",
      "pwg:SerialNumber", "scan:UUID", "scan:AdminURI", "scan:IconURI"]) :
    name ∈ elements (i.writeScannerCapabilitiesXml print scanner) ↔
      name ∈ elements (i.writePlaten print) ∨ name ∈ elements (i.writeAdf print) := by
  simp only [List.mem_cons, List.not_mem_nil, or_false, not_or] at hs
  rcases hs with ⟨h₁, h₂, h₃, h₄, h₅, h₆, h₇⟩
  rw [Init2.writeScannerCapabilitiesXml]
  have hadmin : name ∉ elements
      (if scanner.mAdminUrl ≠ [] then leaf "scan:AdminURI" scanner.mAdminUrl else []) := by
    split_ifs
    · rwa [elements_leaf, List.mem_singleton]
    · exact List.not_mem_nil
  have hicon : name ∉ elements
      (if scanner.mIconUrl ≠ [] then leaf "scan:IconURI" scanner.mIconUrl else []) := by
    split_ifs
    · rwa [elements_leaf, List.mem_singleton]
    · exact List.not_mem_nil
  have hstart (l : List Piece) (attributes : Octets) :
      name ∈ elements (.start "scan:ScannerCapabilities" attributes :: l) ↔ name ∈ elements l := by
    simp [elements, Piece.element, h₁]
  have hstop : name ∉ elements [.stop "scan:ScannerCapabilities"] := by
    simp [elements, Piece.element]
  rw [hstart]
  simp only [elements_append, elements_leaf, List.mem_append, List.mem_singleton, h₂, h₃, h₄, h₅,
    hadmin, hicon, hstop, false_or, or_false]

theorem adf_mem_capabilities :
    "scan:Adf" ∈ elements (i.writeScannerCapabilitiesXml print scanner) ↔
      i.mpAdfSimplex.isSome := by
  rw [mem_elements_capabilities (by decide), mem_elements_writePlaten (by decide),
    mem_elements_writeAdf (by decide)]
  simp

theorem platen_mem_capabilities :
    "scan:Platen" ∈ elements (i.writeScannerCapabilitiesXml print scanner) ↔
      i.mpPlaten.isSome := by
  rw [mem_elements_capabilities (by decide), mem_elements_writePlaten (by decide),
    mem_elements_writeAdf (by decide)]
  simp

theorem duplex_mem_capabilities :
    "scan:AdfDuplexInputCaps" ∈ elements (i.writeScannerCapabilitiesXml print scanner) ↔
      i.mpAdfSimplex.isSome ∧ i.mpAdfDuplex.isSome := by
  rw [mem_elements_capabilities (by decide), mem_elements_writePlaten (by decide),
    mem_elements_writeAdf (by decide)]
  simp

end

section
variable {S D : Type} (A : ScanJob.Doubles D) (print : ℤ → Octets) (cfg : Settings)
variable (b : Backend S) (s : S) (i : Init2 S)

/-- Jobs of tickets with these properties scan from the source found. -/
def Selects (found : Option Octets) (ticket : Octets → Prop) : Prop :=
  ∀ xml, ticket xml → ∀ autoselectFormat options j,
    some (ScanJob.Job.init A i.description xml autoselectFormat options j).mScanSource = found

/-- What the four descriptions of a scanner say is the same. -/
structure Agrees (scanner : Scanner) : Prop where
  feeder_adf : "Feeder" ∈ i.mInputSources ↔
    "scan:Adf" ∈ elements (i.writeScannerCapabilitiesXml print scanner)
  feeder_is : "Feeder" ∈ i.mInputSources ↔ ascii "adf" ∈ entries (record cfg scanner "is")
  platen_xml : "Platen" ∈ i.mInputSources ↔
    "scan:Platen" ∈ elements (i.writeScannerCapabilitiesXml print scanner)
  platen_is : "Platen" ∈ i.mInputSources ↔ ascii "platen" ∈ entries (record cfg scanner "is")
  duplex : record cfg scanner "duplex" = ascii "T" ↔
    "scan:AdfDuplexInputCaps" ∈ elements (i.writeScannerCapabilitiesXml print scanner)
  platen_ticket : "Platen" ∈ i.mInputSources → Selects A i (platenFound b s) fun xml =>
    ScanJob.getString xml (ascii "InputSource") = ascii "Platen"
  feeder_ticket : "Feeder" ∈ i.mInputSources → Selects A i (simplexFound b s) fun xml =>
    ScanJob.getString xml (ascii "InputSource") = ascii "Feeder" ∧
      A.eq (ScanJob.getNumber A xml (ascii "Duplex")) (A.ofInt 1) = false
  duplex_ticket : record cfg scanner "duplex" = ascii "T" →
    Selects A i (duplexFound b s) fun xml =>
      ScanJob.getString xml (ascii "InputSource") = ascii "Feeder" ∧
        A.eq (ScanJob.getNumber A xml (ascii "Duplex")) (A.ofInt 1) = true

variable {A print cfg b s i} {found : Option Octets}

theorem init_mScanSource {scanner : ScanJob.ScannerDescription} {xml : Octets}
    {autoselectFormat : Bool} {options : ScanJob.Options D} {j : ScanJob.Job D} :
    ∃ j' : ScanJob.Job D, (ScanJob.Job.init A scanner xml autoselectFormat options j).mScanSource =
      (j'.setInputSource A scanner xml).mScanSource := by
  rw [ScanJob.Job.init, ScanJob.Job.setState]
  split_ifs
  · exact ⟨_, rfl⟩
  · exact ⟨_, rfl⟩

theorem inputSource_eq {scanner : ScanJob.ScannerDescription} {xml name : Octets}
    (h : ScanJob.getString xml (ascii "InputSource") = name) (hn : name ≠ []) :
    ScanJob.inputSource scanner xml = name := by
  rw [ScanJob.inputSource, h]
  exact if_neg hn

theorem selects_platen (h : i.mpPlaten.map (·.mSourceName) = found) (hs : i.mpPlaten.isSome) :
    Selects A i found fun xml =>
      ScanJob.getString xml (ascii "InputSource") = ascii "Platen" := by
  intro xml hx autoselectFormat options j
  rcases init_mScanSource (A := A) (j := j) with ⟨j', hj⟩
  rcases Option.isSome_iff_exists.1 hs with ⟨platen, hp⟩
  rw [hj, ScanJob.Job.setInputSource, if_pos (inputSource_eq hx (by decide)), ← h]
  simp [Init2.description, hp]

theorem feeder_ne_platen : ascii "Feeder" ≠ ascii "Platen" := by decide

theorem inputSource_feeder {xml : Octets}
    (hx : ScanJob.getString xml (ascii "InputSource") = ascii "Feeder") :
    ScanJob.inputSource i.description xml = ascii "Feeder" ∧
      ScanJob.inputSource i.description xml ≠ ascii "Platen" := by
  have hsource : ScanJob.inputSource i.description xml = ascii "Feeder" :=
    inputSource_eq hx (by decide)
  exact ⟨hsource, fun h => feeder_ne_platen (hsource.symm.trans h)⟩

theorem selects_feeder (h : i.mpAdfSimplex.map (·.mSourceName) = found)
    (hs : i.mpAdfSimplex.isSome) :
    Selects A i found fun xml => ScanJob.getString xml (ascii "InputSource") = ascii "Feeder" ∧
      A.eq (ScanJob.getNumber A xml (ascii "Duplex")) (A.ofInt 1) = false := by
  intro xml hx autoselectFormat options j
  rcases init_mScanSource (A := A) (j := j) with ⟨j', hj⟩
  rcases Option.isSome_iff_exists.1 hs with ⟨simplex, hp⟩
  rcases inputSource_feeder (i := i) hx.1 with ⟨hsource, hne⟩
  rw [hj, ScanJob.Job.setInputSource, if_neg hne, if_pos hsource, ← h]
  simp [Init2.description, hp, hx.2]

theorem selects_duplex (h : i.mpAdfDuplex.map (·.mSourceName) = found)
    (hs : i.mpAdfDuplex.isSome) :
    Selects A i found fun xml => ScanJob.getString xml (ascii "InputSource") = ascii "Feeder" ∧
      A.eq (ScanJob.getNumber A xml (ascii "Duplex")) (A.ofInt 1) = true := by
  intro xml hx autoselectFormat options j
  rcases init_mScanSource (A := A) (j := j) with ⟨j', hj⟩
  rcases Option.isSome_iff_exists.1 hs with ⟨duplex, hp⟩
  rcases inputSource_feeder (i := i) hx.1 with ⟨hsource, hne⟩
  rw [hj, ScanJob.Job.setInputSource, if_neg hne, if_pos hsource, ← h]
  simp [Init2.description, hp, hx.2]

theorem Init2.Found.platen_isSome (h : i.Found b s) :
    i.mpPlaten.isSome ↔ "Platen" ∈ i.mInputSources := by
  have hs : i.mpPlaten.isSome = (platenFound b s).isSome := by rw [← h.platen, Option.isSome_map]
  rw [h.mInputSources, hs]
  by_cases hp : (platenFound b s).isSome <;> simp [hp]

theorem Init2.Found.feeder_mem (h : i.Found b s) : "Feeder" ∈ i.mInputSources ↔
    i.mpAdfSimplex.isSome ∨ i.mpAdfDuplex.isSome := by
  have hs : i.mpAdfSimplex.isSome = (simplexFound b s).isSome := by
    rw [← h.simplex, Option.isSome_map]
  have hd : i.mpAdfDuplex.isSome = (duplexFound b s).isSome := by
    rw [← h.duplex, Option.isSome_map]
  rw [h.mInputSources, hs, hd]
  by_cases hp : (platenFound b s).isSome <;> simp [hp]

theorem Init2.Found.duplexOnly_iff (h : i.Found b s) :
    DuplexOnly (b.sources s) ↔ i.mpAdfSimplex.isSome = false ∧ i.mpAdfDuplex.isSome := by
  have hs : i.mpAdfSimplex.isSome = (simplexFound b s).isSome := by
    rw [← h.simplex, Option.isSome_map]
  have hd : i.mpAdfDuplex.isSome = (duplexFound b s).isSome := by
    rw [← h.duplex, Option.isSome_map]
  rw [AirSane.duplexOnly_iff, hs, hd, duplexFound, isSome_named, ← Bool.not_eq_true, simplexFound,
    isSome_named, not_not]

/-- The descriptions agree unless the only source of the feeder scans both sides. -/
theorem agrees_iff {scanner : Scanner} {icon note : Octets} (hb : b.Keeps)
    (hi : init2 b (some s) = .ok i) (hdata : scanner.data = i.data icon note) :
    Agrees A print cfg b s i scanner ↔ ¬ DuplexOnly (b.sources s) := by
  have h := init2_found hb hi
  rw [h.duplexOnly_iff]
  constructor
  · rintro hagrees ⟨hs, hd⟩
    have hadf := hagrees.feeder_adf.1 (h.feeder_mem.2 (.inr hd))
    rw [adf_mem_capabilities, hs] at hadf
    cases hadf
  · intro hno
    have hfeeder : "Feeder" ∈ i.mInputSources ↔ i.mpAdfSimplex.isSome := by
      rw [h.feeder_mem]
      constructor
      · rintro (hs | hd)
        · exact hs
        · by_contra hs
          exact hno ⟨by simpa using hs, hd⟩
      · exact .inl
    have hboth : i.mpAdfDuplex.isSome ↔ i.mpAdfSimplex.isSome ∧ i.mpAdfDuplex.isSome :=
      ⟨fun hd => ⟨hfeeder.1 (h.feeder_mem.2 (.inr hd)), hd⟩, And.right⟩
    constructor
    · rw [hfeeder, adf_mem_capabilities]
    · rw [hfeeder, adf_mem_entries, hdata]
      rfl
    · rw [← h.platen_isSome, platen_mem_capabilities]
    · rw [← h.platen_isSome, platen_mem_entries, hdata]
      rfl
    · rw [duplex_mem_capabilities, ← hboth, record_duplex_eq, hdata]
      rfl
    · intro hp
      exact selects_platen h.platen (h.platen_isSome.2 hp)
    · intro hf
      exact selects_feeder h.simplex (hfeeder.1 hf)
    · intro hd
      rw [record_duplex_eq, hdata] at hd
      exact selects_duplex h.duplex hd

end

/-- A device with this list of sources. -/
def Backend.listed (names : List Octets) : Backend Octets where
  resolution _ := some ⟨75, 1200, 1, [300]⟩
  modes _ := [ascii "Gray", ascii "Color"]
  sources _ := names
  source s := s
  setSource v _ := v
  bitDepth _ := some 8
  area _ := (⟨0, 2551, 0, 3508, 2551, 3508⟩, none)

theorem keeps_listed {names : List Octets} : (Backend.listed names).Keeps :=
  fun _ _ _ => ⟨rfl, rfl⟩

def Scanner.of (data : ScannerData) : Scanner :=
  .initWithOptions (.new ⟨[], fun _ _ => 0⟩ [] ⟨ascii "test:0", ascii "Noname", ascii "frontend"⟩)
    (.ok data)

theorem agrees_iff_simplex : ∃ i, init2 (.listed [ascii "Flatbed", ascii "ADF Simplex"])
      (some (ascii "Flatbed")) = .ok i ∧
    (Agrees ScanJob.Doubles.whole Web.integer .standard
        (.listed [ascii "Flatbed", ascii "ADF Simplex"]) (ascii "Flatbed") i (.of (i.data [] [])) ↔
      ¬ DuplexOnly [ascii "Flatbed", ascii "ADF Simplex"]) :=
  ⟨_, rfl, agrees_iff keeps_listed rfl rfl⟩

/-- A scanner whose feeder only has a duplex source. -/
theorem not_agrees_duplex : ∃ i, init2 (.listed [ascii "Flatbed", ascii "ADF Duplex"])
      (some (ascii "Flatbed")) = .ok i ∧
    ¬ Agrees ScanJob.Doubles.whole Web.integer .standard
      (.listed [ascii "Flatbed", ascii "ADF Duplex"]) (ascii "Flatbed") i (.of (i.data [] [])) := by
  refine ⟨_, rfl, fun h => ?_⟩
  have hadf := h.feeder_adf.1 (by decide)
  rw [adf_mem_capabilities] at hadf
  cases hadf

end AirSane
