import AirSane.Server.Sources
import AirSane.ScanJob.TicketInit
import AirSane.Web.Response

/-! # The capabilities document of a scanner

`Scanner::Private::writeScannerCapabilitiesXml` as the sequence of the tags and
texts that it writes.
-/

namespace AirSane
open Text

inductive Piece where
  | start (name : String) (attributes : Octets)
  | stop (name : String)
  | empty (name : String)
  | text (s : Octets)

def Piece.element : Piece → Option String
  | .start name _ => some name
  | .empty name => some name
  | .stop _ => none
  | .text _ => none

/-- The names of the elements that begin in a document. -/
def elements (pieces : List Piece) : List String := pieces.filterMap Piece.element

def block (name : String) (inner : List Piece) : List Piece :=
  .start name [] :: (inner ++ [.stop name])

def leaf (name : String) (s : Octets) : List Piece := block name [.text s]

section
variable {name : String} {s : Octets} {p q : List Piece}

theorem elements_append : elements (p ++ q) = elements p ++ elements q := List.filterMap_append ..

theorem elements_block : elements (block name p) = name :: elements p := by
  simp [block, elements, Piece.element]

theorem elements_leaf : elements (leaf name s) = [name] := elements_block

theorem elements_flatMap {α : Type} {l : List α} {f : α → List Piece} :
    elements (l.flatMap f) = l.flatMap fun a => elements (f a) := by
  induction l with
  | nil => rfl
  | cons a l ih => rw [List.flatMap_cons, List.flatMap_cons, elements_append, ih]

end

def xmlEscape (s : Octets) : Octets :=
  s.flatMap fun b =>
    if b = 34 then ascii "&quot;" else if b = 39 then ascii "&apos;"
    else if b = 38 then ascii "&amp;" else if b = 60 then ascii "&lt;"
    else if b = 62 then ascii "&gt;" else [b]

/-- `colorMode`. -/
def colorModeText (colorSpace : Octets) (bitDepth : ℕ) : Octets :=
  if colorSpace = ascii "grayscale" then ascii "Grayscale" ++ numeral 10 bitDepth
  else if colorSpace = ascii "color" then ascii "RGB" ++ numeral 10 (3 * bitDepth)
  else []

section
variable {S : Type} (print : ℤ → Octets) (i : Init2 S)

def Init2.resolutionRange (name : String) : List Piece :=
  block name (leaf "scan:Min" (Web.integer i.mResolutions.mMinResDpi) ++
    leaf "scan:Max" (Web.integer i.mResolutions.mMaxResDpi) ++
    leaf "scan:Step" (Web.integer i.mResolutions.mResStepDpi))

def Init2.supportedResolutions : List Piece :=
  if i.mResolutions.mDiscreteResolutions = [] then
    .empty "scan:ResolutionRange" ::
      (i.resolutionRange "scan:XResolutionRange" ++ i.resolutionRange "scan:YResolutionRange")
  else
    block "scan:DiscreteResolutions" (i.mResolutions.mDiscreteResolutions.flatMap fun res =>
      block "scan:DiscreteResolution"
        (leaf "scan:XResolution" (print res) ++ leaf "scan:YResolution" (print res)))

def Init2.writeSettingProfile (mCurrentProfile : ℕ) (bits : ℤ) : List Piece :=
  .start "scan:SettingProfile" (ascii "name='" ++ numeral 10 mCurrentProfile ++ ascii "'") ::
    (block "scan:ColorModes" (i.mTxtColorSpaces.flatMap fun cs =>
        (List.range (bits / 8).toNat).flatMap fun k =>
          leaf "scan:ColorMode" (colorModeText cs (8 * (k + 1)))) ++
      block "scan:ColorSpaces" (leaf "scan:ColorSpace" (ascii "RGB")) ++
      block "scan:SupportedResolutions" (i.supportedResolutions print) ++
      block "scan:DocumentFormats" (i.mDocumentFormats.flatMap (leaf "pwg:DocumentFormat")) ++
      [.stop "scan:SettingProfile"])

/-- `InputSource::writeCapabilitiesXml`. -/
def Init2.writeCapabilitiesXml (mCurrentProfile : ℕ) (source : InputSource) : List Piece :=
  leaf "scan:MinWidth" (print source.area.mMinWidth) ++
    leaf "scan:MinHeight" (print source.area.mMinHeight) ++
    leaf "scan:MaxWidth" (print source.area.mMaxWidth) ++
    leaf "scan:MaxHeight" (print source.area.mMaxHeight) ++
    leaf "scan:MaxPhysicalWidth" (print source.area.mMaxPhysicalWidth) ++
    leaf "scan:MaxPhysicalHeight" (print source.area.mMaxPhysicalHeight) ++
    leaf "scan:MaxScanRegions" (ascii "1") ++
    block "scan:SettingProfiles" (i.writeSettingProfile print mCurrentProfile source.mMaxBits) ++
    block "scan:SupportedIntents"
      (source.mSupportedIntents.flatMap fun s => leaf "scan:SupportedIntent" (ascii s))

def Init2.writePlaten : List Piece :=
  match i.mpPlaten with
  | some platen => block "scan:Platen"
      (block "scan:PlatenInputCaps" (i.writeCapabilitiesXml print 0 platen))
  | none => []

def Init2.writeAdf : List Piece :=
  match i.mpAdfSimplex with
  | some simplex =>
    let profile := if i.mpPlaten.isSome then 1 else 0
    block "scan:Adf"
      (block "scan:AdfSimplexInputCaps" (i.writeCapabilitiesXml print profile simplex) ++
        (match i.mpAdfDuplex with
        | some duplex => block "scan:AdfDuplexInputCaps"
            (i.writeCapabilitiesXml print (profile + 1) duplex)
        | none => []) ++
        block "scan:AdfOptions" (leaf "scan:AdfOption" (ascii "DetectPaperLoaded") ++
          if i.mpAdfDuplex.isSome then leaf "scan:AdfOption" (ascii "Duplex") else []))
  | none => []

/-- `writeScannerCapabilitiesXml`. -/
def Init2.writeScannerCapabilitiesXml (s : Scanner) : List Piece :=
  .start "scan:ScannerCapabilities" (ascii ("xmlns:pwg='http://www.pwg.org/schemas/2010/12/sm'" ++
      " xmlns:scan='http://schemas.hp.com/imaging/escl/2011/05/03'")) ::
    (leaf "pwg:Version" (ascii "2.0") ++ leaf "pwg:MakeAndModel" (xmlEscape s.mMakeAndModel) ++
      leaf "pwg:SerialNumber" (ascii "1.0") ++ leaf "scan:UUID" s.mUuid ++
      (if s.mAdminUrl ≠ [] then leaf "scan:AdminURI" s.mAdminUrl else []) ++
      (if s.mIconUrl ≠ [] then leaf "scan:IconURI" s.mIconUrl else []) ++
      i.writePlaten print ++ i.writeAdf print ++ [.stop "scan:ScannerCapabilities"])

/-- The elements that describe an input source. -/
def sourceElements : List String :=
  ["scan:MinWidth", "scan:MinHeight", "scan:MaxWidth", "scan:MaxHeight", "scan:MaxPhysicalWidth",
    "scan:MaxPhysicalHeight", "scan:MaxScanRegions", "scan:SettingProfiles", "scan:SettingProfile",
    "scan:ColorModes", "scan:ColorMode", "scan:ColorSpaces", "scan:ColorSpace",
    "scan:SupportedResolutions", "scan:ResolutionRange", "scan:XResolutionRange",
    "scan:YResolutionRange", "scan:Min", "scan:Max", "scan:Step", "scan:DiscreteResolutions",
    "scan:DiscreteResolution", "scan:XResolution", "scan:YResolution", "scan:DocumentFormats",
    "pwg:DocumentFormat", "scan:SupportedIntents", "scan:SupportedIntent"]

/-- Only elements that describe an input source. -/
def Describes (p : List Piece) : Prop := ∀ name ∈ elements p, name ∈ sourceElements

variable {print i} {p q : List Piece} {name : String}

theorem Describes.append (hp : Describes p) (hq : Describes q) : Describes (p ++ q) := by
  intro n hn
  rw [elements_append, List.mem_append] at hn
  exact hn.elim (hp n) (hq n)

theorem Describes.block (hn : name ∈ sourceElements) (hp : Describes p) :
    Describes (block name p) := by
  rw [Describes, elements_block, List.forall_mem_cons]
  exact ⟨hn, hp⟩

theorem Describes.leaf {s : Octets} (hn : name ∈ sourceElements) : Describes (leaf name s) := by
  rw [Describes, elements_leaf, List.forall_mem_singleton]
  exact hn

theorem Describes.flatMap {α : Type} {l : List α} {f : α → List Piece}
    (h : ∀ a ∈ l, Describes (f a)) : Describes (l.flatMap f) := by
  intro n hn
  rw [elements_flatMap, List.mem_flatMap] at hn
  rcases hn with ⟨a, ha, hn⟩
  exact h a ha n hn

theorem describes_resolutionRange (hn : name ∈ sourceElements) :
    Describes (i.resolutionRange name) :=
  .block hn (((Describes.leaf (by decide)).append (.leaf (by decide))).append (.leaf (by decide)))

theorem describes_supportedResolutions : Describes (i.supportedResolutions print) := by
  rw [Init2.supportedResolutions]
  split_ifs
  · have hempty : Describes [.empty "scan:ResolutionRange"] := by
      intro n hn
      rw [List.mem_singleton.1 hn]
      decide
    exact hempty.append ((describes_resolutionRange (by decide)).append
      (describes_resolutionRange (by decide)))
  · exact .block (by decide) (.flatMap fun res _ =>
      .block (by decide) ((Describes.leaf (by decide)).append (.leaf (by decide))))

theorem describes_writeSettingProfile {profile : ℕ} {bits : ℤ} :
    Describes (i.writeSettingProfile print profile bits) := by
  have hstart (attributes : Octets) : Describes [.start "scan:SettingProfile" attributes] := by
    intro n hn
    rw [List.mem_singleton.1 hn]
    decide
  have hstop : Describes [.stop "scan:SettingProfile"] := by
    intro n hn
    cases hn
  have hmodes : Describes (i.mTxtColorSpaces.flatMap fun cs =>
      (List.range (bits / 8).toNat).flatMap fun k =>
        leaf "scan:ColorMode" (colorModeText cs (8 * (k + 1)))) :=
    .flatMap fun cs _ => .flatMap fun k _ => .leaf (by decide)
  have hformats : Describes (i.mDocumentFormats.flatMap (leaf "pwg:DocumentFormat")) :=
    .flatMap fun _ _ => .leaf (by decide)
  exact (hstart _).append (((((Describes.block (by decide) hmodes).append
    (.block (by decide) (.leaf (by decide)))).append
      (.block (by decide) describes_supportedResolutions)).append
        (.block (by decide) hformats)).append hstop)

theorem describes_writeCapabilitiesXml {profile : ℕ} {source : InputSource} :
    Describes (i.writeCapabilitiesXml print profile source) := by
  have hintents : Describes
      (source.mSupportedIntents.flatMap fun s => leaf "scan:SupportedIntent" (ascii s)) :=
    .flatMap fun _ _ => .leaf (by decide)
  exact ((((((((Describes.leaf (by decide)).append (.leaf (by decide))).append
    (.leaf (by decide))).append (.leaf (by decide))).append (.leaf (by decide))).append
      (.leaf (by decide))).append (.leaf (by decide))).append
        (.block (by decide) describes_writeSettingProfile)).append (.block (by decide) hintents)

theorem mem_elements_writePlaten (hn : name ∉ sourceElements) :
    name ∈ elements (i.writePlaten print) ↔
      i.mpPlaten.isSome ∧ name ∈ ["scan:Platen", "scan:PlatenInputCaps"] := by
  rw [Init2.writePlaten]
  cases i.mpPlaten with
  | none => simp [elements]
  | some platen =>
    have hcaps : name ∉ elements (i.writeCapabilitiesXml print 0 platen) :=
      fun h => hn (describes_writeCapabilitiesXml name h)
    simp [elements_block, hcaps]

theorem mem_elements_writeAdf (hn : name ∉ sourceElements) :
    name ∈ elements (i.writeAdf print) ↔ i.mpAdfSimplex.isSome ∧
      (name ∈ ["scan:Adf", "scan:AdfSimplexInputCaps", "scan:AdfOptions", "scan:AdfOption"] ∨
        i.mpAdfDuplex.isSome ∧ name = "scan:AdfDuplexInputCaps") := by
  have hcaps (profile : ℕ) (source : InputSource) :
      name ∉ elements (i.writeCapabilitiesXml print profile source) :=
    fun h => hn (describes_writeCapabilitiesXml name h)
  rw [Init2.writeAdf]
  cases i.mpAdfSimplex with
  | none => simp [elements]
  | some simplex =>
    cases i.mpAdfDuplex with
    | none => simp [elements_block, elements_append, elements_leaf, hcaps]
    | some duplex =>
      simp [elements_block, elements_append, elements_leaf, hcaps]
      tauto

end

end AirSane
