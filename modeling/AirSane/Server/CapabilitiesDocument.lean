import AirSane.Server.Agreement
import AirSane.Server.Documents

/-! # The capabilities document read back

What a client learns from the capabilities document of an initialised scanner, with the
elements read in the order in which they come.
-/

namespace AirSane
open Text Xml

structure ResolutionRange where
  min : Octets
  max : Octets
  step : Octets

inductive SupportedResolutions where
  | range (x y : ResolutionRange)
  | discrete (l : List (Octets × Octets))

/-- What a client learns about an input source. -/
structure InputCaps where
  minWidth : Octets
  minHeight : Octets
  maxWidth : Octets
  maxHeight : Octets
  maxPhysicalWidth : Octets
  maxPhysicalHeight : Octets
  maxScanRegions : Octets
  profile : Octets
  colorModes : List Octets
  colorSpaces : List Octets
  resolutions : SupportedResolutions
  documentFormats : List Octets
  supportedIntents : List Octets

structure AdfCaps where
  simplex : InputCaps
  duplex : Option InputCaps
  options : List Octets

structure Capabilities where
  version : Octets
  makeAndModel : Octets
  serialNumber : Octets
  uuid : Octets
  adminUri : Option Octets
  iconUri : Option Octets
  platen : Option InputCaps
  adf : Option AdfCaps

def readResolutionRange : Reader ResolutionRange := do
  let min ← valueOf (ascii "scan:Min")
  let max ← valueOf (ascii "scan:Max")
  let step ← valueOf (ascii "scan:Step")
  pure ⟨min, max, step⟩

def readDiscreteResolution : Reader (Octets × Octets) := do
  let x ← valueOf (ascii "scan:XResolution")
  let y ← valueOf (ascii "scan:YResolution")
  pure (x, y)

/-- Resolutions one by one, or an empty element and a range for each direction. -/
def readResolutions : Reader SupportedResolutions := do
  let discrete ← Xml.optional (ascii "scan:DiscreteResolutions") fun _ =>
    many (ascii "scan:DiscreteResolution") fun _ => readDiscreteResolution
  match discrete with
  | some l => pure (.discrete l)
  | none => do
    let _ ← one (ascii "scan:ResolutionRange") fun _ => pure ()
    let x ← one (ascii "scan:XResolutionRange") fun _ => readResolutionRange
    let y ← one (ascii "scan:YResolutionRange") fun _ => readResolutionRange
    pure (.range x y)

/-- The name of a profile, and what its elements list. -/
def readProfile (attributes : Attributes) :
    Reader (Octets × List Octets × List Octets × SupportedResolutions × List Octets) := do
  let modes ← one (ascii "scan:ColorModes") fun _ => valuesOf (ascii "scan:ColorMode")
  let spaces ← one (ascii "scan:ColorSpaces") fun _ => valuesOf (ascii "scan:ColorSpace")
  let resolutions ← one (ascii "scan:SupportedResolutions") fun _ => readResolutions
  let formats ← one (ascii "scan:DocumentFormats") fun _ => valuesOf (ascii "pwg:DocumentFormat")
  pure ((attributes.lookup (ascii "name")).getD [], modes, spaces, resolutions, formats)

def readInputCaps : Reader InputCaps := do
  let minWidth ← valueOf (ascii "scan:MinWidth")
  let minHeight ← valueOf (ascii "scan:MinHeight")
  let maxWidth ← valueOf (ascii "scan:MaxWidth")
  let maxHeight ← valueOf (ascii "scan:MaxHeight")
  let maxPhysicalWidth ← valueOf (ascii "scan:MaxPhysicalWidth")
  let maxPhysicalHeight ← valueOf (ascii "scan:MaxPhysicalHeight")
  let maxScanRegions ← valueOf (ascii "scan:MaxScanRegions")
  let profile ← one (ascii "scan:SettingProfiles") fun _ =>
    one (ascii "scan:SettingProfile") readProfile
  let intents ← one (ascii "scan:SupportedIntents") fun _ =>
    valuesOf (ascii "scan:SupportedIntent")
  pure ⟨minWidth, minHeight, maxWidth, maxHeight, maxPhysicalWidth, maxPhysicalHeight,
    maxScanRegions, profile.1, profile.2.1, profile.2.2.1, profile.2.2.2.1, profile.2.2.2.2,
    intents⟩

def readAdf : Reader AdfCaps := do
  let simplex ← one (ascii "scan:AdfSimplexInputCaps") fun _ => readInputCaps
  let duplex ← Xml.optional (ascii "scan:AdfDuplexInputCaps") fun _ => readInputCaps
  let options ← one (ascii "scan:AdfOptions") fun _ => valuesOf (ascii "scan:AdfOption")
  pure ⟨simplex, duplex, options⟩

def readCapabilities : Reader Capabilities := do
  let version ← valueOf (ascii "pwg:Version")
  let makeAndModel ← valueOf (ascii "pwg:MakeAndModel")
  let serialNumber ← valueOf (ascii "pwg:SerialNumber")
  let uuid ← valueOf (ascii "scan:UUID")
  let adminUri ← Xml.optional (ascii "scan:AdminURI") fun _ => value
  let iconUri ← Xml.optional (ascii "scan:IconURI") fun _ => value
  let platen ← Xml.optional (ascii "scan:Platen") fun _ =>
    one (ascii "scan:PlatenInputCaps") fun _ => readInputCaps
  let adf ← Xml.optional (ascii "scan:Adf") fun _ => readAdf
  pure ⟨version, makeAndModel, serialNumber, uuid, adminUri, iconUri, platen, adf⟩

/-- What a client makes of a document. -/
def capabilitiesOf (document : Octets) : Option Capabilities :=
  (Xml.parse document).bind fun n =>
    all (one (ascii "scan:ScannerCapabilities") fun _ => readCapabilities) [n]

section
variable {S : Type} (print : ℤ → Octets) (i : Init2 S)

def Init2.range : ResolutionRange :=
  ⟨Web.integer i.mResolutions.mMinResDpi, Web.integer i.mResolutions.mMaxResDpi,
    Web.integer i.mResolutions.mResStepDpi⟩

def Init2.resolutions : SupportedResolutions :=
  if i.mResolutions.mDiscreteResolutions = [] then .range i.range i.range
  else .discrete (i.mResolutions.mDiscreteResolutions.map fun res => (print res, print res))

/-- A mode of each colour space for each number of bytes in a sample. -/
def Init2.colorModes (bits : ℤ) : List Octets :=
  i.mTxtColorSpaces.flatMap fun cs =>
    (List.range (bits / 8).toNat).map fun k => colorModeText cs (8 * (k + 1))

/-- What there is to know about an input source. -/
def Init2.inputCaps (profile : ℕ) (source : InputSource) : InputCaps where
  minWidth := print source.area.mMinWidth
  minHeight := print source.area.mMinHeight
  maxWidth := print source.area.mMaxWidth
  maxHeight := print source.area.mMaxHeight
  maxPhysicalWidth := print source.area.mMaxPhysicalWidth
  maxPhysicalHeight := print source.area.mMaxPhysicalHeight
  maxScanRegions := ascii "1"
  profile := numeral 10 profile
  colorModes := i.colorModes source.mMaxBits
  colorSpaces := [ascii "RGB"]
  resolutions := i.resolutions print
  documentFormats := i.mDocumentFormats
  supportedIntents := source.mSupportedIntents.map ascii

def Init2.adfCaps (simplex : InputSource) : AdfCaps :=
  let profile := if i.mpPlaten.isSome then 1 else 0
  { simplex := i.inputCaps print profile simplex
    duplex := i.mpAdfDuplex.map (i.inputCaps print (profile + 1))
    options := ascii "DetectPaperLoaded" :: if i.mpAdfDuplex.isSome then [ascii "Duplex"] else [] }

/-- What there is to know about a scanner: its feeder, if it scans the front sides. -/
def Init2.capabilities (s : Scanner) : Capabilities where
  version := ascii "2.0"
  makeAndModel := s.mMakeAndModel
  serialNumber := ascii "1.0"
  uuid := s.mUuid
  adminUri := if s.mAdminUrl ≠ [] then some s.mAdminUrl else none
  iconUri := if s.mIconUrl ≠ [] then some s.mIconUrl else none
  platen := i.mpPlaten.map (i.inputCaps print 0)
  adf := i.mpAdfSimplex.map (i.adfCaps print)

/-- Text that is read as it is written. -/
structure Token (s : Octets) : Prop where
  plain : Xml.Plain s
  shown : Shown s

/-- What `init2` fills in by itself. -/
structure Init2.Preset (i : Init2 S) : Prop where
  formats : ∀ s ∈ i.mDocumentFormats, Token s
  spaces : ∀ cs ∈ i.mTxtColorSpaces, cs = ascii "grayscale" ∨ cs = ascii "color"
  platen : ∀ source ∈ i.mpPlaten, ∀ s ∈ source.mSupportedIntents, Token (ascii s)
  simplex : ∀ source ∈ i.mpAdfSimplex, ∀ s ∈ source.mSupportedIntents, Token (ascii s)
  duplex : ∀ source ∈ i.mpAdfDuplex, ∀ s ∈ source.mSupportedIntents, Token (ascii s)

/-- Names and addresses without markup. -/
structure Scanner.Printable (s : Scanner) : Prop where
  chars : ∀ b ∈ s.mMakeAndModel, isChar b = true
  shown : Shown s.mMakeAndModel
  uuid : ∃ u : Uuid, s.mUuid = u.toString
  adminUrl : s.mAdminUrl ≠ [] → Token s.mAdminUrl
  iconUrl : s.mIconUrl ≠ [] → Token s.mIconUrl

variable {print i} {name : String} {source : InputSource} {profile : ℕ} {bits n : ℤ} {s : Octets}

instance (s : Octets) : Decidable (Token s) :=
  decidable_of_iff (Xml.Plain s ∧ s.all isWhite = false) ⟨fun h => ⟨h.1, h.2⟩, fun h => ⟨h.1, h.2⟩⟩

theorem Token.leaf (h : Token s) (hn : Name (ascii name)) :
    Single (leaf name s) name (fun _ => value) s :=
  .leaf hn h.plain.chars h.shown

theorem Token.of_chars (hne : s ≠ [])
    (h : ∀ b ∈ s, b = 45 ∨ (digitValue b).isSome = true) : Token s := by
  have hchar : ∀ b : UInt8, (b = 45 ∨ (digitValue b).isSome = true) →
      (b ≠ LESS ∧ b ≠ AMPERSAND ∧ isChar b = true) ∧ isWhite b = false :=
    forall_byte (by decide +kernel)
  refine ⟨fun b hb => (hchar b (h b hb)).1, ?_⟩
  obtain ⟨b, hb⟩ := List.exists_mem_of_ne_nil s hne
  exact List.all_eq_false.2 ⟨b, hb, by rw [(hchar b (h b hb)).2]; decide⟩

theorem token_numeral (n : ℕ) : Token (numeral 10 n) :=
  .of_chars numeral_ne_nil fun b hb => by
    obtain ⟨d, hd⟩ := numeral_digit (by decide) (by decide) hb
    exact .inr (by rw [hd]; rfl)

theorem token_integer : Token (Web.integer n) := by
  have hdigits (m : ℕ) (b : UInt8) (hb : b ∈ numeral 10 m) :
      b = 45 ∨ (digitValue b).isSome = true := by
    obtain ⟨d, hd⟩ := numeral_digit (by decide) (by decide) hb
    exact .inr (by rw [hd]; rfl)
  unfold Web.integer
  split_ifs
  · refine .of_chars (List.cons_ne_nil _ _) fun b hb => ?_
    rcases List.mem_cons.1 hb with rfl | hb
    · exact .inl rfl
    · exact hdigits _ b hb
  · exact .of_chars numeral_ne_nil (hdigits _)

/-- The texts of a list. -/
theorem written_values {l : List Octets} (hn : Name (ascii name)) (h : ∀ s ∈ l, Token s) :
    Written (l.flatMap (AirSane.leaf name)) (valuesOf (ascii name)) l := by
  have hmany := Single.many (y := id) fun s hs => (h s hs).leaf hn
  rwa [List.map_id] at hmany

theorem written_resolutionRange : 
    Written (leaf "scan:Min" (Web.integer i.mResolutions.mMinResDpi) ++
    leaf "scan:Max" (Web.integer i.mResolutions.mMaxResDpi) ++
    leaf "scan:Step" (Web.integer i.mResolutions.mResStepDpi)) readResolutionRange i.range := by
  rw [List.append_assoc, ← List.append_nil (leaf "scan:Step" _)]
  refine (token_integer.leaf (by decide)).one ?_
  refine (token_integer.leaf (by decide)).one ?_
  exact (token_integer.leaf (by decide)).one .nil

theorem written_supportedResolutions (hprint : ∀ x, Token (print x)) :
    Written (i.supportedResolutions print) readResolutions (i.resolutions print) := by
  rw [Init2.supportedResolutions, Init2.resolutions]
  split_ifs with h
  · have hrange (name : String) (hn : Name (ascii name)) :
        Single (i.resolutionRange name) name (fun _ => readResolutionRange) i.range :=
      written_resolutionRange.single hn
    rw [← List.singleton_append, ← List.append_nil (i.resolutionRange "scan:YResolutionRange")]
    refine Written.absent ?_ (by rintro _ ⟨⟩; decide)
    refine (Single.empty (by decide) rfl).one ?_
    refine (hrange _ (by decide)).one ?_
    exact (hrange _ (by decide)).one .nil
  · rw [← List.append_nil (block "scan:DiscreteResolutions" _)]
    refine Single.present (Written.single (Single.many fun res _ => ?_) (by decide)) .nil
    refine Written.single ?_ (by decide)
    rw [← List.append_nil (leaf "scan:YResolution" _)]
    refine ((hprint res).leaf (by decide)).one ?_
    exact ((hprint res).leaf (by decide)).one .nil

theorem token_append {t : Octets} (hs : Token s) (ht : Xml.Plain t) : Token (s ++ t) := by
  obtain ⟨b, hb, hwhite⟩ := List.all_eq_false.1 hs.shown
  exact ⟨fun b hb => (List.mem_append.1 hb).elim (hs.plain b) (ht b),
    List.all_eq_false.2 ⟨b, List.mem_append_left _ hb, hwhite⟩⟩

theorem token_colorModeText (hi : i.Preset) {cs : Octets} (hcs : cs ∈ i.mTxtColorSpaces)
    (bitDepth : ℕ) : Token (colorModeText cs bitDepth) := by
  rcases hi.spaces cs hcs with rfl | rfl
  · rw [colorModeText, if_pos rfl]
    exact token_append (by decide) (token_numeral _).plain
  · rw [colorModeText, if_neg (by decide), if_pos rfl]
    exact token_append (by decide) (token_numeral _).plain

theorem written_writeSettingProfile (hi : i.Preset) (hprint : ∀ x, Token (print x)) :
    Single (i.writeSettingProfile print profile bits) "scan:SettingProfile" readProfile
      (numeral 10 profile, i.colorModes bits, [ascii "RGB"], i.resolutions print,
        i.mDocumentFormats) := by
  have hmodes : ∀ mode ∈ i.colorModes bits, Token mode := by
    intro mode hmode
    obtain ⟨cs, hcs, hmode⟩ := List.mem_flatMap.1 hmode
    obtain ⟨k, -, rfl⟩ := List.mem_map.1 hmode
    exact token_colorModeText hi hcs _
  have hcolorModes : (i.mTxtColorSpaces.flatMap fun cs => (List.range (bits / 8).toNat).flatMap
      fun k => leaf "scan:ColorMode" (colorModeText cs (8 * (k + 1)))) =
        (i.colorModes bits).flatMap (leaf "scan:ColorMode") := by
    rw [Init2.colorModes, List.flatMap_assoc]
    simp only [List.flatMap_map]
  have hname : attributesText (ascii "name='" ++ numeral 10 profile ++ ascii "'") =
      [(ascii "name", numeral 10 profile)].flatMap attributeText := by
    have hne : ascii "name='" ++ numeral 10 profile ++ ascii "'" ≠ [] := by simp [numeral_ne_nil]
    have hstart : (32 : UInt8) :: ascii "name='" = 32 :: (ascii "name" ++ [EQUALS, 39]) := by decide
    rw [attributesText, if_neg hne, ← List.cons_append, ← List.cons_append, hstart]
    simp only [List.flatMap_cons, List.flatMap_nil, attributeText, List.append_assoc,
      List.cons_append, List.nil_append, List.append_nil]
    rfl
  have hvalue : Value (numeral 10 profile) := fun b hb => by
    obtain ⟨d, hd⟩ := numeral_digit (by decide) (by decide) hb
    have hdigit : ∀ b : UInt8, (digitValue b).isSome = true →
      b ≠ 39 ∧ b ≠ LESS ∧ b ≠ AMPERSAND ∧ isChar b = true := forall_byte (by decide +kernel)
    exact hdigit b (by rw [hd]; rfl)
  have hkey : Name (ascii "name") := by decide
  have hspaces : Written (leaf "scan:ColorSpace" (ascii "RGB"))
      (valuesOf (ascii "scan:ColorSpace")) [ascii "RGB"] :=
    written_values (l := [ascii "RGB"]) (by decide) (by decide)
  rw [Init2.writeSettingProfile, hcolorModes, ← List.append_nil (block "scan:DocumentFormats" _)]
  refine Written.element ?_ (by decide) hname ?_ (List.nodup_singleton _)
  · simp only [List.append_assoc]
    refine ((written_values (by decide) hmodes).single (by decide)).one ?_
    refine Single.one (hspaces.single (by decide)) ?_
    refine ((written_supportedResolutions hprint).single (by decide)).one ?_
    exact ((written_values (by decide) hi.formats).single (by decide)).one .nil
  · intro x hx
    rw [List.mem_singleton.1 hx]
    exact ⟨hkey, hvalue⟩

theorem written_writeCapabilitiesXml (hi : i.Preset) (hprint : ∀ x, Token (print x))
    (hsource : ∀ s ∈ source.mSupportedIntents, Token (ascii s)) :
    Written (i.writeCapabilitiesXml print profile source) readInputCaps
      (i.inputCaps print profile source) := by
  have hintents : Written (source.mSupportedIntents.flatMap fun s =>
      leaf "scan:SupportedIntent" (ascii s)) (valuesOf (ascii "scan:SupportedIntent"))
        (source.mSupportedIntents.map ascii) :=
    Single.many fun s hs => (hsource s hs).leaf (by decide)
  have hone : Token (ascii "1") := by decide
  rw [Init2.writeCapabilitiesXml, ← List.append_nil (block "scan:SupportedIntents" _)]
  simp only [List.append_assoc]
  refine ((hprint _).leaf (by decide)).one ?_
  refine ((hprint _).leaf (by decide)).one ?_
  refine ((hprint _).leaf (by decide)).one ?_
  refine ((hprint _).leaf (by decide)).one ?_
  refine ((hprint _).leaf (by decide)).one ?_
  refine ((hprint _).leaf (by decide)).one ?_
  refine (hone.leaf (by decide)).one ?_
  refine ((written_writeSettingProfile hi hprint).only.single (by decide)).one ?_
  exact (hintents.single (by decide)).one .nil

theorem written_adf (hi : i.Preset) (hprint : ∀ x, Token (print x)) {simplex : InputSource}
    (hsimplex : i.mpAdfSimplex = some simplex) :
    Single (i.writeAdf print) "scan:Adf" (fun _ => readAdf) (i.adfCaps print simplex) := by
  have hcaps (name : String) (hn : Name (ascii name)) (profile : ℕ) (source : InputSource)
      (hs : ∀ s ∈ source.mSupportedIntents, Token (ascii s)) :
      Single (block name (i.writeCapabilitiesXml print profile source)) name
        (fun _ => readInputCaps) (i.inputCaps print profile source) :=
    (written_writeCapabilitiesXml hi hprint hs).single hn
  have hoptions {l : List Octets} (hl : ∀ s ∈ l, Token s) :
      Single (block "scan:AdfOptions" (l.flatMap (leaf "scan:AdfOption"))) "scan:AdfOptions"
        (fun _ => valuesOf (ascii "scan:AdfOption")) l :=
    (written_values (by decide) hl).single (by decide)
  rw [Init2.writeAdf, hsimplex]
  refine Written.single ?_ (by decide)
  rw [List.append_assoc, Init2.adfCaps]
  refine (hcaps _ (by decide) _ _ (hi.simplex _ hsimplex)).one ?_
  cases hduplex : i.mpAdfDuplex with
  | none =>
    refine Written.absent ?_ (by rintro _ ⟨⟩; decide)
    rw [List.nil_append, ← List.append_nil (block _ _)]
    refine Single.one ?_ .nil
    exact hoptions (l := [ascii "DetectPaperLoaded"]) (by decide)
  | some duplex =>
    refine (hcaps _ (by decide) _ _ (hi.duplex _ hduplex)).present ?_
    rw [← List.append_nil (block _ _)]
    refine Single.one ?_ .nil
    exact hoptions (l := [ascii "DetectPaperLoaded", ascii "Duplex"]) (by decide)

/-- The capabilities document. -/
def Init2.capabilitiesDocument (print : ℤ → Octets) (i : Init2 S) (s : Scanner) : Octets :=
  xmlDeclaration ++ printXml (i.writeScannerCapabilitiesXml print s)

theorem Uuid.token_toString (u : Uuid) : Token u.toString :=
  .of_chars (by simp [Uuid.toString, ascii]) fun _ hb => Uuid.toString_isChar hb

/-- An address, if there is one. -/
theorem written_uri {α : Type} {q : List Piece} {f : Option Octets → Reader α} {a : α}
    (hn : Name (ascii name)) (hs : s ≠ [] → Token s)
    (hq : Written q (f (if s ≠ [] then some s else none)) a)
    (hname : ∀ n ∈ (elements q).head?, ascii n ≠ ascii name) :
    Written ((if s ≠ [] then leaf name s else []) ++ q)
      (Xml.optional (ascii name) (fun _ => value) >>= f) a := by
  refine .optionally _ (fun v hv => ?_) (fun h => ?_) hq hname
  · split_ifs at hv ⊢ with hne
    · obtain rfl := Option.some.inj hv
      exact (hs hne).leaf hn
    · cases hv
  · split_ifs at h ⊢
    rfl

theorem Init2.Preset.capabilitiesOf (hi : i.Preset) (hprint : ∀ x, Token (print x))
    {scanner : Scanner} (hs : scanner.Printable) :
    capabilitiesOf (i.capabilitiesDocument print scanner) =
      some (i.capabilities print scanner) := by
  have hversion : Token (ascii "2.0") := by decide
  have hserial : Token (ascii "1.0") := by decide
  have huuid : Token scanner.mUuid := by
    obtain ⟨u, hu⟩ := hs.uuid
    rw [hu]
    exact u.token_toString
  have hmake : Single (leaf "pwg:MakeAndModel" (xmlEscape scanner.mMakeAndModel))
      "pwg:MakeAndModel" (fun _ => value) scanner.mMakeAndModel :=
    .leaf (by decide) (chars_xmlEscape hs.chars) hs.shown
  have hplaten {platen : InputSource} (h : i.mpPlaten = some platen) :
      Single (i.writePlaten print) "scan:Platen"
        (fun _ => Xml.one (ascii "scan:PlatenInputCaps") fun _ => readInputCaps)
        (i.inputCaps print 0 platen) := by
    rw [Init2.writePlaten, h]
    exact ((written_writeCapabilitiesXml hi hprint (hi.platen _ h)).single
      (by decide)).only.single (by decide)
  have hicon : StartsWith ["scan:IconURI"]
      (if scanner.mIconUrl ≠ [] then leaf "scan:IconURI" scanner.mIconUrl else []) := by
    split_ifs <;> rintro _ ⟨⟩
    exact List.mem_singleton_self _
  have hfirst : StartsWith ["scan:Platen"] (i.writePlaten print) := by
    rw [Init2.writePlaten]
    split <;> rintro _ ⟨⟩
    exact List.mem_singleton_self _
  have hlast : StartsWith ["scan:Adf"] (i.writeAdf print) := by
    rw [Init2.writeAdf]
    split <;> rintro _ ⟨⟩
    exact List.mem_singleton_self _
  have hdocument : Single (i.writeScannerCapabilitiesXml print scanner) "scan:ScannerCapabilities"
      (fun _ => readCapabilities) (i.capabilities print scanner) := by
    rw [Init2.writeScannerCapabilitiesXml]
    refine Written.element (l := [(ascii "xmlns:pwg",
      ascii "http://www.pwg.org/schemas/2010/12/sm"),
      (ascii "xmlns:scan", ascii "http://schemas.hp.com/imaging/escl/2011/05/03")])
      ?_ (by decide) (by decide +kernel) (by decide +kernel) (by decide)
    simp only [List.append_assoc]
    refine (hversion.leaf (by decide)).one ?_
    refine hmake.one ?_
    refine (hserial.leaf (by decide)).one ?_
    refine (huuid.leaf (by decide)).one ?_
    refine written_uri (by decide) hs.adminUrl ?_
      ((hicon.append (hfirst.append hlast)).ne (by decide))
    refine written_uri (by decide) hs.iconUrl ?_ ((hfirst.append hlast).ne (by decide))
    refine Written.optionally (i.mpPlaten.map (i.inputCaps print 0)) ?_ ?_ ?_
      (hlast.ne (by decide))
    · intro a ha
      obtain ⟨platen, hp, rfl⟩ := Option.map_eq_some_iff.1 ha
      exact hplaten hp
    · intro h
      rw [Init2.writePlaten, Option.map_eq_none_iff.1 h]
    rw [← List.append_nil (i.writeAdf print)]
    refine Written.optionally (i.mpAdfSimplex.map (i.adfCaps print)) ?_ ?_ .nil
      (by rintro _ ⟨⟩)
    · intro a ha
      obtain ⟨simplex, hp, rfl⟩ := Option.map_eq_some_iff.1 ha
      exact written_adf hi hprint hp
    · intro h
      rw [Init2.writeAdf, Option.map_eq_none_iff.1 h]
  exact hdocument.document

section
variable {b : Backend S} {choice : Option Octets} {intents : List String} {names : List Octets}
  {place : InputSource → Init2 S → Init2 S}

/-- A source found has the intents of its kind, or none. -/
theorem Init2.Preset.addSource (hi : i.Preset) (hintents : ∀ s ∈ intents, Token (ascii s))
    (hplace : ∀ source j, (∀ s ∈ source.mSupportedIntents, Token (ascii s)) → Init2.Preset j →
      (place source j).Preset) :
    (i.addSource b choice intents place).Preset := by
  rw [Init2.addSource]
  split
  · exact hplace _ _ (fun s hs => absurd hs List.not_mem_nil) { hi with }
  · exact hplace _ _ hintents { hi with }

theorem Init2.Preset.addPlaten (hi : i.Preset) : (i.addPlaten b names).Preset := by
  rw [Init2.addPlaten]
  split_ifs
  · refine .addSource { hi with } (by decide +kernel) fun source j hs hj => ?_
    exact { hj with platen := fun x hx => by cases hx; exact hs }
  · refine .addSource { hi with } (by decide +kernel) fun source j hs hj => ?_
    exact { hj with platen := fun x hx => by cases hx; exact hs }
  · exact hi

theorem Init2.Preset.addFeeder (hi : i.Preset) : (i.addFeeder names).Preset := by
  rw [Init2.addFeeder]
  split_ifs
  · exact { hi with }
  · exact hi

theorem Init2.Preset.addAdfSimplex (hi : i.Preset) : (i.addAdfSimplex b names).Preset := by
  rw [Init2.addAdfSimplex]
  split_ifs
  · refine .addSource hi (by decide +kernel) fun source j hs hj => ?_
    exact { hj with simplex := fun x hx => by cases hx; exact hs }
  · exact hi

theorem Init2.Preset.addAdfDuplex (hi : i.Preset) : (i.addAdfDuplex b names).Preset := by
  rw [Init2.addAdfDuplex]
  split_ifs
  · refine .addSource hi (by decide +kernel) fun source j hs hj => ?_
    exact { hj with duplex := fun x hx => by cases hx; exact hs }
  · exact hi

theorem Init2.Preset.addDeepModes (hi : i.Preset) : i.addDeepModes.Preset := by
  rw [Init2.addDeepModes]
  split
  · exact { hi with }
  · exact hi

theorem preset_start {device : S} {resolutions : Resolutions} :
    (Init2.start b device resolutions).Preset where
  formats := by
    have hformats : ∀ s ∈ [ascii MIME_TYPE_PDF, ascii MIME_TYPE_JPEG, ascii MIME_TYPE_PNG],
        Token s := by decide +kernel
    exact hformats
  spaces cs hcs := by
    have hone (c : Prop) [Decidable c] (x : Octets) (h : cs ∈ if c then [] else [x]) :
        cs = x := by
      split at h
      · cases h
      · exact List.mem_singleton.1 h
    exact (List.mem_append.1 hcs).imp (hone _ _) (hone _ _)
  platen _ h := by cases h
  simplex _ h := by cases h
  duplex _ h := by cases h

theorem preset_of_init2 {opened : Option S} (hi : init2 b opened = .ok i) : i.Preset := by
  unfold init2 at hi
  split at hi
  · cases hi
  · split at hi
    · cases hi
    · dsimp only at hi
      split at hi
      · cases hi
      · obtain rfl := Except.ok.inj hi
        exact preset_start.addPlaten.addFeeder.addAdfSimplex.addAdfDuplex.addDeepModes

end

end

end AirSane
