import AirSane.Basic.Dictionary
import AirSane.Basic.Uuid
import AirSane.Numbering.FirstFree
import Mathlib.Data.Int.Notation

/-! # Device discovery

The body of the reload loop of `Server::run`, from the enumeration of devices
to `HttpServer::run`. What initialisation and announcement come to is an input
of each device, as are the scanners that request threads still hold.
-/

namespace AirSane
open Text Numbering

structure DeviceInfo where
  name : Octets
  vendor : Octets
  model : Octets

/-- What `init2` finds out about a scanner, as far as the server uses it. -/
structure ScannerData where
  mDocumentFormats : List Octets
  mTxtColorSpaces : List Octets
  hasPlaten : Bool
  hasAdf : Bool
  hasDuplexAdf : Bool
  icon : Octets
  note : Octets

def ScannerData.empty : ScannerData := ⟨[], [], false, false, false, [], []⟩

structure Scanner where
  mDeviceInfo : DeviceInfo
  mMakeAndModel : Octets
  mPublishedName : Octets
  mStableUniqueName : Octets
  mUuid : Octets
  mUri : Octets
  mAdminUrl : Octets
  mIconUrl : Octets
  mError : Option Octets
  data : ScannerData

namespace Scanner

def makeAndModel (info : DeviceInfo) : Octets := info.vendor ++ ascii " " ++ info.model

/-- The name up to its first colon, and make and model. -/
def stableName (info : DeviceInfo) : Octets :=
  (if 58 ∈ info.name then info.name.takeWhile (· ≠ 58) ++ ascii ":" else info.name ++ ascii ":") ++
    makeAndModel info ++ ascii ":"

def numbered (s : Octets) (i : ℕ) : Octets := s ++ numeral 10 i

/-- `generateStableUniqueName`, where `live` are the names of the other
instances. -/
def generateStableUniqueName (live : List Octets) (s : Octets) : Octets :=
  numbered s (firstFree (numbered s) live 1)

/-- The constructor. -/
def new (h : Hashing) (live : List Octets) (info : DeviceInfo) : Scanner :=
  let mStableUniqueName := generateStableUniqueName live (stableName info)
  { mDeviceInfo := info
    mMakeAndModel := makeAndModel info
    mPublishedName := makeAndModel info
    mStableUniqueName := mStableUniqueName
    mUuid := (Uuid.initFromString h mStableUniqueName).toString
    mUri := []
    mAdminUrl := []
    mIconUrl := []
    mError := none
    data := .empty }

def initWithOptions (s : Scanner) (init : Except Octets ScannerData) : Scanner :=
  match init with
  | .error e => { s with mError := some e }
  | .ok data => { s with mError := none, data := data }

end Scanner

/-- `MdnsPublisher::Service`. -/
structure Service where
  mType : Octets
  mName : Octets
  mIfIndex : ℤ
  mPort : ℕ
  mTxtRecord : Dictionary

def Service.setTxt (v : Service) (key : String) (text : Octets) : Service :=
  { v with mTxtRecord := v.mTxtRecord.assign (ascii key) text }

structure ScannerEntry where
  pScanner : Scanner
  pService : Service

/-- A host name has no slash. -/
abbrev Hostname := { s : Octets // 47 ∉ s }

structure Settings where
  mAnnounce : Bool
  mWebinterface : Bool
  mResetoption : Bool
  mRandompaths : Bool
  mCompatiblepath : Bool
  mAnnouncesecure : Bool
  mHostname : Hostname
  mBasePath : Octets
  port : ℕ
  interfaceIndex : ℤ
  matchIgnorelist : DeviceInfo → Bool

/-- The defaults of the options, on a host with a name. -/
def Settings.standard : Settings where
  mAnnounce := true
  mWebinterface := true
  mResetoption := false
  mRandompaths := false
  mCompatiblepath := true
  mAnnouncesecure := false
  mHostname := ⟨ascii "pi", by decide⟩
  mBasePath := []
  port := 8090
  interfaceIndex := -1
  matchIgnorelist := fun _ => false

/-- A device of the enumeration, and what comes of it: `initWithOptions`, the
name under which `announce` publishes it if it does, and the stable names of the
scanners that request threads hold when its turn comes. -/
structure Device where
  info : DeviceInfo
  init : Except Octets ScannerData
  announced : Option Octets
  held : List Octets

/-- A device that is initialised and announced, while nothing is held. -/
def Device.standard : Device :=
  ⟨⟨ascii "test:0", ascii "Noname", ascii "frontend"⟩, .ok .empty, some (ascii "Noname frontend"), []⟩

/-- The scanners served, the counter, and every scanner that was constructed. -/
structure Discovery where
  mScanners : List ScannerEntry
  scannerCount : ℕ
  found : List Scanner

section Setup
variable (cfg : Settings)

def commaList (xs : List Octets) : Octets := (xs.map fun s => ascii "," ++ s).flatten.drop 1

/-- `uri` without its leading slash. -/
def rsRecord (uri : Octets) : Octets := if uri.head? = some 47 then uri.drop 1 else uri

def Service.setTxtIf (v : Service) (b : Bool) (key : String) (text : Octets) : Service :=
  if b then v.setTxt key text else v

/-- `Server::buildMdnsService`. -/
def buildMdnsService (s : Scanner) : Service :=
  let sources := (if s.data.hasPlaten then [ascii "platen"] else []) ++
    (if s.data.hasAdf then [ascii "adf"] else [])
  ({ mType := ascii (if cfg.mAnnouncesecure then "_uscans._tcp" else "_uscan._tcp")
     mName := s.mPublishedName
     mIfIndex := cfg.interfaceIndex
     mPort := 0
     mTxtRecord := [] : Service }.setTxt "txtvers" (ascii "1")
    |>.setTxt "vers" (ascii "2.0")
    |>.setTxtIf (s.data.mDocumentFormats ≠ []) "pdl" (commaList s.data.mDocumentFormats)
    |>.setTxt "ty" s.mMakeAndModel
    |>.setTxt "note" (if s.data.note = [] then cfg.mHostname.1 else s.data.note)
    |>.setTxt "uuid" s.mUuid
    |>.setTxt "rs" (rsRecord s.mUri)
    |>.setTxtIf (s.data.mTxtColorSpaces ≠ []) "cs" (commaList s.data.mTxtColorSpaces)
    |>.setTxtIf (sources ≠ []) "is" (commaList sources)
    |>.setTxt "duplex" (ascii (if s.data.hasDuplexAdf then "T" else "F"))
    |>.setTxtIf (s.mAdminUrl ≠ []) "adminurl" s.mAdminUrl
    |>.setTxtIf (s.mIconUrl ≠ []) "representation" s.mIconUrl)

/-- The names that `chooseUniquePublishedName` tries. -/
def publishedVariant (baseName : Octets) (i : ℕ) : Octets :=
  if i = 1 then baseName else baseName ++ (ascii " (" ++ (numeral 10 i ++ ascii ")"))

def publishedNames (mScanners : List ScannerEntry) : List Octets :=
  mScanners.map (·.pScanner.mPublishedName)

def chooseUniquePublishedName (mScanners : List ScannerEntry) (s : Scanner) : Scanner :=
  let name := publishedVariant s.mPublishedName
  { s with mPublishedName := name (firstFree name (publishedNames mScanners) 1) }

def setUri (pathPrefix : Octets) (isFirst : Bool) (s : Scanner) : Scanner :=
  { s with mUri :=
      if isFirst && cfg.mCompatiblepath then ascii "/eSCL" else pathPrefix ++ s.mUuid }

/-- The URL of a scanner. -/
def scannerUrl (s : Scanner) : Octets :=
  ascii "http" ++ (if cfg.mAnnouncesecure then ascii "s" else []) ++ ascii "://" ++
    cfg.mHostname.1 ++ ascii ":" ++ numeral 10 cfg.port ++ cfg.mBasePath ++ s.mUri

def setUrls (s : Scanner) : Scanner :=
  { s with
    mAdminUrl := if cfg.mWebinterface then scannerUrl cfg s else s.mAdminUrl
    mIconUrl := if s.data.icon = [] then s.mIconUrl else scannerUrl cfg s ++ ascii "/ScannerIcon" }

def pathPrefix (random : Uuid) : Octets :=
  if cfg.mRandompaths then ascii "/" ++ random.toString ++ ascii "/" else ascii "/"

variable (h : Hashing) (random : Uuid)

/-- The names of all scanners that exist at a device's turn. -/
def Discovery.live (st : Discovery) (d : Device) : List Octets :=
  st.mScanners.map (·.pScanner.mStableUniqueName) ++ d.held

/-- The new scanner after `initWithOptions`. -/
def Discovery.construct (st : Discovery) (d : Device) : Scanner :=
  (chooseUniquePublishedName st.mScanners (.new h (st.live d) d.info)).initWithOptions d.init

/-- The scanner as it is announced. -/
def Discovery.configure (st : Discovery) (d : Device) : Scanner :=
  setUrls cfg (setUri cfg (pathPrefix cfg random) (st.scannerCount = 0) (st.construct h d))

/-- The entry of a scanner that is announced. -/
def announcedEntry (s : Scanner) (name : Octets) : ScannerEntry :=
  ⟨{ s with mPublishedName := name },
    { buildMdnsService cfg s with mName := name, mPort := cfg.port }⟩

/-- One pass of the loop over the devices. -/
def discoverDevice (st : Discovery) (d : Device) : Discovery :=
  if cfg.matchIgnorelist d.info then st
  else if (st.construct h d).mError.isSome then
    { st with found := st.found ++ [st.construct h d] }
  else
    let s := st.configure cfg h random d
    let pService := if cfg.mAnnounce && s.mError.isNone then d.announced else none
    { mScanners := st.mScanners ++ (pService.map (announcedEntry cfg s)).toList
      scannerCount := st.scannerCount + 1
      found := st.found ++ [s] }

/-- The loop over the devices, with nothing served before. -/
def discover (ds : List Device) : Discovery :=
  ds.foldl (discoverDevice cfg h random) ⟨[], 0, []⟩

end Setup

/-- A device that is not ignored and whose initialisation succeeds. -/
def usable (cfg : Settings) (d : Device) : Bool := !cfg.matchIgnorelist d.info && d.init.isOk

/-- A usable device that is announced. -/
def published (cfg : Settings) (d : Device) : Bool :=
  usable cfg d && (cfg.mAnnounce && d.announced.isSome)

def uris (mScanners : List ScannerEntry) : List Octets := mScanners.map (·.pScanner.mUri)
def uuids (mScanners : List ScannerEntry) : List Octets := mScanners.map (·.pScanner.mUuid)
def infos (mScanners : List ScannerEntry) : List DeviceInfo := mScanners.map (·.pScanner.mDeviceInfo)

/-- Every usable scanner is served, under a URI of its own, the first one under
`/eSCL` if this is asked for. -/
structure ServesUsable (cfg : Settings) (ds : List Device) (mScanners : List ScannerEntry) :
    Prop where
  entries : infos mScanners = (ds.filter (usable cfg)).map Device.info
  distinct : (uuids mScanners).Nodup → (uris mScanners).Nodup
  compatible : cfg.mCompatiblepath = true → mScanners ≠ [] →
    ∃ e es, mScanners = e :: es ∧ e.pScanner.mUri = ascii "/eSCL" ∧ ascii "/eSCL" ∉ uris es

/-- URIs by position. -/
def assignUris (first : Bool) (path : Octets) : List Octets → List Octets
  | [] => []
  | u :: us => (if first then ascii "/eSCL" else path ++ u) :: us.map fun u => path ++ u

section
variable {cfg : Settings} {h : Hashing} {random : Uuid} {st : Discovery} {d : Device}
  {s : Scanner} {name path u : Octets} {us : List Octets} {b : Bool}

@[simp] theorem configure_mDeviceInfo :
    (st.configure cfg h random d).mDeviceInfo = d.info := by
  simp only [Discovery.configure, setUrls, setUri, Discovery.construct, Scanner.initWithOptions]
  cases d.init <;> rfl

theorem configure_mUri :
    (st.configure cfg h random d).mUri =
      if decide (st.scannerCount = 0) && cfg.mCompatiblepath then ascii "/eSCL"
      else pathPrefix cfg random ++ (st.configure cfg h random d).mUuid := rfl

theorem construct_mError : (st.construct h d).mError.isSome = !d.init.isOk := by
  simp only [Discovery.construct, Scanner.initWithOptions]
  cases d.init <;> rfl

theorem configure_mError : (st.configure cfg h random d).mError = (st.construct h d).mError := rfl

variable (h random st) in
theorem discoverDevice_published (hp : published cfg d = true) :
    ∃ name, (discoverDevice cfg h random st d) =
      ⟨st.mScanners ++ [announcedEntry cfg (st.configure cfg h random d) name],
        st.scannerCount + 1, st.found ++ [st.configure cfg h random d]⟩ := by
  simp only [published, usable, Bool.and_eq_true, Bool.not_eq_true'] at hp
  obtain ⟨⟨hign, hok⟩, hann, hsome⟩ := hp
  obtain ⟨name, hname⟩ := Option.isSome_iff_exists.1 hsome
  have herr : (st.construct h d).mError.isSome = false := by rw [construct_mError, hok]; rfl
  have hnone : (st.construct h d).mError.isNone = true := by simpa using herr
  refine ⟨name, ?_⟩
  simp [discoverDevice, hign, herr, configure_mError, hnone, hann, hname]

theorem discoverDevice_unpublished (hp : published cfg d = false) :
    (discoverDevice cfg h random st d).mScanners = st.mScanners := by
  by_cases hign : cfg.matchIgnorelist d.info = true
  · simp [discoverDevice, hign]
  · by_cases herr : (st.construct h d).mError.isSome = true
    · simp [discoverDevice, hign, herr]
    · have hok : d.init.isOk = true := by simpa [construct_mError] using herr
      have hnone : (cfg.mAnnounce && d.announced.isSome) = false := by
        simpa [published, usable, hign, hok] using hp
      have hno : (if cfg.mAnnounce && (st.configure cfg h random d).mError.isNone then
          d.announced else none) = none := by
        cases hann : cfg.mAnnounce <;> simp_all
      simp only [discoverDevice, hign, herr, hno]
      simp

theorem scannerCount_discoverDevice :
    (discoverDevice cfg h random st d).scannerCount =
      st.scannerCount + if usable cfg d = true then 1 else 0 := by
  by_cases hign : cfg.matchIgnorelist d.info = true
  · simp [discoverDevice, usable, hign]
  · by_cases hok : d.init.isOk = true
    · have herr : (st.construct h d).mError.isSome = false := by rw [construct_mError, hok]; rfl
      simp [discoverDevice, usable, hign, herr, hok]
    · have herr : (st.construct h d).mError.isSome = true := by simpa [construct_mError] using hok
      simp [discoverDevice, usable, hign, herr, hok]

/-- What is served, device by device. -/
theorem infos_discover (ds : List Device) :
    infos (ds.foldl (discoverDevice cfg h random) st).mScanners =
      infos st.mScanners ++ (ds.filter (published cfg)).map Device.info := by
  induction ds generalizing st with
  | nil => simp
  | cons d ds ih =>
    rw [List.foldl_cons, ih]
    by_cases hp : published cfg d = true
    · obtain ⟨name, hstep⟩ := discoverDevice_published h random st hp
      rw [hstep, List.filter_cons_of_pos hp]
      simp [infos, announcedEntry]
    · rw [discoverDevice_unpublished (by simpa using hp), List.filter_cons_of_neg hp]

theorem assignUris_append (hne : us ≠ []) :
    assignUris b path (us ++ [u]) = assignUris b path us ++ [path ++ u] := by
  cases us with
  | nil => exact absurd rfl hne
  | cons v us => simp [assignUris]

/-- What holds of every entry as it is made holds of every entry. -/
theorem forall_served {p : ScannerEntry → Prop}
    (hp : ∀ (st : Discovery) (d : Device) (name : Octets),
      p (announcedEntry cfg (st.configure cfg h random d) name))
    (ds : List Device) (hst : ∀ e ∈ st.mScanners, p e) :
    ∀ e ∈ (ds.foldl (discoverDevice cfg h random) st).mScanners, p e := by
  induction ds generalizing st with
  | nil => exact hst
  | cons d ds ih =>
    apply ih
    by_cases hd : published cfg d = true
    · obtain ⟨name, hstep⟩ := discoverDevice_published h random st hd
      rw [hstep]
      intro e he
      rcases List.mem_append.1 he with he | he
      · exact hst e he
      · rw [List.mem_singleton.1 he]
        exact hp st d name
    · rw [discoverDevice_unpublished (by simpa using hd)]
      exact hst

variable (cfg h random st d) in
theorem configure_mUuid : ∃ x : Uuid, (st.configure cfg h random d).mUuid = x.toString := by
  refine ⟨Uuid.initFromString h (Scanner.new h (st.live d) d.info).mStableUniqueName, ?_⟩
  simp only [Discovery.configure, setUrls, setUri, Discovery.construct, Scanner.initWithOptions]
  cases d.init <;> rfl

/-- The UUIDs of the scanners served are UUIDs. -/
theorem uuids_discover (ds : List Device) (hu : u ∈ uuids (discover cfg h random ds).mScanners) :
    ∃ x : Uuid, u = x.toString := by
  obtain ⟨e, he, rfl⟩ := List.mem_map.1 hu
  apply forall_served (p := fun e => ∃ x : Uuid, e.pScanner.mUuid = x.toString) _ ds _ e he
  · intro st d name
    exact configure_mUuid cfg h random st d
  · simp

theorem served_uri (ds : List Device) {e : ScannerEntry}
    (he : e ∈ (discover cfg h random ds).mScanners) :
    e.pScanner.mUri = ascii "/eSCL" ∨
      e.pScanner.mUri = pathPrefix cfg random ++ e.pScanner.mUuid := by
  apply forall_served (p := fun e => e.pScanner.mUri = ascii "/eSCL" ∨
    e.pScanner.mUri = pathPrefix cfg random ++ e.pScanner.mUuid) _ ds _ e he
  · intro st d name
    simp only [announcedEntry, configure_mUri]
    split
    · exact .inl rfl
    · exact .inr rfl
  · simp

/-- The admin URL is the scanner's URL, with the web interface. -/
theorem served_adminUrl (ds : List Device) {e : ScannerEntry}
    (he : e ∈ (discover cfg h random ds).mScanners) :
    e.pScanner.mAdminUrl = if cfg.mWebinterface then scannerUrl cfg e.pScanner else [] := by
  apply forall_served (p := fun e => e.pScanner.mAdminUrl =
    if cfg.mWebinterface then scannerUrl cfg e.pScanner else []) _ ds _ e he
  · intro st d name
    have hnone : (setUri cfg (pathPrefix cfg random) (decide (st.scannerCount = 0))
        (st.construct h d)).mAdminUrl = [] := by
      simp only [setUri, Discovery.construct, Scanner.initWithOptions]
      cases d.init <;> rfl
    simp only [announcedEntry, Discovery.configure, setUrls, hnone]
    rfl
  · simp

theorem getString_setTxt_ne {v : Service} {key : String} {text k : Octets} (hne : k ≠ ascii key) :
    (v.setTxt key text).mTxtRecord.getString k = v.mTxtRecord.getString k :=
  Dictionary.getString_assign_ne hne

theorem getString_setTxtIf_ne {v : Service} {key : String} {text k : Octets} (hne : k ≠ ascii key) :
    (v.setTxtIf b key text).mTxtRecord.getString k = v.mTxtRecord.getString k := by
  cases b with
  | false => rfl
  | true => exact getString_setTxt_ne hne

theorem rs_buildMdnsService :
    (buildMdnsService cfg s).mTxtRecord.getString (ascii "rs") = rsRecord s.mUri := by
  rw [buildMdnsService, getString_setTxtIf_ne (by decide), getString_setTxtIf_ne (by decide),
    getString_setTxt_ne (by decide), getString_setTxtIf_ne (by decide),
    getString_setTxtIf_ne (by decide)]
  exact Dictionary.getString_assign_self

theorem served_rs (ds : List Device) {e : ScannerEntry}
    (he : e ∈ (discover cfg h random ds).mScanners) :
    e.pService.mTxtRecord.getString (ascii "rs") = rsRecord e.pScanner.mUri := by
  apply forall_served (p := fun e =>
    e.pService.mTxtRecord.getString (ascii "rs") = rsRecord e.pScanner.mUri) _ ds _ e he
  · exact fun st d name => rs_buildMdnsService
  · simp

theorem uris_step (hb : uris st.mScanners = assignUris b (pathPrefix cfg random) (uuids st.mScanners))
    (hfirst : st.mScanners = [] → b = (decide (st.scannerCount = 0) && cfg.mCompatiblepath))
    (hcount : st.scannerCount = 0 → st.mScanners = []) :
    uris (discoverDevice cfg h random st d).mScanners =
      assignUris b (pathPrefix cfg random) (uuids (discoverDevice cfg h random st d).mScanners) := by
  by_cases hd : published cfg d = true
  · obtain ⟨name, hstep⟩ := discoverDevice_published h random st hd
    rw [hstep]
    simp only [uris, uuids, List.map_append, List.map_cons, List.map_nil, announcedEntry,
      configure_mUri] at hb ⊢
    by_cases hm : st.mScanners = []
    · simp [hm, assignUris, hfirst hm]
    · have hne : st.scannerCount ≠ 0 := fun h0 => hm (hcount h0)
      rw [assignUris_append (by simpa using hm), hb]
      simp [hne]
  · rw [discoverDevice_unpublished (by simpa using hd)]
    exact hb

theorem scannerCount_zero (hcount : st.scannerCount = 0 → st.mScanners = [])
    (h0 : (discoverDevice cfg h random st d).scannerCount = 0) :
    (discoverDevice cfg h random st d).mScanners = [] := by
  by_cases hd : published cfg d = true
  · obtain ⟨name, hstep⟩ := discoverDevice_published h random st hd
    rw [hstep] at h0
    cases h0
  · rw [discoverDevice_unpublished (by simpa using hd)]
    rw [scannerCount_discoverDevice] at h0
    exact hcount (by omega)

variable (cfg h random) in
/-- At most the first URI is `/eSCL`; the others are made from the UUIDs. -/
theorem uris_discover (ds : List Device) :
    ∃ b, uris (discover cfg h random ds).mScanners =
      assignUris b (pathPrefix cfg random) (uuids (discover cfg h random ds).mScanners) := by
  suffices hrun : ∀ (ds : List Device) (st : Discovery),
      (∃ b, uris st.mScanners = assignUris b (pathPrefix cfg random) (uuids st.mScanners)) →
      (st.scannerCount = 0 → st.mScanners = []) →
      ∃ b, uris (ds.foldl (discoverDevice cfg h random) st).mScanners =
        assignUris b (pathPrefix cfg random)
          (uuids (ds.foldl (discoverDevice cfg h random) st).mScanners) from
    hrun ds _ ⟨false, rfl⟩ fun _ => rfl
  intro ds
  induction ds with
  | nil => exact fun st hst _ => hst
  | cons d ds ih =>
    rintro st ⟨b, hb⟩ hcount
    apply ih _ _ (scannerCount_zero hcount)
    by_cases hm : st.mScanners = []
    · refine ⟨decide (st.scannerCount = 0) && cfg.mCompatiblepath, uris_step ?_ (fun _ => rfl) hcount⟩
      simp [hm, uris, uuids, assignUris]
    · exact ⟨b, uris_step hb (fun h => absurd h hm) hcount⟩

variable (h random) in
/-- Where every usable device is announced, the first scanner is the one served
first. -/
theorem uris_of_published (ds : List Device)
    (hds : ∀ d ∈ ds, usable cfg d = true → published cfg d = true) :
    uris (discover cfg h random ds).mScanners =
      assignUris cfg.mCompatiblepath (pathPrefix cfg random)
        (uuids (discover cfg h random ds).mScanners) := by
  suffices hrun : ∀ (ds : List Device) (st : Discovery),
      (∀ d ∈ ds, usable cfg d = true → published cfg d = true) →
      uris st.mScanners =
        assignUris cfg.mCompatiblepath (pathPrefix cfg random) (uuids st.mScanners) →
      (st.scannerCount = 0 ↔ st.mScanners = []) →
      uris (ds.foldl (discoverDevice cfg h random) st).mScanners =
        assignUris cfg.mCompatiblepath (pathPrefix cfg random)
          (uuids (ds.foldl (discoverDevice cfg h random) st).mScanners) from
    hrun ds _ hds rfl (by simp)
  intro ds
  induction ds with
  | nil => exact fun st _ hst _ => hst
  | cons d ds ih =>
    intro st hds hb hcount
    apply ih _ fun d' hd' => hds d' (List.mem_cons_of_mem _ hd')
    · exact uris_step hb (fun hm => by simp [hcount.2 hm]) hcount.1
    · by_cases hd : published cfg d = true
      · obtain ⟨name, hstep⟩ := discoverDevice_published h random st hd
        simp [hstep]
      · have hu : usable cfg d = false := by
          by_contra hu
          exact hd (hds d List.mem_cons_self (by simpa using hu))
        rw [discoverDevice_unpublished (by simpa using hd), scannerCount_discoverDevice, hu]
        exact hcount

theorem eSCL_ne {x : Uuid} : ascii "/eSCL" ≠ path ++ x.toString := by
  intro heq
  have hlen := congrArg List.length heq
  rw [List.length_append, x.toString_length] at hlen
  have h5 : (ascii "/eSCL").length = 5 := rfl
  omega

theorem eSCL_not_mem (hus : ∀ u ∈ us, ∃ x : Uuid, u = x.toString) :
    ascii "/eSCL" ∉ us.map fun u => path ++ u := by
  intro hm
  obtain ⟨u, hu, heq⟩ := List.mem_map.1 hm
  obtain ⟨x, rfl⟩ := hus u hu
  exact eSCL_ne heq.symm

theorem nodup_assignUris (hus : ∀ u ∈ us, ∃ x : Uuid, u = x.toString) (hnodup : us.Nodup) :
    (assignUris b path us).Nodup := by
  cases us with
  | nil => exact List.nodup_nil
  | cons u us =>
    have htail : ∀ v ∈ us, ∃ x : Uuid, v = x.toString :=
      fun v hv => hus v (List.mem_cons_of_mem _ hv)
    obtain ⟨hu, hnodup⟩ := List.nodup_cons.1 hnodup
    have hinj : (fun u => path ++ u).Injective := List.append_right_injective path
    rw [assignUris, List.nodup_cons]
    refine ⟨?_, hnodup.map hinj⟩
    cases b with
    | false =>
      intro hm
      obtain ⟨v, hv, heq⟩ := List.mem_map.1 hm
      exact hu (hinj heq ▸ hv)
    | true => exact eSCL_not_mem htail

theorem filter_published (ds : List Device) :
    (ds.filter (published cfg)).Sublist (ds.filter (usable cfg)) := by
  apply List.monotone_filter_right
  intro d hd
  simp only [published, Bool.and_eq_true] at hd
  exact hd.1

end

/-- Exactly when every usable scanner is announced, every usable scanner is
served. -/
theorem servesUsable_iff (cfg : Settings) (h : Hashing) (random : Uuid) (ds : List Device) :
    ServesUsable cfg ds (discover cfg h random ds).mScanners ↔
      ∀ d ∈ ds, usable cfg d = true → cfg.mAnnounce = true ∧ d.announced.isSome = true := by
  have hinfos : infos (discover cfg h random ds).mScanners =
      (ds.filter (published cfg)).map Device.info := infos_discover ds
  constructor
  · intro hserves d hd hu
    have hlen := congrArg List.length (hinfos.symm.trans hserves.entries)
    rw [List.length_map, List.length_map] at hlen
    have heq := (filter_published ds).eq_of_length hlen
    have hmem : d ∈ ds.filter (usable cfg) := List.mem_filter.2 ⟨hd, hu⟩
    rw [← heq, List.mem_filter, published, Bool.and_eq_true, Bool.and_eq_true] at hmem
    exact hmem.2.2
  · intro hall
    have hpub : ∀ d ∈ ds, usable cfg d = true → published cfg d = true := by
      intro d hd hu
      simp [published, hu, hall d hd hu]
    have huris := uris_of_published h random ds hpub
    refine ⟨?_, fun hnodup => ?_, fun hcompatible hne => ?_⟩
    · rw [hinfos]
      congr 1
      apply List.filter_congr
      intro d hd
      cases hu : usable cfg d with
      | false => simp [published, hu]
      | true => exact hpub d hd hu
    · rw [huris]
      exact nodup_assignUris (fun u hu => uuids_discover ds hu) hnodup
    · obtain ⟨e, es, hes⟩ := List.exists_cons_of_ne_nil hne
      have hus : ∀ u ∈ uuids es, ∃ x : Uuid, u = x.toString := by
        intro u hu
        apply uuids_discover ds
        rw [hes]
        exact List.mem_cons_of_mem _ hu
      rw [hes] at huris
      simp only [uris, uuids, List.map_cons, hcompatible, assignUris, if_true,
        List.cons.injEq] at huris
      refine ⟨e, es, hes, huris.1, ?_⟩
      rw [uris, huris.2]
      exact eSCL_not_mem hus

/-- One usable scanner, and no announcement. -/
theorem not_servesUsable_unannounced :
    ∃ (cfg : Settings) (h : Hashing) (random : Uuid) (ds : List Device),
      ¬ ServesUsable cfg ds (discover cfg h random ds).mScanners := by
  refine ⟨{ Settings.standard with mAnnounce := false }, ⟨[], fun _ _ => 0⟩, .nil,
    [.standard], fun hserves => ?_⟩
  have hentries := congrArg List.length hserves.entries
  revert hentries
  decide +kernel

end AirSane
