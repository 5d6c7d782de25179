import AirSane.Server.Discovery

/-! # Reloading

Two iterations of the reload loop of `Server::run` over the same devices. The
scanners that request threads hold, and those that are served, decide about the
numbers in the names of the later iteration.
-/

namespace AirSane
open Text Numbering

/-- A device of both iterations, initialised with the same result, and what
comes of it in the earlier and in the later one. -/
structure Reloaded where
  info : DeviceInfo
  init : Except Octets ScannerData
  announced : Option Octets
  held : List Octets
  announced' : Option Octets
  held' : List Octets

def Reloaded.earlier (r : Reloaded) : Device := ⟨r.info, r.init, r.announced, r.held⟩
def Reloaded.later (r : Reloaded) : Device := ⟨r.info, r.init, r.announced', r.held'⟩

/-- Stable name, UUID and URI. -/
def Scanner.identity (s : Scanner) : Octets × Octets × Octets :=
  (s.mStableUniqueName, s.mUuid, s.mUri)

def identities (st : Discovery) : List (Octets × Octets × Octets) := st.found.map Scanner.identity

/-- The first of the numbered names that is not taken. -/
def FirstFree (s : Octets) (taken : List Octets) (name : Octets) : Prop :=
  ∃ i, 1 ≤ i ∧ name = Scanner.numbered s i ∧ name ∉ taken ∧
    ∀ j, 1 ≤ j → j < i → Scanner.numbered s j ∈ taken

section
variable (cfg : Settings) (h : Hashing) (random random' : Uuid)

/-- A device's turn in the later iteration: the name it had is free, among the
names of the scanners that are already served again and of those still held, and
the names with lower numbers are not; and a path that has the prefix of the
iteration has the same one. -/
structure Unmoved (st : Discovery) (served : List Octets) (r : Reloaded) : Prop where
  name : FirstFree (Scanner.stableName r.info) (served ++ r.held')
    (st.construct h r.earlier).mStableUniqueName
  path : r.init.isOk = true → (st.scannerCount = 0 ∧ cfg.mCompatiblepath = true) ∨
    pathPrefix cfg random = pathPrefix cfg random'

/-- All turns, with the names, as of the earlier iteration, of the scanners that
the later one serves. -/
def AllUnmoved : Discovery → List Octets → List Reloaded → Prop
  | _, _, [] => True
  | st, served, r :: rs =>
    (cfg.matchIgnorelist r.info = false → Unmoved cfg h random random' st served r) ∧
      AllUnmoved (discoverDevice cfg h random st r.earlier)
        (if published cfg r.later then served ++ [(st.construct h r.earlier).mStableUniqueName]
          else served) rs

/-- A device's scanner at the end of its turn. -/
def Discovery.finish (st : Discovery) (d : Device) : Scanner :=
  if d.init.isOk then st.configure cfg h random d else st.construct h d

end

section
variable {cfg : Settings} {h : Hashing} {random random' : Uuid} {st st' : Discovery}
  {d : Device} {r : Reloaded} {s name : Octets} {taken served : List Octets}

theorem numbered_injective : (Scanner.numbered s).Injective := by
  intro i j hij
  have hnum := List.append_cancel_left hij
  have hi : value 10 (numeral 10 i) = i := value_numeral (by omega) (by omega)
  rw [← hi, hnum, value_numeral (by omega) (by omega)]

theorem generateStableUniqueName_eq_iff :
    Scanner.generateStableUniqueName taken s = name ↔ FirstFree s taken name := by
  constructor
  · rintro rfl
    obtain ⟨hle, hfree, hlow⟩ := firstFree_spec taken 1 (numbered_injective (s := s))
    exact ⟨_, hle, rfl, hfree, hlow⟩
  · rintro ⟨i, hi, rfl, hfree, hlow⟩
    rw [Scanner.generateStableUniqueName, (firstFree_eq_iff numbered_injective hi).2 ⟨hfree, hlow⟩]

variable (h st d) in
theorem construct_name : (st.construct h d).mStableUniqueName =
    Scanner.generateStableUniqueName (st.live d) (Scanner.stableName d.info) := by
  simp only [Discovery.construct, Scanner.initWithOptions]
  cases d.init <;> rfl

theorem construct_uuid : (st.construct h d).mUuid =
    (Uuid.initFromString h (st.construct h d).mStableUniqueName).toString := by
  simp only [Discovery.construct, Scanner.initWithOptions]
  cases d.init <;> rfl

theorem construct_uri : (st.construct h d).mUri = [] := by
  simp only [Discovery.construct, Scanner.initWithOptions]
  cases d.init <;> rfl

theorem found_discoverDevice : (discoverDevice cfg h random st d).found =
    st.found ++ if cfg.matchIgnorelist d.info then [] else [st.finish cfg h random d] := by
  by_cases hign : cfg.matchIgnorelist d.info = true
  · simp [discoverDevice, hign]
  · by_cases hok : d.init.isOk = true
    · have herr : (st.construct h d).mError.isSome = false := by rw [construct_mError, hok]; rfl
      simp [discoverDevice, Discovery.finish, hign, herr, hok]
    · have herr : (st.construct h d).mError.isSome = true := by simpa [construct_mError] using hok
      simp [discoverDevice, Discovery.finish, hign, herr, hok]

theorem finish_identity :
    (st.finish cfg h random d).identity =
      ((st.construct h d).mStableUniqueName, (st.construct h d).mUuid,
        if d.init.isOk = true then
          if st.scannerCount = 0 ∧ cfg.mCompatiblepath = true then ascii "/eSCL"
          else pathPrefix cfg random ++ (st.construct h d).mUuid
        else []) := by
  unfold Discovery.finish
  by_cases hok : d.init.isOk = true
  · simp only [hok, if_true, Scanner.identity, Discovery.configure, setUrls, setUri,
      Bool.and_eq_true, decide_eq_true_eq]
  · rw [if_neg hok, if_neg hok, Scanner.identity, construct_uri]

/-- A device keeps its identity exactly if it is unmoved. -/
theorem finish_identity_iff
    (hserved : st'.mScanners.map (·.pScanner.mStableUniqueName) = served)
    (hcount : st'.scannerCount = st.scannerCount) :
    (st.finish cfg h random r.earlier).identity = (st'.finish cfg h random' r.later).identity ↔
      Unmoved cfg h random random' st served r := by
  have hname : (st.construct h r.earlier).mStableUniqueName =
      (st'.construct h r.later).mStableUniqueName ↔
      FirstFree (Scanner.stableName r.info) (served ++ r.held')
        (st.construct h r.earlier).mStableUniqueName := by
    rw [← generateStableUniqueName_eq_iff, construct_name (d := r.later), Discovery.live, hserved,
      eq_comm]
    rfl
  rw [finish_identity, finish_identity, hcount, Prod.mk.injEq, Prod.mk.injEq, hname]
  constructor
  · rintro ⟨hfree, huuid, huri⟩
    refine ⟨hfree, fun hok => ?_⟩
    by_cases hfirst : st.scannerCount = 0 ∧ cfg.mCompatiblepath = true
    · exact .inl hfirst
    · have hok' : r.later.init.isOk = true := hok
      have hok'' : r.earlier.init.isOk = true := hok
      rw [if_pos hok', if_pos hok'', if_neg hfirst, if_neg hfirst, huuid] at huri
      exact .inr (List.append_cancel_right huri)
  · rintro ⟨hfree, hpath⟩
    have huuid : (st.construct h r.earlier).mUuid = (st'.construct h r.later).mUuid := by
      rw [construct_uuid, construct_uuid, hname.2 hfree]
    refine ⟨hfree, huuid, ?_⟩
    by_cases hok : r.init.isOk = true
    · have hok' : r.later.init.isOk = true := hok
      have hok'' : r.earlier.init.isOk = true := hok
      rw [if_pos hok', if_pos hok'', huuid]
      rcases hpath hok with hfirst | hbegins
      · rw [if_pos hfirst, if_pos hfirst]
      · rw [hbegins]
    · have hok' : ¬ r.later.init.isOk = true := hok
      have hok'' : ¬ r.earlier.init.isOk = true := hok
      rw [if_neg hok', if_neg hok'']

theorem found_begins (ds : List Device) :
    st.found <+: (ds.foldl (discoverDevice cfg h random) st).found := by
  induction ds generalizing st with
  | nil => exact List.prefix_rfl
  | cons d ds ih =>
    apply List.IsPrefix.trans _ ih
    rw [found_discoverDevice]
    exact List.prefix_append _ _

variable (cfg h random st) in
theorem identities_begin (ds : List Device) :
    identities st <+: identities (ds.foldl (discoverDevice cfg h random) st) :=
  (found_begins ds).map _

variable (h random st d) in
theorem identities_discoverDevice (hign : cfg.matchIgnorelist d.info = false) :
    identities (discoverDevice cfg h random st d) =
      identities st ++ [(st.finish cfg h random d).identity] := by
  simp [identities, found_discoverDevice, hign]

theorem names_discoverDevice : (discoverDevice cfg h random st d).mScanners.map
      (·.pScanner.mStableUniqueName) =
    st.mScanners.map (·.pScanner.mStableUniqueName) ++
      if published cfg d = true then [(st.construct h d).mStableUniqueName] else [] := by
  by_cases hp : published cfg d = true
  · obtain ⟨name, hstep⟩ := discoverDevice_published h random st hp
    rw [hstep, if_pos hp, List.map_append]
    rfl
  · rw [discoverDevice_unpublished (by simpa using hp), if_neg hp, List.append_nil]

/-- Where paths have the same prefix in both iterations, devices are announced
alike and nothing was held in the earlier one, it is enough that no name is held. -/
theorem allUnmoved_of_not_held (rs : List Reloaded)
    (hpath : pathPrefix cfg random = pathPrefix cfg random')
    (hsame : ∀ r ∈ rs, r.held = [] ∧ r.announced' = r.announced)
    (hheld : ∀ r ∈ rs,
      ∀ s ∈ ((rs.map Reloaded.earlier).foldl (discoverDevice cfg h random) st).found,
        s.mStableUniqueName ∉ r.held')
    (hserved : served = st.mScanners.map (·.pScanner.mStableUniqueName)) :
    AllUnmoved cfg h random random' st served rs := by
  induction rs generalizing st served with
  | nil => trivial
  | cons r rs ih =>
    obtain ⟨hnone, hann⟩ := hsame r List.mem_cons_self
    refine ⟨fun hign => ⟨?_, fun _ => .inr hpath⟩, ?_⟩
    · obtain ⟨i, hi, hname, hfree, hlow⟩ := generateStableUniqueName_eq_iff.1
        (construct_name h st r.earlier).symm
      have hlive : st.live r.earlier = served := by
        rw [Discovery.live, hserved]
        simp [Reloaded.earlier, hnone]
      rw [hlive] at hfree hlow
      have hfound : st.finish cfg h random r.earlier ∈
          (((r :: rs).map Reloaded.earlier).foldl (discoverDevice cfg h random) st).found := by
        apply (found_begins (rs.map Reloaded.earlier)).subset
        rw [found_discoverDevice]
        simp [Reloaded.earlier, hign]
      have hheld' := hheld r List.mem_cons_self _ hfound
      have hfinish : (st.finish cfg h random r.earlier).mStableUniqueName =
          (st.construct h r.earlier).mStableUniqueName := congrArg Prod.fst finish_identity
      rw [hfinish] at hheld'
      exact ⟨i, hi, hname, List.not_mem_append hfree hheld',
        fun j hj hlt => List.mem_append_left _ (hlow j hj hlt)⟩
    · apply ih fun r' hr' => hsame r' (List.mem_cons_of_mem _ hr')
      · exact fun r' hr' => hheld r' (List.mem_cons_of_mem _ hr')
      · have hpub : published cfg r.later = published cfg r.earlier := by
          simp [published, usable, Reloaded.later, Reloaded.earlier, hann]
        rw [names_discoverDevice, hserved, hpub]
        split <;> simp

theorem identities_iff_from (rs : List Reloaded)
    (hserved : st'.mScanners.map (·.pScanner.mStableUniqueName) = served)
    (hcount : st'.scannerCount = st.scannerCount)
    (hids : identities st = identities st') :
    identities ((rs.map Reloaded.earlier).foldl (discoverDevice cfg h random) st) =
        identities ((rs.map Reloaded.later).foldl (discoverDevice cfg h random') st') ↔
      AllUnmoved cfg h random random' st served rs := by
  induction rs generalizing st st' served with
  | nil => simp [AllUnmoved, hids]
  | cons r rs ih =>
    have hcount' : (discoverDevice cfg h random' st' r.later).scannerCount =
        (discoverDevice cfg h random st r.earlier).scannerCount := by
      rw [scannerCount_discoverDevice, scannerCount_discoverDevice, hcount]
      rfl
    rw [List.map_cons, List.map_cons, List.foldl_cons, List.foldl_cons, AllUnmoved]
    cases hign : cfg.matchIgnorelist r.info with
    | true =>
      have hearlier : discoverDevice cfg h random st r.earlier = st := if_pos hign
      have hlater : discoverDevice cfg h random' st' r.later = st' := if_pos hign
      have hpub : published cfg r.later = false := by
        simp [published, usable, Reloaded.later, hign]
      rw [hearlier, hlater, ih hserved hcount hids, hpub]
      simp
    | false =>
      have hearlier := identities_discoverDevice h random st r.earlier hign
      have hlater := identities_discoverDevice h random' st' r.later hign
      by_cases hu : Unmoved cfg h random random' st served r
      · have hid := (finish_identity_iff hserved hcount).2 hu
        have hnames : (st'.construct h r.later).mStableUniqueName =
            (st.construct h r.earlier).mStableUniqueName := by
          rw [finish_identity, finish_identity] at hid
          exact (Prod.mk.inj hid).1.symm
        have hserved' : (discoverDevice cfg h random' st' r.later).mScanners.map
              (·.pScanner.mStableUniqueName) =
            if published cfg r.later then
              served ++ [(st.construct h r.earlier).mStableUniqueName] else served := by
          rw [names_discoverDevice, hserved, hnames]
          split <;> simp
        rw [ih hserved' hcount' (by rw [hearlier, hlater, hids, hid])]
        simp [hu]
      · simp only [hu, imp_false, not_true_eq_false, false_and, iff_false]
        intro heq
        apply hu
        rw [← finish_identity_iff hserved hcount]
        have hpre := identities_begin cfg h random (discoverDevice cfg h random st r.earlier)
          (rs.map Reloaded.earlier)
        have hpre' := identities_begin cfg h random' (discoverDevice cfg h random' st' r.later)
          (rs.map Reloaded.later)
        rw [heq] at hpre
        rw [hearlier, hids] at hpre
        rw [hlater] at hpre'
        have hsame := (List.prefix_of_prefix_length_le hpre hpre' (by simp)).eq_of_length (by simp)
        simpa using hsame

end

/-- The reload of a server that no request thread keeps busy changes nothing. -/
theorem identities_of_not_held (cfg : Settings) (h : Hashing) (random random' : Uuid)
    (rs : List Reloaded) (hpath : pathPrefix cfg random = pathPrefix cfg random')
    (hsame : ∀ r ∈ rs, r.held = [] ∧ r.held' = [] ∧ r.announced' = r.announced) :
    identities (discover cfg h random (rs.map Reloaded.earlier)) =
      identities (discover cfg h random' (rs.map Reloaded.later)) := by
  apply (identities_iff_from rs rfl rfl rfl).2
  apply allUnmoved_of_not_held rs hpath (fun r hr => ⟨(hsame r hr).1, (hsame r hr).2.2⟩) _ rfl
  intro r hr s _
  rw [(hsame r hr).2.1]
  simp

end AirSane
