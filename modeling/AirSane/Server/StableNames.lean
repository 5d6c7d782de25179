import AirSane.Server.Reload
import Mathlib.Order.Bounds.Basic

/-! # The scanners that exist

`Scanner::Private` enters itself into `sInstances` when it is constructed, and is
taken out again by the destructor. In between it gets the first numbered name that
no other instance has, so the names of the instances differ at any time.
-/

namespace AirSane
open Text Numbering

/-- A scanner at its address. -/
structure Instance where
  this : ℕ
  scanner : Scanner

/-- `Scanner::Private::sInstances`. -/
abbrev Instances := List Instance

/-- A scanner before `init`. -/
def Scanner.blank : Scanner where
  mDeviceInfo := ⟨[], [], []⟩
  mMakeAndModel := []
  mPublishedName := []
  mStableUniqueName := []
  mUuid := []
  mUri := []
  mAdminUrl := []
  mIconUrl := []
  mError := none
  data := .empty

namespace Instances

def names (is : Instances) : List Octets := is.map (·.scanner.mStableUniqueName)

/-- Another instance has the name. -/
def found (is : Instances) (this : ℕ) (name : Octets) : Bool :=
  is.any fun p => p.this ≠ this && p.scanner.mStableUniqueName = name

/-- The loop of `generateStableUniqueName`, behind the number `i`. -/
def uniqueName (is : Instances) (this : ℕ) (s : Octets) : ℕ → ℕ → Option Octets
  | 0, _ => none
  | fuel + 1, i =>
    let name := Scanner.numbered s (i + 1)
    if is.found this name then uniqueName is this s fuel (i + 1) else some name

section
variable (h : Hashing) (fuel this : ℕ) (info : DeviceInfo) (is : Instances)

def assign (f : Scanner → Scanner) : Instances :=
  is.map fun p => if p.this = this then { p with scanner := f p.scanner } else p

/-- `Scanner::Private::init`. -/
def init : Option Instances :=
  (is.uniqueName this (Scanner.stableName info) fuel 0).map fun name =>
    is.assign this fun s =>
      { s with
        mDeviceInfo := info
        mMakeAndModel := Scanner.makeAndModel info
        mPublishedName := Scanner.makeAndModel info
        mStableUniqueName := name
        mUuid := (Uuid.initFromString h name).toString }

/-- `Scanner::Scanner`, with the private part at a new address. -/
def construct : Option Instances := init h fuel this info (⟨this, .blank⟩ :: is)

/-- `Scanner::~Scanner`. -/
def destroy : Instances := is.filter (·.this ≠ this)

end
end Instances

/-- A scanner is made at an address, or the one at an address goes. -/
inductive ScannerOp where
  | construct (this : ℕ) (info : DeviceInfo)
  | destroy (this : ℕ)

/-- What an operation does. A new object is nowhere where another one is, and its
constructor returns. -/
inductive ScannerStep (h : Hashing) : Instances → ScannerOp → Instances → Prop where
  | construct {is is' : Instances} {fuel this : ℕ} {info : DeviceInfo}
    (hnew : ∀ p ∈ is, p.this ≠ this) (hs : is.construct h fuel this info = some is') :
    ScannerStep h is (.construct this info) is'
  | destroy {is : Instances} {this : ℕ} (hold : ∃ p ∈ is, p.this = this) :
    ScannerStep h is (.destroy this) (is.destroy this)

/-- What operations lead to, one after the other, where there was no scanner. -/
inductive ScannerRun (h : Hashing) : List ScannerOp → Instances → Prop where
  | start : ScannerRun h [] []
  | step {ops : List ScannerOp} {op : ScannerOp} {is is' : Instances} (hrun : ScannerRun h ops is)
    (hstep : ScannerStep h is op is') : ScannerRun h (ops ++ [op]) is'

/-- What is before the first colon of a device name, and the colon; a name that has
none gets one. -/
inductive DevicePrefix : Octets → Octets → Prop where
  | colon {front : Octets} (rest : Octets) (h : 58 ∉ front) :
    DevicePrefix (front ++ 58 :: rest) (front ++ [58])
  | whole {name : Octets} (h : 58 ∉ name) : DevicePrefix name (name ++ [58])

/-- Prefix, make and model, and a number. -/
def DeviceInfo.spelled (info : DeviceInfo) (front : Octets) (i : ℕ) : Octets :=
  front ++ (info.vendor ++ 32 :: info.model) ++ 58 :: numeral 10 i

/-- A name as of its making has the smallest number that makes it one that no one else
has. -/
def Named (taken : List Octets) (info : DeviceInfo) (name : Octets) : Prop :=
  ∃ front, DevicePrefix info.name front ∧ ∃ i ≤ taken.length + 1,
    name = info.spelled front i ∧ IsLeast {i | 0 < i ∧ info.spelled front i ∉ taken} i

section
variable {h : Hashing} {fuel this i : ℕ} {info : DeviceInfo} {is is' : Instances}
  {s name : Octets} {taken : List Octets}

theorem stableName_of_prefix {front : Octets} (hp : DevicePrefix info.name front) :
    Scanner.stableName info = front ++ (info.vendor ++ 32 :: info.model) ++ [58] := by
  have hcolon : ascii ":" = [58] := rfl
  have hspace : ascii " " = [32] := rfl
  rw [Scanner.stableName, Scanner.makeAndModel, hcolon, hspace]
  generalize info.name = name at hp ⊢
  cases hp with
  | @colon front rest hf =>
    have hall : ∀ b ∈ front, decide (b ≠ 58) = true := by
      intro b hb
      simpa using fun he : b = 58 => hf (he ▸ hb)
    rw [if_pos (by simp), List.takeWhile_append_of_pos hall]
    simp
  | whole hn => simp [hn]

theorem exists_prefix (name : Octets) : ∃ front, DevicePrefix name front := by
  by_cases h : 58 ∈ name
  · obtain ⟨front, rest, rfl, hf⟩ := List.eq_append_cons_of_mem h
    exact ⟨_, .colon rest hf⟩
  · exact ⟨_, .whole h⟩

/-- The name of a new scanner among those that are there. -/
theorem named_new (taken : List Octets) (info : DeviceInfo) :
    Named taken info (Scanner.generateStableUniqueName taken (Scanner.stableName info)) := by
  obtain ⟨front, hp⟩ := exists_prefix info.name
  have hname : Scanner.numbered (Scanner.stableName info) = info.spelled front := by
    funext i
    rw [Scanner.numbered, stableName_of_prefix hp, List.append_assoc]
    rfl
  have hinj : (info.spelled front).Injective := hname ▸ numbered_injective
  obtain ⟨hpos, hfree, hlow⟩ := firstFree_spec taken 1 hinj
  have hle := firstFree_le taken 1 hinj
  rw [Scanner.generateStableUniqueName, hname]
  refine ⟨front, hp, _, by omega, rfl, ⟨hpos, hfree⟩, fun j hj => ?_⟩
  by_contra hlt
  exact hj.2 (hlow j hj.1 (by omega))

namespace Instances

/-- The other instances are those that were there before. -/
theorem found_cons (hnew : ∀ p ∈ is, p.this ≠ this) (scanner : Scanner) (name : Octets) :
    found (⟨this, scanner⟩ :: is) this name = decide (name ∈ is.names) := by
  rw [Bool.eq_iff_iff, found, List.any_eq_true, decide_eq_true_eq, names, List.mem_map]
  constructor
  · rintro ⟨p, hp, hname⟩
    simp only [Bool.and_eq_true, decide_eq_true_eq] at hname
    rcases List.mem_cons.1 hp with rfl | hp
    · exact absurd rfl hname.1
    · exact ⟨p, hp, hname.2⟩
  · rintro ⟨p, hp, rfl⟩
    exact ⟨p, List.mem_cons_of_mem _ hp, by simpa using hnew p hp⟩

/-- The loop returns if it comes to a free name. -/
theorem uniqueName_eq_some (hfound : ∀ name, is.found this name = decide (name ∈ taken)) :
    is.uniqueName this s fuel i = some name ↔
      ∃ j, i ≤ j ∧ j < i + fuel ∧ name = Scanner.numbered s (j + 1) ∧
        Scanner.numbered s (j + 1) ∉ taken ∧
        ∀ k, i ≤ k → k < j → Scanner.numbered s (k + 1) ∈ taken := by
  induction fuel generalizing i with
  | zero =>
    rw [uniqueName]
    refine iff_of_false (by simp) ?_
    rintro ⟨j, hj, hlt, -⟩
    omega
  | succ fuel ih =>
    rw [uniqueName, hfound]
    by_cases hi : Scanner.numbered s (i + 1) ∈ taken
    · rw [if_pos (decide_eq_true hi), ih]
      constructor
      · rintro ⟨j, hj, hlt, hname, hfree, hlow⟩
        refine ⟨j, by omega, by omega, hname, hfree, fun k hk hkj => ?_⟩
        rcases hk.eq_or_lt with rfl | hk
        · exact hi
        · exact hlow k hk hkj
      · rintro ⟨j, hj, hlt, hname, hfree, hlow⟩
        have hne : i ≠ j := fun he => hfree (he ▸ hi)
        exact ⟨j, by omega, by omega, hname, hfree, fun k hk hkj => hlow k (by omega) hkj⟩
    · rw [if_neg (by simpa using hi)]
      constructor
      · intro hname
        exact ⟨i, le_rfl, by omega, (Option.some.inj hname).symm, hi, fun k hk hki => by omega⟩
      · rintro ⟨j, hj, hlt, rfl, hfree, hlow⟩
        rcases hj.eq_or_lt with rfl | hj
        · rfl
        · exact absurd (hlow i le_rfl hj) hi

theorem uniqueName_eq (hfound : ∀ name, is.found this name = decide (name ∈ taken)) :
    is.uniqueName this s fuel 0 = some name ↔
      firstFree (Scanner.numbered s) taken 1 ≤ fuel ∧
        name = Scanner.generateStableUniqueName taken s := by
  rw [uniqueName_eq_some hfound]
  have hinj : (Scanner.numbered s).Injective := numbered_injective
  constructor
  · rintro ⟨j, -, hlt, rfl, hfree, hlow⟩
    have hj : firstFree (Scanner.numbered s) taken 1 = j + 1 := by
      refine (firstFree_eq_iff hinj (by omega)).2 ⟨hfree, fun k hk hkj => ?_⟩
      obtain ⟨m, rfl⟩ := Nat.exists_eq_add_of_le' hk
      exact hlow m (Nat.zero_le m) (by omega)
    rw [Scanner.generateStableUniqueName, hj]
    exact ⟨by omega, rfl⟩
  · rintro ⟨hle, rfl⟩
    obtain ⟨hpos, hfree, hlow⟩ := firstFree_spec taken 1 hinj
    obtain ⟨m, hm⟩ := Nat.exists_eq_add_of_le' hpos
    rw [Scanner.generateStableUniqueName]
    rw [hm] at hfree hle hlow ⊢
    exact ⟨m, Nat.zero_le m, by omega, rfl, hfree, fun k _ hk => hlow (k + 1) (by omega) (by omega)⟩

/-- The constructor adds the scanner that has the first free name. -/
theorem construct_eq_some (hnew : ∀ p ∈ is, p.this ≠ this) :
    is.construct h fuel this info = some is' ↔
      firstFree (Scanner.numbered (Scanner.stableName info)) is.names 1 ≤ fuel ∧
        is' = ⟨this, Scanner.new h is.names info⟩ :: is := by
  have hrest (f : Scanner → Scanner) : is.assign this f = is :=
    (List.map_congr_left fun p hp => if_neg (hnew p hp)).trans (List.map_id is)
  have hinit (f : Scanner → Scanner) :
      assign this (⟨this, .blank⟩ :: is) f = ⟨this, f .blank⟩ :: is := by
    rw [assign, List.map_cons, if_pos rfl]
    exact congrArg _ (hrest f)
  rw [construct, init, Option.map_eq_some_iff]
  simp only [uniqueName_eq (found_cons hnew _), hinit]
  constructor
  · rintro ⟨name, ⟨hle, rfl⟩, rfl⟩
    exact ⟨hle, rfl⟩
  · rintro ⟨hle, rfl⟩
    exact ⟨_, ⟨hle, rfl⟩, rfl⟩

theorem mem_destroy {p : Instance} : p ∈ is.destroy this ↔ p ∈ is ∧ p.this ≠ this := by
  rw [destroy, List.mem_filter, decide_eq_true_eq]

/-- The order of the instances makes no difference for a new name. -/
theorem generateStableUniqueName_congr (h : ∀ n, n ∈ is.names ↔ n ∈ is'.names) :
    Scanner.generateStableUniqueName is.names s = Scanner.generateStableUniqueName is'.names s := by
  rw [generateStableUniqueName_eq_iff]
  have hfirst : FirstFree s is'.names (Scanner.generateStableUniqueName is'.names s) :=
    generateStableUniqueName_eq_iff.1 rfl
  simpa only [FirstFree, h] using hfirst

end Instances

namespace ScannerRun
open Instances
variable {ops : List ScannerOp} {op : ScannerOp}

theorem step_cases (hstep : ScannerStep h is op is') :
    (∃ this info, op = .construct this info ∧ (∀ p ∈ is, p.this ≠ this) ∧
      is' = ⟨this, Scanner.new h is.names info⟩ :: is) ∨
    ∃ this, op = .destroy this ∧ is' = is.destroy this := by
  cases hstep with
  | construct hnew hs => exact .inl ⟨_, _, rfl, hnew, ((construct_eq_some hnew).1 hs).2⟩
  | destroy hold => exact .inr ⟨_, rfl, rfl⟩

/-- The instances have names of their own. -/
theorem nodup (hrun : ScannerRun h ops is) : is.names.Nodup := by
  induction hrun with
  | start => exact List.nodup_nil
  | @step ops op is is' hrun hstep ih =>
    rcases step_cases hstep with ⟨this, info, -, -, rfl⟩ | ⟨this, -, rfl⟩
    · exact List.nodup_cons.2 ⟨(firstFree_spec is.names 1 numbered_injective).2.1, ih⟩
    · exact ih.sublist (List.filter_sublist.map _)

/-- Each instance has the name that it was given by its constructor, among those of
the scanners that there were. -/
theorem named (hrun : ScannerRun h ops is) : ∀ p ∈ is, ∃ pre info post before,
    ops = pre ++ .construct p.this info :: post ∧ .destroy p.this ∉ post ∧
      ScannerRun h pre before ∧ Named before.names info p.scanner.mStableUniqueName := by
  induction hrun with
  | start => exact fun p hp => absurd hp List.not_mem_nil
  | @step ops op is is' hrun hstep ih =>
    -- What was made before is still there, unless this step destroys it.
    have hkeep : ∀ p ∈ is, op ≠ .destroy p.this → ∃ pre info post before,
        ops ++ [op] = pre ++ .construct p.this info :: post ∧ .destroy p.this ∉ post ∧
          ScannerRun h pre before ∧ Named before.names info p.scanner.mStableUniqueName := by
      intro p hp hop
      obtain ⟨pre, info, post, before, rfl, hpost, hpre, hname⟩ := ih p hp
      refine ⟨pre, info, post ++ [op], before, by simp, ?_, hpre, hname⟩
      exact List.not_mem_append hpost (by simpa using Ne.symm hop)
    rcases step_cases hstep with ⟨this, info, rfl, -, rfl⟩ | ⟨this, rfl, rfl⟩
    · intro p hp
      rcases List.mem_cons.1 hp with rfl | hp
      · exact ⟨ops, info, [], is, rfl, List.not_mem_nil, hrun, named_new is.names info⟩
      · exact hkeep p hp (by simp)
    · intro p hp
      obtain ⟨hp, hne⟩ := mem_destroy.1 hp
      exact hkeep p hp (by simpa using Ne.symm hne)

theorem mem_construct (hnew : ∀ p ∈ is, p.this ≠ this)
    (hs : is.construct h fuel this info = some is') {p : Instance} (hp : p ∈ is')
    (hthis : p.this = this) :
    p.scanner.mStableUniqueName =
      Scanner.generateStableUniqueName is.names (Scanner.stableName info) := by
  obtain ⟨-, rfl⟩ := (construct_eq_some hnew).1 hs
  rcases List.mem_cons.1 hp with rfl | hp
  · rfl
  · exact absurd hthis (hnew p hp)

end ScannerRun

/-- The scanners that operations lead to: they have names of their own, which are made
up as of their construction. The constructor of another one returns, and the name that
it gives is the same for names that have the same prefix. -/
structure StableNames (h : Hashing) (ops : List ScannerOp) (is : Instances) : Prop where
  distinct : is.names.Nodup
  named : ∀ p ∈ is, ∃ pre info post before,
    ops = pre ++ .construct p.this info :: post ∧ .destroy p.this ∉ post ∧
      ScannerRun h pre before ∧ Named before.names info p.scanner.mStableUniqueName
  returns : ∀ this info, (∀ p ∈ is, p.this ≠ this) →
    ∃ is', ∀ fuel > is.length, is.construct h fuel this info = some is'
  stable : ∀ is' : Instances, (∀ name, name ∈ is.names ↔ name ∈ is'.names) →
    ∀ this this' info info' front fuel fuel' r r',
      (∀ p ∈ is, p.this ≠ this) → (∀ p ∈ is', p.this ≠ this') →
      DevicePrefix info.name front → DevicePrefix info'.name front →
      info.vendor = info'.vendor → info.model = info'.model →
      is.construct h fuel this info = some r → is'.construct h fuel' this' info' = some r' →
      ∀ p ∈ r, p.this = this → ∀ p' ∈ r', p'.this = this' →
        p.scanner.mStableUniqueName = p'.scanner.mStableUniqueName

theorem stableNames {ops : List ScannerOp} (hrun : ScannerRun h ops is) :
    StableNames h ops is where
  distinct := hrun.nodup
  named := hrun.named
  returns this info hnew := by
    refine ⟨⟨this, Scanner.new h is.names info⟩ :: is, fun fuel hfuel => ?_⟩
    have hle := firstFree_le is.names 1 (numbered_injective (s := Scanner.stableName info))
    have hlen : is.names.length = is.length := List.length_map _
    exact (Instances.construct_eq_some hnew).2 ⟨by omega, rfl⟩
  stable is' hnames this this' info info' front fuel fuel' r r' hnew hnew' hp hp' hvendor hmodel
      hr hr' p hpr hthis p' hpr' hthis' := by
    rw [ScannerRun.mem_construct hnew hr hpr hthis, ScannerRun.mem_construct hnew' hr' hpr' hthis',
      stableName_of_prefix hp, stableName_of_prefix hp', hvendor, hmodel]
    exact Instances.generateStableUniqueName_congr hnames

/-- A device is found again after its scanner went away, while another one is there. -/
theorem stableNames_gap :
    let h : Hashing := ⟨[], fun _ _ => 0⟩
    let usb (bus : String) : DeviceInfo := ⟨ascii "usb:" ++ ascii bus, ascii "A", ascii "B"⟩
    ∃ is, is.names = [ascii "usb:A B:1", ascii "usb:A B:2"] ∧
      StableNames h [.construct 1 (usb "001"), .construct 2 (usb "002"), .destroy 1,
        .construct 1 (usb "003")] is := by
  intro h usb
  have hmake {ops : List ScannerOp} {is : Instances} (this : ℕ) (bus : String)
      (hrun : ScannerRun h ops is) (hnew : ∀ p ∈ is, p.this ≠ this) :
      ScannerRun h (ops ++ [.construct this (usb bus)])
        (⟨this, Scanner.new h is.names (usb bus)⟩ :: is) :=
    .step hrun (.construct hnew ((Instances.construct_eq_some hnew).2 ⟨le_rfl, rfl⟩))
  have htwo := hmake 2 "002" (hmake 1 "001" .start (by simp)) (by simp)
  have hgone : ScannerRun h (_ ++ [.destroy 1]) (Instances.destroy 1 _) :=
    .step htwo (.destroy ⟨_, List.mem_cons_of_mem _ List.mem_cons_self, rfl⟩)
  refine ⟨_, ?_, stableNames (hmake 1 "003" hgone ?_)⟩
  · decide +kernel
  · simp [Instances.destroy]

end
end AirSane
