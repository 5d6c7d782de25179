import AirSane.Basic.Dictionary
import AirSane.Server.ScanArea

/-! # The page of a scanner

The form that `ScannerPage::onRender` writes. It takes the first color mode and the
first paper size, and divides by the width of the scanner.
-/

namespace AirSane
open Text Numbers Sanecpp

/-- Names with width and height in pixels at 300 dpi. -/
def paperSizes : List (String × ℤ × ℤ) :=
  [("A4 Portrait", 2480, 3508), ("A4 Landscape", 3508, 2480), ("A5 Portrait", 1748, 2480),
    ("A5 Landscape", 2480, 1748), ("A6 Portrait", 1240, 1748), ("A6 Landscape", 1748, 1240),
    ("US Letter", 2550, 3300), ("US Legal", 2550, 4200), ("Full", 0, 0)]

/-- The paper sizes that fit. -/
def papers (maxWidthPx300dpi maxHeightPx300dpi : ℤ) : List Octets :=
  (paperSizes.filter fun p => p.2.1 ≤ maxWidthPx300dpi ∧ p.2.2 ≤ maxHeightPx300dpi).map fun p =>
    ascii p.1

structure Select where
  name : Octets
  label : Octets
  options : List Octets
  value : Octets

structure Form where
  selects : List Select
  note : Octets
  imgwidth : ℤ
  imgheight : ℤ

section
variable {S : Type}

def formResolutions (r : Resolutions) : List Octets :=
  (r.mMinResDpi :: [300, 600, 1200].filter fun n => n ≤ r.mMaxResDpi).map fun n =>
    Web.integer n ++ ascii " dpi"

/-- What the user chose, with the defaults for the rest. -/
def formDefaults (colorMode paper : Octets) (d : Dictionary) : Dictionary :=
  [("InputSource", ascii "Platen"), ("DocumentFormat", ascii "image/jpeg"),
    ("Resolution", ascii "300 dpi"), ("ColorMode", colorMode), ("PaperSize", paper)].foldl
      (fun d (e : String × Octets) => d.applyDefaultValue (ascii e.1) e.2) d

/-- The part of `ScannerPage::onRender` behind the scan job, if it is defined. The
product of the preview may overflow, and wraps around where it does. -/
def scannerForm (i : Init2 S) (maxWidthPx300dpi maxHeightPx300dpi : ℤ) (d : Dictionary) :
    Option Form :=
  let modes := i.mColorModes.map ascii
  let papers := papers maxWidthPx300dpi maxHeightPx300dpi
  match modes.head?, papers.head? with
  | some colorMode, some paper =>
    let d := formDefaults colorMode paper d
    let select (name label : String) (options : List Octets) : Select :=
      ⟨ascii name, ascii label, options, d.getString (ascii name)⟩
    if maxWidthPx300dpi = 0 then none
    else some {
      selects := [select "DocumentFormat" "Document type" i.mDocumentFormats,
        select "ColorMode" "Color mode" modes,
        select "InputSource" "Input source" (i.mInputSources.map ascii),
        select "PaperSize" "Paper size" papers,
        select "Resolution" "Resolution" (formResolutions i.mResolutions)]
      note := if "Feeder" ∈ i.mInputSources then
          ascii "Choose \"Feeder\" input source and \"PDF\"<br>document type to scan multiple pages."
        else []
      imgwidth := 320
      imgheight := ((maxHeightPx300dpi * 320).bmod (2 ^ 32)).tdiv maxWidthPx300dpi }
  | _, _ => none

/-- What the page needs of a scanner. -/
structure Presentable (i : Init2 S) (maxWidthPx300dpi maxHeightPx300dpi : ℤ) : Prop where
  divisor : maxWidthPx300dpi ≠ 0
  colorModes : i.mColorModes ≠ []
  papers : papers maxWidthPx300dpi maxHeightPx300dpi ≠ []

theorem scannerForm_isSome_iff {i : Init2 S} {w h : ℤ} {d : Dictionary} :
    (scannerForm i w h d).isSome ↔ Presentable i w h := by
  rw [scannerForm]
  cases hm : i.mColorModes with
  | nil => exact iff_of_false (by simp) fun hp => hp.colorModes hm
  | cons mode modes =>
    cases hp : papers w h with
    | nil => exact iff_of_false (by simp) fun h => h.papers hp
    | cons paper rest =>
      simp only [List.map_cons, List.head?_cons]
      by_cases hw : w = 0
      · rw [if_pos hw]
        exact iff_of_false (by simp) fun h => h.divisor hw
      · rw [if_neg hw]
        exact iff_of_true rfl ⟨hw, by simp [hm], by simp [hp]⟩

/-- The last paper size fits any scanner. -/
theorem papers_ne_nil_iff {w h : ℤ} : papers w h ≠ [] ↔ 0 ≤ w ∧ 0 ≤ h := by
  have hpos : ∀ p ∈ paperSizes, 0 ≤ p.2.1 ∧ 0 ≤ p.2.2 := by decide
  constructor
  · intro hne
    obtain ⟨x, hx⟩ := List.exists_mem_of_ne_nil _ hne
    obtain ⟨p, hp, -⟩ := List.mem_map.1 hx
    obtain ⟨hmem, hfit⟩ := List.mem_filter.1 hp
    have hfit : p.2.1 ≤ w ∧ p.2.2 ≤ h := by simpa using hfit
    exact ⟨(hpos p hmem).1.trans hfit.1, (hpos p hmem).2.trans hfit.2⟩
  · intro hwh
    have hfull : ("Full", 0, 0) ∈ paperSizes.filter fun p => p.2.1 ≤ w ∧ p.2.2 ≤ h :=
      List.mem_filter.2 ⟨by decide, by simpa using hwh⟩
    exact List.ne_nil_of_mem (List.mem_map_of_mem hfull)

section
variable {b : Backend S} {s : S} {i : Init2 S} {names : List Octets}

theorem addPlaten_mColorModes : (i.addPlaten b names).mColorModes = i.mColorModes := by
  rw [Init2.addPlaten]
  split
  · exact addSource_other (f := (·.mColorModes)) fun _ _ _ _ _ _ => rfl
  · rfl

theorem addFeeder_mColorModes : (i.addFeeder names).mColorModes = i.mColorModes := by
  rw [Init2.addFeeder]
  split_ifs <;> rfl

theorem addAdfSimplex_mColorModes : (i.addAdfSimplex b names).mColorModes = i.mColorModes := by
  rw [Init2.addAdfSimplex]
  split_ifs
  · exact addSource_other (f := (·.mColorModes)) fun _ _ _ _ _ _ => rfl
  · rfl

theorem addAdfDuplex_mColorModes : (i.addAdfDuplex b names).mColorModes = i.mColorModes := by
  rw [Init2.addAdfDuplex]
  split_ifs
  · exact addSource_other (f := (·.mColorModes)) fun _ _ _ _ _ _ => rfl
  · rfl

/-- Without a mode that is known by name a gray one is assumed. -/
theorem start_mColorModes_ne_nil (resolutions : Resolutions) :
    (Init2.start b s resolutions).mColorModes ≠ [] := by
  simp only [Init2.start]
  set modes := if b.modes s = [] then [ascii "Gray", ascii "Color"] else b.modes s
  by_cases hc : findColorName modes = []
  · by_cases hg : findGrayName modes = []
    · have hgray : ascii "Gray" ≠ [] := by decide
      simp [hc, hg, hgray]
    · simp [hc, hg]
  · simp [hc]

theorem addDeepModes_mColorModes_ne_nil (hne : i.mColorModes ≠ []) :
    i.addDeepModes.mColorModes ≠ [] := by
  rw [Init2.addDeepModes]
  split
  · simp [hne]
  · exact hne

theorem mColorModes_ne_nil (hi : init2 b (some s) = .ok i) : i.mColorModes ≠ [] := by
  cases hr : b.resolution s with
  | none => simp [init2, hr] at hi
  | some resolutions =>
    have hread : (Init2.read b s resolutions).mColorModes ≠ [] := by
      rw [Init2.read, addAdfDuplex_mColorModes, addAdfSimplex_mColorModes, addFeeder_mColorModes,
        addPlaten_mColorModes]
      exact start_mColorModes_ne_nil resolutions
    rw [init2_eq hr] at hi
    split at hi
    · cases hi
    · rw [← Except.ok.inj hi]
      exact addDeepModes_mColorModes_ne_nil hread

end

section
variable {F : Arithmetic} {d : Double}

/-- The arithmetic of another machine, which makes something else of a number
that does not fit. -/
def Arithmetic.on (F : Arithmetic) (machine : Double → ℤ) : Arithmetic := { F with machine := machine }

theorem toInt_finite (machine : Double → ℤ) {n : ℤ} (h0 : 0 ≤ n) (hn : n < 2 ^ 31) :
    (F.on machine).toInt (.finite n) = n := by
  have htrunc : truncate (n : ℚ) = n := by
    rw [truncate, if_pos (by exact_mod_cast h0), Int.floor_intCast]
  have hint : InInt n := ⟨by omega, hn⟩
  simp [Arithmetic.toInt, htrunc, hint]

theorem toInt_large (machine : Double → ℤ) (hd : IsSize d) (h : d.Reaches (2 ^ 31)) :
    (F.on machine).toInt d = machine d := by
  rcases hd with rfl | ⟨n, h0, rfl⟩
  · rfl
  · have hn : ¬ n < 2 ^ 31 := by
      have : ((2 ^ 31 : ℤ) : ℚ) ≤ n := by exact_mod_cast Extended.reaches_finite.1 h
      exact not_lt.2 (by exact_mod_cast this)
    have htrunc : truncate (n : ℚ) = n := by
      rw [truncate, if_pos (by exact_mod_cast h0), Int.floor_intCast]
    have hint : ¬ InInt n := fun hi => hn hi.2
    simp only [Arithmetic.toInt, htrunc, if_neg hint]
    rfl

theorem toInt_nonneg (machine : Double → ℤ) (hd : IsSize d) (h : ¬ d.Reaches (2 ^ 31)) :
    ∃ n : ℤ, 0 ≤ n ∧ d = .finite n ∧ (F.on machine).toInt d = n := by
  rcases hd with rfl | ⟨n, h0, rfl⟩
  · exact absurd rfl h
  · have hn : (n : ℚ) < (2 ^ 31 : ℤ) := by
      push_cast
      exact not_le.1 (mt Extended.reaches_finite.2 h)
    exact ⟨n, h0, rfl, toInt_finite machine h0 (by exact_mod_cast hn)⟩

end

section
variable {F : Arithmetic} {t : OptionTable S} {device : S} {i : Init2 S}

/-- The page of a scanner that is served can be made, for every form that is sent and
whatever a size that does not fit is converted to. -/
def Renders (F : Arithmetic) (t : OptionTable S) (device : S) : Prop :=
  ∀ i, init2 (t.backend F) (some device) = .ok i → ∀ machine d,
    (scannerForm i ((F.on machine).toInt (t.bounds F device).1)
      ((F.on machine).toInt (t.bounds F device).2) d).isSome

theorem renders_iff_presentable (hi : init2 (t.backend F) (some device) = .ok i) :
    Renders F t device ↔ ∀ machine, Presentable i ((F.on machine).toInt (t.bounds F device).1)
      ((F.on machine).toInt (t.bounds F device).2) := by
  constructor
  · exact fun h machine => scannerForm_isSome_iff.1 (h i hi machine [])
  · intro h i' hi' machine d
    obtain rfl := Except.ok.inj (hi.symm.trans hi')
    exact scannerForm_isSome_iff.2 (h machine)

/-- A size is given to the page as it is, unless it has 2³¹ pixels or more. -/
theorem presentable_iff (hm : i.mColorModes ≠ []) {w h : Double} (hw : IsSize w) (hh : IsSize h) :
    (∀ machine, Presentable i ((F.on machine).toInt w) ((F.on machine).toInt h)) ↔
      w.Reaches 1 ∧ ¬ w.Reaches (2 ^ 31) ∧ ¬ h.Reaches (2 ^ 31) := by
  constructor
  · intro hp
    have hfit : ∀ {d}, IsSize d → (∀ machine, 0 ≤ (F.on machine).toInt d) →
        ¬ d.Reaches (2 ^ 31) := by
      intro d hd hpos hlarge
      have := hpos fun _ => -1
      rw [toInt_large _ hd hlarge] at this
      omega
    have hwfit := hfit hw fun machine => (papers_ne_nil_iff.1 (hp machine).papers).1
    refine ⟨?_, hwfit, hfit hh fun machine => (papers_ne_nil_iff.1 (hp machine).papers).2⟩
    obtain ⟨n, h0, rfl, hn⟩ := toInt_nonneg (F := F) (fun _ => 0) hw hwfit
    have hne : n ≠ 0 := hn ▸ (hp fun _ => 0).divisor
    have hone : 1 ≤ n := by omega
    exact Extended.reaches_finite.2 (by exact_mod_cast hone)
  · rintro ⟨hone, hwfit, hhfit⟩ machine
    obtain ⟨n, h0, rfl, hn⟩ := toInt_nonneg (F := F) machine hw hwfit
    obtain ⟨m, hm0, rfl, hm'⟩ := toInt_nonneg (F := F) machine hh hhfit
    have hone : (1 : ℤ) ≤ n := by exact_mod_cast Extended.reaches_finite.1 hone
    rw [hn, hm']
    exact ⟨by omega, hm, papers_ne_nil_iff.2 ⟨h0, hm0⟩⟩

theorem renders_iff (hi : init2 (t.backend F) (some device) = .ok i) : Renders F t device ↔
    (∃ s ∈ t.visited F device, Spans F (t.option s) (·.mMaxWidth) 1) ∧
      ∀ s ∈ t.visited F device, ¬ Spans F (t.option s) (·.mMaxWidth) (2 ^ 31) ∧
        ¬ Spans F (t.option s) (·.mMaxHeight) (2 ^ 31) := by
  obtain ⟨hw, hh⟩ := isSize_bounds (F := F) (t := t) device
  rw [renders_iff_presentable hi, presentable_iff (mColorModes_ne_nil hi) hw hh,
    reaches_width one_pos, reaches_width (by norm_num), reaches_height (by norm_num)]
  simp only [not_exists, not_and, forall_and]

/-- A flatbed with a constraint for its right edge, in millimeters. -/
def flatbed (right : Constraint) : OptionTable Unit where
  option _ name :=
    if name = SANE_NAME_SCAN_BR_X then ⟨some ⟨.int, .mm, 4, right⟩, none⟩
    else if name ∈ [SANE_NAME_SCAN_TL_X, SANE_NAME_SCAN_TL_Y, SANE_NAME_SCAN_BR_Y] then
      ⟨some ⟨.int, .mm, 4, .range 0 297 1⟩, none⟩
    else if name = SANE_NAME_SCAN_RESOLUTION then
      ⟨some ⟨.int, .dpi, 4, .wordList [75, 150, 300]⟩, some 300⟩
    else .missing
  source _ := []
  setSource _ s := s

theorem renders_iff_flatbed :
    Renders (.ieee (fun _ => 0) fun x _ => x) (flatbed (.range 0 216 1)) () := by
  have hvisited : (flatbed (.range 0 216 1)).visited (.ieee (fun _ => 0) fun x _ => x) () = [()] := rfl
  refine (renders_iff rfl).2 ?_
  rw [hvisited]
  decide +kernel

theorem not_renders_flatbed : ¬ Renders (.ieee (fun _ => 0) fun x _ => x) (flatbed .none) () := by
  intro h
  have hp := scannerForm_isSome_iff.1 (h _ rfl (fun _ => 0) [])
  exact hp.divisor (by decide +kernel)

end
end
end AirSane
