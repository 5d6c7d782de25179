import AirSane.ScanJob.Code
import AirSane.ScanJob.Determined
import AirSane.ScanJob.Doubles

/-! # The area of a scan

In exact arithmetic, the region that `init` takes from a ticket in 300ths of an
inch, and what `openSession` makes of it in the unit of the options, as an area on
paper. A side that the ticket leaves out has the right length at 300 dpi only.
-/

namespace AirSane.ScanJob
open Text Numbers

/-- The edges of the region before they are rounded. -/
def Settings.scaled (s : Settings) (unit : SaneUnit) : List ℚ :=
  let edges := [s.left_px, s.top_px, s.left_px + s.width_px, s.top_px + s.height_px]
  match unit with
  | .mm => edges.map (· * ((254 : ℚ) / 10 / s.res_dpi))
  | _ => edges

theorem region_eq_scaled (s : Settings) (unit : SaneUnit) :
    s.region unit = (s.scaled unit).map fun x => ((x + 1 / 2).floor : ℚ) := rfl

/-- How many of a unit are an inch. -/
def Settings.perInch (s : Settings) : SaneUnit → ℚ
  | .mm => 254 / 10
  | _ => s.res_dpi

/-- The edges on paper. -/
def Settings.inches (s : Settings) (unit : SaneUnit) : List ℚ :=
  (s.scaled unit).map (· / s.perInch unit)

/-- The number in a `double` that is one. -/
def valueOf : Double → ℚ
  | .finite x => x
  | _ => 0

/-- The settings of a session with the region of a job. -/
def Job.withRegion (j : Job Double) (s : Settings) : Settings :=
  { s with
    res_dpi := j.mRes_dpi
    left_px := valueOf j.mLeft_px
    top_px := valueOf j.mTop_px
    width_px := valueOf j.mWidth_px
    height_px := valueOf j.mHeight_px }

/-- A number of the ticket, or what stands for it. -/
def Arithmetic.requested (F : Arithmetic) (xml : Octets) (name : String) (missing : ℚ) : ℚ :=
  match getNumber F.doubles xml (ascii name) with
  | .finite x => x
  | _ => missing

section
variable (F : Arithmetic) (scanner : ScannerDescription) (xml : Octets)

/-- The edges that the ticket asks for, in inches. -/
def requestedInches : List ℚ :=
  let left := Arithmetic.requested F xml "XOffset" 0
  let top := Arithmetic.requested F xml "YOffset" 0
  let width := Arithmetic.requested F xml "Width" scanner.maxWidthPx300dpi
  let height := Arithmetic.requested F xml "Height" scanner.maxHeightPx300dpi
  [left / 300, top / 300, (left + width) / 300, (top + height) / 300]

/-- Whatever the unit of the options, the area on paper is the one asked for. -/
def AsRequested (j : Job Double) : Prop :=
  ∀ s : Settings, ∀ unit, unit = .pixel ∨ unit = .mm →
    (j.withRegion s).inches unit = requestedInches F scanner xml

end

theorem inches_eq (s : Settings) (h : s.res_dpi ≠ 0) {unit : SaneUnit}
    (hu : unit = .pixel ∨ unit = .mm) : s.inches unit =
      [s.left_px / s.res_dpi, s.top_px / s.res_dpi, (s.left_px + s.width_px) / s.res_dpi,
        (s.top_px + s.height_px) / s.res_dpi] := by
  rcases hu with rfl | rfl
  · rfl
  · have hscale (x : ℚ) : x * ((254 : ℚ) / 10 / s.res_dpi) / (254 / 10) = x / s.res_dpi := by
      have hne : (s.res_dpi : ℚ) ≠ 0 := by exact_mod_cast h
      field_simp
    simp only [Settings.inches, Settings.scaled, Settings.perInch, List.map_cons, List.map_nil,
      hscale]

section
variable {machine : Double → ℤ} {pow : Double → Double → Double} {scanner : ScannerDescription}
variable {xml : Octets}

/-- A setting is a number or none. -/
theorem exact_number (machine : Double → ℤ) (pow : Double → Double → Double) (xml name : Octets) :
    getNumber (Arithmetic.exact machine pow).doubles xml name = .nan ∨
      ∃ x, getNumber (Arithmetic.exact machine pow).doubles xml name = .finite x := by
  rw [getNumber, Doubles.strtod_c]
  cases he : (Arithmetic.exact machine pow).doubles.extract (getString xml name) with
  | some d =>
    right
    change (Arithmetic.exact machine pow).extract (getString xml name) = some d at he
    rw [Arithmetic.extract] at he
    cases hs : scan ((getString xml name).dropWhile isspace) with
    | none => simp [hs] at he
    | some l =>
      rw [hs] at he
      exact ⟨_, (Option.some.inj he).symm⟩
  | none =>
    split_ifs
    · exact .inr ⟨1, rfl⟩
    · exact .inr ⟨0, rfl⟩
    · exact .inl rfl

/-- The stages of `init` after the geometry leave it alone. -/
theorem init_withRegion (A : Doubles Double) (autoselectFormat : Bool) (options : Options Double)
    (j : Job Double) (s : Settings) :
    (j.init A scanner xml autoselectFormat options).withRegion s =
      (j.setGeometry A scanner xml).withRegion s := by
  have hmode (k : Job Double) : (k.setColorMode scanner xml).withRegion s = k.withRegion s := by
    rw [Job.setColorMode]
    split
    · split_ifs <;> rfl
    · rfl
  have hdefault (k : Job Double) : (k.defaultColorMode scanner).withRegion s = k.withRegion s := by
    rw [Job.defaultColorMode]
    split_ifs <;> rfl
  have hsource (k : Job Double) : (k.setInputSource A scanner xml).withRegion s =
      k.withRegion s := by
    rw [Job.setInputSource]
    split_ifs <;> rfl
  have hstate (k : Job Double) : (k.setState A scanner xml).withRegion s = k.withRegion s := by
    rw [Job.setState]
    split_ifs <;> rfl
  calc (j.init A scanner xml autoselectFormat options).withRegion s
      = (j.choose A scanner xml).withRegion s := by
        rw [Job.init, hstate]
        exact hsource _
    _ = (j.setGeometry A scanner xml).withRegion s := by
        rw [Job.choose, hdefault, hmode]
        rfl

/-- A side as `init` takes it, at so many pixels an inch. -/
def side (xml : Octets) (machine : Double → ℤ) (pow : Double → Double → Double) (name : String)
    (missing n : ℤ) : ℚ :=
  if getNumber (Arithmetic.exact machine pow).doubles xml (ascii name) = .nan then missing
  else Arithmetic.requested (.exact machine pow) xml name 0 * (n / 300)

theorem withRegion_setGeometry {n : ℤ} (j : Job Double) (s : Settings)
    (hu : getString xml (ascii "ContentRegionUnits") = ascii "escl:ThreeHundredthsOfInches")
    (hr : (Arithmetic.exact machine pow).resolution xml = .finite n) (hn : InInt n) :
    (j.setGeometry (Arithmetic.exact machine pow).doubles scanner xml).withRegion s =
      { s with
        res_dpi := n
        left_px := Arithmetic.requested (.exact machine pow) xml "XOffset" 0 * (n / 300)
        top_px := Arithmetic.requested (.exact machine pow) xml "YOffset" 0 * (n / 300)
        width_px := side xml machine pow "Width" scanner.maxWidthPx300dpi n
        height_px := side xml machine pow "Height" scanner.maxHeightPx300dpi n } := by
  set F := Arithmetic.exact machine pow with hF
  have hres : (if F.doubles.isnan (F.doubles.rounded (getNumber F.doubles xml
      (ascii "XResolution"))) then F.doubles.ofInt 300 else
        F.doubles.rounded (getNumber F.doubles xml (ascii "XResolution"))) = .finite n := hr
  have hunit : F.doubles.div (.finite n) (F.doubles.ofInt 300) = .finite (n / 300) := by
    change (Extended.finite (n : ℚ)).div .finite (.finite ((300 : ℤ) : ℚ)) = _
    norm_num [Extended.div]
  have hint : F.doubles.toInt (.finite n) = n := by
    have htruncate : truncate (n : ℚ) = n := by simp [truncate]
    change F.toInt (.finite n) = n
    rw [Arithmetic.toInt, htruncate, if_pos hn]
  have hoffset (name : String) : valueOf (F.doubles.mul
      (if F.doubles.isnan (getNumber F.doubles xml (ascii name)) then F.doubles.ofInt 0
        else getNumber F.doubles xml (ascii name)) (.finite (n / 300))) =
      Arithmetic.requested F xml name 0 * (n / 300) := by
    rw [Arithmetic.requested]
    rcases exact_number machine pow xml (ascii name) with h | ⟨x, h⟩
    · rw [← hF] at h
      rw [h]
      change valueOf (.finite (((0 : ℤ) : ℚ) * (n / 300))) = _
      simp [valueOf]
    · rw [← hF] at h
      rw [h]
      rfl
  have hside (name : String) (missing : ℤ) : valueOf (if F.doubles.isnan (F.doubles.mul
      (getNumber F.doubles xml (ascii name)) (.finite (n / 300))) then F.doubles.ofInt missing
        else F.doubles.mul (getNumber F.doubles xml (ascii name)) (.finite (n / 300))) =
      side xml machine pow name missing n := by
    rw [side, Arithmetic.requested, ← hF]
    rcases exact_number machine pow xml (ascii name) with h | ⟨x, h⟩
    · rw [← hF] at h
      rw [h]
      rfl
    · rw [← hF] at h
      rw [h]
      rfl
  rw [Job.setGeometry, if_pos hu]
  simp only [Job.withRegion, hres, hunit, hint, hoffset, hside]

/-- A side has the length asked for, on paper, if it is given, and by itself only at
300 dpi. -/
theorem side_div_eq_iff {name : String} {missing n : ℤ} (hn : 0 < n) :
    side xml machine pow name missing n / n =
        Arithmetic.requested (.exact machine pow) xml name missing / 300 ↔
      n = 300 ∨ getNumber (Arithmetic.exact machine pow).doubles xml (ascii name) ≠ .nan ∨
        missing = 0 := by
  have hne : (n : ℚ) ≠ 0 := by exact_mod_cast hn.ne'
  rw [side, Arithmetic.requested, Arithmetic.requested]
  rcases exact_number machine pow xml (ascii name) with h | ⟨x, h⟩
  · rw [h, if_pos rfl, div_eq_div_iff hne (by norm_num)]
    constructor
    · intro heq
      by_cases hm : missing = 0
      · exact .inr (.inr hm)
      · have hcancel : (300 : ℚ) = n := mul_left_cancel₀ (by exact_mod_cast hm) heq
        exact .inl (by exact_mod_cast hcancel.symm)
    · rintro (rfl | hnan | rfl)
      · norm_num
      · exact absurd rfl hnan
      · simp
  · rw [h, if_neg (by simp)]
    refine ⟨fun _ => .inr (.inl (by simp)), fun _ => ?_⟩
    field_simp

/-- The area is the one asked for, unless a side is left to the scanner at another
resolution than 300 dpi. -/
theorem asRequested_iff (machine : Double → ℤ) (pow : Double → Double → Double)
    (scanner : ScannerDescription) (xml : Octets) (autoselectFormat : Bool)
    (options : Options Double) (j : Job Double)
    (hu : getString xml (ascii "ContentRegionUnits") = ascii "escl:ThreeHundredthsOfInches")
    (hr : IsResolution ((Arithmetic.exact machine pow).resolution xml)) :
    AsRequested (.exact machine pow) scanner xml
        (j.init (Arithmetic.exact machine pow).doubles scanner xml autoselectFormat options) ↔
      (Arithmetic.exact machine pow).resolution xml = .finite 300 ∨
        (getNumber (Arithmetic.exact machine pow).doubles xml (ascii "Width") ≠ .nan ∨
            scanner.maxWidthPx300dpi = 0) ∧
          (getNumber (Arithmetic.exact machine pow).doubles xml (ascii "Height") ≠ .nan ∨
            scanner.maxHeightPx300dpi = 0) := by
  rcases hr with ⟨n, hr, hpos, hlt⟩
  have hne : (n : ℚ) ≠ 0 := by exact_mod_cast hpos.ne'
  have h300 : (Arithmetic.exact machine pow).resolution xml = .finite 300 ↔ n = 300 := by
    rw [hr]
    constructor
    · intro h
      exact_mod_cast Extended.finite.inj h
    · rintro rfl
      rfl
  have hedge (name : String) : Arithmetic.requested (.exact machine pow) xml name 0 * (n / 300) / n =
      Arithmetic.requested (.exact machine pow) xml name 0 / 300 := by field_simp
  have hinches (s : Settings) {unit : SaneUnit} (hunit : unit = .pixel ∨ unit = .mm) :
      ((j.init (Arithmetic.exact machine pow).doubles scanner xml autoselectFormat
        options).withRegion s).inches unit = requestedInches (.exact machine pow) scanner xml ↔
      side xml machine pow "Width" scanner.maxWidthPx300dpi n / n =
          Arithmetic.requested (.exact machine pow) xml "Width" scanner.maxWidthPx300dpi / 300 ∧
        side xml machine pow "Height" scanner.maxHeightPx300dpi n / n =
          Arithmetic.requested (.exact machine pow) xml "Height" scanner.maxHeightPx300dpi / 300 := by
    rw [init_withRegion, withRegion_setGeometry j s hu hr ⟨by omega, hlt⟩,
      inches_eq _ hpos.ne' hunit, requestedInches]
    simp only [List.cons.injEq, and_true, hedge, add_div, true_and, add_right_inj]
  rw [h300, or_and_left, ← side_div_eq_iff hpos, ← side_div_eq_iff hpos]
  constructor
  · exact fun h => (hinches (.gray .single MIME_TYPE_PNG) (.inl rfl)).1 (h _ _ (.inl rfl))
  · exact fun h s unit hunit => (hinches s hunit).2 h

/-- A ticket that gives both sides. -/
theorem asRequested_iff_sides :
    let F := Arithmetic.exact (fun _ => 0) fun x _ => x
    let xml := ascii ("<pwg:ContentRegionUnits>escl:ThreeHundredthsOfInches</pwg:ContentRegionUnits>" ++
      "<pwg:Width>2480</pwg:Width><pwg:Height>3508</pwg:Height>" ++
      "<scan:XResolution>600</scan:XResolution><scan:YResolution>600</scan:YResolution>")
    let j := (Job.constructed F.doubles (.zero F.doubles)).init F.doubles .flatbed xml false
      ⟨.finite 1, .finite 1, false, []⟩
    (AsRequested F .flatbed xml j ↔ F.resolution xml = .finite 300 ∨
      (getNumber F.doubles xml (ascii "Width") ≠ .nan ∨
          ScannerDescription.flatbed.maxWidthPx300dpi = 0) ∧
        (getNumber F.doubles xml (ascii "Height") ≠ .nan ∨
          ScannerDescription.flatbed.maxHeightPx300dpi = 0)) := by
  intro F xml j
  exact asRequested_iff _ _ _ _ _ _ _ (by decide +kernel) ⟨600, by decide +kernel, by decide, by decide⟩

/-- The whole bed at 600 dpi is half of it. -/
theorem not_asRequested_600 :
    let F := Arithmetic.exact (fun _ => 0) fun x _ => x
    let xml := ascii ("<pwg:ContentRegionUnits>escl:ThreeHundredthsOfInches</pwg:ContentRegionUnits>" ++
      "<scan:XResolution>600</scan:XResolution><scan:YResolution>600</scan:YResolution>")
    ¬ AsRequested F .flatbed xml ((Job.constructed F.doubles (.zero F.doubles)).init F.doubles
      .flatbed xml false ⟨.finite 1, .finite 1, false, []⟩) := by
  intro F xml h
  have hregion := h (.gray .single MIME_TYPE_PNG) .pixel (.inl rfl)
  revert hregion
  decide +kernel

end

end AirSane.ScanJob
