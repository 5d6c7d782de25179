import AirSane.Server.Capabilities

/-! # What the descriptions of a scanner agree on

The list of input sources, the capabilities document, the records that are
announced and the sources that tickets select are made of the same three
findings. They agree but for a feeder that only scans both sides.
-/

namespace AirSane
open Text

variable {S : Type} {b : Backend S}

section
variable {candidates : List String} {names : List Octets}

theorem mem_of_firstOf {n : Octets} (h : firstOf candidates names = some n) : n ∈ names := by
  simpa using List.find?_some h

theorem findFlatbedName_mem (h : findFlatbedName names ≠ []) : findFlatbedName names ∈ names := by
  rw [findFlatbedName] at h ⊢
  cases hf : firstOf ["Flatbed", "FlatBed", "Platen", "Auto", "Normal"] names with
  | none => simp [hf] at h
  | some n => exact mem_of_firstOf hf

theorem getD_or_find_mem {p : Octets → Bool}
    (h : ((firstOf candidates names).or (names.find? p)).getD [] ≠ []) :
    ((firstOf candidates names).or (names.find? p)).getD [] ∈ names := by
  cases hf : firstOf candidates names with
  | some n => exact mem_of_firstOf hf
  | none =>
    cases hp : names.find? p with
    | some n => exact List.mem_of_find?_eq_some hp
    | none => simp [hf, hp] at h

theorem findAdfSimplexName_mem (h : findAdfSimplexName names ≠ []) :
    findAdfSimplexName names ∈ names := getD_or_find_mem h

theorem findAdfDuplexName_mem (h : findAdfDuplexName names ≠ []) :
    findAdfDuplexName names ∈ names := getD_or_find_mem h

/-- A source of the name that stands for a duplex feeder, and none that could be a
simplex feeder. -/
def DuplexOnly (names : List Octets) : Prop :=
  ascii "ADF Duplex" ∈ names ∧
    (∀ n ∈ ["Automatic Document Feeder", "ADF Simplex", "ADF Front", "ADF"], ascii n ∉ names) ∧
    ∀ n ∈ names, contains n "Automatic Document Feeder" = false

theorem firstOf_eq_none_iff : firstOf candidates names = none ↔ ∀ n ∈ candidates, ascii n ∉ names := by
  simp [firstOf]

theorem findAdfSimplexName_eq_nil_iff : findAdfSimplexName names = [] ↔
    (∀ n ∈ ["Automatic Document Feeder", "ADF Simplex", "ADF Front", "ADF"], ascii n ∉ names) ∧
      ∀ n ∈ names, contains n "Automatic Document Feeder" = false := by
  rw [← firstOf_eq_none_iff, findAdfSimplexName]
  constructor
  · intro h
    cases hf : firstOf ["Automatic Document Feeder", "ADF Simplex", "ADF Front", "ADF"] names with
    | some n =>
      have hn : n = [] := by simpa [hf] using h
      have hmem := List.mem_of_find?_eq_some hf
      rw [hn] at hmem
      exact absurd hmem (by decide)
    | none =>
      cases hp : names.find? (contains · "Automatic Document Feeder") with
      | some n =>
        have hn : n = [] := by simpa [hf, hp] using h
        have hcontains := List.find?_some hp
        rw [hn] at hcontains
        exact absurd hcontains (by decide)
      | none => exact ⟨rfl, by simpa using hp⟩
  · rintro ⟨hf, hp⟩
    have hnone : names.find? (contains · "Automatic Document Feeder") = none := by simpa using hp
    rw [hf, hnone]
    rfl

theorem duplexOnly_iff :
    DuplexOnly names ↔ findAdfSimplexName names = [] ∧ findAdfDuplexName names ≠ [] := by
  rw [findAdfSimplexName_eq_nil_iff, DuplexOnly]
  constructor
  · rintro ⟨hd, hs, hp⟩
    refine ⟨⟨hs, hp⟩, ?_⟩
    have hf : firstOf ["ADF Duplex"] names = some (ascii "ADF Duplex") := by simp [firstOf, hd]
    rw [findAdfDuplexName, hf]
    exact List.cons_ne_nil _ _
  · rintro ⟨⟨hs, hp⟩, hd⟩
    refine ⟨?_, hs, hp⟩
    by_contra hno
    have hf : firstOf ["ADF Duplex"] names = none := by simpa [firstOf] using hno
    have hnone : (names.find? fun n =>
        contains n "Automatic Document Feeder" && contains n "Duplex") = none := by
      rw [List.find?_eq_none]
      intro n hn
      simp [hp n hn]
    exact hd (by rw [findAdfDuplexName, hf, hnone]; rfl)

end

section
variable {name : Option Octets} {intents : List String} {place : InputSource → Init2 S → Init2 S}
variable {i : Init2 S}

variable (b name intents place i) in
/-- A block of `init2` keeps what was found before, but for the device, the error
and the bounds. -/
theorem addSource_eq : ∃ source err maxBits w h,
    i.addSource b name intents place = place source
      { i with
        device := b.select name i.device
        err := err
        maxBits := maxBits
        mMaxWidthPx300dpi := w
        mMaxHeightPx300dpi := h } ∧
      source.mSourceName = b.source (b.select name i.device) := by
  rw [Init2.addSource]
  split
  · exact ⟨_, _, _, _, _, rfl, rfl⟩
  · exact ⟨_, _, _, _, _, rfl, rfl⟩

end

/-- The name, unless it is empty. -/
def named (name : Octets) : Option Octets := if name = [] then none else some name

section
variable (b : Backend S) (s : S)

/-- The source found for the platen, which is the one the device has if none is
known by name. -/
def platenFound : Option Octets :=
  if findFlatbedName (b.sources s) ≠ [] then some (findFlatbedName (b.sources s))
  else if findAdfSimplexName (b.sources s) = [] ∧ findAdfDuplexName (b.sources s) = [] then
    some (b.source s)
  else none

def simplexFound : Option Octets := named (findAdfSimplexName (b.sources s))

def duplexFound : Option Octets := named (findAdfDuplexName (b.sources s))

/-- The sources found are in the fields of a scanner. -/
structure Init2.Found (i : Init2 S) : Prop where
  platen : i.mpPlaten.map (·.mSourceName) = platenFound b s
  simplex : i.mpAdfSimplex.map (·.mSourceName) = simplexFound b s
  duplex : i.mpAdfDuplex.map (·.mSourceName) = duplexFound b s
  mInputSources : i.mInputSources = (if (platenFound b s).isSome then ["Platen"] else []) ++
    if (simplexFound b s).isSome ∨ (duplexFound b s).isSome then ["Feeder"] else []

end

section
variable {s : S} {names : List Octets} {i : Init2 S}

theorem isSome_named {name : Octets} : (named name).isSome ↔ name ≠ [] := by
  by_cases h : name = [] <;> simp [named, h]

theorem addPlaten_spec (hb : b.Keeps) (hi : i.device = s) :
    (i.addPlaten b (b.sources s)).mpPlaten.map (·.mSourceName) =
        (platenFound b s).or (i.mpPlaten.map (·.mSourceName)) ∧
      b.sources (i.addPlaten b (b.sources s)).device = b.sources s ∧
      (i.addPlaten b (b.sources s)).mInputSources =
        i.mInputSources ++ (if (platenFound b s).isSome then ["Platen"] else []) ∧
      (i.addPlaten b (b.sources s)).mpAdfSimplex = i.mpAdfSimplex ∧
      (i.addPlaten b (b.sources s)).mpAdfDuplex = i.mpAdfDuplex := by
  by_cases hf : findFlatbedName (b.sources s) = []
  · by_cases hadf : findAdfSimplexName (b.sources s) = [] ∧ findAdfDuplexName (b.sources s) = []
    · rcases addSource_eq b none ["Preview", "TextAndGraphic", "Photo"]
        (fun source i => { i with mpPlaten := some source })
        { i with mInputSources := i.mInputSources ++ ["Platen"] }
        with ⟨source, err, maxBits, w, h, heq, hname⟩
      simp only [Init2.addPlaten, platenFound, hf, hadf, ne_eq, not_true_eq_false, and_self, or_true,
        if_true, if_false, heq]
      simp [hname, Backend.select, hi]
    · simp [Init2.addPlaten, platenFound, hf, hadf, hi]
  · rcases addSource_eq b (some (findFlatbedName (b.sources s)))
      ["Preview", "TextAndGraphic", "Photo"] (fun source i => { i with mpPlaten := some source })
      { i with mInputSources := i.mInputSources ++ ["Platen"] }
      with ⟨source, err, maxBits, w, h, heq, hname⟩
    have hk := hb s _ (findFlatbedName_mem hf)
    simp only [Init2.addPlaten, platenFound, hf, ne_eq, not_false_eq_true, and_false, true_or,
      if_true, if_false, heq]
    simp [hname, Backend.select, hi, hk.1, hk.2]

theorem addAdfSimplex_spec (hb : b.Keeps) (hi : b.sources i.device = names) :
    (i.addAdfSimplex b names).mpAdfSimplex.map (·.mSourceName) =
        (named (findAdfSimplexName names)).or (i.mpAdfSimplex.map (·.mSourceName)) ∧
      b.sources (i.addAdfSimplex b names).device = names ∧
      (i.addAdfSimplex b names).mInputSources = i.mInputSources ∧
      (i.addAdfSimplex b names).mpPlaten = i.mpPlaten ∧
      (i.addAdfSimplex b names).mpAdfDuplex = i.mpAdfDuplex := by
  by_cases hn : findAdfSimplexName names = []
  · simp [Init2.addAdfSimplex, named, hn, hi]
  · rcases addSource_eq b (some (findAdfSimplexName names)) ["TextAndGraphic", "Photo"]
      (fun source i => { i with mpAdfSimplex := some source }) i
      with ⟨source, err, maxBits, w, h, heq, hname⟩
    have hk := hb i.device (findAdfSimplexName names) (by rw [hi]; exact findAdfSimplexName_mem hn)
    simp only [Init2.addAdfSimplex, named, hn, ne_eq, not_false_eq_true, if_true, if_false, heq]
    simp [hname, Backend.select, hk.1, hk.2, hi]

theorem addAdfDuplex_spec (hb : b.Keeps) (hi : b.sources i.device = names) :
    (i.addAdfDuplex b names).mpAdfDuplex.map (·.mSourceName) =
        (named (findAdfDuplexName names)).or (i.mpAdfDuplex.map (·.mSourceName)) ∧
      (i.addAdfDuplex b names).mInputSources = i.mInputSources ∧
      (i.addAdfDuplex b names).mpPlaten = i.mpPlaten ∧
      (i.addAdfDuplex b names).mpAdfSimplex = i.mpAdfSimplex := by
  by_cases hn : findAdfDuplexName names = []
  · simp [Init2.addAdfDuplex, named, hn]
  · rcases addSource_eq b (some (findAdfDuplexName names)) ["TextAndGraphic", "Photo"]
      (fun source i => { i with mpAdfDuplex := some source }) i
      with ⟨source, err, maxBits, w, h, heq, hname⟩
    have hk := hb i.device (findAdfDuplexName names) (by rw [hi]; exact findAdfDuplexName_mem hn)
    simp only [Init2.addAdfDuplex, named, hn, ne_eq, not_false_eq_true, if_true, if_false, heq]
    simp [hname, Backend.select, hk.1]

variable (names i) in
theorem addFeeder_spec : (i.addFeeder names).mInputSources = i.mInputSources ++
      (if (named (findAdfSimplexName names)).isSome ∨ (named (findAdfDuplexName names)).isSome then
        ["Feeder"] else []) ∧
    (i.addFeeder names).device = i.device ∧ (i.addFeeder names).mpPlaten = i.mpPlaten ∧
      (i.addFeeder names).mpAdfSimplex = i.mpAdfSimplex ∧
      (i.addFeeder names).mpAdfDuplex = i.mpAdfDuplex := by
  simp only [Init2.addFeeder, isSome_named]
  split_ifs <;> simp

theorem addDeepModes_spec : i.addDeepModes.mInputSources = i.mInputSources ∧
    i.addDeepModes.mpPlaten = i.mpPlaten ∧ i.addDeepModes.mpAdfSimplex = i.mpAdfSimplex ∧
      i.addDeepModes.mpAdfDuplex = i.mpAdfDuplex := by
  rw [Init2.addDeepModes]
  split_ifs <;> simp

/-- An initialised scanner has the sources found, each under its own name. -/
theorem init2_found (hb : b.Keeps) (hi : init2 b (some s) = .ok i) : i.Found b s := by
  rw [init2] at hi
  cases hr : b.resolution s with
  | none =>
    rw [hr] at hi
    cases hi
  | some resolutions =>
    simp only [hr] at hi
    have h₁ := addPlaten_spec (s := s) (i := Init2.start b s resolutions) hb rfl
    generalize (Init2.start b s resolutions).addPlaten b (b.sources s) = p at h₁ hi
    have h₂ := addFeeder_spec (b.sources s) p
    generalize p.addFeeder (b.sources s) = f at h₂ hi
    have h₃ := addAdfSimplex_spec (i := f) hb (h₂.2.1 ▸ h₁.2.1)
    generalize f.addAdfSimplex b (b.sources s) = x at h₃ hi
    have h₄ := addAdfDuplex_spec (i := x) hb h₃.2.1
    generalize x.addAdfDuplex b (b.sources s) = d at h₄ hi
    cases he : d.err with
    | some e =>
      simp only [he] at hi
      cases hi
    | none =>
      simp only [he, Except.ok.injEq] at hi
      have h₅ := addDeepModes_spec (i := d)
      rw [← hi]
      refine ⟨?_, ?_, ?_, ?_⟩
      · rw [h₅.2.1, h₄.2.2.1, h₃.2.2.2.1, h₂.2.2.1, h₁.1]
        exact Option.or_none
      · rw [h₅.2.2.1, h₄.2.2.2, h₃.1, h₂.2.2.2.1, h₁.2.2.2.1]
        exact Option.or_none
      · rw [h₅.2.2.2, h₄.1, h₃.2.2.2.2, h₂.2.2.2.2, h₁.2.2.2.2]
        exact Option.or_none
      · rw [h₅.1, h₄.2.1, h₃.2.2.1, h₂.1, h₁.2.2.1]
        rfl

end

end AirSane
