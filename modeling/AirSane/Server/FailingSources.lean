import AirSane.Server.Features

/-! # Errors of input sources

`init2` reads the sources one after the other, and the error of a source is all that
is left of the errors before it. A scanner with a source that could not be read is
served if its last source could be.
-/

namespace AirSane
open Text

/-- The source for the platen; the device's only one has no name. -/
def platenSelection (names : List Octets) : List (Option Octets) :=
  let flatbedName := findFlatbedName names
  let only := findAdfSimplexName names = [] ∧ findAdfDuplexName names = [] ∧ flatbedName = []
  if flatbedName ≠ [] ∨ only then [if only then none else some flatbedName] else []

/-- The sources that `init2` sets, in order. -/
def selections (names : List Octets) : List (Option Octets) :=
  platenSelection names ++ ((named (findAdfSimplexName names)).toList.map some ++
    (named (findAdfDuplexName names)).toList.map some)

section
variable {S : Type} (b : Backend S)

/-- The device each time that a source is read from it. -/
def Backend.visits : List (Option Octets) → S → List S
  | [], _ => []
  | name :: names, s => b.select name s :: visits names (b.select name s)

/-- The sources that a scanner has. -/
def Init2.inputSources (i : Init2 S) : List InputSource :=
  [i.mpPlaten, i.mpAdfSimplex, i.mpAdfDuplex].filterMap id

/-- A scanner is served only if all of its sources could be read. -/
def ReportsFailures (device : S) : Prop :=
  ∀ i, init2 b (some device) = .ok i →
    ∀ s ∈ b.visits (selections (b.sources device)) device, (InputSource.init b s).2 = none

/-- The last error and the device after some sources. -/
def Backend.readSources (names : List (Option Octets)) (p : S × Option String) :
    S × Option String :=
  names.foldl (fun p name => (b.select name p.1, (InputSource.init b (b.select name p.1)).2)) p

variable {b} {s : S} {e : Option String} {names : List Octets} {i : Init2 S}

theorem readSources_append {n m : List (Option Octets)} {p : S × Option String} :
    b.readSources (n ++ m) p = b.readSources m (b.readSources n p) := List.foldl_append ..

/-- Of the errors the last one is left. -/
theorem readSources_snd (n : List (Option Octets)) (s : S) (e : Option String) :
    (b.readSources n (s, e)).2 =
      (((b.visits n s).map fun s => (InputSource.init b s).2).getLast?).getD e := by
  induction n generalizing s e with
  | nil => rfl
  | cons name n ih =>
    rw [Backend.readSources, List.foldl_cons, Backend.visits, List.map_cons]
    refine (ih _ _).trans ?_
    cases n with
    | nil => rfl
    | cons name' n => rw [Backend.visits, List.map_cons, List.getLast?_cons_cons]; rfl

theorem addSource_reads (name : Option Octets) (intents : List String)
    {place : InputSource → Init2 S → Init2 S}
    (hp : ∀ source i, ((place source i).device, (place source i).err) = (i.device, i.err)) :
    ((i.addSource b name intents place).device, (i.addSource b name intents place).err) =
      b.readSources [name] (i.device, i.err) := by
  rw [Init2.addSource]
  split
  · rename_i he
    rw [hp]
    exact Prod.ext rfl he.symm
  · rename_i he
    rw [hp]
    exact Prod.ext rfl he.symm

theorem addNamed_reads (name : Octets) (add : Init2 S → Init2 S)
    (hadd : name ≠ [] → ∀ i, ((add i).device, (add i).err) =
      b.readSources [some name] (i.device, i.err)) (hnil : name = [] → ∀ i, add i = i) :
    ((add i).device, (add i).err) =
      b.readSources ((named name).toList.map some) (i.device, i.err) := by
  rw [named]
  split_ifs with h
  · rw [hnil h]
    rfl
  · exact hadd h i

theorem addPlaten_reads (names : List Octets) (i : Init2 S) :
    ((i.addPlaten b names).device, (i.addPlaten b names).err) =
    b.readSources (platenSelection names) (i.device, i.err) := by
  rw [Init2.addPlaten, platenSelection]
  split_ifs
  · exact addSource_reads _ _ fun _ _ => rfl
  · exact addSource_reads _ _ fun _ _ => rfl
  · rfl

theorem addFeeder_reads (names : List Octets) (i : Init2 S) :
    ((i.addFeeder names).device, (i.addFeeder names).err) =
    (i.device, i.err) := by
  rw [Init2.addFeeder]
  split_ifs <;> rfl

theorem addAdfSimplex_reads (names : List Octets) (i : Init2 S) :
    ((i.addAdfSimplex b names).device, (i.addAdfSimplex b names).err) =
    b.readSources ((named (findAdfSimplexName names)).toList.map some) (i.device, i.err) := by
  refine addNamed_reads _ (·.addAdfSimplex b names) (fun h i => ?_) fun h i => ?_
  · rw [Init2.addAdfSimplex, if_pos h]
    exact addSource_reads _ _ fun _ _ => rfl
  · rw [Init2.addAdfSimplex, if_neg (not_not.2 h)]

theorem addAdfDuplex_reads (names : List Octets) (i : Init2 S) :
    ((i.addAdfDuplex b names).device, (i.addAdfDuplex b names).err) =
    b.readSources ((named (findAdfDuplexName names)).toList.map some) (i.device, i.err) := by
  refine addNamed_reads _ (·.addAdfDuplex b names) (fun h i => ?_) fun h i => ?_
  · rw [Init2.addAdfDuplex, if_pos h]
    exact addSource_reads _ _ fun _ _ => rfl
  · rw [Init2.addAdfDuplex, if_neg (not_not.2 h)]

/-- The sources of a scanner, read from its start on. -/
def Init2.read (b : Backend S) (s : S) (resolutions : Resolutions) : Init2 S :=
  ((((Init2.start b s resolutions).addPlaten b (b.sources s)).addFeeder (b.sources s)).addAdfSimplex
    b (b.sources s)).addAdfDuplex b (b.sources s)

theorem err_read (resolutions : Resolutions) : (Init2.read b s resolutions).err =
    (((b.visits (selections (b.sources s)) s).map fun s =>
      (InputSource.init b s).2).getLast?).getD none := by
  have hreads := addAdfDuplex_reads (b := b) (b.sources s)
    ((((Init2.start b s resolutions).addPlaten b (b.sources s)).addFeeder
      (b.sources s)).addAdfSimplex b (b.sources s))
  rw [addAdfSimplex_reads, addFeeder_reads, addPlaten_reads] at hreads
  rw [← readSources_snd, selections, readSources_append, readSources_append]
  exact congrArg Prod.snd hreads

theorem init2_eq {resolutions : Resolutions} (hr : b.resolution s = some resolutions) :
    init2 b (some s) = match (Init2.read b s resolutions).err with
      | some e => .error e
      | none => .ok (Init2.read b s resolutions).addDeepModes := by
  rw [init2]
  simp only [hr]
  rfl

theorem visits_append (n m : List (Option Octets)) (s : S) (e : Option String) :
    b.visits (n ++ m) s = b.visits n s ++ b.visits m (b.readSources n (s, e)).1 := by
  induction n generalizing s e with
  | nil => rfl
  | cons name n ih =>
    rw [List.cons_append, Backend.visits, Backend.visits, List.cons_append, ih]
    rfl

/-- The area of a source is the one that the device had. -/
theorem addSource_area (name : Option Octets) (intents : List String)
    {place : InputSource → Init2 S → Init2 S} {f : Init2 S → Option InputSource}
    (hf : ∀ source i, f (place source i) = some source) :
    (f (i.addSource b name intents place)).toList.map (·.area) =
      (b.visits [name] i.device).map fun s => (b.area s).1 := by
  rw [Init2.addSource]
  split <;> rw [hf] <;> rfl

theorem addPlaten_area (names : List Octets) (i : Init2 S) (hi : i.mpPlaten = none) :
    (i.addPlaten b names).mpPlaten.toList.map (·.area) =
      (b.visits (platenSelection names) i.device).map fun s => (b.area s).1 := by
  rw [Init2.addPlaten, platenSelection]
  split_ifs
  · exact addSource_area (f := (·.mpPlaten)) _ _ fun _ _ => rfl
  · exact addSource_area (f := (·.mpPlaten)) _ _ fun _ _ => rfl
  · rw [hi]
    rfl

theorem addAdfSimplex_area (names : List Octets) (i : Init2 S) (hi : i.mpAdfSimplex = none) :
    (i.addAdfSimplex b names).mpAdfSimplex.toList.map (·.area) =
      (b.visits ((named (findAdfSimplexName names)).toList.map some) i.device).map fun s =>
        (b.area s).1 := by
  by_cases h : findAdfSimplexName names = []
  · rw [Init2.addAdfSimplex, if_neg (not_not.2 h), hi, named, if_pos h]
    rfl
  · rw [Init2.addAdfSimplex, if_pos h, named, if_neg h]
    exact addSource_area (f := (·.mpAdfSimplex)) _ _ fun _ _ => rfl

theorem addAdfDuplex_area (names : List Octets) (i : Init2 S) (hi : i.mpAdfDuplex = none) :
    (i.addAdfDuplex b names).mpAdfDuplex.toList.map (·.area) =
      (b.visits ((named (findAdfDuplexName names)).toList.map some) i.device).map fun s =>
        (b.area s).1 := by
  by_cases h : findAdfDuplexName names = []
  · rw [Init2.addAdfDuplex, if_neg (not_not.2 h), hi, named, if_pos h]
    rfl
  · rw [Init2.addAdfDuplex, if_pos h, named, if_neg h]
    exact addSource_area (f := (·.mpAdfDuplex)) _ _ fun _ _ => rfl

/-- What a source does not set. -/
theorem addSource_other {name : Option Octets} {intents : List String}
    {place : InputSource → Init2 S → Init2 S} {α : Type} {f : Init2 S → α}
    (hf : ∀ source device err maxBits w h, f (place source
      { i with
        device := device
        err := err
        maxBits := maxBits
        mMaxWidthPx300dpi := w
        mMaxHeightPx300dpi := h }) = f i) : f (i.addSource b name intents place) = f i := by
  obtain ⟨source, err, maxBits, w, h, heq, -⟩ := addSource_eq b name intents place i
  rw [heq]
  exact hf ..

theorem addPlaten_others (names : List Octets) (i : Init2 S) :
    (i.addPlaten b names).mpAdfSimplex = i.mpAdfSimplex ∧
    (i.addPlaten b names).mpAdfDuplex = i.mpAdfDuplex := by
  rw [Init2.addPlaten]
  split
  · exact ⟨addSource_other (f := (·.mpAdfSimplex)) (fun _ _ _ _ _ _ => rfl),
      addSource_other (f := (·.mpAdfDuplex)) (fun _ _ _ _ _ _ => rfl)⟩
  · exact ⟨rfl, rfl⟩

theorem addFeeder_others (names : List Octets) (i : Init2 S) :
    (i.addFeeder names).mpPlaten = i.mpPlaten ∧
    (i.addFeeder names).mpAdfSimplex = i.mpAdfSimplex ∧
      (i.addFeeder names).mpAdfDuplex = i.mpAdfDuplex := by
  rw [Init2.addFeeder]
  split_ifs <;> exact ⟨rfl, rfl, rfl⟩

theorem addAdfSimplex_others (names : List Octets) (i : Init2 S) :
    (i.addAdfSimplex b names).mpPlaten = i.mpPlaten ∧
    (i.addAdfSimplex b names).mpAdfDuplex = i.mpAdfDuplex := by
  rw [Init2.addAdfSimplex]
  split_ifs
  · exact ⟨addSource_other (f := (·.mpPlaten)) (fun _ _ _ _ _ _ => rfl),
      addSource_other (f := (·.mpAdfDuplex)) (fun _ _ _ _ _ _ => rfl)⟩
  · exact ⟨rfl, rfl⟩

theorem addAdfDuplex_others (names : List Octets) (i : Init2 S) :
    (i.addAdfDuplex b names).mpPlaten = i.mpPlaten ∧
    (i.addAdfDuplex b names).mpAdfSimplex = i.mpAdfSimplex := by
  rw [Init2.addAdfDuplex]
  split_ifs
  · exact ⟨addSource_other (f := (·.mpPlaten)) (fun _ _ _ _ _ _ => rfl),
      addSource_other (f := (·.mpAdfSimplex)) (fun _ _ _ _ _ _ => rfl)⟩
  · exact ⟨rfl, rfl⟩

/-- The sources of a scanner are the ones that were read. -/
theorem areas_read (resolutions : Resolutions) :
    ((Init2.read b s resolutions).inputSources.map (·.area)) =
      (b.visits (selections (b.sources s)) s).map fun s => (b.area s).1 := by
  have hstart := addPlaten_reads (b := b) (b.sources s) (Init2.start b s resolutions)
  have hplaten := addPlaten_area (b := b) (b.sources s)
    (Init2.start b s resolutions) rfl
  have hothers := addPlaten_others (b := b) (b.sources s)
    (Init2.start b s resolutions)
  rw [Init2.read]
  generalize (Init2.start b s resolutions).addPlaten b (b.sources s) = p at *
  have hfeeder := addFeeder_reads (b.sources s) p
  have hfothers := addFeeder_others (b.sources s) p
  generalize p.addFeeder (b.sources s) = f at *
  have hsimplex := addAdfSimplex_area (b := b) (b.sources s) f
    (by rw [hfothers.2.1, hothers.1]; rfl)
  have hreads := addAdfSimplex_reads (b := b) (b.sources s) f
  have hxothers := addAdfSimplex_others (b := b) (b.sources s) f
  generalize f.addAdfSimplex b (b.sources s) = x at *
  have hduplex := addAdfDuplex_area (b := b) (b.sources s) x
    (by rw [hxothers.2, hfothers.2.2, hothers.2]; rfl)
  have hdothers := addAdfDuplex_others (b := b) (b.sources s) x
  rw [hfeeder, hstart] at hreads
  have hdevice : f.device = (b.readSources (platenSelection (b.sources s)) (s, none)).1 :=
    (congrArg Prod.fst hfeeder).trans (congrArg Prod.fst hstart)
  have hparts (a c d : Option InputSource) :
      ([a, c, d].filterMap id).map (·.area) = a.toList.map (·.area) ++
        (c.toList.map (·.area) ++ d.toList.map (·.area)) := by
    cases a <;> cases c <;> cases d <;> rfl
  rw [Init2.inputSources, hparts, hduplex, hdothers.1, hdothers.2, hxothers.1, hfothers.1, hplaten,
    hsimplex, selections, visits_append _ _ _ none, visits_append _ _ _
      (b.readSources (platenSelection (b.sources s)) (s, none)).2, List.map_append,
    List.map_append, hdevice]
  congr 3
  exact congrArg _ (congrArg Prod.fst hreads)

/-- A scanner is reported if one of its sources could not be read, unless it is not the
last of them. -/
theorem reportsFailures_iff (b : Backend S) (device : S) :
    ReportsFailures b device ↔ b.resolution device = none ∨
      ((∀ s ∈ (b.visits (selections (b.sources device)) device).getLast?, (b.area s).2 = none) →
        ∀ s ∈ b.visits (selections (b.sources device)) device, (b.area s).2 = none) := by
  rw [ReportsFailures]
  rcases hr : b.resolution device with _ | resolutions
  · refine iff_of_true (fun i hi => ?_) (.inl rfl)
    rw [init2] at hi
    simp only [hr] at hi
    cases hi
  · have herr := err_read (b := b) (s := device) resolutions
    rw [List.getLast?_map] at herr
    have hlast : (Init2.read b device resolutions).err = none ↔
        ∀ s ∈ (b.visits (selections (b.sources device)) device).getLast?, (b.area s).2 = none := by
      rw [herr]
      rcases (b.visits (selections (b.sources device)) device).getLast? with _ | s
      · simp
      · simp [InputSource.init]
    rw [init2_eq hr, ← hlast, or_iff_right (by simp)]
    rcases he : (Init2.read b device resolutions).err with _ | e
    · simp only [forall_const]
      exact ⟨fun h => h _ rfl, fun h _ _ => h⟩
    · simp

end

/-- A flatbed whose options disagree on their units, and a feeder. -/
def Backend.mixed : Backend Octets where
  resolution _ := some ⟨75, 600, 1, []⟩
  modes _ := [ascii "Gray", ascii "Color"]
  sources _ := [ascii "Flatbed", ascii "ADF"]
  source s := s
  setSource v _ := v
  bitDepth _ := none
  area s :=
    if s = ascii "Flatbed" then
      (⟨0, 216, 0, 297, 216, 297⟩, some "inconsistent unit in scan area parameters")
    else (⟨0, 2551, 0, 3508, 2551, 3508⟩, none)

theorem not_reportsFailures_mixed : ¬ ReportsFailures Backend.mixed (ascii "Flatbed") := by
  intro h
  have hread := h _ rfl (ascii "Flatbed") (by decide)
  exact absurd hread (by decide)

end AirSane
