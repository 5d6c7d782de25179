import AirSane.Server.Features

/-! # Source names sorted into roles

What `findFlatbedName`, `findAdfSimplexName` and `findAdfDuplexName` take out of
the same list of names. The search for a simplex feeder by a part of its name does
not pass over duplex feeders.
-/

namespace AirSane
open Text

/-- Every role has a source of its own, and the simplex feeder is none for both sides. -/
structure Classified (names : List Octets) : Prop where
  flatbed : findFlatbedName names = [] ∨ findFlatbedName names ∈ names
  simplex : findAdfSimplexName names = [] ∨ findAdfSimplexName names ∈ names
  duplex : findAdfDuplexName names = [] ∨ findAdfDuplexName names ∈ names
  distinct : ([findFlatbedName names, findAdfSimplexName names, findAdfDuplexName names].filter
    (· ≠ [])).Nodup
  oneSided : contains (findAdfSimplexName names) "Duplex" = false
  both : (∃ n ∈ names, contains n "Automatic Document Feeder" ∧ ¬ contains n "Duplex") →
    (∃ n ∈ names, contains n "Automatic Document Feeder" ∧ contains n "Duplex") →
      findAdfSimplexName names ≠ [] ∧ findAdfDuplexName names ≠ []

/-- A simplex feeder goes by one of its own names, or the first feeder by any name is one. -/
def SimplexFirst (names : List Octets) : Prop :=
  (∃ n ∈ ["Automatic Document Feeder", "ADF Simplex", "ADF Front", "ADF"], ascii n ∈ names) ∨
    ∀ n ∈ names.find? (contains · "Automatic Document Feeder"), contains n "Duplex" = false

/-- A part that every name of a feeder has. -/
def isFeeder (n : Octets) : Bool := contains n "ADF" || contains n "Automatic Document Feeder"

variable {names : List Octets} {candidates : List String}

/-- A name that was found is one of those looked for, or one with the part. -/
theorem getD_or_find_cases {p : Octets → Bool} :
    ((firstOf candidates names).or (names.find? p)).getD [] = [] ∨
      ((firstOf candidates names).or (names.find? p)).getD [] ∈ candidates.map ascii ∨
        p (((firstOf candidates names).or (names.find? p)).getD []) := by
  cases hf : firstOf candidates names with
  | some n => exact .inr (.inl (List.mem_of_find?_eq_some hf))
  | none =>
    cases hp : names.find? p with
    | some n => exact .inr (.inr (List.find?_some hp))
    | none => exact .inl rfl

theorem isFeeder_findFlatbedName : isFeeder (findFlatbedName names) = false := by
  rw [findFlatbedName]
  cases hf : firstOf ["Flatbed", "FlatBed", "Platen", "Auto", "Normal"] names with
  | none => decide
  | some n =>
    have hall : ∀ n ∈ ["Flatbed", "FlatBed", "Platen", "Auto", "Normal"].map ascii,
        isFeeder n = false := by decide
    exact hall n (List.mem_of_find?_eq_some hf)

theorem isFeeder_findAdfSimplexName (h : findAdfSimplexName names ≠ []) :
    isFeeder (findAdfSimplexName names) = true := by
  rcases getD_or_find_cases with hnil | hm | hp
  · exact absurd hnil h
  · have hall : ∀ n ∈ ["Automatic Document Feeder", "ADF Simplex", "ADF Front", "ADF"].map ascii,
        isFeeder n = true := by decide
    exact hall _ hm
  · rw [isFeeder, findAdfSimplexName, hp, Bool.or_true]

/-- What is found for both sides says so. -/
theorem contains_findAdfDuplexName (h : findAdfDuplexName names ≠ []) :
    isFeeder (findAdfDuplexName names) = true ∧ contains (findAdfDuplexName names) "Duplex" = true := by
  rcases getD_or_find_cases with hnil | hm | hp
  · exact absurd hnil h
  · have hall : ∀ n ∈ ["ADF Duplex"].map ascii, isFeeder n = true ∧ contains n "Duplex" = true := by
      decide
    exact hall _ hm
  · rw [Bool.and_eq_true] at hp
    refine ⟨?_, hp.2⟩
    rw [isFeeder, findAdfDuplexName, hp.1, Bool.or_true]

theorem simplexFirst_iff :
    SimplexFirst names ↔ contains (findAdfSimplexName names) "Duplex" = false := by
  rw [SimplexFirst, findAdfSimplexName]
  cases hf : firstOf ["Automatic Document Feeder", "ADF Simplex", "ADF Front", "ADF"] names with
  | some n =>
    have hall : ∀ n ∈ ["Automatic Document Feeder", "ADF Simplex", "ADF Front", "ADF"].map ascii,
        contains n "Duplex" = false := by decide
    have hn := List.mem_of_find?_eq_some hf
    obtain ⟨c, hc, rfl⟩ := List.mem_map.1 hn
    exact iff_of_true (.inl ⟨c, hc, mem_of_firstOf hf⟩) (hall _ hn)
  | none =>
    have hno : ¬ ∃ n ∈ ["Automatic Document Feeder", "ADF Simplex", "ADF Front", "ADF"],
        ascii n ∈ names := by
      rintro ⟨n, hn, hm⟩
      exact firstOf_eq_none_iff.1 hf n hn hm
    rw [or_iff_right hno, Option.none_or]
    cases names.find? (contains · "Automatic Document Feeder") with
    | none => exact iff_of_true (by simp) (by decide)
    | some n => simp

/-- Where the simplex feeder is none for both sides, no two roles share a source. -/
theorem nodup_found (h : contains (findAdfSimplexName names) "Duplex" = false) :
    ([findFlatbedName names, findAdfSimplexName names, findAdfDuplexName names].filter
      (· ≠ [])).Nodup := by
  have hflatbed : isFeeder (findFlatbedName names) = false := isFeeder_findFlatbedName
  have hfs (hs : findAdfSimplexName names ≠ []) : findFlatbedName names ≠ findAdfSimplexName names := by
    intro heq
    rw [heq, isFeeder_findAdfSimplexName hs] at hflatbed
    cases hflatbed
  have hfd (hd : findAdfDuplexName names ≠ []) : findFlatbedName names ≠ findAdfDuplexName names := by
    intro heq
    rw [heq, (contains_findAdfDuplexName hd).1] at hflatbed
    cases hflatbed
  have hsd (hd : findAdfDuplexName names ≠ []) :
      findAdfSimplexName names ≠ findAdfDuplexName names := by
    intro heq
    rw [heq, (contains_findAdfDuplexName hd).2] at h
    cases h
  by_cases hf : findFlatbedName names = [] <;> by_cases hs : findAdfSimplexName names = [] <;>
    by_cases hd : findAdfDuplexName names = [] <;> simp [hf, hs, hd, hfs, hfd, hsd]

theorem findAdfSimplexName_ne_nil {n : Octets} (hn : n ∈ names)
    (h : contains n "Automatic Document Feeder" = true) : findAdfSimplexName names ≠ [] := by
  intro hnil
  have hno := (findAdfSimplexName_eq_nil_iff.1 hnil).2 n hn
  rw [h] at hno
  cases hno

theorem findAdfDuplexName_ne_nil {n : Octets} (hn : n ∈ names)
    (h : contains n "Automatic Document Feeder" = true) (hd : contains n "Duplex" = true) :
    findAdfDuplexName names ≠ [] := by
  rw [findAdfDuplexName]
  cases hf : firstOf ["ADF Duplex"] names with
  | some c =>
    have hall : ∀ c ∈ ["ADF Duplex"].map ascii, c ≠ [] := by decide
    exact hall c (List.mem_of_find?_eq_some hf)
  | none =>
    cases hp : names.find? fun n => contains n "Automatic Document Feeder" && contains n "Duplex" with
    | some c =>
      have hc := List.find?_some hp
      rintro rfl
      exact absurd hc (by decide)
    | none =>
      have hno := List.find?_eq_none.1 hp n hn
      simp [h, hd] at hno

theorem classified_iff (names : List Octets) : Classified names ↔ SimplexFirst names := by
  rw [simplexFirst_iff]
  refine ⟨fun h => h.oneSided, fun h => ?_⟩
  constructor
  · exact or_iff_not_imp_left.2 findFlatbedName_mem
  · exact or_iff_not_imp_left.2 findAdfSimplexName_mem
  · exact or_iff_not_imp_left.2 findAdfDuplexName_mem
  · exact nodup_found h
  · exact h
  · rintro ⟨n, hn, hfeeder, -⟩ ⟨m, hm, hfeeder', hduplex⟩
    exact ⟨findAdfSimplexName_ne_nil hn hfeeder, findAdfDuplexName_ne_nil hm hfeeder' hduplex⟩

/-- A device that names its duplex feeder first. -/
theorem not_classified_duplexFirst : ¬ Classified [ascii "FlatBed",
    ascii "Automatic Document Feeder(left aligned,Duplex)",
    ascii "Automatic Document Feeder(left aligned)"] := by
  intro h
  exact absurd h.oneSided (by decide)

end AirSane
