import AirSane.Text.Octets

/-! # UUIDs

`Uuid`: sixteen bytes, made from a string or at random, and printed in groups of
lower-case digits.
-/

namespace AirSane
open Text

/-- What strings are hashed with: `/etc/machine-id`, or the host name, and
`std::hash<std::string>` as the bytes of its result. -/
structure Hashing where
  sMachineId : Octets
  hashfn : Octets → Fin 8 → UInt8

structure Uuid where
  mData : Octets
  size : mData.length = 16

namespace Uuid

/-- The constructor without arguments. -/
def nil : Uuid := ⟨List.replicate 16 0, rfl⟩

/-- Marks the version in the sixth byte, and the variant in the eighth. -/
def mark (version : UInt8) (data : ℕ → UInt8) : Uuid where
  mData := List.ofFn fun i : Fin 16 =>
    if i.1 = 6 then data 6 &&& 0x0f ||| version
    else if i.1 = 8 then data 8 &&& 0x3f ||| 0x80
    else data i
  size := List.length_ofFn

/-- The string with the hash of it mixed in at `pos`. -/
def mixAt (h : Hashing) (pos : ℕ) (s : Octets) : Octets :=
  let hash := h.hashfn s
  s.mapIdx fun i b => if hi : pos ≤ i ∧ i - pos < 8 then b ^^^ hash ⟨i - pos, hi.2⟩ else b

/-- The loop over the string in steps of a hash. -/
def mix (h : Hashing) : ℕ → ℕ → Octets → Octets
  | 0, _, s => s
  | fuel + 1, pos, s => if pos < s.length then mix h fuel (pos + 8) (mixAt h pos s) else s

/-- Fills up to the size of a UUID. -/
def fill (h : Hashing) : ℕ → Octets → Octets
  | 0, s => s
  | fuel + 1, s => if s.length < 16 then fill h fuel (s ++ List.ofFn (h.hashfn s)) else s

/-- `Uuid::initFromString`. -/
def initFromString (h : Hashing) (inStringData : Octets) : Uuid :=
  let s := h.sMachineId ++ inStringData
  let s := fill h 2 (mix h s.length 0 s)
  mark 0x50 fun j =>
    ((s.zipIdx.filter fun e => e.2 % 16 = j).map Prod.fst).foldl (fun x b => x ^^^ b) 0

/-- `Uuid::Random`, from the bytes that the device gives. -/
def ofRandom (random : ℕ → UInt8) : Uuid := mark 0x40 random

def printByteGroup (data : Octets) (i j : ℕ) : Octets :=
  ((data.take j).drop i).flatMap fun p => [digit (p.toNat / 16), digit (p.toNat % 16)]

def toString (u : Uuid) : Octets :=
  printByteGroup u.mData 0 4 ++ ascii "-" ++ printByteGroup u.mData 4 6 ++ ascii "-" ++
    printByteGroup u.mData 6 8 ++ ascii "-" ++ printByteGroup u.mData 8 10 ++ ascii "-" ++
    printByteGroup u.mData 10 16

/-- A character of a printed UUID. -/
def IsChar (b : UInt8) : Prop := b = 45 ∨ (digitValue b).isSome

section
variable {data : Octets} {i j : ℕ} {b : UInt8} {u : Uuid}

theorem printByteGroup_length (h : j ≤ data.length) :
    (printByteGroup data i j).length = 2 * (j - i) := by
  have hgroup : ∀ s : Octets,
      (s.flatMap fun p => [digit (p.toNat / 16), digit (p.toNat % 16)]).length = 2 * s.length := by
    intro s
    induction s with
    | nil => rfl
    | cons p s ih =>
      rw [List.flatMap_cons, List.length_append, ih]
      simp only [List.length_cons, List.length_nil]
      omega
  rw [printByteGroup, hgroup, List.length_drop, List.length_take, Nat.min_eq_left h]

theorem printByteGroup_isChar (h : b ∈ printByteGroup data i j) : IsChar b := by
  obtain ⟨p, -, hp⟩ := List.mem_flatMap.1 h
  have hlt := p.toNat_lt
  have hdigit : ∀ d, d < 16 → IsChar (digit d) := by
    intro d hd
    exact .inr (by simp [digitValue_digit hd])
  rcases List.mem_cons.1 hp with rfl | hp
  · apply hdigit
    omega
  · rw [List.mem_singleton.1 hp]
    apply hdigit
    omega

theorem toString_length : u.toString.length = 36 := by
  have hsize := u.size
  simp only [toString, List.length_append]
  rw [printByteGroup_length (by omega), printByteGroup_length (by omega),
    printByteGroup_length (by omega), printByteGroup_length (by omega),
    printByteGroup_length (by omega)]
  rfl

theorem toString_isChar (h : b ∈ u.toString) : IsChar b := by
  have hdash : ∀ c, c ∈ ascii "-" → IsChar c := by
    intro c hc
    exact .inl (by simpa [ascii] using hc)
  simp only [toString, List.mem_append] at h
  rcases h with ((((((((h | h) | h) | h) | h) | h) | h) | h) | h)
  all_goals first
    | exact printByteGroup_isChar h
    | exact hdash b h

theorem isChar_not_space (h : IsChar b) : isspace b = false := by
  rcases h with rfl | h
  · decide
  · exact not_space_of_isSome b h

theorem not_isChar_slash : ¬ IsChar 47 := by
  simp [IsChar, digitValue]

end
end Uuid
end AirSane
