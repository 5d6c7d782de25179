import Mathlib.Data.Nat.Digits.Defs
import Mathlib.Tactic.IntervalCases

/-! # Text as octets

Byte strings as streams have them, their ASCII characters, and numerals in a
base up to sixteen with the value that they are read back to.
-/

namespace Text

abbrev Octets := List UInt8

def ascii (s : String) : Octets := s.toList.map fun c => UInt8.ofNat c.toNat

def CR : UInt8 := 13
def LF : UInt8 := 10
def crlf : Octets := [CR, LF]

/-- A decidable property is checked on the elements of a list one by one. -/
theorem forall_mem_of_all {α : Type} {p : α → Prop} [DecidablePred p] {l : List α}
    (h : (l.all fun c => decide (p c)) = true) : ∀ c ∈ l, p c := by
  simpa using h

/-- White space of the classic locale. -/
def isspace (b : UInt8) : Bool := b = 32 || (9 ≤ b && b ≤ 13)

def toLower (b : UInt8) : UInt8 := if 65 ≤ b && b ≤ 90 then b + 32 else b

/-- Not the end of a line, nor part of it. -/
def Inline (s : Octets) : Prop := CR ∉ s ∧ LF ∉ s

theorem Inline.append {s t : Octets} (hs : Inline s) (ht : Inline t) : Inline (s ++ t) :=
  ⟨List.not_mem_append hs.1 ht.1, List.not_mem_append hs.2 ht.2⟩

theorem inline_of_not_space {s : Octets} (h : ∀ b ∈ s, isspace b = false) : Inline s :=
  ⟨fun hm => absurd (h _ hm) (by decide), fun hm => absurd (h _ hm) (by decide)⟩

/-- The lower-case digit of a value below sixteen. -/
def digit (d : ℕ) : UInt8 := UInt8.ofNat (if d < 10 then 48 + d else 87 + d)

def digitValue (b : UInt8) : Option ℕ :=
  if 48 ≤ b ∧ b ≤ 57 then some (b.toNat - 48)
  else if 97 ≤ b ∧ b ≤ 102 then some (b.toNat - 87)
  else if 65 ≤ b ∧ b ≤ 70 then some (b.toNat - 55)
  else none

theorem digitValue_digit {d : ℕ} (h : d < 16) : digitValue (digit d) = some d := by
  interval_cases d <;> decide

/-- A decidable property of bytes is checked on all of them. -/
theorem forall_byte {p : UInt8 → Prop} (h : ∀ i < 256, p (UInt8.ofNat i)) (b : UInt8) : p b := by
  simpa using h b.toNat b.toNat_lt

theorem not_space_of_isSome (b : UInt8) : (digitValue b).isSome → isspace b = false :=
  forall_byte (p := fun b => (digitValue b).isSome → isspace b = false) (by decide +kernel) b

theorem isspace_toLower (b : UInt8) : isspace (toLower b) = isspace b :=
  forall_byte (p := fun b => isspace (toLower b) = isspace b) (by decide +kernel) b

def numeral (base n : ℕ) : Octets :=
  if n = 0 then [digit 0] else (Nat.digits base n).reverse.map digit

/-- What a string of digits stands for. -/
def value (base : ℕ) (s : Octets) : ℕ :=
  s.foldl (fun acc b => acc * base + (digitValue b).getD 0) 0

section
variable {base n : ℕ}

theorem value_digits (L : List ℕ) (hL : ∀ d ∈ L, d < 16) :
    value base (L.reverse.map digit) = Nat.ofDigits base L := by
  rw [value, List.foldl_map, List.foldl_reverse]
  induction L with
  | nil => rfl
  | cons d L ih =>
    have hd : d < 16 := hL d (by simp)
    rw [List.foldr_cons, ih fun x hx => hL x (by simp [hx]), Nat.ofDigits_cons, digitValue_digit hd]
    simp [Nat.mul_comm, Nat.add_comm]

theorem digits_lt (hb : 2 ≤ base) (hb' : base ≤ 16) {d : ℕ} (hd : d ∈ Nat.digits base n) :
    d < 16 :=
  lt_of_lt_of_le (Nat.digits_lt_base hb hd) hb'

/-- A numeral is read back to its number. -/
theorem value_numeral (hb : 2 ≤ base) (hb' : base ≤ 16) : value base (numeral base n) = n := by
  by_cases hn : n = 0
  · simp [numeral, hn, value, digitValue_digit]
  · rw [numeral, if_neg hn, value_digits _ fun d hd => digits_lt hb hb' hd, Nat.ofDigits_digits]

theorem numeral_digit (hb : 2 ≤ base) (hb' : base ≤ 16) {b : UInt8} (h : b ∈ numeral base n) :
    ∃ d, digitValue b = some d := by
  unfold numeral at h
  split at h
  · obtain rfl := List.mem_singleton.1 h
    exact ⟨0, by decide⟩
  · obtain ⟨d, hd, rfl⟩ := List.mem_map.1 h
    exact ⟨d, digitValue_digit (digits_lt hb hb' (List.mem_reverse.1 hd))⟩

theorem numeral_ne_nil : numeral base n ≠ [] := by
  unfold numeral
  split
  · simp
  · rename_i hn
    simpa [Nat.digits_ne_nil_iff_ne_zero] using hn

theorem inline_numeral (hb : 2 ≤ base) (hb' : base ≤ 16) : Inline (numeral base n) := by
  apply inline_of_not_space
  intro b h
  obtain ⟨d, hd⟩ := numeral_digit hb hb' h
  exact not_space_of_isSome b (by simp [hd])

end
end Text
