import AirSane.Numbers.Rounding
import AirSane.Basic.Dictionary
import Mathlib.Data.List.TakeWhile
import Mathlib.Data.Rat.Floor

/-! # Numbers from text

`strtonum`: what `>>` takes off the front of a text for a number of type
`double`, in the classic locale, and the conversion of the result to `int`, which
says nothing about numbers that do not fit.
-/

namespace AirSane
open Text

def MINUS : UInt8 := 45
def PLUS : UInt8 := 43
def POINT : UInt8 := 46

def isDigit (b : UInt8) : Bool := 48 ≤ b && b ≤ 57

/-- A number as it is written. -/
structure Literal where
  negative : Bool
  magnitude : ℚ

def hasSign (s : Octets) : Bool := s.head? = some PLUS || s.head? = some MINUS

def withoutSign (s : Octets) : Octets := if hasSign s then s.drop 1 else s

def hasPoint (s : Octets) : Bool := s.head? = some POINT

def hasExponent (s : Octets) : Bool := s.head? = some 101 || s.head? = some 69

/-- The digits after a point, if there is one. -/
def fraction (s : Octets) : Octets := if hasPoint s then (s.drop 1).takeWhile isDigit else []

def afterFraction (s : Octets) : Octets := if hasPoint s then (s.drop 1).dropWhile isDigit else s

/-- The power of ten that a text starts with, which is none if an exponent has no
digits. -/
def power (s : Octets) : Option ℤ :=
  if hasExponent s then
    let digits := (withoutSign (s.drop 1)).takeWhile isDigit
    if digits = [] then none
    else some (if (s.drop 1).head? = some MINUS then -(value 10 digits : ℤ) else value 10 digits)
  else some 0

/-- The sign, digits, fraction and exponent at the front of a text. -/
def scan (s : Octets) : Option Literal :=
  let whole := (withoutSign s).takeWhile isDigit
  let after := (withoutSign s).dropWhile isDigit
  if whole ++ fraction after = [] then none
  else (power (afterFraction after)).map fun (e : ℤ) =>
    ⟨s.head? = some MINUS,
      value 10 (whole ++ fraction after) * 10 ^ (e - (fraction after).length)⟩

def binary64 : Numbers.Format := ⟨53, -1074⟩

/-- The number of type `double` for a literal, unless it is too large. -/
def toDouble (l : Literal) : Option ℚ :=
  let m := binary64.round l.magnitude
  if 2 ^ 1024 ≤ m then none else some (if l.negative then -m else m)

/-- `strtonum`, where `none` is not a number. -/
def strtonum (s : Octets) : Option ℚ := (scan (s.dropWhile isspace)).bind toDouble

def Dictionary.getNumber (d : Dictionary) (key : Octets) : Option ℚ := strtonum (d.getString key)

def InInt (n : ℤ) : Prop := -2 ^ 31 ≤ n ∧ n < 2 ^ 31

instance (n : ℤ) : Decidable (InInt n) := inferInstanceAs (Decidable (_ ∧ _))

def truncate (x : ℚ) : ℤ := if 0 ≤ x then ⌊x⌋ else ⌈x⌉

/-- The conversion to `int`. What does not fit becomes what the machine makes of
it. -/
def toInt (machine : Option ℚ → ℤ) : Option ℚ → ℤ
  | some x => if InInt (truncate x) then truncate x else machine (some x)
  | none => machine none

/-- A whole number, written with its digits. -/
def Decimal (s : Octets) (n : ℤ) : Prop :=
  ∃ digits : Octets, digits ≠ [] ∧ digits.all isDigit ∧
    ((s = digits ∨ s = PLUS :: digits) ∧ n = value 10 digits ∨
      s = MINUS :: digits ∧ n = -(value 10 digits : ℤ))

/-- A negative number that is at least one away from zero as a `double`, and whose
whole part fits. -/
def Negative (s : Octets) : Prop :=
  ∃ l, scan (s.dropWhile isspace) = some l ∧ l.negative = true ∧
    1 - 1 / 2 ^ 54 ≤ l.magnitude ∧ l.magnitude < 2 ^ 31 + 1 - 1 / 2 ^ 22

section
variable {s digits : Octets} {n : ℤ} {l : Literal}

theorem scan_nonneg (h : scan s = some l) : 0 ≤ l.magnitude := by
  rw [scan] at h
  split_ifs at h
  rcases Option.map_eq_some_iff.1 h with ⟨e, -, rfl⟩
  exact mul_nonneg (Nat.cast_nonneg _) (zpow_nonneg (by norm_num) _)

theorem scan_digits (hne : digits ≠ []) (hd : digits.all isDigit) (hs : withoutSign s = digits) :
    scan s = some ⟨s.head? = some MINUS, value 10 digits⟩ := by
  have htake : digits.takeWhile isDigit = digits :=
    List.takeWhile_eq_self_iff.2 (List.all_eq_true.1 hd)
  have hdrop : digits.dropWhile isDigit = [] :=
    List.dropWhile_eq_nil_iff.2 (List.all_eq_true.1 hd)
  have hfraction : fraction [] = [] := rfl
  have hafter : afterFraction [] = [] := rfl
  have hpower : power [] = some 0 := rfl
  simp [scan, hs, htake, hdrop, hfraction, hafter, hpower, hne]

theorem not_sign_of_isDigit (b : UInt8) : isDigit b = true → b ≠ PLUS ∧ b ≠ MINUS :=
  forall_byte (p := fun b => isDigit b = true → b ≠ PLUS ∧ b ≠ MINUS) (by decide +kernel) b

theorem not_space_of_isDigit (b : UInt8) : isDigit b = true → isspace b = false :=
  forall_byte (p := fun b => isDigit b = true → isspace b = false) (by decide +kernel) b

theorem Decimal.no_space (h : Decimal s n) : s.dropWhile isspace = s := by
  have hcons {b : UInt8} {t : Octets} (hb : isspace b = false) :
      (b :: t).dropWhile isspace = b :: t := by simp [hb]
  rcases h with ⟨digits, hne, hd, ⟨rfl | rfl, -⟩ | ⟨rfl, -⟩⟩
  · cases s with
    | nil => rfl
    | cons b t => exact hcons (not_space_of_isDigit b (List.all_eq_true.1 hd b List.mem_cons_self))
  · exact hcons (by decide)
  · exact hcons (by decide)

/-- What a whole number is read to. -/
theorem scan_decimal (h : Decimal s n) : ∃ l, scan (s.dropWhile isspace) = some l ∧
    l.magnitude = n.natAbs ∧ (if l.negative then -l.magnitude else l.magnitude) = n := by
  rw [h.no_space]
  rcases h with ⟨digits, hne, hd, ⟨rfl | rfl, rfl⟩ | ⟨rfl, rfl⟩⟩
  · cases s with
    | nil => exact absurd rfl hne
    | cons b t =>
      have hsign := not_sign_of_isDigit b (List.all_eq_true.1 hd b List.mem_cons_self)
      have hwithout : withoutSign (b :: t) = b :: t := by
        simp [withoutSign, hasSign, hsign.1, hsign.2]
      refine ⟨_, scan_digits hne hd hwithout, ?_, ?_⟩
      · simp
      · simp [hsign.2]
  · refine ⟨_, scan_digits hne hd rfl, ?_, ?_⟩
    · simp
    · simp [PLUS, MINUS]
  · refine ⟨_, scan_digits hne hd rfl, ?_, ?_⟩
    · simp
    · simp

theorem binary64_natCast {k : ℕ} (h : k < 2 ^ 53) : binary64.round (k : ℚ) = k :=
  Numbers.round_natCast (F := binary64) (by decide) h

/-- Whole numbers that fit are converted to themselves. -/
theorem toInt_decimal (machine : Option ℚ → ℤ) (h : Decimal s n) (hn : InInt n) :
    toInt machine (strtonum s) = n := by
  rcases scan_decimal h with ⟨l, hscan, hmag, hval⟩
  have habs : n.natAbs < 2 ^ 53 := by
    rw [InInt] at hn
    omega
  have hlt : ¬ (2 : ℚ) ^ 1024 ≤ n.natAbs := by
    rw [not_le]
    calc (n.natAbs : ℚ) < 2 ^ 53 := by exact_mod_cast habs
      _ ≤ 2 ^ 1024 := pow_le_pow_right₀ one_le_two (by norm_num)
  have hdouble : strtonum s = some (n : ℚ) := by
    rw [strtonum, hscan, Option.bind_some, toDouble, hmag, binary64_natCast habs, if_neg hlt, ← hmag,
      hval]
  have htrunc : truncate (n : ℚ) = n := by
    rw [truncate, Int.floor_intCast, Int.ceil_intCast, ite_self]
  rw [hdouble, toInt, htrunc, if_pos hn]

theorem one_le_round {m : ℚ} (hm : 0 ≤ m) : 1 ≤ binary64.round m ↔ 1 - 1 / 2 ^ 54 ≤ m := by
  have h := Numbers.le_round_iff (F := binary64) (k := -1) (n := 2 ^ 53) (by decide) (by decide)
    (by decide) hm (by norm_num [binary64]) (by norm_num [binary64])
  norm_num [binary64] at h ⊢
  exact h

theorem le_round_succ {m : ℚ} (hm : 0 ≤ m) :
    2 ^ 31 + 1 ≤ binary64.round m ↔ 2 ^ 31 + 1 - 1 / 2 ^ 22 ≤ m := by
  have h := Numbers.le_round_iff (F := binary64) (k := 31) (n := (2 ^ 31 + 1) * 2 ^ 21) (by decide)
    (by decide) (by decide) hm (by norm_num [binary64]) (by norm_num [binary64])
  norm_num [binary64] at h ⊢
  exact h

theorem truncate_neg {r : ℚ} (hr : 0 ≤ r) : truncate (-r) = -⌊r⌋ := by
  rw [truncate, Int.ceil_neg]
  split_ifs with h
  · have hzero : r = 0 := le_antisymm (neg_nonneg.1 h) hr
    simp [hzero]
  · rfl

/-- A number has a negative whole part that fits when it is so as it is written. -/
theorem negative_iff :
    Negative s ↔ ∃ x, strtonum s = some x ∧ InInt (truncate x) ∧ truncate x < 0 := by
  rw [Negative, strtonum]
  cases hscan : scan (s.dropWhile isspace) with
  | none => simp
  | some l =>
    have hm := scan_nonneg hscan
    have hround : 0 ≤ binary64.round l.magnitude := Numbers.round_nonneg hm
    constructor
    · rintro ⟨l', heq, hneg, hlow, hhigh⟩
      rw [← Option.some.inj heq] at hneg hlow hhigh
      have hone := (one_le_round hm).2 hlow
      have hlt : binary64.round l.magnitude < 2 ^ 31 + 1 := by
        rw [← not_le, le_round_succ hm, not_le]
        exact hhigh
      have hdouble : ¬ 2 ^ 1024 ≤ binary64.round l.magnitude := by
        rw [not_le]
        calc binary64.round l.magnitude < 2 ^ 31 + 1 := hlt
          _ ≤ 2 ^ 32 := by norm_num
          _ ≤ 2 ^ 1024 := pow_le_pow_right₀ one_le_two (by norm_num)
      have hfloor : 1 ≤ ⌊binary64.round l.magnitude⌋ := Int.le_floor.2 (by exact_mod_cast hone)
      have hfits : ⌊binary64.round l.magnitude⌋ < 2 ^ 31 + 1 := Int.floor_lt.2 (by exact_mod_cast hlt)
      refine ⟨-binary64.round l.magnitude, ?_, ?_, ?_⟩
      · rw [Option.bind_some, toDouble, if_neg hdouble, hneg, if_pos rfl]
      · rw [truncate_neg hround, InInt]
        omega
      · rw [truncate_neg hround]
        omega
    · rintro ⟨x, hx, hfit, hlt⟩
      rw [Option.bind_some, toDouble] at hx
      split_ifs at hx with hdouble hneg
      · have heq := Option.some.inj hx
        rw [← heq, truncate_neg hround] at hlt hfit
        rw [InInt] at hfit
        refine ⟨l, rfl, hneg, ?_, ?_⟩
        · rw [← one_le_round hm]
          exact_mod_cast Int.le_floor.1 (show 1 ≤ ⌊binary64.round l.magnitude⌋ by omega)
        · rw [← not_le, ← le_round_succ hm, not_le]
          have hfits : ⌊binary64.round l.magnitude⌋ < 2 ^ 31 + 1 := by omega
          exact_mod_cast Int.floor_lt.1 hfits
      · rw [← Option.some.inj hx, truncate, if_pos hround] at hlt
        exact absurd (Int.floor_nonneg.2 hround) hlt.not_ge

theorem toInt_negative {machine : Option ℚ → ℤ} (h : Negative s) :
    toInt machine (strtonum s) < 0 := by
  rcases negative_iff.1 h with ⟨x, hx, hfits, hneg⟩
  rw [hx, toInt, if_pos hfits]
  exact hneg

/-- A machine that makes zero of all that does not fit. -/
theorem negative_of_toInt (h : toInt (fun _ => 0) (strtonum s) < 0) : Negative s := by
  rw [negative_iff]
  cases hx : strtonum s with
  | none =>
    rw [hx, toInt] at h
    exact absurd h (lt_irrefl 0)
  | some x =>
    rw [hx, toInt] at h
    split_ifs at h with hfits
    · exact ⟨x, rfl, hfits, h⟩
    · exact absurd h (lt_irrefl 0)

end

end AirSane
