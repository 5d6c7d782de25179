import Mathlib.Algebra.Order.Floor.Ring
import Mathlib.Algebra.Order.Field.Basic

/-! # Numbers with infinities and what is not a number

The values that floating-point code computes with, over any ordered field. Where
a result has to be rounded the operations take the rounding, which may overflow.
Zero has no sign.
-/

namespace Numbers

inductive Extended (K : Type*) where
  | nan
  | infinite (negative : Bool)
  | finite (x : K)
  deriving DecidableEq

namespace Extended
variable {K : Type*}

def isnan : Extended K → Bool
  | .nan => true
  | _ => false

@[simp] theorem isnan_iff {a : Extended K} : a.isnan = true ↔ a = .nan := by
  cases a <;> simp [isnan]

section
variable [LinearOrder K]

/-- The comparison `<`, which never holds of what is not a number. -/
def less : Extended K → Extended K → Bool
  | .finite x, .finite y => x < y
  | .finite _, .infinite s => !s
  | .infinite s, .finite _ => s
  | .infinite s, .infinite t => s && !t
  | _, _ => false

/-- The comparison `==`. -/
def equal : Extended K → Extended K → Bool
  | .finite x, .finite y => x = y
  | .infinite s, .infinite t => s = t
  | _, _ => false

/-- `std::max`, which keeps the first of two values that do not compare. -/
def max (a b : Extended K) : Extended K := if a.less b then b else a

/-- `std::min`. -/
def min (a b : Extended K) : Extended K := if b.less a then b else a

/-- A number that is at least `c`, or positive infinity. -/
def Reaches (c : K) : Extended K → Prop
  | .finite x => c ≤ x
  | .infinite s => s = false
  | .nan => False

instance (c : K) : (a : Extended K) → Decidable (a.Reaches c)
  | .finite x => inferInstanceAs (Decidable (c ≤ x))
  | .infinite s => inferInstanceAs (Decidable (s = false))
  | .nan => inferInstanceAs (Decidable False)

variable {c x : K} {a b : Extended K}

@[simp] theorem reaches_finite : (finite x).Reaches c ↔ c ≤ x := .rfl
@[simp] theorem reaches_infinite {s : Bool} : (infinite s).Reaches c ↔ s = false := .rfl
@[simp] theorem not_reaches_nan : ¬ (nan : Extended K).Reaches c := fun h => h

/-- The larger of two values reaches what one of them does, even if the second is
not a number. -/
theorem reaches_max (ha : a ≠ .nan) : (a.max b).Reaches c ↔ a.Reaches c ∨ b.Reaches c := by
  cases a with
  | nan => exact absurd rfl ha
  | infinite s =>
    cases b with
    | infinite t => cases s <;> cases t <;> simp [max, less]
    | _ => cases s <;> simp [max, less]
  | finite x =>
    cases b with
    | nan => simp [max, less]
    | infinite t => cases t <;> simp [max, less]
    | finite y =>
      simp only [max, less, decide_eq_true_eq, reaches_finite]
      split_ifs with h
      · exact ⟨.inr, fun hc => hc.elim (·.trans h.le) id⟩
      · exact ⟨.inl, fun hc => hc.elim id (·.trans (not_lt.1 h))⟩

theorem max_ne_nan (ha : a ≠ .nan) : a.max b ≠ .nan := by
  rw [max]
  split_ifs with h
  · rintro rfl
    cases a <;> simp [less] at h
  · exact ha

theorem reaches_foldl_max (ha : a ≠ .nan) (l : List (Extended K)) :
    (l.foldl max a).Reaches c ↔ a.Reaches c ∨ ∃ b ∈ l, b.Reaches c := by
  induction l generalizing a with
  | nil => simp
  | cons b l ih =>
    rw [List.foldl_cons, ih (max_ne_nan ha), reaches_max ha, or_assoc]
    simp

/-- The largest value is one of them. -/
theorem foldl_max_mem (a : Extended K) (l : List (Extended K)) : l.foldl max a ∈ a :: l := by
  induction l generalizing a with
  | nil => exact List.mem_singleton_self a
  | cons b l ih =>
    have hmax : a.max b = a ∨ a.max b = b := by
      rw [max]
      split_ifs <;> simp
    rw [List.foldl_cons]
    rcases List.mem_cons.1 (ih (a.max b)) with h | h
    · rw [h]
      rcases hmax with hm | hm <;> simp [hm]
    · exact List.mem_cons_of_mem _ (List.mem_cons_of_mem _ h)

theorem foldl_max_ne_nan (ha : a ≠ .nan) (l : List (Extended K)) : l.foldl max a ≠ .nan := by
  induction l generalizing a with
  | nil => exact ha
  | cons b l ih => exact ih (max_ne_nan ha)

theorem ne_nan_of_equal {a b : Extended K} (h : a.equal b = true) : a ≠ .nan ∧ b ≠ .nan := by
  cases a <;> cases b <;> simp_all [equal]

end

section
variable [Field K] (round : K → Extended K)

def negate : Extended K → Extended K
  | .nan => .nan
  | .infinite s => .infinite !s
  | .finite x => .finite (-x)

def add : Extended K → Extended K → Extended K
  | .finite x, .finite y => round (x + y)
  | .finite _, .infinite s => .infinite s
  | .infinite s, .finite _ => .infinite s
  | .infinite s, .infinite t => if s = t then .infinite s else .nan
  | _, _ => .nan

def sub (a b : Extended K) : Extended K := add round a b.negate

variable {round} {x y : K} {s : Bool}

@[simp] theorem add_finite : add round (.finite x) (.finite y) = round (x + y) := rfl
@[simp] theorem add_nan (b : Extended K) : add round .nan b = .nan := by cases b <;> rfl
@[simp] theorem add_nan_right (a : Extended K) : add round a .nan = .nan := by cases a <;> rfl
@[simp] theorem negate_nan : negate (.nan : Extended K) = .nan := rfl
@[simp] theorem add_infinite : add round (.infinite s) (.finite y) = .infinite s := rfl

end

section
variable [Field K] [LinearOrder K] (round : K → Extended K)

def isNegative : Extended K → Bool
  | .nan => false
  | .infinite s => s
  | .finite x => x < 0

def isZero : Extended K → Bool
  | .finite x => x = 0
  | _ => false

def mul : Extended K → Extended K → Extended K
  | .finite x, .finite y => round (x * y)
  | .nan, _ => .nan
  | _, .nan => .nan
  | a, b => if a.isZero || b.isZero then .nan else .infinite (a.isNegative ^^ b.isNegative)

def div : Extended K → Extended K → Extended K
  | .finite x, .finite y =>
    if y = 0 then if x = 0 then .nan else .infinite (x < 0) else round (x / y)
  | .finite _, .infinite _ => .finite 0
  | .infinite s, .finite y => .infinite (s ^^ (y < 0 : Bool))
  | _, _ => .nan

def floor [FloorRing K] : Extended K → Extended K
  | .finite x => .finite ⌊x⌋
  | a => a

variable {round} {x y : K} {s : Bool}

@[simp] theorem mul_finite : mul round (.finite x) (.finite y) = round (x * y) := rfl
@[simp] theorem mul_nan (b : Extended K) : mul round .nan b = .nan := by cases b <;> rfl
@[simp] theorem floor_nan [FloorRing K] : floor (.nan : Extended K) = .nan := rfl
@[simp] theorem floor_infinite [FloorRing K] : floor (.infinite s : Extended K) = .infinite s := rfl
@[simp] theorem floor_finite [FloorRing K] : floor (.finite x) = .finite (⌊x⌋ : K) := rfl

theorem mul_infinite (hy : y ≠ 0) :
    mul round (.infinite s) (.finite y) = .infinite (s ^^ (y < 0 : Bool)) := by
  simp [mul, isZero, isNegative, hy]

theorem div_finite (hy : y ≠ 0) : div round (.finite x) (.finite y) = round (x / y) := if_neg hy

end

end Extended

end Numbers
