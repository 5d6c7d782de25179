import Mathlib.Data.Nat.Notation
import Mathlib.Order.Basic

/-! # The bits of a byte string, in either order

A run of bits at the beginning of a byte string depends on which end of a byte
is counted from. The two orders agree about whole bytes and part in the last,
partial one.
-/

namespace Bits

abbrev Bytes (n : ℕ) := Fin n → BitVec 8

inductive Order where
  | lsbFirst | msbFirst
  deriving DecidableEq

def Order.bit : Order → BitVec 8 → ℕ → Bool
  | .lsbFirst, b, t => b.getLsbD t
  | .msbFirst, b, t => b.getMsbD t

variable {n : ℕ}

/-- A byte, or zero beyond the end. -/
def byteAt (a : Bytes n) (j : ℕ) : BitVec 8 := if h : j < n then a ⟨j, h⟩ else 0

/-- The first `k` bits are the same. -/
def Agree (o : Order) (a b : Bytes n) (k : ℕ) : Prop :=
  ∀ i < k, o.bit (byteAt a (i / 8)) (i % 8) = o.bit (byteAt b (i / 8)) (i % 8)

/-- The first `k` bytes are the same. -/
def AgreeBytes (a b : Bytes n) (k : ℕ) : Prop := ∀ j < k, byteAt a j = byteAt b j

/-- The first `r` bits of byte `q` are the same. -/
def AgreeWithin (o : Order) (a b : Bytes n) (q r : ℕ) : Prop :=
  ∀ t < r, o.bit (byteAt a q) t = o.bit (byteAt b q) t

instance (o : Order) (a b : Bytes n) (k : ℕ) : Decidable (Agree o a b k) :=
  inferInstanceAs (Decidable (∀ i < k, _))

instance (a b : Bytes n) (k : ℕ) : Decidable (AgreeBytes a b k) :=
  inferInstanceAs (Decidable (∀ j < k, _))

instance (o : Order) (a b : Bytes n) (q r : ℕ) : Decidable (AgreeWithin o a b q r) :=
  inferInstanceAs (Decidable (∀ t < r, _))

@[simp] theorem byteAt_val (a : Bytes n) (j : Fin n) : byteAt a j = a j := by
  simp [byteAt]

theorem Order.ext (o : Order) {x y : BitVec 8} (h : ∀ t < 8, o.bit x t = o.bit y t) : x = y := by
  cases o with
  | lsbFirst => exact BitVec.eq_of_getLsbD_eq h
  | msbFirst => exact BitVec.eq_of_getMsbD_eq h

/-- Leading bits are whole bytes and the first bits of the next one. -/
theorem agree_iff (o : Order) (a b : Bytes n) (k : ℕ) :
    Agree o a b k ↔ AgreeBytes a b (k / 8) ∧ AgreeWithin o a b (k / 8) (k % 8) := by
  constructor
  · intro h
    constructor
    · intro j hj
      apply o.ext
      intro t ht
      have hi := h (8 * j + t) (by omega)
      rwa [show (8 * j + t) / 8 = j by omega, show (8 * j + t) % 8 = t by omega] at hi
    · intro t ht
      have hi := h (8 * (k / 8) + t) (by omega)
      rwa [show (8 * (k / 8) + t) / 8 = k / 8 by omega, show (8 * (k / 8) + t) % 8 = t by omega]
        at hi
  · rintro ⟨hbytes, hwithin⟩ i hi
    rcases Nat.lt_or_ge (i / 8) (k / 8) with hlt | hge
    · rw [hbytes _ hlt]
    · have hq : i / 8 = k / 8 := by omega
      rw [hq]
      exact hwithin _ (by omega)

theorem agreeWithin_zero (o : Order) (a b : Bytes n) (q : ℕ) : AgreeWithin o a b q 0 :=
  fun _ h => absurd h (Nat.not_lt_zero _)

/-- Masking with the first `k` bits of an order compares these bits. -/
theorem masked_eq_iff {a b m : Bytes n} {k : ℕ} (hk : k ≤ 8 * n)
    (hm : ∀ (j : Fin n), ∀ t < 8, (m j).getLsbD t = decide (8 * j.val + t < k)) :
    (∀ j, a j &&& m j = b j &&& m j) ↔ Agree .lsbFirst a b k := by
  constructor
  · intro h i hi
    have hj : i / 8 < n := by omega
    have hbit := congrArg (fun x => x.getLsbD (i % 8)) (h ⟨i / 8, hj⟩)
    have hin : 8 * (i / 8) + i % 8 < k := by omega
    simp only [BitVec.getLsbD_and, hm ⟨i / 8, hj⟩ (i % 8) (by omega), hin, decide_true,
      Bool.and_true] at hbit
    simpa [byteAt, hj, Order.bit] using hbit
  · intro h j
    apply BitVec.eq_of_getLsbD_eq
    intro t ht
    rw [BitVec.getLsbD_and, BitVec.getLsbD_and, hm j t ht]
    by_cases hin : 8 * j.val + t < k
    · have hbit := h (8 * j.val + t) hin
      rw [show (8 * j.val + t) / 8 = j.val by omega, show (8 * j.val + t) % 8 = t by omega,
        byteAt_val, byteAt_val] at hbit
      simpa [hin, Order.bit] using hbit
    · simp [hin]

end Bits
