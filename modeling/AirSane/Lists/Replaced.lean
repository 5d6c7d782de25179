import Mathlib.Data.List.GetD
import Mathlib.Data.List.Range

/-! # Passes over a buffer

A pass that writes a buffer from its beginning has replaced the elements up to a
position and left the others alone, which it can still read.
-/

namespace Lists
variable {α : Type*}

/-- The buffer whose elements up to a position are new. -/
def replaced (new : ℕ → α) (m : ℕ) (data : List α) : List α :=
  data.mapIdx fun k x => if k < m then new k else x

variable {new : ℕ → α} {m n k : ℕ} {data : List α} {x : α}

@[simp] theorem length_replaced : (replaced new m data).length = data.length :=
  List.length_mapIdx

theorem getElem?_replaced : (replaced new m data)[k]? =
    if k < m then data[k]?.map fun _ => new k else data[k]? := by
  rw [replaced, List.getElem?_mapIdx]
  split_ifs <;> simp

@[simp] theorem replaced_zero : replaced new 0 data = data :=
  List.ext_getElem? fun _ => by rw [getElem?_replaced, if_neg (Nat.not_lt_zero _)]

/-- What has not been replaced is what it was. -/
theorem getD_replaced (h : m ≤ k) : (replaced new m data).getD k x = data.getD k x := by
  rw [List.getD_eq_getElem?_getD, List.getD_eq_getElem?_getD, getElem?_replaced, if_neg h.not_gt]

theorem getD_replaced_of_lt (h : k < m) (hk : k < data.length) :
    (replaced new m data).getD k x = new k := by
  rw [List.getD_eq_getElem?_getD, getElem?_replaced, if_pos h, List.getElem?_eq_getElem hk]
  rfl

/-- Writing the next element; there may be none. -/
theorem set_replaced : (replaced new m data).set m (new m) = replaced new (m + 1) data := by
  apply List.ext_getElem?
  intro k
  rw [List.getElem?_set, getElem?_replaced, getElem?_replaced, length_replaced]
  by_cases hk : m = k
  · subst hk
    by_cases hlt : m < data.length
    · simp [hlt]
    · simp [hlt]
  · have hiff : k < m + 1 ↔ k < m := by omega
    simp [hk, hiff]

/-- A pass of steps of one width. -/
theorem foldl_replaced {step : List α → ℕ → List α} {w : ℕ}
    (h : ∀ i, step (replaced new (w * i) data) i = replaced new (w * (i + 1)) data) (n : ℕ) :
    (List.range n).foldl step data = replaced new (w * n) data := by
  induction n with
  | zero => simp
  | succ n ih => rw [List.range_succ, List.foldl_append, ih, List.foldl_cons, List.foldl_nil, h]

/-- The beginning of a list, element by element. -/
theorem take_eq_map_range_iff (h : n ≤ data.length) :
    data.take n = (List.range n).map new ↔ ∀ k < n, data.getD k x = new k := by
  constructor
  · intro heq k hk
    have hget := congrArg (·[k]?) heq
    simp only [List.getElem?_take, if_pos hk, List.getElem?_map, List.getElem?_range hk] at hget
    rw [List.getD_eq_getElem?_getD, hget]
    rfl
  · intro heq
    apply List.ext_getElem?
    intro k
    rw [List.getElem?_take, List.getElem?_map]
    by_cases hk : k < n
    · have hget := heq k hk
      rw [List.getD_eq_getElem _ _ (hk.trans_le h)] at hget
      rw [if_pos hk, List.getElem?_range hk, List.getElem?_eq_getElem (hk.trans_le h), hget]
      rfl
    · rw [if_neg hk, List.getElem?_eq_none (by simpa using hk)]
      rfl

end Lists
