import Mathlib.Data.List.Nodup
import Mathlib.Data.List.Perm.Subperm
import Mathlib.Data.Nat.Notation

/-! # The first free name

Names that differ are numbered, and the first one that is not taken is chosen.
-/

namespace Numbering
variable {α : Type*} [DecidableEq α]

/-- Counts up as long as the name is taken. -/
def search (name : ℕ → α) (taken : List α) : ℕ → ℕ → ℕ
  | 0, i => i
  | fuel + 1, i => if name i ∈ taken then search name taken fuel (i + 1) else i

/-- From `start` on; more names than there are taken need not be tried. -/
def firstFree (name : ℕ → α) (taken : List α) (start : ℕ) : ℕ :=
  search name taken taken.length start

variable {name : ℕ → α} {taken : List α} {start k fuel i : ℕ}

variable (name taken fuel i) in
theorem search_cases :
    i ≤ search name taken fuel i ∧
      (∀ j, i ≤ j → j < search name taken fuel i → name j ∈ taken) ∧
      (name (search name taken fuel i) ∉ taken ∨ search name taken fuel i = i + fuel) := by
  induction fuel generalizing i with
  | zero =>
    refine ⟨Nat.le_refl i, fun j hj hlt => ?_, .inr rfl⟩
    simp only [search] at hlt
    omega
  | succ fuel ih =>
    by_cases hi : name i ∈ taken
    · obtain ⟨hle, hlow, hend⟩ := ih (i := i + 1)
      simp only [search, if_pos hi]
      refine ⟨by omega, fun j hj hlt => ?_, ?_⟩
      · by_cases hji : j = i
        · rw [hji]
          exact hi
        · exact hlow j (by omega) hlt
      · apply hend.imp_right
        omega
    · simp only [search, if_neg hi]
      refine ⟨Nat.le_refl i, fun j hj hlt => ?_, .inl hi⟩
      omega

variable (taken start) in
omit [DecidableEq α] in
/-- Not all of as many different names and one more are taken. -/
theorem exists_free (hname : name.Injective) :
    ∃ j, start ≤ j ∧ j ≤ start + taken.length ∧ name j ∉ taken := by
  by_contra hall
  simp only [not_exists, not_and, not_not] at hall
  have hnodup : ((List.range' start (taken.length + 1)).map name).Nodup :=
    List.Nodup.map hname List.nodup_range'
  have hsub : (List.range' start (taken.length + 1)).map name ⊆ taken := by
    intro x hx
    obtain ⟨j, hj, rfl⟩ := List.mem_map.1 hx
    have hrange := List.mem_range'_1.1 hj
    exact hall j hrange.1 (by omega)
  have hlen := (List.subperm_of_subset hnodup hsub).length_le
  simp only [List.length_map, List.length_range'] at hlen
  omega

theorem firstFree_spec (taken : List α) (start : ℕ) (hname : name.Injective) :
    start ≤ firstFree name taken start ∧ name (firstFree name taken start) ∉ taken ∧
      ∀ j, start ≤ j → j < firstFree name taken start → name j ∈ taken := by
  obtain ⟨hle, hlow, hend⟩ := search_cases name taken taken.length start
  refine ⟨hle, ?_, hlow⟩
  rcases hend with hfree | hlast
  · exact hfree
  · obtain ⟨j, hj, hj', hfree⟩ := exists_free taken start hname
    by_cases hjr : j < search name taken taken.length start
    · exact absurd (hlow j hj hjr) hfree
    · have hlast' : firstFree name taken start = j := by
        simp only [firstFree]
        omega
      rw [hlast']
      exact hfree

theorem firstFree_le (taken : List α) (start : ℕ) (hname : name.Injective) :
    firstFree name taken start ≤ start + taken.length := by
  obtain ⟨j, hj, hle, hfree⟩ := exists_free taken start hname
  by_contra hlt
  exact hfree ((firstFree_spec taken start hname).2.2 j hj (by omega))

theorem firstFree_eq_iff (hname : name.Injective) (hk : start ≤ k) :
    firstFree name taken start = k ↔
      name k ∉ taken ∧ ∀ j, start ≤ j → j < k → name j ∈ taken := by
  obtain ⟨hle, hfree, hlow⟩ := firstFree_spec taken start hname
  constructor
  · rintro rfl
    exact ⟨hfree, hlow⟩
  · rintro ⟨hk', hlow'⟩
    rcases Nat.lt_trichotomy (firstFree name taken start) k with h | h | h
    · exact absurd (hlow' _ hle h) hfree
    · exact h
    · exact absurd (hlow k hk h) hk'

end Numbering
