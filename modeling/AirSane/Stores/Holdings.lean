import Mathlib.Data.Multiset.UnionInter
import Mathlib.Logic.Function.Basic

/-! # Who holds what

A table says for every name who holds it. Names are taken when they are free,
given up and handed over, and what each holder has is what the table says.
-/

namespace Stores
open Function

variable {N H : Type*}

/-- Holders have names of their own, and the table agrees with them. -/
structure Holdings (table : N → Option H) (held : H → Multiset N) : Prop where
  nodup : ∀ h, (held h).Nodup
  mem_iff : ∀ h x, x ∈ held h ↔ table x = some h

namespace Holdings
variable {table : N → Option H} {held held' : H → Multiset N} {h k : H} {x : N}

theorem table_eq (hd : Holdings table held) (hx : x ∈ held h) : table x = some h :=
  (hd.mem_iff h x).1 hx

theorem not_mem (hd : Holdings table held) (hx : x ∈ held h) (hk : k ≠ h) : x ∉ held k := by
  intro hmem
  exact hk (Option.some.inj ((hd.table_eq hmem).symm.trans (hd.table_eq hx)))

theorem not_mem_of_free (hd : Holdings table held) (hx : table x = none) : x ∉ held h := by
  intro hmem
  rw [hd.table_eq hmem] at hx
  simp at hx

/-- Only the book-keeping differs. -/
theorem congr (hd : Holdings table held) (he : ∀ j, held' j = held j) : Holdings table held' := by
  obtain rfl : held' = held := funext he
  exact hd

variable [DecidableEq N]

/-- A free name is taken. -/
theorem take (hd : Holdings table held) (hx : table x = none) (hk : held' k = x ::ₘ held k)
    (hne : ∀ j, j ≠ k → held' j = held j) : Holdings (update table x (some k)) held' := by
  constructor
  · intro j
    by_cases hj : j = k
    · rw [hj, hk]
      exact Multiset.nodup_cons.2 ⟨hd.not_mem_of_free hx, hd.nodup k⟩
    · rw [hne j hj]
      exact hd.nodup j
  · intro j y
    by_cases hy : y = x
    · subst hy
      by_cases hj : j = k
      · simp [hj, hk]
      · simp [hne j hj, hd.not_mem_of_free hx, Ne.symm hj]
    · rw [update_of_ne hy, ← hd.mem_iff]
      by_cases hj : j = k
      · simp [hj, hk, hy]
      · rw [hne j hj]

/-- A name is given up by its holder. -/
theorem drop (hd : Holdings table held) (hx : x ∈ held k) (hk : held' k = (held k).erase x)
    (hne : ∀ j, j ≠ k → held' j = held j) : Holdings (update table x none) held' := by
  constructor
  · intro j
    by_cases hj : j = k
    · rw [hj, hk]
      exact (hd.nodup k).erase x
    · rw [hne j hj]
      exact hd.nodup j
  · intro j y
    by_cases hy : y = x
    · subst hy
      by_cases hj : j = k
      · simp [hj, hk, (hd.nodup k).mem_erase_iff]
      · simp [hne j hj, hd.not_mem hx hj]
    · rw [update_of_ne hy, ← hd.mem_iff]
      by_cases hj : j = k
      · simp [hj, hk, Multiset.mem_erase_of_ne hy]
      · rw [hne j hj]

/-- A name is handed over to another holder. -/
theorem move (hd : Holdings table held) (hx : x ∈ held h) (hhk : h ≠ k)
    (hh : held' h = (held h).erase x) (hk : held' k = x ::ₘ held k)
    (hne : ∀ j, j ≠ h → j ≠ k → held' j = held j) : Holdings (update table x (some k)) held' := by
  classical
  have hdrop : Holdings (update table x none) (update held h ((held h).erase x)) :=
    hd.drop hx (update_self h _ held) fun j hj => update_of_ne hj _ held
  have htaken : held' k = x ::ₘ update held h ((held h).erase x) k := by
    rw [update_of_ne hhk.symm, hk]
  have hothers : ∀ j, j ≠ k → held' j = update held h ((held h).erase x) j := by
    intro j hj
    by_cases hjh : j = h
    · rw [hjh, hh, update_self]
    · rw [update_of_ne hjh, hne j hjh hj]
  have htake := hdrop.take (update_self x none table) htaken hothers
  rwa [update_idem] at htake

end Holdings
end Stores
