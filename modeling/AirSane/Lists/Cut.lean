import Mathlib.Data.List.Infix

/-! # Lists cut at a pattern

What stands before and behind the first place where a pattern occurs.
-/

namespace Lists

variable {α : Type*} [DecidableEq α]

def cut (p : List α) : List α → Option (List α × List α)
  | [] => if p = [] then some ([], []) else none
  | b :: s => if p <+: b :: s then some ([], (b :: s).drop p.length)
    else (cut p s).map fun r => (b :: r.1, r.2)

variable {p a b s : List α} {c : α}

theorem cut_of_prefix (hp : p ≠ []) : cut p (p ++ b) = some ([], b) := by
  cases p with
  | nil => exact absurd rfl hp
  | cons x p =>
    rw [List.cons_append, cut, if_pos (by simp)]
    simp

/-- A pattern is found at a place if it occurs at none before it. -/
theorem cut_append (hp : p ≠ []) (h : ∀ t, t <:+ a → t ≠ [] → ¬ p <+: t ++ (p ++ b)) :
    cut p (a ++ (p ++ b)) = some (a, b) := by
  induction a with
  | nil => exact cut_of_prefix hp
  | cons x a ih =>
    have hx : ¬ p <+: x :: (a ++ (p ++ b)) := h _ List.suffix_rfl (List.cons_ne_nil x a)
    rw [List.cons_append, cut, if_neg hx, ih fun t ht => h t (ht.trans (List.suffix_cons x a))]
    rfl

theorem cut_singleton_append (h : c ∉ a) : cut [c] (a ++ c :: b) = some (a, b) := by
  refine cut_append (List.cons_ne_nil c []) fun t ht hne hpre => ?_
  obtain ⟨x, t, rfl⟩ := List.exists_cons_of_ne_nil hne
  have hx : c = x := (List.cons_prefix_cons.1 hpre).1
  exact h (ht.subset (by simp [hx]))

theorem cut_eq_none (hp : p ≠ []) (h : ¬ p <:+: s) : cut p s = none := by
  induction s with
  | nil => simp [cut, hp]
  | cons x s ih =>
    have hx : ¬ p <+: x :: s := fun hpre => h hpre.isInfix
    rw [cut, if_neg hx, ih fun hinf => h (hinf.trans (List.suffix_cons x s).isInfix)]
    rfl

theorem cut_singleton_eq_none (h : c ∉ s) : cut [c] s = none :=
  cut_eq_none (List.cons_ne_nil c []) fun hinf => h (hinf.subset (List.mem_singleton_self c))

end Lists
