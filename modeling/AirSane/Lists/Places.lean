import Mathlib.Init

/-! # Places of a list

What holds wherever a list has an element of one kind.
-/

namespace Lists

variable {α β : Type*} {f : β → α} {P : List α → β → Prop} {c : α} {t : List α}

/-- The first place and the other ones. -/
theorem forall_place_cons :
    (∀ pre q post, c :: t = pre ++ f q :: post → P pre q) ↔
      (∀ q, c = f q → P [] q) ∧ ∀ pre q post, t = pre ++ f q :: post → P (c :: pre) q := by
  constructor
  · refine fun h => ⟨fun q hc => h [] q t (by rw [hc]; rfl), fun pre q post ht => ?_⟩
    exact h (c :: pre) q post (by rw [ht]; rfl)
  · rintro ⟨hfirst, hrest⟩ pre q post ht
    cases pre with
    | nil => exact hfirst q (List.cons.inj ht).1
    | cons d pre =>
      obtain ⟨rfl, hpre⟩ := List.cons.inj ht
      exact hrest pre q post hpre

end Lists
