import Mathlib.Data.List.Forall2

/-! # Partial functions along lists

A partial function is applied to every element of a list, or folded over it; the
result is there if it is there for every element.
-/

namespace Lists
variable {α β σ : Type} {f : α → Option β} {l : List α}

theorem mapM_cons (a : α) : (a :: l).mapM f = (f a).bind fun b => (l.mapM f).map (b :: ·) := by
  rw [List.mapM_cons]
  cases f a <;> cases l.mapM f <;> rfl

theorem mapM_eq_some_iff {bs : List β} :
    l.mapM f = some bs ↔ List.Forall₂ (fun a b => f a = some b) l bs := by
  induction l generalizing bs with
  | nil =>
    rw [List.mapM_nil, List.forall₂_nil_left_iff]
    exact ⟨fun h => (Option.some.inj h).symm, fun h => congrArg some h.symm⟩
  | cons a l ih =>
    rw [mapM_cons, Option.bind_eq_some_iff]
    constructor
    · rintro ⟨b, hb, h⟩
      obtain ⟨bs', hbs, rfl⟩ := Option.map_eq_some_iff.1 h
      exact .cons hb (ih.1 hbs)
    · intro h
      cases h with
      | cons hb h => exact ⟨_, hb, Option.map_eq_some_iff.2 ⟨_, ih.2 h, rfl⟩⟩

theorem mapM_eq_none_iff : l.mapM f = none ↔ ∃ a ∈ l, f a = none := by
  induction l with
  | nil => simp
  | cons a l ih =>
    rw [mapM_cons, Option.bind_eq_none_iff]
    constructor
    · intro h
      cases hb : f a with
      | none => exact ⟨a, by simp, hb⟩
      | some b =>
        obtain ⟨a', ha', hn⟩ := ih.1 (Option.map_eq_none_iff.1 (h b hb))
        exact ⟨a', by simp [ha'], hn⟩
    · rintro ⟨a', ha', hn⟩ b hb
      rcases List.mem_cons.1 ha' with rfl | ha'
      · rw [hn] at hb
        cases hb
      · exact Option.map_eq_none_iff.2 (ih.2 ⟨a', ha', hn⟩)

theorem exists_mem_of_mapM {a : α} {bs : List β} (h : l.mapM f = some bs) (ha : a ∈ l) :
    ∃ b ∈ bs, f a = some b := by
  rw [mapM_eq_some_iff] at h
  induction h with
  | nil => cases ha
  | @cons a' b l bs hab _ ih =>
    cases ha with
    | head => exact ⟨b, List.mem_cons_self, hab⟩
    | tail _ ha =>
      rcases ih ha with ⟨b', hb', hf⟩
      exact ⟨b', List.mem_cons_of_mem _ hb', hf⟩

end Lists
