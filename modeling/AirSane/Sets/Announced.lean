import AirSane.Lists.Places
import Mathlib.Data.Finset.Basic
import Mathlib.Data.Finset.Card
import Mathlib.Data.Finset.Dedup
import Mathlib.Data.List.Count
import Mathlib.Logic.Function.Iterate
import Mathlib.Tactic.Tauto

/-! # A set whose changes are announced

An addition is announced if it is news, a removal always is.
-/

namespace Sets
open Lists

inductive Change (α : Type*) where
  | add (a : α)
  | remove (a : α)
  deriving DecidableEq, Repr

inductive Notice where
  | added | removed
  deriving DecidableEq, Repr

variable {α : Type*}

def Change.isRemove : Change α → Bool
  | .add _ => false
  | .remove _ => true

/-- Without a removal there are additions only. -/
theorem Change.exists_eq_map_add {cs : List (Change α)}
    (h : cs.countP Change.isRemove = 0) : ∃ as : List α, cs = as.map .add := by
  induction cs with
  | nil => exact ⟨[], rfl⟩
  | cons c cs ih =>
    cases c with
    | add a =>
      rw [List.countP_cons_of_neg (by simp [Change.isRemove])] at h
      obtain ⟨as, rfl⟩ := ih h
      exact ⟨a :: as, rfl⟩
    | remove a =>
      rw [List.countP_cons_of_pos (by rfl)] at h
      omega

/-- A set and what has been announced of it. -/
structure Announced (α : Type*) where
  members : Finset α
  notices : List Notice

namespace Announced

/-- What is added is there, and has not been removed before. -/
def Stale (S : Finset α) (cs : List (Change α)) : Prop :=
  ∀ pre b post, cs = pre ++ .add b :: post → b ∈ S ∧ .remove b ∉ pre

theorem stale_add {S : Finset α} {cs : List (Change α)} {a : α} :
    Stale S (.add a :: cs) ↔ a ∈ S ∧ Stale S cs := by
  refine forall_place_cons.trans (and_congr ?_ ?_)
  · simp
  · simp [Stale]

variable [DecidableEq α]

def apply (s : Announced α) : Change α → Announced α
  | .add a => if a ∈ s.members then s else ⟨insert a s.members, s.notices ++ [.added]⟩
  | .remove a => ⟨s.members.erase a, s.notices ++ [.removed]⟩

def after (S : Finset α) (cs : List (Change α)) : Announced α := cs.foldl apply ⟨S, []⟩

variable {S : Finset α} {cs : List (Change α)} {a b : α} {n : ℕ} {s : Announced α}

/-- What has been announced before makes no difference. -/
theorem foldl_apply (cs : List (Change α)) (s : Announced α) :
    cs.foldl apply s =
      ⟨(after s.members cs).members, s.notices ++ (after s.members cs).notices⟩ := by
  induction cs generalizing s with
  | nil => simp [after]
  | cons c cs ih =>
    have hone : s.apply c = ⟨((⟨s.members, []⟩ : Announced α).apply c).members,
        s.notices ++ ((⟨s.members, []⟩ : Announced α).apply c).notices⟩ := by
      cases c with
      | add a =>
        simp only [apply]
        split_ifs <;> simp
      | remove a => rfl
    rw [after, List.foldl_cons, List.foldl_cons, ih, hone, ih (apply ⟨s.members, []⟩ c)]
    simp

theorem after_add_of_mem (h : a ∈ S) : after S (.add a :: cs) = after S cs := by
  rw [after, List.foldl_cons, apply, if_pos h, after]

theorem after_add_of_not_mem (h : a ∉ S) : after S (.add a :: cs) =
    ⟨(after (insert a S) cs).members, .added :: (after (insert a S) cs).notices⟩ := by
  rw [after, List.foldl_cons, apply, if_neg h, foldl_apply]
  rfl

theorem after_remove : after S (.remove a :: cs) =
    ⟨(after (S.erase a) cs).members, .removed :: (after (S.erase a) cs).notices⟩ := by
  rw [after, List.foldl_cons, apply, foldl_apply]
  rfl

/-- An addition again and again. -/
theorem after_replicate_add (n : ℕ) : after S (List.replicate (n + 1) (.add a)) =
    ⟨insert a S, if a ∈ S then [] else [.added]⟩ := by
  have hagain : ∀ T : Finset α, a ∈ T → ∀ n, after T (List.replicate n (.add a)) = ⟨T, []⟩ := by
    intro T hT n
    induction n with
    | zero => rfl
    | succ n ih => rw [List.replicate_succ, after_add_of_mem hT, ih]
  rw [List.replicate_succ]
  split_ifs with h
  · rw [after_add_of_mem h, hagain S h, Finset.insert_eq_of_mem h]
  · rw [after_add_of_not_mem h, hagain _ (Finset.mem_insert_self a S)]

/-- A removal again and again. -/
theorem after_replicate_remove (n : ℕ) : after S (List.replicate (n + 1) (.remove a)) =
    ⟨S.erase a, List.replicate (n + 1) .removed⟩ := by
  induction n generalizing S with
  | zero => rfl
  | succ n ih =>
    rw [List.replicate_succ, after_remove, ih, Finset.erase_idem]
    rfl

theorem count_removed : (after S cs).notices.count .removed = cs.countP Change.isRemove := by
  induction cs generalizing S with
  | nil => rfl
  | cons c cs ih =>
    cases c with
    | add a =>
      rw [List.countP_cons_of_neg (by simp [Change.isRemove])]
      by_cases h : a ∈ S
      · rw [after_add_of_mem h, ih]
      · rw [after_add_of_not_mem h, List.count_cons_of_ne (by decide), ih]
    | remove a =>
      rw [List.countP_cons_of_pos (by rfl), after_remove, List.count_cons_self, ih]

/-- Additions only. -/
theorem after_map_add (as : List α) : after S (as.map .add) =
    ⟨S ∪ as.toFinset, List.replicate (as.toFinset \ S).card .added⟩ := by
  induction as generalizing S with
  | nil => simp [after]
  | cons a as ih =>
    rw [List.map_cons, List.toFinset_cons]
    by_cases h : a ∈ S
    · rw [after_add_of_mem h, ih, Finset.insert_sdiff_of_mem _ h, Finset.union_insert,
        Finset.insert_eq_of_mem (Finset.mem_union_left _ h)]
    · have hcard : (insert a as.toFinset \ S).card = (as.toFinset \ insert a S).card + 1 := by
        have hsame : insert a (as.toFinset \ S) = insert a ((as.toFinset \ S).erase a) := by
          ext b
          by_cases hb : b = a <;> simp [hb]
        rw [Finset.insert_sdiff_of_notMem _ h, Finset.sdiff_insert, hsame,
          Finset.card_insert_of_notMem (Finset.notMem_erase a _)]
      rw [after_add_of_not_mem h, ih, hcard, List.replicate_succ, Finset.insert_union,
        Finset.union_insert]

/-- When a set ends up with `a` besides, and this is announced if it is news. -/
theorem after_eq_add_iff : after S cs = ⟨insert a S, if a ∈ S then [] else [.added]⟩ ↔
    (∀ c ∈ cs, ∃ b ∈ insert a S, c = .add b) ∧ (a ∈ S ∨ .add a ∈ cs) := by
  constructor
  · intro h
    have hnone : cs.countP Change.isRemove = 0 := by
      rw [← count_removed (S := S), h]
      split_ifs <;> rfl
    obtain ⟨as, rfl⟩ := Change.exists_eq_map_add hnone
    have hmem : S ∪ as.toFinset = insert a S := by
      rw [after_map_add] at h
      exact congrArg members h
    refine ⟨fun c hc => ?_, ?_⟩
    · obtain ⟨b, hb, rfl⟩ := List.mem_map.1 hc
      exact ⟨b, hmem ▸ Finset.mem_union_right _ (List.mem_toFinset.2 hb), rfl⟩
    · have ha : a ∈ S ∪ as.toFinset := hmem ▸ Finset.mem_insert_self a S
      simpa using ha
  · rintro ⟨hall, ha⟩
    have hnone : cs.countP Change.isRemove = 0 := List.countP_eq_zero.2 fun c hc => by
      obtain ⟨b, -, rfl⟩ := hall c hc
      simp [Change.isRemove]
    obtain ⟨as, rfl⟩ := Change.exists_eq_map_add hnone
    have hmem : S ∪ as.toFinset = insert a S := by
      refine Finset.Subset.antisymm (Finset.union_subset (Finset.subset_insert a S) ?_) ?_
      · intro b hb
        obtain ⟨b', hb', heq⟩ := hall (.add b) (List.mem_map_of_mem (List.mem_toFinset.1 hb))
        cases heq
        exact hb'
      · refine Finset.insert_subset ?_ Finset.subset_union_left
        simpa using ha
    have hnews : as.toFinset \ S = insert a S \ S := by rw [← hmem, Finset.union_sdiff_left]
    rw [after_map_add, hmem, hnews]
    split_ifs with h
    · rw [Finset.insert_eq_of_mem h, sdiff_self]
      rfl
    · rw [Finset.insert_sdiff_of_notMem _ h, sdiff_self]
      rfl

/-- When a set stays as it is, with no announcement. -/
theorem after_eq_self_iff : after S cs = ⟨S, []⟩ ↔ ∀ c ∈ cs, ∃ b ∈ S, c = .add b := by
  induction cs with
  | nil => simp [after]
  | cons c cs ih =>
    rw [List.forall_mem_cons, ← ih]
    cases c with
    | add a =>
      by_cases h : a ∈ S
      · rw [after_add_of_mem h]
        exact (and_iff_right ⟨a, h, rfl⟩).symm
      · rw [after_add_of_not_mem h]
        simp [h]
    | remove a =>
      rw [after_remove]
      simp

theorem stale_remove : Stale S (.remove a :: cs) ↔ Stale (S.erase a) cs := by
  refine forall_place_cons.trans ((and_iff_right (by simp)).trans ?_)
  refine forall₄_congr fun pre b post _ => ?_
  rw [Finset.mem_erase, List.mem_cons, Change.remove.injEq, not_or]
  tauto

/-- Of removals only, and additions that are no news. -/
theorem after_of_stale (h : Stale S cs) : after S cs =
    ⟨S.filter fun b => .remove b ∉ cs, List.replicate (cs.countP Change.isRemove) .removed⟩ := by
  induction cs generalizing S with
  | nil => simp [after]
  | cons c cs ih =>
    cases c with
    | add a =>
      obtain ⟨ha, h⟩ := stale_add.1 h
      rw [after_add_of_mem ha, ih h, List.countP_cons_of_neg (by simp [Change.isRemove])]
      simp
    | remove a =>
      rw [after_remove, ih (stale_remove.1 h), List.countP_cons_of_pos (by rfl),
        List.replicate_succ]
      congr 1
      ext b
      simp only [Finset.mem_filter, Finset.mem_erase, List.mem_cons, Change.remove.injEq, not_or]
      tauto

theorem stale_iff : Stale S cs ↔ .added ∉ (after S cs).notices := by
  induction cs generalizing S with
  | nil => simp [Stale, after]
  | cons c cs ih =>
    cases c with
    | add a =>
      rw [stale_add]
      by_cases ha : a ∈ S
      · rw [after_add_of_mem ha, ← ih]
        exact and_iff_right ha
      · rw [after_add_of_not_mem ha]
        exact iff_of_false (fun h => ha h.1) fun h => h List.mem_cons_self
    | remove a =>
      rw [stale_remove, ih, after_remove]
      simp

/-- When a set loses `a`, and `n` removals are announced. -/
theorem after_eq_remove_iff : after S cs = ⟨S.erase a, List.replicate n .removed⟩ ↔
    Stale S cs ∧ cs.countP Change.isRemove = n ∧ ∀ b ∈ S, .remove b ∈ cs ↔ b = a := by
  have hfilter : (S.filter fun b => .remove b ∉ cs) = S.erase a ↔
      ∀ b ∈ S, .remove b ∈ cs ↔ b = a := by
    rw [Finset.ext_iff]
    refine forall_congr' fun b => ?_
    rw [Finset.mem_filter, Finset.mem_erase]
    tauto
  constructor
  · intro h
    have hstale : Stale S cs := stale_iff.2 (by simp [h])
    rw [after_of_stale hstale] at h
    obtain ⟨hmem, hnotices⟩ := Announced.mk.inj h
    exact ⟨hstale, by simpa using congrArg List.length hnotices, hfilter.1 hmem⟩
  · rintro ⟨hstale, rfl, hmem⟩
    rw [after_of_stale hstale, hfilter.2 hmem]

/-- One change, if there is one. -/
def applied (c : Option (Change α)) (s : Announced α) : Announced α := c.elim s s.apply

/-- The changes come to the same as this one, made `n` times. -/
def SameAs (S : Finset α) (cs : List (Change α)) (n : ℕ) : Option (Change α) → Prop
  | none => ∀ c ∈ cs, ∃ b ∈ S, c = .add b
  | some (.add a) => (∀ c ∈ cs, ∃ b ∈ insert a S, c = .add b) ∧ (a ∈ S ∨ .add a ∈ cs)
  | some (.remove a) =>
    Stale S cs ∧ cs.countP Change.isRemove = n ∧ ∀ b ∈ S, .remove b ∈ cs ↔ b = a

theorem iterate_applied (c : Change α) (n : ℕ) (s : Announced α) :
    (applied (some c))^[n] s = (List.replicate n c).foldl apply s := by
  induction n generalizing s with
  | zero => rfl
  | succ n ih => exact ih (s.apply c)

theorem after_eq_iterate_iff (c : Option (Change α)) (n : ℕ) :
    after S cs = (applied c)^[n + 1] ⟨S, []⟩ ↔ SameAs S cs (n + 1) c := by
  cases c with
  | none =>
    have hid : (applied (none : Option (Change α)))^[n + 1] ⟨S, []⟩ = ⟨S, []⟩ :=
      Function.iterate_fixed rfl (n + 1)
    rw [hid]
    exact after_eq_self_iff
  | some c =>
    have hmany : (applied (some c))^[n + 1] ⟨S, []⟩ = after S (List.replicate (n + 1) c) :=
      iterate_applied c (n + 1) _
    rw [hmany]
    cases c with
    | add a =>
      rw [after_replicate_add]
      exact after_eq_add_iff
    | remove a =>
      rw [after_replicate_remove]
      exact after_eq_remove_iff

end Announced
end Sets
