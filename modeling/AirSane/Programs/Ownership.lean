import AirSane.Lists.Places
import Mathlib.Data.List.Count
import Mathlib.Data.List.Nodup

/-! # A pointer that owns what it points to

Resources are created into one pointer, used through it and destroyed through it.
-/

namespace Programs
open Lists

variable {ι : Type*}

/-- A call, with what it has given the pointer or with what the pointer held. -/
inductive OwnerCall (ι : Type*) where
  | create (result : Option ι)
  | use (pointer : Option ι)
  | destroy (pointer : Option ι)
  deriving DecidableEq, Repr

namespace OwnerCall

/-- What the calls leave in the pointer. -/
def held : Option ι → List (OwnerCall ι) → Option ι
  | p, [] => p
  | _, .create r :: t => held r t
  | p, .use _ :: t => held p t
  | _, .destroy _ :: t => held none t

/-- The calls are made with one pointer. -/
def Through : Option ι → List (OwnerCall ι) → Prop
  | _, [] => True
  | _, .create r :: t => Through r t
  | p, .use q :: t => q = p ∧ Through p t
  | p, .destroy q :: t => q = p ∧ Through none t

/-- Nothing is created into a pointer that holds a resource, or used through one
that holds none. -/
def Orderly : Option ι → List (OwnerCall ι) → Prop
  | _, [] => True
  | p, .create r :: t => p = none ∧ Orderly r t
  | p, .use _ :: t => p ≠ none ∧ Orderly p t
  | _, .destroy _ :: t => Orderly none t

def result : OwnerCall ι → Option ι
  | .create r => r
  | _ => none

/-- The resources in the order of their creation. -/
def created (t : List (OwnerCall ι)) : List ι := t.filterMap result

variable {p q r : Option ι} {t u pre post : List (OwnerCall ι)} {c : OwnerCall ι} {i j : ι}

theorem held_append : held p (t ++ u) = held (held p t) u := by
  induction t generalizing p with
  | nil => rfl
  | cons c t ih => cases c <;> exact ih

theorem through_append : Through p (t ++ u) ↔ Through p t ∧ Through (held p t) u := by
  induction t generalizing p with
  | nil => exact (and_iff_right trivial).symm
  | cons c t ih =>
    cases c with
    | create r => exact ih
    | use q => exact (and_congr_right fun _ => ih).trans and_assoc.symm
    | destroy q => exact (and_congr_right fun _ => ih).trans and_assoc.symm

theorem orderly_append : Orderly p (t ++ u) ↔ Orderly p t ∧ Orderly (held p t) u := by
  induction t generalizing p with
  | nil => exact (and_iff_right trivial).symm
  | cons c t ih =>
    cases c with
    | create r => exact (and_congr_right fun _ => ih).trans and_assoc.symm
    | use q => exact (and_congr_right fun _ => ih).trans and_assoc.symm
    | destroy q => exact ih

theorem mem_created : i ∈ created t ↔ .create (some i) ∈ t := by
  rw [created, List.mem_filterMap]
  constructor
  · rintro ⟨c, hc, hi⟩
    cases c with
    | create r => exact (show r = some i from hi) ▸ hc
    | use q => exact absurd hi (by simp [result])
    | destroy q => exact absurd hi (by simp [result])
  · exact fun h => ⟨_, h, rfl⟩

/-- Only what the pointer has held is destroyed. -/
theorem Through.destroyed (h : Through p t) (hd : .destroy (some i) ∈ t) :
    p = some i ∨ .create (some i) ∈ t := by
  induction t generalizing p with
  | nil => exact absurd hd List.not_mem_nil
  | cons c t ih =>
    cases c with
    | create r =>
      rcases ih h (List.mem_of_ne_of_mem (by simp) hd) with rfl | hi
      · exact .inr List.mem_cons_self
      · exact .inr (List.mem_cons_of_mem _ hi)
    | use q =>
      exact (ih h.2 (List.mem_of_ne_of_mem (by simp) hd)).imp_right (List.mem_cons_of_mem _)
    | destroy q =>
      rcases List.mem_cons.1 hd with heq | hd
      · cases heq
        exact .inl h.1.symm
      · exact .inr (List.mem_cons_of_mem _ ((ih h.2 hd).resolve_left (by simp)))

theorem created_create : created (.create r :: t) = r.toList ++ created t := by
  cases r <;> rfl

section
variable [DecidableEq ι]

/-- Each resource created is destroyed once, and no other pointer is used than one
to a resource that is there. -/
structure Balanced (t : List (OwnerCall ι)) : Prop where
  matched : ∀ i, .create (some i) ∈ t → t.count (.destroy (some i)) = 1
  live : ∀ pre q post, t = pre ++ .use q :: post →
    ∃ i, q = some i ∧ .create (some i) ∈ pre ∧ .destroy (some i) ∉ pre

/-- The same from where the pointer may hold a resource. -/
structure BalancedFrom (p : Option ι) (t : List (OwnerCall ι)) : Prop where
  matched : ∀ i, p = some i ∨ .create (some i) ∈ t → t.count (.destroy (some i)) = 1
  live : ∀ pre q post, t = pre ++ .use q :: post →
    ∃ i, q = some i ∧ (p = some i ∨ .create (some i) ∈ pre) ∧ .destroy (some i) ∉ pre

theorem balancedFrom_none : BalancedFrom none t ↔ Balanced t := by
  constructor
  · exact fun h => ⟨fun i hi => h.matched i (.inr hi), by simpa using h.live⟩
  · exact fun h => ⟨fun i hi => h.matched i (hi.resolve_left (by simp)), by simpa using h.live⟩

theorem balancedFrom_create : BalancedFrom none (.create r :: t) ↔ BalancedFrom r t := by
  have hmem : ∀ i (u : List (OwnerCall ι)), (none = some i ∨ .create (some i) ∈ .create r :: u) ↔
      (r = some i ∨ .create (some i) ∈ u) := by
    simp [eq_comm]
  have hcount : ∀ i, (.create r :: t).count (.destroy (some i)) = t.count (.destroy (some i)) :=
    fun i => List.count_cons_of_ne (by simp)
  constructor
  · intro h
    refine ⟨fun i hi => hcount i ▸ h.matched i ((hmem i t).2 hi), fun pre q post ht => ?_⟩
    obtain ⟨i, rfl, hi, hd⟩ := (forall_place_cons.1 h.live).2 pre q post ht
    exact ⟨i, rfl, (hmem i pre).1 hi, fun hm => hd (List.mem_cons_of_mem _ hm)⟩
  · intro h
    refine ⟨fun i hi => (hcount i).trans (h.matched i ((hmem i t).1 hi)),
      forall_place_cons.2 ⟨by simp, fun pre q post ht => ?_⟩⟩
    obtain ⟨i, rfl, hi, hd⟩ := h.live pre q post ht
    exact ⟨i, rfl, (hmem i pre).2 hi, by simpa using hd⟩

theorem balancedFrom_use : BalancedFrom p (.use p :: t) ↔ p ≠ none ∧ BalancedFrom p t := by
  constructor
  · intro h
    obtain ⟨hfirst, hrest⟩ := forall_place_cons.1 h.live
    obtain ⟨i, hp, -⟩ := hfirst p rfl
    refine ⟨by simp [hp], fun i hi => ?_, fun pre q post ht => ?_⟩
    · simpa using h.matched i (hi.imp_right (List.mem_cons_of_mem _))
    · simpa using hrest pre q post ht
  · rintro ⟨hp, h⟩
    obtain ⟨i, rfl⟩ := Option.ne_none_iff_exists'.1 hp
    refine ⟨fun j hj => ?_, forall_place_cons.2 ⟨?_, fun pre q post ht => ?_⟩⟩
    · simpa using h.matched j (by simpa using hj)
    · rintro q ⟨⟩
      exact ⟨i, rfl, .inl rfl, by simp⟩
    · simpa using h.live pre q post ht

/-- A resource that is not created again is destroyed for good. -/
theorem balancedFrom_destroy (ht : Through none t) (hn : ∀ i, p = some i → i ∉ created t) :
    BalancedFrom p (.destroy p :: t) ↔ BalancedFrom none t := by
  have hne : ∀ i, .create (some i) ∈ t → p ≠ some i := fun i hi hp => hn i hp (mem_created.2 hi)
  have hcount : ∀ i, p ≠ some i →
      (.destroy p :: t).count (.destroy (some i)) = t.count (.destroy (some i)) :=
    fun i hp => List.count_cons_of_ne (by simpa using hp)
  constructor
  · intro h
    refine ⟨fun i hi => ?_, fun pre q post ht => ?_⟩
    · have hi : .create (some i) ∈ t := hi.resolve_left (by simp)
      rw [← hcount i (hne i hi)]
      exact h.matched i (.inr (List.mem_cons_of_mem _ hi))
    · obtain ⟨i, rfl, hi, hd⟩ := (forall_place_cons.1 h.live).2 pre q post ht
      obtain ⟨hp, hd⟩ : p ≠ some i ∧ .destroy (some i) ∉ pre := by simpa [eq_comm] using hd
      exact ⟨i, rfl, .inr (by simpa [hp] using hi), hd⟩
  · intro h
    refine ⟨fun i hi => ?_, forall_place_cons.2 ⟨by simp, fun pre q post heq => ?_⟩⟩
    · rcases hi with rfl | hi
      · have hnone : .destroy (some i) ∉ t := fun hd =>
          hn i rfl (mem_created.2 ((ht.destroyed hd).resolve_left (by simp)))
        rw [List.count_cons_self, List.count_eq_zero.2 hnone]
      · have hi : .create (some i) ∈ t := by simpa using hi
        rw [hcount i (hne i hi)]
        exact h.matched i (.inr hi)
    · obtain ⟨i, rfl, hi, hd⟩ := h.live pre q post heq
      have hpre : .create (some i) ∈ pre := hi.resolve_left (by simp)
      have hp := hne i (heq ▸ List.mem_append_left _ hpre)
      exact ⟨i, rfl, .inr (List.mem_cons_of_mem _ hpre), by simpa [eq_comm, hp] using hd⟩

theorem balancedFrom_iff (h : Through p t) (hn : (p.toList ++ created t).Nodup) :
    BalancedFrom p t ↔ Orderly p t ∧ held p t = none := by
  induction t generalizing p with
  | nil =>
    constructor
    · refine fun hb => ⟨trivial, ?_⟩
      cases p with
      | none => rfl
      | some i => exact absurd (hb.matched i (.inl rfl)) (by simp)
    · rintro ⟨-, rfl⟩
      exact ⟨by simp, by simp⟩
  | cons c t ih =>
    cases c with
    | create r =>
      rw [created_create] at hn
      have hrest : (r.toList ++ created t).Nodup := (List.nodup_append.1 hn).2.1
      cases p with
      | none =>
        rw [balancedFrom_create, ih h hrest]
        exact and_congr_left fun _ => (and_iff_right rfl).symm
      | some i =>
        refine iff_of_false (fun hb => ?_) fun hb => absurd hb.1.1 (by simp)
        have hd : .destroy (some i) ∈ t := by
          have hcount := hb.matched i (.inl rfl)
          rw [List.count_cons_of_ne (by simp)] at hcount
          exact List.count_pos_iff.1 (hcount ▸ Nat.one_pos)
        have hi : i ∈ r.toList ++ created t := by
          rw [List.mem_append, Option.mem_toList, mem_created]
          exact Through.destroyed (t := t) h hd
        exact (List.nodup_cons.1 hn).1 hi
    | use q =>
      obtain ⟨rfl, h⟩ := h
      rw [balancedFrom_use, ih h hn]
      exact and_assoc.symm
    | destroy q =>
      obtain ⟨rfl, h⟩ := h
      have hn' : ∀ i, q = some i → i ∉ created t := by
        rintro i rfl
        exact (List.nodup_cons.1 hn).1
      rw [balancedFrom_destroy h hn', ih h (List.nodup_append.1 hn).2.1]
      exact .rfl

/-- Calls made with one pointer are balanced if they are orderly and leave nothing behind. -/
theorem balanced_iff (h : Through none t) (hn : (created t).Nodup) :
    Balanced t ↔ Orderly none t ∧ held none t = none :=
  balancedFrom_none.symm.trans (balancedFrom_iff h hn)

end
end OwnerCall
end Programs
