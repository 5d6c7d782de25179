import Mathlib.Data.List.Induction
import Mathlib.Data.List.Sort

/-! # Registries

Objects are made, registered under their keys, changed by whoever holds them, and dropped
from the registry when they have not been active for too long. An object that was dropped
goes on to exist.
-/

namespace Stores

variable {κ α : Type}

/-- What a registry looks at in an object. -/
structure View (κ α : Type) where
  key : α → κ
  lastActive : α → ℤ

/-- The objects ever made, each with its place as its identity, and where those that are
registered are found. -/
structure Registry (κ α : Type) where
  time : ℤ
  objects : List α
  entries : List (κ × ℕ)

inductive Event (α : Type) where
  | pass (seconds : ℕ)
  | add (a : α)
  | change (id : ℕ) (a : α)
  | purge (limit : ℤ)

namespace Registry

def empty (time : ℤ) : Registry κ α := ⟨time, [], []⟩

def keys (r : Registry κ α) : List κ := r.entries.map Prod.fst

/-- Not active for longer than the limit. -/
def Idle (v : View κ α) (r : Registry κ α) (limit : ℤ) (id : ℕ) : Prop :=
  ∃ a, r.objects[id]? = some a ∧ limit < r.time - v.lastActive a

instance (v : View κ α) (r : Registry κ α) (limit : ℤ) (id : ℕ) : Decidable (r.Idle v limit id) :=
  match h : r.objects[id]? with
  | none => isFalse fun hidle => by
    obtain ⟨a, ha, -⟩ := hidle
    rw [h] at ha
    cases ha
  | some a => decidable_of_iff (limit < r.time - v.lastActive a)
    ⟨fun hlt => ⟨a, h, hlt⟩, fun ⟨b, hb, hlt⟩ => by
      rw [h] at hb
      cases hb
      exact hlt⟩

section
variable [LinearOrder κ] (v : View κ α)

def find (r : Registry κ α) (k : κ) : Option ℕ :=
  (r.entries.find? fun e => decide (e.1 = k)).map Prod.snd

def insert (k : κ) (id : ℕ) (entries : List (κ × ℕ)) : List (κ × ℕ) :=
  entries.orderedInsert (fun e f => e.1 ≤ f.1) (k, id)

/-- Without the objects that are idle. -/
def purge (r : Registry κ α) (limit : ℤ) : Registry κ α :=
  { r with entries := r.entries.filter fun e => ¬ r.Idle v limit e.2 }

/-- A key is used once, and a change leaves it alone. -/
def step (r : Registry κ α) : Event α → Option (Registry κ α)
  | .pass seconds => some { r with time := r.time + seconds }
  | .add a =>
    if v.key a ∈ r.keys then none
    else some
      { r with
        objects := r.objects ++ [a]
        entries := insert (v.key a) r.objects.length r.entries }
  | .change id a =>
    if r.objects[id]?.map v.key = some (v.key a) then
      some { r with objects := r.objects.set id a }
    else none
  | .purge limit => some (r.purge v limit)

/-- Keys are in order, and lead to objects that have them. -/
structure Consistent (r : Registry κ α) : Prop where
  sorted : r.keys.Pairwise (· < ·)
  keyed : ∀ e ∈ r.entries, r.objects[e.2]?.map v.key = some e.1

variable {v} {r r' : Registry κ α} {e : Event α} {k : κ} {id : ℕ} {a : α} {limit : ℤ}

theorem mem_insert {entries : List (κ × ℕ)} {f : κ × ℕ} :
    f ∈ insert k id entries ↔ f = (k, id) ∨ f ∈ entries := List.mem_orderedInsert ..

theorem consistent_empty (time : ℤ) : (empty time : Registry κ α).Consistent v :=
  ⟨.nil, fun _ h => absurd h List.not_mem_nil⟩

theorem Consistent.nodup (h : r.Consistent v) : r.keys.Nodup := h.sorted.imp ne_of_lt

theorem sorted_insert {entries : List (κ × ℕ)} (h : (entries.map Prod.fst).Pairwise (· < ·))
    (hk : k ∉ entries.map Prod.fst) :
    ((insert k id entries).map Prod.fst).Pairwise (· < ·) := by
  induction entries with
  | nil => exact List.pairwise_singleton _ _
  | cons f entries ih =>
    rw [List.map_cons, List.pairwise_cons] at h
    rw [List.map_cons, List.mem_cons, not_or] at hk
    rw [insert, List.orderedInsert]
    split_ifs with hle
    · have hlt : k < f.1 := lt_of_le_of_ne hle hk.1
      rw [List.map_cons, List.map_cons, List.pairwise_cons, List.pairwise_cons]
      exact ⟨List.forall_mem_cons.2 ⟨hlt, fun x hx => hlt.trans (h.1 x hx)⟩, h⟩
    · rw [List.map_cons, List.pairwise_cons]
      refine ⟨fun x hx => ?_, ih h.2 hk.2⟩
      obtain ⟨g, hg, rfl⟩ := List.mem_map.1 hx
      rcases mem_insert.1 hg with rfl | hg
      · exact not_le.1 hle
      · exact h.1 _ (List.mem_map_of_mem hg)

/-- Each step keeps the order and the keys. -/
theorem Consistent.step (h : r.Consistent v) (hs : r.step v e = some r') : r'.Consistent v := by
  cases e with
  | pass seconds =>
    obtain rfl := Option.some.inj hs
    exact ⟨h.sorted, h.keyed⟩
  | add a =>
    rw [Registry.step] at hs
    split_ifs at hs with hk
    obtain rfl := Option.some.inj hs
    refine ⟨sorted_insert h.sorted hk, fun f hf => ?_⟩
    rcases mem_insert.1 hf with rfl | hf
    · rw [List.getElem?_concat_length]
      rfl
    · have hlt : f.2 < r.objects.length := by
        by_contra hge
        have hnone := h.keyed f hf
        rw [List.getElem?_eq_none (not_lt.1 hge)] at hnone
        cases hnone
      rw [List.getElem?_append_left hlt]
      exact h.keyed f hf
  | change id a =>
    rw [Registry.step] at hs
    split_ifs at hs with hkey
    obtain rfl := Option.some.inj hs
    refine ⟨h.sorted, fun f hf => ?_⟩
    have hold := h.keyed f hf
    by_cases hid : id = f.2
    · subst hid
      rw [hkey] at hold
      obtain ⟨b, hb, -⟩ := Option.map_eq_some_iff.1 hkey
      rw [List.getElem?_set_self (List.getElem?_eq_some_iff.1 hb).1]
      exact hold
    · rw [List.getElem?_set_ne hid]
      exact hold
  | purge limit =>
    obtain rfl := Option.some.inj hs
    refine ⟨h.sorted.sublist (List.filter_sublist.map _), fun f hf => ?_⟩
    exact h.keyed f (List.mem_of_mem_filter hf)

/-- What is found is what is registered. -/
theorem Consistent.find_eq_some_iff (h : r.Consistent v) :
    r.find k = some id ↔ (k, id) ∈ r.entries := by
  constructor
  · intro hf
    obtain ⟨e, he, rfl⟩ := Option.map_eq_some_iff.1 hf
    have hk : e.1 = k := by simpa using List.find?_some he
    exact hk ▸ List.mem_of_find?_eq_some he
  · intro hm
    obtain ⟨f, hf⟩ : ∃ f, (r.entries.find? fun e => decide (e.1 = k)) = some f :=
      Option.isSome_iff_exists.1 (List.find?_isSome.2 ⟨_, hm, by simp⟩)
    have hk : f.1 = k := by simpa using List.find?_some hf
    have hsame : f = (k, id) := List.inj_on_of_nodup_map h.nodup (List.mem_of_find?_eq_some hf) hm hk
    rw [find, hf, hsame]
    rfl

/-- An object of a later state was there with the same key before, or has just been added. -/
theorem step_objects (hs : r.step v e = some r') (ha : r'.objects[id]? = some a) :
    (∃ b, r.objects[id]? = some b ∧ v.key b = v.key a) ∨
      e = .add a ∧ (v.key a, id) ∈ r'.entries := by
  cases e with
  | pass seconds =>
    obtain rfl := Option.some.inj hs
    exact .inl ⟨a, ha, rfl⟩
  | add b =>
    rw [step] at hs
    split_ifs at hs with hk
    obtain rfl := Option.some.inj hs
    rcases lt_or_ge id r.objects.length with hlt | hge
    · rw [List.getElem?_append_left hlt] at ha
      exact .inl ⟨a, ha, rfl⟩
    · rw [List.getElem?_append_right hge, List.getElem?_singleton] at ha
      split_ifs at ha with hid
      obtain rfl := Option.some.inj ha
      refine .inr ⟨rfl, mem_insert.2 (.inl ?_)⟩
      rw [Prod.mk.injEq]
      exact ⟨rfl, by omega⟩
  | change j b =>
    rw [step] at hs
    split_ifs at hs with hkey
    obtain rfl := Option.some.inj hs
    by_cases hid : j = id
    · subst hid
      obtain ⟨c, hc, hck⟩ := Option.map_eq_some_iff.1 hkey
      rw [List.getElem?_set_self (List.getElem?_eq_some_iff.1 hc).1] at ha
      obtain rfl := Option.some.inj ha
      exact .inl ⟨c, hc, hck⟩
    · rw [List.getElem?_set_ne hid] at ha
      exact .inl ⟨a, ha, rfl⟩
  | purge limit =>
    obtain rfl := Option.some.inj hs
    exact .inl ⟨a, ha, rfl⟩

/-- An entry stays, unless its object is idle when the registry is purged. -/
theorem step_entries (hs : r.step v e = some r') (hm : (k, id) ∈ r.entries) :
    (k, id) ∈ r'.entries ∨ ∃ limit, e = .purge limit ∧ r.Idle v limit id := by
  cases e with
  | pass seconds =>
    obtain rfl := Option.some.inj hs
    exact .inl hm
  | add b =>
    rw [step] at hs
    split_ifs at hs with hk
    obtain rfl := Option.some.inj hs
    exact .inl (mem_insert.2 (.inr hm))
  | change j b =>
    rw [step] at hs
    split_ifs at hs with hkey
    obtain rfl := Option.some.inj hs
    exact .inl hm
  | purge limit =>
    obtain rfl := Option.some.inj hs
    by_cases hidle : r.Idle v limit id
    · exact .inr ⟨limit, rfl, hidle⟩
    · exact .inl (List.mem_filter.2 ⟨hm, by simpa using hidle⟩)

/-- An object that was made and is not registered. -/
def Dropped (id : ℕ) (r : Registry κ α) : Prop :=
  id < r.objects.length ∧ ∀ k, (k, id) ∉ r.entries

theorem Dropped.step (h : r.Dropped id) (hs : r.step v e = some r') : r'.Dropped id := by
  cases e with
  | pass seconds =>
    obtain rfl := Option.some.inj hs
    exact h
  | add b =>
    rw [Registry.step] at hs
    split_ifs at hs with hk
    obtain rfl := Option.some.inj hs
    have hlt := h.1
    refine ⟨by rw [List.length_append]; omega, fun k hm => ?_⟩
    rcases mem_insert.1 hm with heq | hm
    · exact absurd (Prod.mk.inj heq).2 hlt.ne
    · exact h.2 k hm
  | change j b =>
    rw [Registry.step] at hs
    split_ifs at hs with hkey
    obtain rfl := Option.some.inj hs
    exact ⟨by rw [List.length_set]; exact h.1, h.2⟩
  | purge limit =>
    obtain rfl := Option.some.inj hs
    exact ⟨h.1, fun k hm => h.2 k (List.mem_of_mem_filter hm)⟩

omit [LinearOrder κ] in
theorem Idle.dropped (h : r.Idle v limit id) : (r.purge v limit).Dropped id := by
  refine ⟨?_, fun k hm => ?_⟩
  · obtain ⟨a, ha, -⟩ := h
    exact (List.getElem?_eq_some_iff.1 ha).1
  · have hnot := (List.mem_filter.1 hm).2
    exact absurd h (by simpa using hnot)

end
end Registry

/-- A system that keeps a registry: each of its steps is one of the registry. -/
structure Keeper [LinearOrder κ] (v : View κ α) (σ ε : Type) where
  step : σ → ε → Option σ
  registry : σ → Registry κ α
  event : σ → ε → Event α
  simulates : ∀ {s e s'}, step s e = some s' → (registry s).step v (event s e) = some (registry s')

namespace Keeper
open Registry

section
variable [LinearOrder κ] {v : View κ α} {σ ε : Type} (K : Keeper v σ ε)

def run (s : σ) (es : List ε) : Option σ := es.foldlM K.step s

/-- A purge of the run found the object idle. -/
def Purged (s : σ) (es : List ε) (id : ℕ) : Prop :=
  ∃ fs e gs u limit, es = fs ++ e :: gs ∧ K.run s fs = some u ∧ K.event u e = .purge limit ∧
    (K.registry u).Idle v limit id

variable {K} {s s' : σ} {es fs : List ε} {e : ε} {id : ℕ} {a : α} {time : ℤ}

theorem run_append : K.run s (es ++ fs) = (K.run s es).bind fun s' => K.run s' fs :=
  List.foldlM_append

theorem run_cons : K.run s (e :: es) = (K.step s e).bind fun s' => K.run s' es :=
  List.foldlM_cons

theorem run_singleton : K.run s [e] = K.step s e := by
  rw [run_cons]
  cases h : K.step s e <;> rfl

/-- What the steps of a run keep, the run keeps. -/
theorem run_invariant {P : σ → Prop}
    (hstep : ∀ s, ∀ e ∈ es, ∀ s', P s → K.step s e = some s' → P s') (h : P s)
    (hr : K.run s es = some s') : P s' := by
  induction es generalizing s with
  | nil =>
    obtain rfl := Option.some.inj hr
    exact h
  | cons e es ih =>
    rw [run_cons] at hr
    obtain ⟨u, hu, hr⟩ := Option.bind_eq_some_iff.1 hr
    exact ih (fun s f hf => hstep s f (List.mem_cons_of_mem _ hf))
      (hstep s e List.mem_cons_self u h hu) hr

theorem consistent (h : (K.registry s).Consistent v) (hr : K.run s es = some s') :
    (K.registry s').Consistent v :=
  run_invariant (P := fun s => (K.registry s).Consistent v)
    (fun _ _ _ _ h hs => h.step (K.simulates hs)) h hr

/-- Every object that was made is registered, or a purge has found it idle. -/
theorem registered_or_purged (h : K.registry s = empty time) (hr : K.run s es = some s')
    (ha : (K.registry s').objects[id]? = some a) :
    (v.key a, id) ∈ (K.registry s').entries ∨ K.Purged s es id := by
  induction es using List.reverseRecOn generalizing s' a with
  | nil =>
    obtain rfl := Option.some.inj hr
    rw [h] at ha
    cases ha
  | append_singleton es e ih =>
    rw [run_append] at hr
    obtain ⟨u, hu, hs⟩ := Option.bind_eq_some_iff.1 hr
    rw [run_singleton] at hs
    rcases step_objects (K.simulates hs) ha with ⟨b, hb, hkey⟩ | ⟨-, hm⟩
    · rcases ih hu hb with hm | ⟨fs, f, gs, w, limit, rfl, hw, hf, hidle⟩
      · rcases step_entries (K.simulates hs) hm with hm | ⟨limit, hlimit, hidle⟩
        · exact .inl (hkey ▸ hm)
        · exact .inr ⟨es, e, [], u, limit, rfl, hu, hlimit, hidle⟩
      · exact .inr ⟨fs, f, gs ++ [e], w, limit, by rw [List.append_assoc, List.cons_append], hw,
          hf, hidle⟩
    · exact .inl hm

/-- Objects are registered until a purge finds them idle, and never again. -/
theorem registered_iff (h : K.registry s = empty time) (hr : K.run s es = some s')
    (ha : (K.registry s').objects[id]? = some a) :
    (v.key a, id) ∈ (K.registry s').entries ↔ ¬ K.Purged s es id := by
  constructor
  · rintro hm ⟨fs, e, gs, u, limit, rfl, hu, he, hidle⟩
    rw [run_append, hu, Option.bind_some, run_cons] at hr
    obtain ⟨w, hw, hr⟩ := Option.bind_eq_some_iff.1 hr
    have hpurge := K.simulates hw
    rw [he] at hpurge
    have hdropped : (K.registry w).Dropped id := Option.some.inj hpurge ▸ hidle.dropped
    exact (run_invariant (P := fun s => (K.registry s).Dropped id)
      (fun _ _ _ _ h hs => h.step (K.simulates hs)) hdropped hr).2 _ hm
  · exact (registered_or_purged h hr ha).resolve_right

end
end Keeper
end Stores
