import AirSane.Text.Octets

/-! # Dictionaries

`Dictionary`: a vector of pairs in the order of insertion, searched from the
front.
-/

namespace AirSane
open Text

abbrev Dictionary := List (Octets × Octets)

namespace Dictionary

def hasKey (d : Dictionary) (key : Octets) : Bool := d.any fun e => e.1 = key

def getString (d : Dictionary) (key : Octets) : Octets :=
  ((d.find? fun e => e.1 = key).map Prod.snd).getD []

def eraseKey (d : Dictionary) (key : Octets) : Dictionary := d.eraseP fun e => e.1 = key

/-- Assignment through `operator[]`. -/
def assign : Dictionary → Octets → Octets → Dictionary
  | [], key, v => [(key, v)]
  | e :: d, key, v => if e.1 = key then (key, v) :: d else e :: assign d key v

def applyDefaultValue (d : Dictionary) (key v : Octets) : Dictionary :=
  if d.hasKey key then d else d ++ [(key, v)]

def keys (d : Dictionary) : List Octets := d.map Prod.fst

section
variable {d : Dictionary} {key k v : Octets}

@[simp] theorem hasKey_eq_true : d.hasKey key = true ↔ key ∈ d.keys := by
  simp [hasKey, keys]

theorem mem_assign {e : Octets × Octets} (h : e ∈ d.assign key v) : e ∈ d ∨ e = (key, v) := by
  induction d with
  | nil => exact .inr (by simpa [assign] using h)
  | cons a d ih =>
    by_cases ha : a.1 = key
    · rw [assign, if_pos ha] at h
      rcases List.mem_cons.1 h with h | h
      · exact .inr h
      · exact .inl (List.mem_cons_of_mem _ h)
    · rw [assign, if_neg ha] at h
      rcases List.mem_cons.1 h with h | h
      · exact .inl (by simp [h])
      · exact (ih h).imp_left (List.mem_cons_of_mem _)

theorem keys_assign : (d.assign key v).keys = if key ∈ d.keys then d.keys else d.keys ++ [key] := by
  induction d with
  | nil => simp [assign, keys]
  | cons a d ih =>
    by_cases ha : a.1 = key
    · simp [assign, keys, ha]
    · have hne : key ≠ a.1 := fun h => ha h.symm
      simp only [keys] at ih
      simp only [assign, keys, if_neg ha, List.map_cons, ih]
      by_cases hm : key ∈ d.map Prod.fst <;> simp [hm, hne]

theorem assign_of_not_mem (h : key ∉ d.keys) : d.assign key v = d ++ [(key, v)] := by
  induction d with
  | nil => rfl
  | cons a d ih =>
    simp only [keys, List.map_cons, List.mem_cons, not_or] at h
    rw [assign, if_neg (Ne.symm h.1), ih h.2]
    rfl

theorem nodup_assign (hd : d.keys.Nodup) : (d.assign key v).keys.Nodup := by
  rw [keys_assign]
  split
  · exact hd
  · rename_i hm
    rw [List.nodup_append]
    refine ⟨hd, by simp, ?_⟩
    rintro x hx y hy rfl
    exact hm (List.mem_singleton.1 hy ▸ hx)

theorem getString_assign_self : (d.assign key v).getString key = v := by
  induction d with
  | nil => simp [assign, getString]
  | cons a d ih =>
    by_cases ha : a.1 = key
    · simp [assign, getString, ha]
    · simpa [assign, getString, ha] using ih

theorem getString_assign_ne (h : k ≠ key) : (d.assign key v).getString k = d.getString k := by
  have hne : key ≠ k := fun he => h he.symm
  induction d with
  | nil => simp [assign, getString, hne]
  | cons a d ih =>
    by_cases ha : a.1 = key
    · simp [assign, getString, ha, hne]
    · by_cases hk : a.1 = k
      · simp [assign, getString, hk, h]
      · simpa [assign, getString, ha, hk] using ih

theorem keys_eraseKey_sublist : (d.eraseKey key).keys.Sublist d.keys :=
  List.Sublist.map _ List.eraseP_sublist

theorem nodup_eraseKey (hd : d.keys.Nodup) : (d.eraseKey key).keys.Nodup :=
  hd.sublist keys_eraseKey_sublist

theorem mem_of_mem_eraseKey {e : Octets × Octets} (h : e ∈ d.eraseKey key) : e ∈ d :=
  List.mem_of_mem_eraseP h

/-- Where keys are unique, an erased one is gone. -/
theorem not_mem_eraseKey (hd : d.keys.Nodup) : key ∉ (d.eraseKey key).keys := by
  induction d with
  | nil => simp [eraseKey, keys]
  | cons a d ih =>
    simp only [keys, List.map_cons, List.nodup_cons] at hd
    by_cases ha : a.1 = key
    · have herase : eraseKey (a :: d) key = d := by simp [eraseKey, ha]
      rw [herase, ← ha]
      exact hd.1
    · have hne : key ≠ a.1 := fun h => ha h.symm
      simpa [eraseKey, keys, ha, hne] using ih hd.2

theorem getString_eraseKey_ne (h : k ≠ key) : (d.eraseKey key).getString k = d.getString k := by
  induction d with
  | nil => rfl
  | cons a d ih =>
    by_cases ha : a.1 = key
    · have hk : a.1 ≠ k := fun he => h (he.symm.trans ha)
      have herase : eraseKey (a :: d) key = d := by simp [eraseKey, ha]
      simp [herase, getString, hk]
    · by_cases hk : a.1 = k
      · simp [eraseKey, getString, hk, h]
      · simpa [eraseKey, getString, ha, hk] using ih

theorem getString_of_not_mem (h : key ∉ d.keys) : d.getString key = [] := by
  have hnone : d.find? (fun e => e.1 = key) = none := by
    rw [List.find?_eq_none]
    intro e he hek
    exact h (List.mem_map.2 ⟨e, he, by simpa using hek⟩)
  simp [getString, hnone]

/-- A key that is there has its value. -/
theorem mem_getString (h : key ∈ d.keys) : (key, d.getString key) ∈ d := by
  induction d with
  | nil => simp [keys] at h
  | cons a d ih =>
    by_cases ha : a.1 = key
    · simp [getString, ← ha]
    · have hne : key ≠ a.1 := fun h => ha h.symm
      have hm : key ∈ keys d := by simpa [keys, hne] using h
      have hget : getString (a :: d) key = getString d key := by simp [getString, ha]
      rw [hget]
      exact List.mem_cons_of_mem _ (ih hm)

theorem getString_eq_of_mem (hd : d.keys.Nodup) (h : (key, v) ∈ d) : d.getString key = v := by
  induction d with
  | nil => simp at h
  | cons a d ih =>
    simp only [keys, List.map_cons, List.nodup_cons] at hd
    rcases List.mem_cons.1 h with rfl | h
    · simp [getString]
    · have ha : a.1 ≠ key := fun ha => hd.1 (List.mem_map.2 ⟨_, h, ha.symm⟩)
      have hget : getString (a :: d) key = getString d key := by simp [getString, ha]
      rw [hget]
      exact ih hd.2 h

/-- Where keys are unique, there is at most one entry for each. -/
theorem filter_key (hd : d.keys.Nodup) :
    d.filter (fun e => e.1 = key) = if key ∈ d.keys then [(key, d.getString key)] else [] := by
  induction d with
  | nil => rfl
  | cons a d ih =>
    simp only [keys, List.map_cons, List.nodup_cons] at hd
    by_cases ha : a.1 = key
    · have hrest : key ∉ keys d := ha ▸ hd.1
      rw [List.filter_cons_of_pos (by simpa using ha), ih hd.2, if_neg hrest]
      simp [keys, getString, ← ha]
    · have hne : key ≠ a.1 := fun h => ha h.symm
      have hget : getString (a :: d) key = getString d key := by simp [getString, ha]
      have hmem : key ∈ keys (a :: d) ↔ key ∈ keys d := by
        rw [keys, List.map_cons, List.mem_cons, or_iff_right hne]
        rfl
      rw [List.filter_cons_of_neg (by simpa using ha), ih hd.2, hget]
      simp only [hmem]

end
end Dictionary
end AirSane
