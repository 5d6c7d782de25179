import AirSane.Text.Octets
import Mathlib.Data.List.Range
import Mathlib.Data.List.Sort
import Mathlib.Data.Nat.Digits.Lemmas

/-! # Numbered objects in a text

A text in which objects are defined by number, where the definitions begin, and
a table of these places that is sorted by number and printed in fixed width.
-/

namespace Text

/-- Text as it is written, or the beginning of a definition. -/
inductive Piece where
  | text (s : Octets)
  | defobj (id : ℕ)

namespace Piece

def define (id : ℕ) : Octets := numeral 10 id ++ ascii " 0 obj"

def print : Piece → Octets
  | .text s => s
  | .defobj id => define id

def defines : Piece → Option ℕ
  | .text _ => none
  | .defobj id => some id

end Piece

def printAll (ps : List Piece) : Octets := ps.flatMap Piece.print

/-- The numbers of the objects in the order of their definitions. -/
def defined (ps : List Piece) : List ℕ := ps.filterMap Piece.defines

/-- Each definition with its place, counted from `start`. -/
def offsets : ℕ → List Piece → List (ℕ × ℕ)
  | _, [] => []
  | start, .text s :: ps => offsets (start + s.length) ps
  | start, .defobj id :: ps => (id, start) :: offsets (start + (Piece.define id).length) ps

/-- The definition of `id` begins at `offset`. -/
def DefinedAt (ps : List Piece) (id offset : ℕ) : Prop :=
  ∃ a b, ps = a ++ .defobj id :: b ∧ offset = (printAll a).length

/-- The order of `std::sort` by number. -/
def sortById (table : List (ℕ × ℕ)) : List (ℕ × ℕ) := table.mergeSort fun x y => x.1 ≤ y.1

/-- A number in ten digits, or more if it needs them. -/
def tenDigits (n : ℕ) : Octets :=
  List.replicate (10 - (numeral 10 n).length) (digit 0) ++ numeral 10 n

section
variable {ps qs : List Piece} {s : Octets} {start id offset n : ℕ} {e : ℕ × ℕ}
  {table : List (ℕ × ℕ)}

@[simp] theorem printAll_append : printAll (ps ++ qs) = printAll ps ++ printAll qs :=
  List.flatMap_append

@[simp] theorem printAll_text : printAll [.text s] = s := by simp [printAll, Piece.print]

@[simp] theorem printAll_defobj : printAll [.defobj id] = Piece.define id := by
  simp [printAll, Piece.print]

@[simp] theorem defined_append : defined (ps ++ qs) = defined ps ++ defined qs :=
  List.filterMap_append

theorem offsets_append :
    offsets start (ps ++ qs) = offsets start ps ++ offsets (start + (printAll ps).length) qs := by
  induction ps generalizing start with
  | nil => simp [offsets, printAll]
  | cons p ps ih =>
    cases p with
    | text s =>
      simp [offsets, ih, printAll, Piece.print, Nat.add_assoc]
    | defobj id =>
      simp [offsets, ih, printAll, Piece.print, Nat.add_assoc]

theorem offsets_ids : (offsets start ps).map Prod.fst = defined ps := by
  induction ps generalizing start with
  | nil => rfl
  | cons p ps ih =>
    cases p with
    | text s => exact ih
    | defobj id => exact congrArg (id :: ·) ih

/-- The offsets of a text are where its definitions begin. -/
theorem definedAt_of_mem (h : e ∈ offsets start ps) :
    ∃ a b, ps = a ++ .defobj e.1 :: b ∧ e.2 = start + (printAll a).length := by
  induction ps generalizing start with
  | nil => simp [offsets] at h
  | cons p ps ih =>
    cases p with
    | text s =>
      obtain ⟨a, b, hps, he⟩ := ih h
      refine ⟨.text s :: a, b, by rw [hps]; rfl, ?_⟩
      simp only [printAll, List.flatMap_cons, Piece.print, List.length_append] at he ⊢
      omega
    | defobj id =>
      rcases List.mem_cons.1 h with rfl | h
      · exact ⟨[], ps, rfl, rfl⟩
      · obtain ⟨a, b, hps, he⟩ := ih h
        refine ⟨.defobj id :: a, b, by rw [hps]; rfl, ?_⟩
        simp only [printAll, List.flatMap_cons, Piece.print, List.length_append] at he ⊢
        omega

theorem definedAt_sortById (h : e ∈ sortById (offsets 0 ps)) : DefinedAt ps e.1 e.2 := by
  rw [sortById, List.mem_mergeSort] at h
  obtain ⟨a, b, hps, he⟩ := definedAt_of_mem h
  exact ⟨a, b, hps, by rw [he, Nat.zero_add]⟩

/-- What is defined once has one place. -/
theorem definedAt_unique {a b : List Piece} (hn : (defined (a ++ .defobj id :: b)).Nodup)
    (h : DefinedAt (a ++ .defobj id :: b) id offset) : offset = (printAll a).length := by
  have hmem (c d : List Piece) : id ∈ defined (c ++ .defobj id :: d) := by
    rw [defined_append]
    exact List.mem_append_right _ (List.mem_cons_self (l := defined d))
  have honly (c d : List Piece) (hcd : (defined (c ++ .defobj id :: d)).Nodup) :
      id ∉ defined c ∧ id ∉ defined d := by
    rw [defined_append] at hcd
    have hparts := List.nodup_append.1 hcd
    exact ⟨fun hc => hparts.2.2 id hc id (List.mem_cons_self (l := defined d)) rfl,
      (List.nodup_cons.1 (hparts.2.1 : (id :: defined d).Nodup)).1⟩
  obtain ⟨a', b', hps, rfl⟩ := h
  rcases List.append_eq_append_iff.1 hps with ⟨c, rfl, hc⟩ | ⟨c, rfl, hc⟩
  · cases c with
    | nil => rw [List.append_nil]
    | cons x c =>
      obtain ⟨rfl, rfl⟩ := List.cons.inj hc
      exact absurd (hmem c b') (honly a _ hn).2
  · cases c with
    | nil => rw [List.append_nil]
    | cons x c =>
      obtain ⟨rfl, rfl⟩ := List.cons.inj hc
      exact absurd (hmem a' c) (honly _ b hn).1

/-- A table with every number up to `n` once is sorted into this order. -/
theorem sortById_ids (h : (table.map Prod.fst).Perm (List.range' 1 n)) :
    (sortById table).map Prod.fst = List.range' 1 n := by
  have hperm : ((sortById table).map Prod.fst).Perm (List.range' 1 n) :=
    ((List.mergeSort_perm table _).map _).trans h
  have hsorted : ((sortById table).map Prod.fst).Pairwise (· ≤ ·) := by
    rw [List.pairwise_map]
    apply (List.pairwise_mergeSort _ _ table).imp
    · intro a b hab
      simpa using hab
    · intro a b c hab hbc
      simp only [decide_eq_true_eq] at hab hbc ⊢
      exact hab.trans hbc
    · intro a b
      simpa using Nat.le_total a.1 b.1
  exact hperm.eq_of_pairwise' hsorted List.pairwise_le_range'

theorem numeral_length (h : n < 10 ^ 10) : (numeral 10 n).length ≤ 10 := by
  unfold numeral
  split
  · simp
  · rw [List.length_map, List.length_reverse, Nat.digits_length_le_iff (by decide)]
    exact h

theorem tenDigits_length (h : n < 10 ^ 10) : (tenDigits n).length = 10 := by
  have hlen := numeral_length h
  rw [tenDigits, List.length_append, List.length_replicate]
  omega

/-- Leading zeros do not change a number. -/
theorem value_tenDigits : value 10 (tenDigits n) = n := by
  have hzeros : ∀ k : ℕ, ∀ s : Octets, value 10 (List.replicate k (digit 0) ++ s) = value 10 s := by
    intro k s
    induction k with
    | zero => rfl
    | succ k ih =>
      rw [List.replicate_succ, List.cons_append, value, List.foldl_cons]
      exact ih
  rw [tenDigits, hzeros, value_numeral (by omega) (by omega)]

end
end Text
