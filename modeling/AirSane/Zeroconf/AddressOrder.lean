import AirSane.Zeroconf.Netlink
import Mathlib.Data.List.Lex
import Mathlib.Data.Prod.Lex

/-! # The order of addresses

`CompareAddresses` compares by families, bytes and ports, so a set can be kept in order
with it, and addresses that are in neither order are the same.
-/

namespace AirSane.Netlink
open Text

/-- Addresses in the order of their families, bytes and ports. -/
def Sockaddr.key (a : Sockaddr) : ℕ ×ₗ (List ℕ ×ₗ List ℕ) :=
  toLex (a.sa_family, toLex (a.address.map UInt8.toNat, a.port.map UInt8.toNat))

theorem memcmp_cases (s t : Octets) :
    (memcmp s t < 0 ∧ s.map UInt8.toNat < t.map UInt8.toNat) ∨
      (memcmp s t = 0 ∧ s = t) ∨ (0 < memcmp s t ∧ t.map UInt8.toNat < s.map UInt8.toNat) := by
  induction s generalizing t with
  | nil =>
    cases t with
    | nil => exact .inr (.inl ⟨rfl, rfl⟩)
    | cons b t => exact .inl ⟨neg_one_lt_zero, List.nil_lt_cons _ _⟩
  | cons a s ih =>
    cases t with
    | nil => exact .inr (.inr ⟨one_pos, List.nil_lt_cons _ _⟩)
    | cons b t =>
      simp only [memcmp, List.map_cons, List.cons_lt_cons_iff]
      split_ifs with hab hba
      · exact .inl ⟨by decide, .inl hab⟩
      · exact .inr (.inr ⟨by decide, .inl hba⟩)
      · have heq : a = b := UInt8.toNat_inj.1 (by omega)
        subst heq
        rcases ih t with h | h | h
        · exact .inl ⟨h.1, .inr ⟨rfl, h.2⟩⟩
        · exact .inr (.inl ⟨h.1, by rw [h.2]⟩)
        · exact .inr (.inr ⟨h.1, .inr ⟨rfl, h.2⟩⟩)

theorem memcmp_neg {s t : Octets} : memcmp s t < 0 ↔ s.map UInt8.toNat < t.map UInt8.toNat := by
  rcases memcmp_cases s t with h | ⟨h, rfl⟩ | h
  · exact iff_of_true h.1 h.2
  · exact iff_of_false h.not_lt (lt_irrefl _)
  · exact iff_of_false h.1.not_gt h.2.not_gt

theorem memcmp_pos {s t : Octets} : 0 < memcmp s t ↔ t.map UInt8.toNat < s.map UInt8.toNat := by
  rcases memcmp_cases s t with h | ⟨h, rfl⟩ | h
  · exact iff_of_false h.1.not_gt h.2.not_gt
  · exact iff_of_false h.not_gt (lt_irrefl _)
  · exact iff_of_true h.1 h.2

theorem compareAddresses_iff {a b : Sockaddr} : CompareAddresses a b = true ↔ a.key < b.key := by
  unfold CompareAddresses Sockaddr.key
  rw [Prod.Lex.toLex_lt_toLex, Prod.Lex.toLex_lt_toLex]
  by_cases hf : a.sa_family = b.sa_family
  · rw [if_neg (not_not.2 hf), hf]
    by_cases hn : memcmp a.address b.address < 0
    · simp [hn, memcmp_neg.1 hn]
    · by_cases hp : memcmp a.address b.address > 0
      · have hlt := memcmp_pos.1 hp
        simp [hn, hp, hlt.not_gt, hlt.ne']
      · rcases memcmp_cases a.address b.address with h | ⟨h, heq⟩ | h
        · exact absurd h.1 hn
        · rw [if_neg hn, if_neg hp, heq]
          simp [memcmp_neg]
        · exact absurd h.1 hp
  · rw [if_pos hf]
    simp [hf]

theorem Sockaddr.key_injective : Function.Injective Sockaddr.key := by
  intro a b h
  obtain ⟨hf, hrest⟩ := Prod.mk.inj (toLex_inj.1 h)
  obtain ⟨ha, hp⟩ := Prod.mk.inj (toLex_inj.1 hrest)
  have hinj : Function.Injective (List.map UInt8.toNat) :=
    List.map_injective_iff.2 fun x y => UInt8.toNat_inj.1
  have ha := hinj ha
  have hp := hinj hp
  cases a with
  | un path =>
    cases b with
    | un => exact congrArg un ha
    | inet => exact absurd hf (by decide : AF_UNIX ≠ AF_INET)
    | inet6 => exact absurd hf (by decide : AF_UNIX ≠ AF_INET6)
    | other f hne => exact absurd hf.symm hne.1
  | inet addr port =>
    cases b with
    | un => exact absurd hf (by decide : AF_INET ≠ AF_UNIX)
    | inet => exact congrArg₂ inet (List.Vector.eq _ _ ha) (List.Vector.eq _ _ hp)
    | inet6 => exact absurd hf (by decide : AF_INET ≠ AF_INET6)
    | other f hne => exact absurd hf.symm hne.2.1
  | inet6 addr port =>
    cases b with
    | un => exact absurd hf (by decide : AF_INET6 ≠ AF_UNIX)
    | inet => exact absurd hf (by decide : AF_INET6 ≠ AF_INET)
    | inet6 => exact congrArg₂ inet6 (List.Vector.eq _ _ ha) (List.Vector.eq _ _ hp)
    | other f hne => exact absurd hf.symm hne.2.2
  | other f hne =>
    cases b with
    | un => exact absurd hf hne.1
    | inet => exact absurd hf hne.2.1
    | inet6 => exact absurd hf hne.2.2
    | other g =>
      obtain rfl : f = g := hf
      rfl

/-- The comparison is one that a set can be kept in order with. -/
theorem compareAddresses_irrefl (a : Sockaddr) : CompareAddresses a a = false := by
  rw [← Bool.not_eq_true, compareAddresses_iff]
  exact lt_irrefl _

theorem compareAddresses_trans {a b c : Sockaddr} (h : CompareAddresses a b = true)
    (h' : CompareAddresses b c = true) : CompareAddresses a c = true := by
  rw [compareAddresses_iff] at *
  exact h.trans h'

/-- Addresses that are in neither order are the same. -/
theorem compareAddresses_trichotomous (a b : Sockaddr) :
    CompareAddresses a b = true ∨ a = b ∨ CompareAddresses b a = true := by
  rw [compareAddresses_iff, compareAddresses_iff, ← Sockaddr.key_injective.eq_iff]
  exact lt_trichotomy a.key b.key

end AirSane.Netlink
