import AirSane.Web.AccessFile
import Mathlib.Tactic.Tauto

/-! # What the rules of an access file mean, and what they do

A rule speaks about the leading bits of an address, counted from the most
significant one. The mask that the code builds counts the bits of each byte from
the least significant one, so a rule is read differently exactly where its
prefix ends inside a byte.
-/

namespace AirSane.Web
open Bits

inductive Address where
  | v4 (addr : Bytes 4)
  | v6 (addr : Bytes 16)

def Address.width : Address → ℕ
  | .v4 _ => 32
  | .v6 _ => 128

def Address.sockaddr : Address → Sockaddr
  | .v4 a => .inet a
  | .v6 a => .inet6 a

structure Rule where
  allow : Bool
  address : Address
  bits : ℕ
  valid : bits ≤ address.width

namespace Rule

/-- The client has the rule's address family, and its leading bits in one order
or the other. -/
def reads (o : Order) (client : Sockaddr) (r : Rule) : Bool :=
  match r.address, client with
  | .v4 a, .inet c => Agree o c a r.bits
  | .v6 a, .inet6 c => Agree o c a r.bits
  | _, _ => false

/-- The prefix of the rule ends inside a byte. The whole bytes before it are the
client's, and of that byte the low-order bits are and the high-order bits are
not, or the other way round. -/
def Misread (client : Sockaddr) (r : Rule) : Prop :=
  match r.address, client with
  | .v4 a, .inet c => AgreeBytes c a (r.bits / 8) ∧
    (AgreeWithin .lsbFirst c a (r.bits / 8) (r.bits % 8) ↔
      ¬ AgreeWithin .msbFirst c a (r.bits / 8) (r.bits % 8))
  | .v6 a, .inet6 c => AgreeBytes c a (r.bits / 8) ∧
    (AgreeWithin .lsbFirst c a (r.bits / 8) (r.bits % 8) ↔
      ¬ AgreeWithin .msbFirst c a (r.bits / 8) (r.bits % 8))
  | _, _ => False

end Rule

/-- The verdict of the first rule that a reading has match. -/
def firstVerdict (reading : Rule → Bool) (rules : List Rule) : Bool :=
  ((rules.find? reading).map Rule.allow).getD false

/-- The verdict that a file of these rules is documented to give. -/
def intended (rules : List Rule) (client : Sockaddr) : Bool :=
  rules.isEmpty || firstVerdict (Rule.reads .msbFirst client) rules

/-- No rule is misread before one decides; or the first one that is has the
verdict of the rules behind it, taken in the reading that passes it over. -/
def Sound (client : Sockaddr) : List Rule → Prop
  | [] => True
  | r :: rest =>
    (r.Misread client →
      r.allow = if r.reads .lsbFirst client then firstVerdict (Rule.reads .msbFirst client) rest
        else firstVerdict (Rule.reads .lsbFirst client) rest) ∧
    (¬ r.Misread client → r.reads .lsbFirst client ∨ Sound client rest)

theorem misread_iff (client : Sockaddr) (r : Rule) :
    r.Misread client ↔ r.reads .lsbFirst client ≠ r.reads .msbFirst client := by
  have hbytes {n : ℕ} (a c : Bytes n) (k : ℕ) : (AgreeBytes c a (k / 8) ∧
      (AgreeWithin .lsbFirst c a (k / 8) (k % 8) ↔ ¬ AgreeWithin .msbFirst c a (k / 8) (k % 8))) ↔
        decide (Agree .lsbFirst c a k) ≠ decide (Agree .msbFirst c a k) := by
    rw [ne_eq, decide_eq_decide, agree_iff, agree_iff]
    tauto
  unfold Rule.Misread Rule.reads
  split <;> simp [hbytes]

/-- A prefix of whole bytes is read as it is meant. -/
theorem not_misread_of_dvd {client : Sockaddr} {r : Rule} (h : 8 ∣ r.bits) :
    ¬ r.Misread client := by
  have hr : r.bits % 8 = 0 := Nat.mod_eq_zero_of_dvd h
  unfold Rule.Misread
  split <;> simp [hr, agreeWithin_zero]

theorem sound_of_dvd {client : Sockaddr} {rules : List Rule} (h : ∀ r ∈ rules, 8 ∣ r.bits) :
    Sound client rules := by
  induction rules with
  | nil => trivial
  | cons r rest ih =>
    rw [List.forall_mem_cons] at h
    exact ⟨fun hm => absurd hm (not_misread_of_dvd h.1), fun _ => .inr (ih h.2)⟩

theorem firstVerdict_cons (reading : Rule → Bool) (r : Rule) (rest : List Rule) :
    firstVerdict reading (r :: rest) = if reading r then r.allow else firstVerdict reading rest := by
  by_cases h : reading r <;> simp [firstVerdict, h]

theorem firstVerdict_eq_iff (client : Sockaddr) (rules : List Rule) :
    firstVerdict (Rule.reads .lsbFirst client) rules =
      firstVerdict (Rule.reads .msbFirst client) rules ↔ Sound client rules := by
  induction rules with
  | nil => simp [firstVerdict, Sound]
  | cons r rest ih =>
    rw [firstVerdict_cons, firstVerdict_cons, Sound, ← ih, misread_iff]
    cases hl : r.reads .lsbFirst client <;> cases hm : r.reads .msbFirst client
    · simp
    · simp [eq_comm]
    · simp
    · simp

section
variable {n : ℕ}

theorem maskBits_succ (bits : ℕ) (j : Fin n) :
    maskBits (bits + 1) j = if j.val = bits / 8 then
      maskBits bits j ||| (1#8 <<< (bits % 8)) else maskBits bits j := by
  simp [maskBits, List.range_succ, List.foldl_append]

/-- The mask has the first bits, counted from the least significant bit. -/
theorem getLsbD_maskBits (bits : ℕ) (j : Fin n) {t : ℕ} (ht : t < 8) :
    (maskBits bits j).getLsbD t = decide (8 * j.val + t < bits) := by
  induction bits with
  | zero => simp [maskBits]
  | succ bits ih =>
    have hone : (1#8 <<< (bits % 8)).getLsbD t = decide (t = bits % 8) := by
      rw [BitVec.getLsbD_shiftLeft, BitVec.getLsbD_one]
      rw [Bool.eq_iff_iff]
      simp only [Bool.and_eq_true, Bool.not_eq_true', decide_eq_true_eq, decide_eq_false_iff_not]
      omega
    rw [maskBits_succ]
    split_ifs with hj
    · rw [BitVec.getLsbD_or, ih, hone, ← Bool.decide_or]
      exact decide_eq_decide.2 (by omega)
    · rw [ih]
      exact decide_eq_decide.2 (by omega)

theorem maskedEq_maskBits {a c : Bytes n} {bits : ℕ} (h : bits ≤ 8 * n) :
    maskedEq c a (maskBits bits) = decide (Agree .lsbFirst c a bits) := by
  rw [Bool.eq_iff_iff, decide_eq_true_eq,
    ← masked_eq_iff h fun j t ht => getLsbD_maskBits bits j ht]
  simp [maskedEq]

end

/-- The entry that a rule becomes. -/
def Rule.entry (r : Rule) : Entry where
  mKind := if r.allow then .Allow else .Deny
  mNetworks := [⟨r.address.sockaddr, SetMaskBits r.address.sockaddr r.bits⟩]

theorem matchAddresses_rule (client : Sockaddr) (r : Rule) :
    MatchAddresses client r.address.sockaddr (SetMaskBits r.address.sockaddr r.bits) =
      some (r.reads .lsbFirst client) := by
  obtain ⟨allow, address, bits, hbits⟩ := r
  cases address with
  | v4 a =>
    have hmask : SetMaskBits (.inet a) bits = .inet (maskBits bits) := by
      have hle : bits ≤ 32 := hbits
      have h : ¬ (32 : ℤ) < bits := by omega
      simp [SetMaskBits, h]
    cases client with
    | inet c =>
      simp [MatchAddresses, Address.sockaddr, hmask, Sockaddr.family, Rule.reads,
        maskedEq_maskBits (n := 4) hbits]
    | _ => rfl
  | v6 a =>
    have hmask : SetMaskBits (.inet6 a) bits = .inet6 (maskBits bits) := by
      have hle : bits ≤ 128 := hbits
      have h : ¬ (128 : ℤ) < bits := by omega
      simp [SetMaskBits, h]
    cases client with
    | inet6 c =>
      simp [MatchAddresses, Address.sockaddr, hmask, Sockaddr.family, Rule.reads,
        maskedEq_maskBits (n := 16) hbits]
    | _ => rfl

theorem match_entry (client : Sockaddr) (r : Rule) :
    r.entry.match client =
      some (if r.reads .lsbFirst client then r.entry.mKind else .NoMatch) := by
  simp only [Entry.match, Rule.entry, Entry.match.go, matchAddresses_rule]
  cases r.reads .lsbFirst client <;> rfl

/-- The loop of `isAllowed` takes the verdict of the first entry that matches. -/
theorem decideBy_entries (client : Sockaddr) (rules : List Rule) :
    decideBy client (rules.map Rule.entry) =
      some (firstVerdict (Rule.reads .lsbFirst client) rules) := by
  induction rules with
  | nil => rfl
  | cons r rest ih =>
    rw [List.map_cons, decideBy, match_entry, firstVerdict_cons]
    by_cases h : r.reads .lsbFirst client
    · cases ha : r.allow <;> simp [h, ha, Rule.entry]
    · simp [h, ih]

theorem isAllowed_entries (client : Sockaddr) (rules : List Rule) (errors : List Char) :
    (AccessFile.mk (rules.map Rule.entry) errors).isAllowed client =
      some (rules.isEmpty || firstVerdict (Rule.reads .lsbFirst client) rules) := by
  cases rules with
  | nil => rfl
  | cons r rest =>
    rw [AccessFile.isAllowed]
    exact decideBy_entries client (r :: rest)

end AirSane.Web
