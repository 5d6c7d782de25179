import AirSane.Lists.Cut
import AirSane.Text.Octets

/-! # URLs

`Url`, parsed and printed. The parser looks for the end of a user name in all that
is left of the text.
-/

namespace AirSane
open Text Lists

structure Url where
  mProtocol : Octets
  mUser : Octets
  mPassword : Octets
  mHost : Octets
  mPort : Octets
  mPath : Octets
  deriving DecidableEq

namespace Url

/-- A text as it is divided by its first colon, if it has one. -/
def parts (s : Octets) : Octets × Octets := (cut (ascii ":") s).getD (s, [])

/-- `Url::Url`. -/
def new (url : Octets) : Url :=
  let protocol := (cut (ascii "://") url).getD ([], url)
  let userandpw := (cut (ascii "@") protocol.2).getD ([], protocol.2)
  let hostandport := userandpw.2.takeWhile (· ≠ 47)
  { mProtocol := protocol.1
    mUser := (parts userandpw.1).1
    mPassword := (parts userandpw.1).2
    mHost := (parts hostandport).1
    mPort := (parts hostandport).2
    mPath := userandpw.2.dropWhile (· ≠ 47) }

def joined (a b : Octets) : Octets := a ++ if b = [] then [] else ascii ":" ++ b

/-- What is printed behind the protocol. -/
def authority (u : Url) : Octets :=
  (if u.mUser = [] then [] else joined u.mUser u.mPassword ++ ascii "@") ++
    (joined u.mHost u.mPort ++ u.mPath)

/-- `Url::print`. -/
def print (u : Url) : Octets :=
  (if u.mProtocol = [] then [] else u.mProtocol ++ ascii "://") ++ u.authority

/-- A URL with a protocol and a host, whose parts have none of the characters that
would end them. -/
structure WellFormed (u : Url) : Prop where
  protocol : u.mProtocol ≠ []
  scheme : ¬ ascii "://" <:+: u.mProtocol
  user : ∀ b ∈ ascii "@:/", b ∉ u.mUser
  password : ∀ b ∈ ascii "@:/", b ∉ u.mPassword
  named : u.mPassword ≠ [] → u.mUser ≠ []
  nonempty : u.mHost ≠ []
  host : ∀ b ∈ ascii "@:/", b ∉ u.mHost
  port : ∀ b ∈ ascii "@/", b ∉ u.mPort
  path : ∀ b ∈ u.mPath.head?, b = 47

variable {u : Url} {a b s : Octets} {c : UInt8}

theorem parts_joined (h : 58 ∉ a) : parts (joined a b) = (a, b) := by
  have hcolon : ascii ":" = [58] := rfl
  rw [parts, joined, hcolon]
  split_ifs with hb
  · rw [List.append_nil, cut_singleton_eq_none h, hb]
    rfl
  · rw [List.singleton_append, cut_singleton_append h]
    rfl

theorem not_mem_joined (ha : c ∉ a) (hb : c ∉ b) (hc : c ≠ 58) : c ∉ joined a b := by
  have hcolon : ascii ":" = [58] := rfl
  rw [joined, hcolon]
  split_ifs <;> simp [ha, hb, hc]

/-- A text that does not begin with a colon has a first part. -/
theorem parts_cons_ne_nil (hc : c ≠ 58) : (parts (c :: s)).1 ≠ [] := by
  have hcolon : ascii ":" = [58] := rfl
  have hno : ¬ [58] <+: c :: s := fun h => hc (List.cons_prefix_cons.1 h).1.symm
  rw [parts, hcolon, cut, if_neg hno]
  cases cut [58] s <;> simp

/-- The end of a protocol is not found within it. -/
theorem cut_scheme (h : ¬ ascii "://" <:+: a) (s : Octets) :
    cut (ascii "://") (a ++ (ascii "://" ++ s)) = some (a, s) := by
  have hscheme : ascii "://" = [58, 47, 47] := rfl
  rw [hscheme] at h ⊢
  refine cut_append (by simp) fun t ht hne hpre => ?_
  match t with
  | [] => exact hne rfl
  | [x] => simp at hpre
  | [x, y] => simp at hpre
  | x :: y :: z :: t =>
    have hin : [58, 47, 47] <+: x :: y :: z :: t := by
      simp only [List.cons_append, List.cons_prefix_cons] at hpre ⊢
      exact ⟨hpre.1, hpre.2.1, hpre.2.2.1, List.nil_prefix⟩
    exact h (hin.isInfix.trans ht.isInfix)

theorem cut_print (h : u.WellFormed) :
    cut (ascii "://") u.print = some (u.mProtocol, u.authority) := by
  rw [print, if_neg h.protocol, List.append_assoc, cut_scheme h.scheme]

/-- Host and port end where the path begins. -/
theorem split_path (h : u.WellFormed) :
    (joined u.mHost u.mPort ++ u.mPath).takeWhile (· ≠ 47) = joined u.mHost u.mPort ∧
      (joined u.mHost u.mPort ++ u.mPath).dropWhile (· ≠ 47) = u.mPath := by
  have hmem : (47 : UInt8) ∉ joined u.mHost u.mPort :=
    not_mem_joined (h.host _ (by decide)) (h.port _ (by decide)) (by decide)
  have hall : ∀ b ∈ joined u.mHost u.mPort, decide (b ≠ 47) = true := by
    intro b hb
    simpa using fun heq : b = 47 => hmem (heq ▸ hb)
  rw [List.takeWhile_append_of_pos hall, List.dropWhile_append_of_pos hall]
  cases hp : u.mPath with
  | nil => simp
  | cons b s =>
    obtain rfl := h.path b (by simp [hp])
    simp

/-- With the user name, or none, taken off what is left the URL is what it was. -/
theorem new_print_of_cut (h : u.WellFormed) (hcut : (cut (ascii "@") u.authority).getD
    ([], u.authority) = (if u.mUser = [] then [] else joined u.mUser u.mPassword,
      joined u.mHost u.mPort ++ u.mPath)) : new u.print = u := by
  have huser : parts (if u.mUser = [] then [] else joined u.mUser u.mPassword) =
      (u.mUser, u.mPassword) := by
    split_ifs with hu
    · have hpw : u.mPassword = [] := by
        by_contra hne
        exact h.named hne hu
      rw [hu, hpw]
      rfl
    · exact parts_joined (h.user _ (by decide))
  obtain ⟨htake, hdrop⟩ := split_path h
  simp only [new, cut_print h, Option.getD_some, hcut, huser, htake, hdrop,
    parts_joined (h.host _ (by decide))]

theorem cut_authority_user (h : u.WellFormed) (hu : u.mUser ≠ []) : cut (ascii "@") u.authority =
    some (joined u.mUser u.mPassword, joined u.mHost u.mPort ++ u.mPath) := by
  have hat : ascii "@" = [64] := rfl
  rw [authority, if_neg hu, hat, List.append_assoc, List.singleton_append]
  exact cut_singleton_append
    (not_mem_joined (h.user _ (by decide)) (h.password _ (by decide)) (by decide))

theorem at_not_mem_host (h : u.WellFormed) : 64 ∉ joined u.mHost u.mPort :=
  not_mem_joined (h.host _ (by decide)) (h.port _ (by decide)) (by decide)

/-- Without a user the text up to an `@` in the path is taken for one. -/
theorem user_new_print (h : u.WellFormed) (hu : u.mUser = []) (hp : 64 ∈ u.mPath) :
    (new u.print).mUser ≠ [] := by
  have hat : ascii "@" = [64] := rfl
  obtain ⟨p, q, hpath, hnot⟩ := List.eq_append_cons_of_mem hp
  have hmem : 64 ∉ joined u.mHost u.mPort ++ p := by simp [at_not_mem_host h, hnot]
  have hcut : cut (ascii "@") u.authority = some (joined u.mHost u.mPort ++ p, q) := by
    rw [authority, if_pos hu, hpath, hat, List.nil_append, ← List.append_assoc]
    exact cut_singleton_append hmem
  have hhost : ∃ c s, u.mHost = c :: s := List.exists_cons_of_ne_nil h.nonempty
  obtain ⟨c, s, hc⟩ := hhost
  have hcolon : c ≠ 58 := by
    rintro rfl
    exact h.host 58 (by decide) (by simp [hc])
  simp only [new, cut_print h, Option.getD_some, hcut, joined, hc, List.cons_append]
  exact parts_cons_ne_nil hcolon

theorem new_print_iff (h : u.WellFormed) : new u.print = u ↔ u.mUser ≠ [] ∨ 64 ∉ u.mPath := by
  constructor
  · intro heq
    by_contra hor
    obtain ⟨hu, hp⟩ := not_or.1 hor
    refine user_new_print h (not_not.1 hu) (not_not.1 hp) ?_
    rw [heq]
    exact not_not.1 hu
  · intro hor
    apply new_print_of_cut h
    by_cases hu : u.mUser = []
    · have hat : ascii "@" = [64] := rfl
      have hp : 64 ∉ u.mPath := hor.resolve_left (not_not.2 hu)
      rw [authority, if_pos hu, if_pos hu, List.nil_append, hat,
        cut_singleton_eq_none (by simp [at_not_mem_host h, hp])]
      rfl
    · rw [cut_authority_user h hu, if_neg hu]
      rfl

theorem new_print_iff_host : new (print ⟨ascii "http", ascii "user", ascii "password",
    ascii "host.org", ascii "1234", ascii "/some/p@th/"⟩) = ⟨ascii "http", ascii "user",
      ascii "password", ascii "host.org", ascii "1234", ascii "/some/p@th/"⟩ := by
  refine (new_print_iff ?_).2 (.inl (by decide))
  exact
    { protocol := by decide
      scheme := by decide
      user := forall_mem_of_all (by decide)
      password := forall_mem_of_all (by decide)
      named := by decide
      nonempty := by decide
      host := forall_mem_of_all (by decide)
      port := forall_mem_of_all (by decide)
      path := fun b hb => (Option.some.inj hb).symm }

theorem new_print_ne_at : ∃ u : Url, u.WellFormed ∧ u.print = ascii "http://host.org/some/p@th/" ∧
    new u.print ≠ u := by
  refine ⟨⟨ascii "http", [], [], ascii "host.org", [], ascii "/some/p@th/"⟩, ?_, by decide, by decide⟩
  exact
    { protocol := by decide
      scheme := by decide
      user := forall_mem_of_all (by decide)
      password := forall_mem_of_all (by decide)
      named := by decide
      nonempty := by decide
      host := forall_mem_of_all (by decide)
      port := forall_mem_of_all (by decide)
      path := fun b hb => (Option.some.inj hb).symm }

end Url
end AirSane
