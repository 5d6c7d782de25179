import AirSane.Web.AccessSyntax
import AirSane.Lists.MapM
import Mathlib.Data.List.DropRight

/-! # The rules of an access file

What the reader takes a rule for, by its text: the networks it is for, an illegal
entry, or no return. The last two and the documented syntax differ by what follows
an address, by null characters, and by interfaces without addresses.
-/

namespace AirSane.Web
open Bits

variable {host : Host}

/-- The host takes nothing for an address that has other characters in it. -/
structure Host.Textual (host : Host) : Prop where
  v4 : ∀ text a, host.inet_pton text = some a → text ≠ [] ∧ ∀ c ∈ text, isAddressChar c
  v6 : ∀ text a, host.inet_pton6 text = some a → text ≠ [] ∧ ∀ c ∈ text, isAddressChar c

/-- The name of an interface, or `*`, selects an interface. -/
def Selects (name : List Char) (p : Interface) : Prop := name = ['*'] ∨ name = p.ifa_name

instance (name : List Char) (p : Interface) : Decidable (Selects name p) :=
  inferInstanceAs (Decidable (_ ∨ _))

/-- A word, white space, and the rest of a line. -/
structure Parts (line kind gap rule : List Char) : Prop where
  eq : line = kind ++ (gap ++ rule)
  solid : ∀ c ∈ kind, isSpace c = false
  kind_ne : kind ≠ []
  spaces : Spaces gap
  gap_ne : gap ≠ []
  head : ∀ c ∈ rule.head?, isSpace c = false
  rule_ne : rule ≠ []

/-- A text as it is divided at its last slash. -/
inductive Divides : List Char → List Char → List Char → Prop
  | whole {text : List Char} (h : '/' ∉ text) : Divides text text []
  | slash {text suffix : List Char} (h : '/' ∉ suffix) :
    Divides (text ++ '/' :: suffix) text ('/' :: suffix)

/-- What a rule may speak about: an interface of the host or all of them, or an
address with a prefix length that it admits. -/
inductive Target (host : Host) : List Char → Prop where
  | localOn {name : List Char} (hne : name ≠ [])
      (h : name = ['*'] ∨ ∃ is, host.getifaddrs = some is ∧ ∃ p ∈ is, name = p.ifa_name) :
    Target host (ifkeywords.toList ++ name)
  | address {text length : List Char} {a : Address} {bits : ℕ} (hd : Denotes host text a)
      (hl : PrefixLength a.width length bits) : Target host (text ++ length)

/-- A rule of the documented syntax, with what it decides. -/
inductive RuleText (host : Host) : Verdict → List Char → Prop where
  | allow {line kind gap rule : List Char} (hp : Parts line kind gap rule)
      (hk : equalsIgnoringCase kind "allow") (hr : Target host rule) : RuleText host .Allow line
  | deny {line kind gap rule : List Char} (hp : Parts line kind gap rule)
      (hk : equalsIgnoringCase kind "deny") (hr : Target host rule) : RuleText host .Deny line

/-- An address up to a null character or the last slash, and behind it anything
but a prefix length. -/
def Misread (host : Host) (rule : List Char) : Prop :=
  ∃ text tail a, Divides rule text tail ∧ Denotes host (c_str text) a ∧
    ('\x00' ∈ text ∨ ∀ bits, ¬ PrefixLength a.width tail bits)

/-- Interfaces of which none has an address. -/
def NoAddress (host : Host) (rule : List Char) : Prop :=
  ∃ name, rule = ifkeywords.toList ++ name ∧ Target host rule ∧
    ∀ is, host.getifaddrs = some is → ∀ p ∈ is, Selects name p → p.ifa_addr = none

/-- An interface that has an IP address but no netmask. -/
def NoNetmask (host : Host) (rule : List Char) : Prop :=
  ∃ name, rule = ifkeywords.toList ++ name ∧ name ≠ [] ∧ ∃ is, host.getifaddrs = some is ∧
    ∃ p ∈ is, Selects name p ∧ p.ifa_netmask = none ∧
      ∃ addr, p.ifa_addr = some addr ∧ (addr.family = .inet ∨ addr.family = .inet6)

def Keyword (kind : List Char) : Prop :=
  equalsIgnoringCase kind "allow" ∨ equalsIgnoringCase kind "deny"

/-- The lines that are not judged by the documented syntax. -/
def Misjudged (host : Host) (line : List Char) : Prop :=
  ∃ kind gap rule, Parts line kind gap rule ∧ Keyword (c_str kind) ∧
    (Misread host rule ∨ NoNetmask host rule ∨ (Keyword kind ∧ NoAddress host rule) ∨
      ('\x00' ∈ kind ∧ Target host rule ∧ ¬ NoAddress host rule))

/-- `Server::run` does not start with such an access file. -/
def AccessFile.refused (file : AccessFile) : Prop := file.mErrors ≠ []

/-- The line of a rule adds the entry of a rule with its verdict; any other line
is reported, and a file with that line refused. -/
structure Enforced (host : Host) (line : List Char) : Prop where
  rule : ∀ v, RuleText host v (trim line) → ∀ file, ∃ networks,
    AccessFile.readLine host file line =
      some { file with mEntries := file.mEntries ++ [⟨v, networks⟩] }
  other : (∀ v, ¬ RuleText host v (trim line)) →
    (∀ file, AccessFile.readLine host file line =
      some { file with mErrors := file.mErrors ++ illegalEntry (trim line) }) ∧
    ∀ text file, line ∈ text.splitOn '\n' → AccessFile.read host (some text) = some file →
      file.refused

section
variable {name : List Char} {p : Interface} {is : List Interface}

/-- The addresses of the interfaces that a name selects. -/
def selected (name : List Char) (is : List Interface) : List (Interface × Sockaddr) :=
  is.filterMap fun p => if Selects name p then p.ifa_addr.map (Prod.mk p) else none

def networkOf (host : Host) (q : Interface × Sockaddr) : Option Network := q.1.network host q.2

theorem networksOf_eq (is : List Interface) :
    host.networksOf (name = ['*']) name is = (selected name is).mapM (networkOf host) := by
  induction is with
  | nil => rfl
  | cons p is ih =>
    rw [selected] at ih
    rw [Host.networksOf, selected, List.filterMap_cons]
    have hiff : (decide (name = ['*']) || name = p.ifa_name) = true ↔ Selects name p := by
      simp [Selects]
    cases ha : p.ifa_addr with
    | none =>
      by_cases hs : Selects name p
      · simpa [hs] using ih
      · simpa [hs] using ih
    | some addr =>
      by_cases hs : Selects name p
      · simp only [hiff, hs, if_true, Option.map_some]
        rw [Lists.mapM_cons, ih]
        have hnet : networkOf host (p, addr) = p.network host addr := rfl
        rw [hnet]
        generalize List.filterMap _ is = rest
        cases p.network host addr <;> cases rest.mapM (networkOf host) <;> rfl
      · simp only [hiff, hs, if_false]
        exact ih

theorem mem_selected {q : Interface × Sockaddr} :
    q ∈ selected name is ↔ q.1 ∈ is ∧ Selects name q.1 ∧ q.1.ifa_addr = some q.2 := by
  rw [selected, List.mem_filterMap]
  constructor
  · rintro ⟨p, hp, h⟩
    split_ifs at h with hs
    rcases Option.map_eq_some_iff.1 h with ⟨addr, ha, rfl⟩
    exact ⟨hp, hs, ha⟩
  · rintro ⟨hp, hs, ha⟩
    exact ⟨q.1, hp, by simp [hs, ha]⟩

theorem selected_eq_nil_iff :
    selected name is = [] ↔ ∀ p ∈ is, Selects name p → p.ifa_addr = none := by
  rw [List.eq_nil_iff_forall_not_mem]
  constructor
  · intro h p hp hs
    cases ha : p.ifa_addr with
    | none => rfl
    | some addr => exact absurd (mem_selected.2 ⟨hp, hs, ha⟩) (h (p, addr))
  · intro h q hq
    rcases mem_selected.1 hq with ⟨hp, hs, ha⟩
    simp [h q.1 hp hs] at ha

theorem networkOf_eq_none_iff {q : Interface × Sockaddr} :
    networkOf host q = none ↔
      q.1.ifa_netmask = none ∧ (q.2.family = .inet ∨ q.2.family = .inet6) := by
  rcases q with ⟨p, addr⟩
  cases addr <;> simp [networkOf, Interface.network, Sockaddr.family]

end

namespace Parts
variable {line kind gap rule : List Char}

theorem dropWhile_line (h : Parts line kind gap rule) : line.dropWhile isSpace = line := by
  rw [h.eq]
  exact dropWhile_front _ h.kind_ne fun c hc => h.solid c (List.mem_of_mem_head? hc)

theorem takeWhile_line (h : Parts line kind gap rule) :
    line.takeWhile (!isSpace ·) = kind := by
  rcases List.exists_cons_of_ne_nil h.gap_ne with ⟨g, gap', rfl⟩
  have hg : isSpace g := h.spaces g List.mem_cons_self
  rw [h.eq, List.takeWhile_append_of_pos fun c hc => by simp [h.solid c hc]]
  simp [hg]

theorem rest_line (h : Parts line kind gap rule) :
    (line.dropWhile (!isSpace ·)).dropWhile isSpace = rule := by
  have hrule : rule.dropWhile isSpace = rule := by
    simpa using dropWhile_front [] h.rule_ne h.head
  rcases List.exists_cons_of_ne_nil h.gap_ne with ⟨g, gap', rfl⟩
  have hg : isSpace g := h.spaces g List.mem_cons_self
  have hdrop : line.dropWhile (!isSpace ·) = g :: gap' ++ rule := by
    rw [h.eq, List.dropWhile_append_of_pos fun c hc => by simp [h.solid c hc]]
    simp [hg]
  rw [hdrop, List.dropWhile_append_of_pos h.spaces, hrule]

theorem unique {kind' gap' rule' : List Char} (h : Parts line kind gap rule)
    (h' : Parts line kind' gap' rule') : kind = kind' ∧ rule = rule' :=
  ⟨h.takeWhile_line.symm.trans h'.takeWhile_line, h.rest_line.symm.trans h'.rest_line⟩

end Parts

theorem trim_head (line : List Char) : ∀ c ∈ (trim line).head?, isSpace c = false := by
  intro c hc
  have hprefix : trim line <+: line.dropWhile isSpace := List.rdropWhile_prefix ..
  have hmem : c ∈ (line.dropWhile isSpace).head? := by
    rcases hprefix with ⟨rest, hrest⟩
    rw [← hrest, List.head?_append, hc]
    rfl
  have hnot := List.head?_dropWhile_not isSpace line
  rw [hmem] at hnot
  exact hnot

/-- A trimmed line has its parts, or nothing follows its first word. -/
theorem parts_trim {line : List Char} (hne : trim line ≠ []) :
    (∃ kind gap rule, Parts (trim line) kind gap rule) ∨
      ((trim line).dropWhile (!isSpace ·)).dropWhile isSpace = [] := by
  have hhead := trim_head line
  generalize trim line = text at hne hhead
  by_cases hrule : (text.dropWhile (!isSpace ·)).dropWhile isSpace = []
  · exact .inr hrule
  · left
    have hrest : text.dropWhile (!isSpace ·) ≠ [] := fun h => hrule (by simp [h])
    refine ⟨text.takeWhile (!isSpace ·), (text.dropWhile (!isSpace ·)).takeWhile isSpace,
      (text.dropWhile (!isSpace ·)).dropWhile isSpace, ?_, ?_, ?_, ?_, ?_, ?_, hrule⟩
    · rw [List.takeWhile_append_dropWhile, List.takeWhile_append_dropWhile]
    · intro c hc
      simpa using List.mem_takeWhile_imp hc
    · rcases List.exists_cons_of_ne_nil hne with ⟨c, rest, rfl⟩
      simp [hhead c rfl]
    · exact fun c hc => List.mem_takeWhile_imp hc
    · have hspace := List.head?_dropWhile_not (!isSpace ·) text
      rcases List.exists_cons_of_ne_nil hrest with ⟨c, rest, hcons⟩
      rw [hcons] at hspace
      simp only [List.head?_cons, Bool.not_eq_false'] at hspace
      simp [hcons, hspace]
    · intro c hc
      have hnot := List.head?_dropWhile_not isSpace (text.dropWhile (!isSpace ·))
      rw [hc] at hnot
      exact hnot

def kindOf (kind : List Char) : Verdict :=
  if equalsIgnoringCase kind "allow" then .Allow
  else if equalsIgnoringCase kind "deny" then .Deny else .NoMatch

theorem parse_parts {line kind gap rule : List Char} (h : Parts line kind gap rule) :
    Entry.parse host line = if kindOf (c_str kind) = .NoMatch then some none
      else match parseRule host rule with
        | .entry networks => some (some ⟨kindOf (c_str kind), networks⟩)
        | .illegal => some none
        | .crash => none := by
  simp only [Entry.parse, h.dropWhile_line, h.takeWhile_line, h.rest_line, h.rule_ne, or_false]
  rfl

theorem parse_word {text : List Char} (hne : trim text ≠ [])
    (h : ((trim text).dropWhile (!isSpace ·)).dropWhile isSpace = []) :
    Entry.parse host (trim text) = some none := by
  have htext : (trim text).dropWhile isSpace = trim text := by
    rcases List.exists_cons_of_ne_nil hne with ⟨c, rest, heq⟩
    have hhead := trim_head text
    rw [heq] at hhead ⊢
    simp [hhead c rfl]
  simp [Entry.parse, htext, h]

theorem kindOf_ne_iff {kind : List Char} : kindOf kind ≠ .NoMatch ↔ Keyword kind := by
  rw [kindOf, Keyword]
  split_ifs <;> simp_all

theorem ruleText_iff {line kind gap rule : List Char} {v : Verdict}
    (h : Parts line kind gap rule) :
    RuleText host v line ↔ Keyword kind ∧ v = kindOf kind ∧ Target host rule := by
  constructor
  · intro hr
    cases hr with
    | allow hp hk hr =>
      rcases h.unique hp with ⟨rfl, rfl⟩
      exact ⟨.inl hk, by simp [kindOf, hk], hr⟩
    | deny hp hk hr =>
      rcases h.unique hp with ⟨rfl, rfl⟩
      have hallow : equalsIgnoringCase kind "allow" = false := by
        simp only [equalsIgnoringCase, decide_eq_true_eq] at hk
        simp only [equalsIgnoringCase, hk]
        decide
      exact ⟨.inr hk, by simp [kindOf, hk, hallow], hr⟩
  · rintro ⟨hk, rfl, hr⟩
    rw [kindOf]
    split_ifs with ha hd
    · exact .allow h ha hr
    · exact .deny h hd hr
    · exact absurd (hk.resolve_left ha) hd

theorem c_str_of_keyword {kind : List Char} (h : Keyword kind) : c_str kind = kind := by
  cases h with
  | inl h => exact c_str_kind (by decide) h
  | inr h => exact c_str_kind (by decide) h

/-- A word without null characters is a keyword if the host sees one. -/
theorem keyword_iff {kind : List Char} (h : Keyword (c_str kind)) :
    Keyword kind ↔ '\x00' ∉ kind := by
  constructor
  · intro hk hnul
    rw [← c_str_of_keyword hk] at hnul
    simpa using List.mem_takeWhile_imp hnul
  · intro hnul
    rwa [c_str_of_not_mem hnul] at h

section
variable {rule text tail : List Char}

theorem Denotes.chars {a : Address} (ht : host.Textual) (h : Denotes host text a) :
    text ≠ [] ∧ ∀ c ∈ text, isAddressChar c := by
  cases h with
  | v4 h => exact ht.v4 text _ h
  | v6 _ h => exact ht.v6 text _ h

theorem Denotes.unique {a b : Address} (ha : Denotes host text a) (hb : Denotes host text b) :
    a = b := by
  cases ha with
  | v4 h =>
    cases hb with
    | v4 h' => rw [Option.some.inj (h.symm.trans h')]
    | v6 h' _ => cases h.symm.trans h'
  | v6 h4 h6 =>
    cases hb with
    | v4 h' => cases h4.symm.trans h'
    | v6 _ h' => rw [Option.some.inj (h6.symm.trans h')]

/-- What the host takes for an address does not begin like a rule on interfaces. -/
theorem not_prefix_of_denotes {a : Address} (ht : host.Textual)
    (h : Denotes host (c_str text) a) : ¬ ifkeywords.toList <+: text ++ tail := by
  intro hkey
  rcases h.chars ht with ⟨hne, hchars⟩
  cases text with
  | nil => exact hne rfl
  | cons c text =>
    have hc : 'l' = c := (List.cons_prefix_cons.1 hkey).1
    have hmem : 'l' ∈ c_str (c :: text) := by simp [c_str, ← hc]
    exact absurd (hchars 'l' hmem) (by decide)

theorem Divides.eq (h : Divides rule text tail) : rule = text ++ tail := by
  cases h with
  | whole => rw [List.append_nil]
  | slash => rfl

theorem exists_divides (rule : List Char) : ∃ text tail, Divides rule text tail := by
  by_cases h : '/' ∈ rule
  · rcases List.eq_append_cons_of_mem (List.mem_reverse.2 h) with ⟨back, front, hrev, hback⟩
    have hrule : rule = front.reverse ++ '/' :: back.reverse := by
      rw [← List.reverse_reverse rule, hrev]
      simp
    rw [hrule]
    exact ⟨_, _, .slash (by simpa using hback)⟩
  · exact ⟨_, _, .whole h⟩

theorem Divides.address (h : Divides rule text tail) : (addressAndBits rule).1 = text := by
  rw [addressAndBits]
  cases h with
  | whole h => rw [splitAtLastSlash_none fun c hc => ne_of_mem_of_not_mem hc h]
  | slash h => rw [splitAtLastSlash_append fun c hc => ne_of_mem_of_not_mem hc h]

theorem Divides.unique {text' tail' : List Char} (h : Divides rule text tail)
    (h' : Divides rule text' tail') : text = text' ∧ tail = tail' := by
  have htext : text = text' := h.address.symm.trans h'.address
  have htail : text ++ tail = text ++ tail' := by rw [← h.eq, htext, ← h'.eq]
  exact ⟨htext, List.append_cancel_left htail⟩

theorem divides_length {width bits : ℕ} (ht : ∀ c ∈ text, isAddressChar c)
    (hl : PrefixLength width tail bits) : Divides (text ++ tail) text tail := by
  have hslash : '/' ∉ text := fun h => absurd (ht _ h) (by decide)
  cases hl with
  | full =>
    rw [List.append_nil]
    exact .whole hslash
  | bits _ hd _ => exact .slash fun h => absurd (hd _ h) (by decide)

theorem misread_iff_of_divides (h : Divides rule text tail) :
    Misread host rule ↔ ∃ a, Denotes host (c_str text) a ∧
      ('\x00' ∈ text ∨ ∀ bits, ¬ PrefixLength a.width tail bits) := by
  constructor
  · rintro ⟨text', tail', a, hd, hm⟩
    rcases h.unique hd with ⟨rfl, rfl⟩
    exact ⟨a, hm⟩
  · rintro ⟨a, hm⟩
    exact ⟨text, tail, a, h, hm⟩

theorem target_iff_of_divides (ht : host.Textual) (hkey : ¬ ifkeywords.toList <+: rule)
    (h : Divides rule text tail) :
    Target host rule ↔ ∃ a bits, Denotes host text a ∧ PrefixLength a.width tail bits := by
  constructor
  · intro hr
    cases hr with
    | localOn hne _ => exact absurd (List.prefix_append _ _) hkey
    | address hd hl =>
      rcases h.unique (divides_length (hd.chars ht).2 hl) with ⟨rfl, rfl⟩
      exact ⟨_, _, hd, hl⟩
  · rintro ⟨a, bits, hd, hl⟩
    rw [h.eq]
    exact .address hd hl

theorem not_target_of_misread (ht : host.Textual) (h : Misread host rule) :
    ¬ Target host rule := by
  rcases h with ⟨text, tail, a, hdiv, hd, hm⟩
  rw [target_iff_of_divides ht (hdiv.eq ▸ not_prefix_of_denotes ht hd) hdiv]
  rintro ⟨b, bits, hb, hl⟩
  cases hm with
  | inl hnul => exact absurd ((hb.chars ht).2 _ hnul) (by decide)
  | inr hbits =>
    rw [c_str_of_isAddressChar (hb.chars ht).2] at hd
    rw [hb.unique hd] at hl
    exact hbits bits hl

theorem parseRule_address (hkey : ¬ ifkeywords.toList <+: rule) (h : Divides rule text tail) :
    parseRule host rule ≠ .crash ∧
      (parseRule host rule = .illegal ↔ ∀ a, ¬ Denotes host (c_str text) a) := by
  have hpre : ifkeywords.toList.isPrefixOf rule = false := by
    rwa [Bool.eq_false_iff, ne_eq, List.isPrefixOf_iff_prefix]
  rw [parseRule, hpre]
  rcases hsplit : addressAndBits rule with ⟨address, bits⟩
  have haddress : address = text := by rw [← h.address, hsplit]
  subst haddress
  simp only [Bool.false_eq_true, if_false]
  cases h4 : host.inet_pton (c_str address) with
  | some a => exact ⟨by simp, by simpa using ⟨_, .v4 h4⟩⟩
  | none =>
    cases h6 : host.inet_pton6 (c_str address) with
    | some a => exact ⟨by simp, by simpa using ⟨_, .v6 h4 h6⟩⟩
    | none =>
      refine ⟨by simp, ⟨fun _ a hd => ?_, fun _ => rfl⟩⟩
      cases hd with
      | v4 h => cases h4.symm.trans h
      | v6 _ h => cases h6.symm.trans h

section
variable {name : List Char}

theorem target_local (ht : host.Textual) :
    Target host (ifkeywords.toList ++ name) ↔ name ≠ [] ∧
      (name = ['*'] ∨ ∃ is, host.getifaddrs = some is ∧ ∃ p ∈ is, name = p.ifa_name) := by
  constructor
  · generalize hrule : ifkeywords.toList ++ name = rule
    intro hr
    cases hr with
    | localOn hne h =>
      rw [List.append_cancel_left hrule]
      exact ⟨hne, h⟩
    | address hd hl =>
      have hkey := List.prefix_append ifkeywords.toList name
      rw [hrule] at hkey
      rw [← c_str_of_isAddressChar (hd.chars ht).2] at hd
      exact absurd hkey (not_prefix_of_denotes ht hd)
  · rintro ⟨hne, h⟩
    exact .localOn hne h

theorem not_misread_local (ht : host.Textual) : ¬ Misread host (ifkeywords.toList ++ name) := by
  rintro ⟨text, tail, a, hdiv, hd, -⟩
  exact not_prefix_of_denotes ht hd (hdiv.eq ▸ List.prefix_append _ _)

/-- A rule on interfaces, by the addresses of the interfaces that it selects. -/
theorem parseRule_local :
    parseRule host (ifkeywords.toList ++ name) = if name = [] then .illegal
      else match host.getifaddrs with
      | none => .illegal
      | some is => match (selected name is).mapM (networkOf host) with
        | none => .crash
        | some [] => .illegal
        | some networks => .entry networks := by
  have hpre : ifkeywords.toList.isPrefixOf (ifkeywords.toList ++ name) = true :=
    List.isPrefixOf_iff_prefix.2 (List.prefix_append _ _)
  have hdrop : (ifkeywords.toList ++ name).drop ifkeywords.length = name := List.drop_left
  rw [parseRule, hpre, if_pos rfl, hdrop]
  by_cases hname : name = []
  · rw [if_pos hname, if_pos hname]
  · rw [if_neg hname, if_neg hname]
    cases host.getifaddrs with
    | none => rfl
    | some is =>
      cases hm : (selected name is).mapM (networkOf host) with
      | none => simp [networksOf_eq, hm]
      | some networks => cases networks <;> simp [networksOf_eq, hm]

theorem mapM_selected_eq_none_iff {is : List Interface} :
    (selected name is).mapM (networkOf host) = none ↔ ∃ p ∈ is, Selects name p ∧
      p.ifa_netmask = none ∧
        ∃ addr, p.ifa_addr = some addr ∧ (addr.family = .inet ∨ addr.family = .inet6) := by
  rw [Lists.mapM_eq_none_iff]
  constructor
  · rintro ⟨q, hq, hn⟩
    rcases mem_selected.1 hq with ⟨hp, hs, ha⟩
    rw [networkOf_eq_none_iff] at hn
    exact ⟨q.1, hp, hs, hn.1, q.2, ha, hn.2⟩
  · rintro ⟨p, hp, hs, hm, addr, ha, hf⟩
    exact ⟨(p, addr), mem_selected.2 ⟨hp, hs, ha⟩, networkOf_eq_none_iff.2 ⟨hm, hf⟩⟩

theorem noNetmask_local :
    NoNetmask host (ifkeywords.toList ++ name) ↔ name ≠ [] ∧ ∃ is,
      host.getifaddrs = some is ∧ (selected name is).mapM (networkOf host) = none := by
  simp only [mapM_selected_eq_none_iff]
  constructor
  · rintro ⟨name', hname, h⟩
    rwa [← List.append_cancel_left hname] at h
  · exact fun h => ⟨name, rfl, h⟩

theorem noAddress_local :
    NoAddress host (ifkeywords.toList ++ name) ↔ Target host (ifkeywords.toList ++ name) ∧
      ∀ is, host.getifaddrs = some is → selected name is = [] := by
  simp only [selected_eq_nil_iff]
  constructor
  · rintro ⟨name', hname, h⟩
    rwa [← List.append_cancel_left hname] at h
  · exact fun h => ⟨name, rfl, h⟩

/-- A rule on interfaces that is refused speaks of none, or of none with an
address. -/
theorem target_of_selected (ht : host.Textual) {is : List Interface} (hne : name ≠ [])
    (hi : host.getifaddrs = some is) (hs : selected name is ≠ []) :
    Target host (ifkeywords.toList ++ name) := by
  rcases List.exists_mem_of_ne_nil _ hs with ⟨q, hq⟩
  rcases mem_selected.1 hq with ⟨hp, hsel, -⟩
  rw [target_local ht]
  exact ⟨hne, hsel.imp_right fun h => ⟨is, hi, q.1, hp, h⟩⟩

end

theorem local_or_divides (rule : List Char) :
    (∃ name, rule = ifkeywords.toList ++ name) ∨
      ¬ ifkeywords.toList <+: rule ∧ ∃ text tail, Divides rule text tail := by
  by_cases h : ifkeywords.toList <+: rule
  · rcases h with ⟨name, hname⟩
    exact .inl ⟨name, hname.symm⟩
  · exact .inr ⟨h, exists_divides rule⟩

variable (host rule) in
theorem parseRule_crash_iff : parseRule host rule = .crash ↔ NoNetmask host rule := by
  rcases local_or_divides rule with ⟨name, rfl⟩ | ⟨hkey, text, tail, hdiv⟩
  · rw [noNetmask_local, parseRule_local]
    by_cases hne : name = []
    · simp [hne]
    · rw [if_neg hne]
      cases hi : host.getifaddrs with
      | none => simp
      | some is =>
        cases hm : (selected name is).mapM (networkOf host) with
        | none => simp [hne, hm]
        | some networks => cases networks <;> simp [hm]
  · constructor
    · exact fun h => absurd h (parseRule_address hkey hdiv).1
    · rintro ⟨name, rfl, -⟩
      exact absurd (List.prefix_append _ _) hkey

variable (rule) in
theorem parseRule_illegal_iff (ht : host.Textual) : parseRule host rule = .illegal ↔
    ¬ Misread host rule ∧ ¬ NoNetmask host rule ∧ (Target host rule → NoAddress host rule) := by
  rcases local_or_divides rule with ⟨name, rfl⟩ | ⟨hkey, text, tail, hdiv⟩
  · have hread : ¬ Misread host (ifkeywords.toList ++ name) := not_misread_local ht
    rw [noNetmask_local, noAddress_local, parseRule_local]
    by_cases hne : name = []
    · have hno : ¬ Target host (ifkeywords.toList ++ name) := fun h => ((target_local ht).1 h).1 hne
      subst hne
      rw [List.append_nil] at hread hno ⊢
      simp [hread, hno]
    · rw [if_neg hne]
      cases hi : host.getifaddrs with
      | none => simp [hread]
      | some is =>
        cases hm : (selected name is).mapM (networkOf host) with
        | none => simp [hne, hm]
        | some networks =>
          have hlen := (Lists.mapM_eq_some_iff.1 hm).length_eq
          cases networks with
          | nil => simp [hread, List.length_eq_zero_iff.1 hlen]
          | cons network networks =>
            have hs : selected name is ≠ [] := by
              intro h
              simp [h] at hlen
            simp [hm, target_of_selected ht hne hi hs, hs]
  · have hmask : ¬ NoNetmask host rule := by
      rintro ⟨name, rfl, -⟩
      exact hkey (List.prefix_append _ _)
    have haddr : ¬ NoAddress host rule := by
      rintro ⟨name, rfl, -⟩
      exact hkey (List.prefix_append _ _)
    rw [(parseRule_address hkey hdiv).2]
    constructor
    · intro hno
      refine ⟨?_, hmask, fun hr => ?_⟩
      · rw [misread_iff_of_divides hdiv]
        rintro ⟨a, hd, -⟩
        exact hno a hd
      · rcases (target_iff_of_divides ht hkey hdiv).1 hr with ⟨a, bits, hd, -⟩
        rw [← c_str_of_isAddressChar (hd.chars ht).2] at hd
        exact absurd hd (hno a)
    · rintro ⟨hread, -, hr⟩ a hd
      rw [misread_iff_of_divides hdiv] at hread
      by_cases hnul : '\x00' ∈ text
      · exact hread ⟨a, hd, .inl hnul⟩
      · by_cases hl : ∃ bits, PrefixLength a.width tail bits
        · rcases hl with ⟨bits, hl⟩
          have hd' := hd
          rw [c_str_of_not_mem hnul] at hd'
          exact haddr (hr ((target_iff_of_divides ht hkey hdiv).2 ⟨a, bits, hd', hl⟩))
        · exact hread ⟨a, hd, .inr (by simpa using hl)⟩

end

end AirSane.Web
