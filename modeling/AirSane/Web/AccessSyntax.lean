import AirSane.Web.AccessRules
import AirSane.Text.Octets
import Mathlib.Data.List.Forall2
import Mathlib.Data.List.TakeWhile

/-! # Access files made of valid rules

A line is blank, a comment, or a rule `allow|deny <IP>[/n]`. The reader of the
access file turns such lines into the entries of their rules, and the verdict on
a client follows.
-/

namespace AirSane.Web
open Bits

variable {host : Host}

def Spaces (text : List Char) : Prop := ∀ c ∈ text, isSpace c

def isAddressChar (c : Char) : Bool :=
  c.isDigit || ('a' ≤ c && c ≤ 'f') || ('A' ≤ c && c ≤ 'F') || c = ':' || c = '.'

/-- What the host takes a textual address for. -/
inductive Denotes (host : Host) (text : List Char) : Address → Prop where
  | v4 {a : Bytes 4} (h : host.inet_pton text = some a) : Denotes host text (.v4 a)
  | v6 {a : Bytes 16} (h4 : host.inet_pton text = none) (h6 : host.inet_pton6 text = some a) :
    Denotes host text (.v6 a)

/-- A prefix length, by default all bits of the address. -/
inductive PrefixLength (width : ℕ) : List Char → ℕ → Prop where
  | full : PrefixLength width [] width
  | bits {ds : List Char} (hne : ds ≠ []) (hd : ∀ c ∈ ds, c.isDigit)
      (hw : digitsValue ds ≤ width) : PrefixLength width ('/' :: ds) (digitsValue ds)

/-- The lines of a valid file, with the rules they state. -/
inductive Line (host : Host) : List Char → Option Rule → Prop where
  | blank {text : List Char} (h : Spaces text) : Line host text none
  | comment {before text : List Char} (h : Spaces before) : Line host (before ++ '#' :: text) none
  | rule {before kind gap address length after : List Char} {r : Rule} (hb : Spaces before)
      (hk : equalsIgnoringCase kind (if r.allow then "allow" else "deny")) (hg : Spaces gap)
      (hne : gap ≠ []) (hc : ∀ c ∈ address, isAddressChar c) (ha : address ≠ [])
      (hd : Denotes host address r.address) (hl : PrefixLength r.address.width length r.bits)
      (he : Spaces after) :
    Line host (before ++ (kind ++ (gap ++ (address ++ length))) ++ after) (some r)

/-- A file of valid lines, with the rules it states in their order. -/
def States (host : Host) (text : List Char) (rules : List Rule) : Prop :=
  ∃ lines, List.Forall₂ (Line host) (text.splitOn '\n') lines ∧ rules = lines.filterMap id

theorem toLower_of_isSpace {c : Char} (h : isSpace c) : c.toLower = c := by
  simp only [isSpace, List.mem_cons, List.not_mem_nil, or_false, decide_eq_true_eq] at h
  rcases h with rfl | rfl | rfl | rfl | rfl | rfl <;> rfl

theorem not_isSpace_of_isDigit {c : Char} (h : c.isDigit) : isSpace c = false := by
  rw [Bool.eq_false_iff]
  intro hs
  simp only [isSpace, List.mem_cons, List.not_mem_nil, or_false, decide_eq_true_eq] at hs
  rcases hs with rfl | rfl | rfl | rfl | rfl | rfl <;> simp at h

theorem not_isSpace_of_isAddressChar {c : Char} (h : isAddressChar c) : isSpace c = false := by
  rw [Bool.eq_false_iff]
  intro hs
  simp only [isSpace, List.mem_cons, List.not_mem_nil, or_false, decide_eq_true_eq] at hs
  rcases hs with rfl | rfl | rfl | rfl | rfl | rfl <;> simp [isAddressChar] at h

theorem dropWhile_front (rest : List Char) {l : List Char} (h : l ≠ [])
    (hf : ∀ c ∈ l.head?, isSpace c = false) : (l ++ rest).dropWhile isSpace = l ++ rest := by
  obtain ⟨c, l, rfl⟩ := List.exists_cons_of_ne_nil h
  have hc : isSpace c = false := hf c rfl
  simp [hc]

theorem trim_eq {before text after : List Char} (hb : Spaces before) (ha : Spaces after)
    (hne : text ≠ []) (hf : ∀ c ∈ text.head?, isSpace c = false)
    (hl : ∀ c ∈ text.getLast?, isSpace c = false) : trim (before ++ text ++ after) = text := by
  have hrev : text.reverse.dropWhile isSpace = text.reverse := by
    simpa using dropWhile_front [] (l := text.reverse) (by simpa using hne) (by simpa using hl)
  rw [trim, List.append_assoc, List.dropWhile_append_of_pos hb, dropWhile_front after hne hf,
    List.reverse_append, List.dropWhile_append_of_pos (by simpa [Spaces] using ha), hrev,
    List.reverse_reverse]

theorem trim_spaces {text : List Char} (h : Spaces text) : trim text = [] := by
  rw [trim, List.dropWhile_eq_nil_iff.2 h]
  rfl

theorem trim_comment {before : List Char} (text : List Char) (h : Spaces before) :
    ∃ rest, trim (before ++ '#' :: text) = '#' :: rest := by
  have hhash : ('#' :: text).dropWhile isSpace = '#' :: text := rfl
  have hlast {l : List Char} : ∃ rest, (l ++ ['#']).dropWhile isSpace = rest ++ ['#'] := by
    induction l with
    | nil => exact ⟨[], rfl⟩
    | cons c l ih =>
      by_cases hc : isSpace c
      · simpa [hc] using ih
      · exact ⟨c :: l, by simp [hc]⟩
  rw [trim, List.dropWhile_append_of_pos h, hhash, List.reverse_cons]
  obtain ⟨rest, hrest⟩ := @hlast text.reverse
  exact ⟨rest.reverse, by simp [hrest]⟩

theorem kind_chars {kind : List Char} {word : String}
    (hw : ∀ c ∈ word.toList, isSpace c = false ∧ c ≠ '#') (h : equalsIgnoringCase kind word) :
    ∀ c ∈ kind, isSpace c = false ∧ c ≠ '#' := by
  intro c hc
  simp only [equalsIgnoringCase, decide_eq_true_eq] at h
  have hmem : c.toLower ∈ word.toList := h ▸ List.mem_map_of_mem hc
  constructor
  · rw [Bool.eq_false_iff]
    intro hs
    rw [toLower_of_isSpace hs] at hmem
    simp [(hw c hmem).1] at hs
  · rintro rfl
    exact (hw _ hmem).2 rfl

theorem c_str_of_not_mem {text : List Char} (h : '\x00' ∉ text) : c_str text = text :=
  List.takeWhile_eq_self_iff.2 fun c hc => by simpa using ne_of_mem_of_not_mem hc h

theorem c_str_of_isAddressChar {text : List Char} (h : ∀ c ∈ text, isAddressChar c) :
    c_str text = text :=
  c_str_of_not_mem fun hnul => absurd (h _ hnul) (by decide)

theorem c_str_kind {kind : List Char} {word : String} (hw : '\x00' ∉ word.toList)
    (h : equalsIgnoringCase kind word) : c_str kind = kind := by
  apply c_str_of_not_mem
  intro hnul
  simp only [equalsIgnoringCase, decide_eq_true_eq] at h
  exact hw (h ▸ List.mem_map_of_mem (f := Char.toLower) hnul)

theorem kind_ne_nil {kind : List Char} {word : String} (hw : word.toList ≠ [])
    (h : equalsIgnoringCase kind word) : kind ≠ [] := by
  rintro rfl
  simp only [equalsIgnoringCase, List.map_nil, decide_eq_true_eq] at h
  exact hw h.symm

theorem splitAtLastSlash_append {front back : List Char} (h : ∀ c ∈ back, c ≠ '/') :
    splitAtLastSlash (front ++ '/' :: back) = some (front, back) := by
  have hback : ∀ c ∈ back.reverse, decide (c ≠ '/') = true := by simpa using h
  have hrev : (front ++ '/' :: back).reverse = back.reverse ++ '/' :: front.reverse := by simp
  rw [splitAtLastSlash, hrev, List.dropWhile_append_of_pos hback,
    List.takeWhile_append_of_pos hback]
  simp

theorem splitAtLastSlash_none {text : List Char} (h : ∀ c ∈ text, c ≠ '/') :
    splitAtLastSlash text = none := by
  have hnil : text.reverse.dropWhile (· ≠ '/') = [] :=
    List.dropWhile_eq_nil_iff.2 (by simpa using h)
  rw [splitAtLastSlash, hnil]

theorem atoi_digits {ds : List Char} (h : ∀ c ∈ ds, c.isDigit) : atoi ds = digitsValue ds := by
  have htake : ds.takeWhile Char.isDigit = ds := List.takeWhile_eq_self_iff.2 h
  cases ds with
  | nil => rfl
  | cons d ds =>
    have hd : d.isDigit := h d List.mem_cons_self
    have hdrop : (d :: ds).dropWhile isSpace = d :: ds := by simp [not_isSpace_of_isDigit hd]
    rw [atoi, hdrop]
    split
    · next heq =>
      obtain ⟨rfl, -⟩ := List.cons.inj heq
      simp at hd
    · next heq =>
      obtain ⟨rfl, -⟩ := List.cons.inj heq
      simp at hd
    · rw [htake]

theorem slash_not_address {c : Char} (h : isAddressChar c) : c ≠ '/' := by
  rintro rfl
  simp [isAddressChar] at h

/-- What `parse` takes for address and number of bits. -/
theorem addressAndBits_rule {width bits : ℕ} {address length : List Char}
    (hc : ∀ c ∈ address, isAddressChar c) (hl : PrefixLength width length bits) :
    ∃ b, addressAndBits (address ++ length) = (address, b) ∧
      (if b = -1 then (width : ℤ) else b) = bits := by
  have hslash : ∀ c ∈ address, c ≠ '/' := fun c h => slash_not_address (hc c h)
  cases hl with
  | full =>
    refine ⟨-1, ?_, by simp⟩
    simp [addressAndBits, splitAtLastSlash_none hslash]
  | @bits ds hne hd hw =>
    have hds : ∀ c ∈ ds, c ≠ '/' := by
      rintro c h rfl
      simpa using hd '/' h
    refine ⟨digitsValue ds, ?_, ?_⟩
    · simp only [addressAndBits, splitAtLastSlash_append hds, atoi_digits hd]
    · rw [if_neg (by omega)]

theorem parseRule_rule {address length : List Char} {r : Rule}
    (hc : ∀ c ∈ address, isAddressChar c) (ha : address ≠ []) (hd : Denotes host address r.address)
    (hl : PrefixLength r.address.width length r.bits) :
    parseRule host (address ++ length) = .entry r.entry.mNetworks := by
  have hkey : ifkeywords.toList.isPrefixOf (address ++ length) = false := by
    obtain ⟨c, rest, rfl⟩ := List.exists_cons_of_ne_nil ha
    have hl : 'l' ≠ c := by
      rintro rfl
      simpa [isAddressChar] using hc 'l' List.mem_cons_self
    have hword : ifkeywords.toList = 'l' :: "ocal on ".toList := rfl
    rw [hword, List.cons_append, List.isPrefixOf_cons_cons]
    simp [hl]
  obtain ⟨b, hsplit, hb⟩ := addressAndBits_rule hc hl
  rw [parseRule, hkey, hsplit]
  simp only [c_str_of_isAddressChar hc]
  cases hd' : r.address with
  | v4 a =>
    rw [hd'] at hd hb
    cases hd with
    | v4 h =>
      have hb' : (if b = -1 then 32 else b) = (r.bits : ℤ) := hb
      simp [h, Rule.entry, hd', Address.sockaddr, hb']
  | v6 a =>
    rw [hd'] at hd hb
    cases hd with
    | v6 h4 h6 =>
      have hb' : (if b = -1 then 128 else b) = (r.bits : ℤ) := hb
      simp [h4, h6, Rule.entry, hd', Address.sockaddr, hb']

theorem not_isSpace_of_rule_end {width bits : ℕ} {address length : List Char}
    (hc : ∀ c ∈ address, isAddressChar c) (hl : PrefixLength width length bits) :
    ∀ c ∈ (address ++ length).getLast?, isSpace c = false := by
  intro c h
  cases hl with
  | full =>
    rw [List.append_nil] at h
    exact not_isSpace_of_isAddressChar (hc c (List.mem_of_getLast? h))
  | @bits ds hne hd _ =>
    obtain ⟨d, ds', rfl⟩ := List.exists_cons_of_ne_nil hne
    rw [List.getLast?_append_cons, List.getLast?_cons_cons] at h
    exact not_isSpace_of_isDigit (hd c (List.mem_of_getLast? h))

theorem parse_rule {kind gap address length : List Char} {r : Rule}
    (hk : equalsIgnoringCase kind (if r.allow then "allow" else "deny"))
    (hkind : ∀ c ∈ kind, isSpace c = false) (hne : kind ≠ []) (hg : Spaces gap) (hgap : gap ≠ [])
    (hc : ∀ c ∈ address, isAddressChar c) (ha : address ≠ []) (hd : Denotes host address r.address)
    (hl : PrefixLength r.address.width length r.bits) :
    Entry.parse host (kind ++ (gap ++ (address ++ length))) = some (some r.entry) := by
  have htext : (kind ++ (gap ++ (address ++ length))).dropWhile isSpace =
      kind ++ (gap ++ (address ++ length)) :=
    dropWhile_front _ hne fun c h => hkind c (List.mem_of_mem_head? h)
  have hword : ∀ c ∈ kind, (!isSpace c) = true := fun c h => by simp [hkind c h]
  obtain ⟨g, gap', rfl⟩ := List.exists_cons_of_ne_nil hgap
  have hspace : isSpace g := hg g List.mem_cons_self
  have htake : (g :: gap' ++ (address ++ length)).takeWhile (!isSpace ·) = [] := by simp [hspace]
  have hdrop : (g :: gap' ++ (address ++ length)).dropWhile (!isSpace ·) =
      g :: gap' ++ (address ++ length) := by simp [hspace]
  have hrest : (g :: gap' ++ (address ++ length)).dropWhile isSpace = address ++ length := by
    rw [List.dropWhile_append_of_pos hg]
    exact dropWhile_front length ha fun c h =>
      not_isSpace_of_isAddressChar (hc c (List.mem_of_mem_head? h))
  have hkstr : c_str kind = kind := c_str_kind (by cases r.allow <;> decide) hk
  have hmk : (if equalsIgnoringCase kind "allow" then Verdict.Allow
      else if equalsIgnoringCase kind "deny" then .Deny else .NoMatch) = r.entry.mKind := by
    cases hr : r.allow with
    | true =>
      simp only [hr, if_true] at hk
      simp [hk, Rule.entry, hr]
    | false =>
      simp only [hr, Bool.false_eq_true, if_false] at hk
      have hallow : equalsIgnoringCase kind "allow" = false := by
        simp only [equalsIgnoringCase, decide_eq_true_eq] at hk
        simp only [equalsIgnoringCase, hk]
        decide
      simp [hk, hallow, Rule.entry, hr]
  have hkindof : r.entry.mKind ≠ .NoMatch := by
    cases hr : r.allow <;> simp [Rule.entry, hr]
  have hnil : address ++ length ≠ [] := by simp [ha]
  simp only [Entry.parse, htext, List.takeWhile_append_of_pos hword, htake,
    List.dropWhile_append_of_pos hword, hdrop, hrest, List.append_nil, hkstr, hmk, hkindof, hnil, or_self,
    if_false, parseRule_rule hc ha hd hl]

theorem readLine_of_trim {file : AccessFile} {line text : List Char} {e : Entry}
    (h : trim line = text) (hne : text ≠ []) (hc : ∀ c ∈ text.head?, c ≠ '#')
    (hp : Entry.parse host text = some (some e)) :
    AccessFile.readLine host file line = some { file with mEntries := file.mEntries ++ [e] } := by
  obtain ⟨c, rest, rfl⟩ := List.exists_cons_of_ne_nil hne
  have hhash : c ≠ '#' := hc c rfl
  unfold AccessFile.readLine
  rw [h]
  split
  · next heq => simp at heq
  · next heq => exact absurd (List.cons.inj heq).1 hhash
  · rw [hp]
    rfl

/-- A valid line adds the entry of its rule, if it has one, and no error. -/
theorem readLine_line {file : AccessFile} {line : List Char} {rule : Option Rule}
    (h : Line host line rule) : AccessFile.readLine host file line =
      some ⟨file.mEntries ++ (rule.map Rule.entry).toList, file.mErrors⟩ := by
  cases h with
  | blank h => simp [AccessFile.readLine, trim_spaces h]
  | @comment before text h =>
    obtain ⟨rest, hrest⟩ := trim_comment text h
    simp [AccessFile.readLine, hrest]
  | @rule before kind gap address length after r hb hk hg hgap hc ha hd hl he =>
    have hw : ∀ c ∈ (if r.allow then "allow" else "deny").toList, isSpace c = false ∧ c ≠ '#' := by
      apply Text.forall_mem_of_all
      cases r.allow <;> decide
    have hchars := kind_chars hw hk
    have hne : kind ≠ [] := kind_ne_nil (by cases r.allow <;> decide) hk
    have hhead : ∀ c ∈ (kind ++ (gap ++ (address ++ length))).head?, c ∈ kind := by
      intro c hmem
      obtain ⟨k, kind', rfl⟩ := List.exists_cons_of_ne_nil hne
      simp at hmem
      simp [hmem]
    have hlast : ∀ c ∈ (kind ++ (gap ++ (address ++ length))).getLast?, isSpace c = false := by
      intro c hmem
      have hnil : address ++ length ≠ [] := by simp [ha]
      rw [← List.append_assoc, List.getLast?_append_of_ne_nil _ hnil] at hmem
      exact not_isSpace_of_rule_end hc hl c hmem
    have htrim := trim_eq hb he (by simp [hne]) (fun c hmem => (hchars c (hhead c hmem)).1) hlast
    rw [readLine_of_trim htrim (by simp [hne]) (fun c hmem => (hchars c (hhead c hmem)).2)
      (parse_rule hk (fun c hmem => (hchars c hmem).1) hne hg hgap hc ha hd hl)]
    simp

/-- A valid file becomes the entries of its rules. -/
theorem read_states {text : List Char} {rules : List Rule} (h : States host text rules) :
    AccessFile.read host (some text) = some ⟨rules.map Rule.entry, []⟩ := by
  obtain ⟨lines, hlines, rfl⟩ := h
  rw [AccessFile.read]
  generalize text.splitOn '\n' = texts at hlines
  have hfold (file : AccessFile) : texts.foldlM (AccessFile.readLine host) file =
      some ⟨file.mEntries ++ (lines.filterMap id).map Rule.entry, file.mErrors⟩ := by
    induction hlines generalizing file with
    | nil => simp
    | @cons line rule _ rest hline _ ih =>
      rw [List.foldlM_cons, readLine_line hline]
      cases rule <;> simp [ih]
  simp [hfold]

/-- For a file of valid rules, the verdict on a client is the documented one
exactly if no rule is misread to an effect. -/
theorem isAllowed_iff {text : List Char} {rules : List Rule} (h : States host text rules)
    (client : Sockaddr) :
    (AccessFile.read host (some text)).bind (AccessFile.isAllowed · client) =
      some (intended rules client) ↔ Sound client rules := by
  rw [read_states h, Option.bind_some, isAllowed_entries, intended, Option.some.injEq,
    ← firstVerdict_eq_iff]
  cases rules with
  | nil => simp [firstVerdict]
  | cons r rest => simp

def ip (a b c d : BitVec 8) : Bytes 4 := fun i => [a, b, c, d].getD i 0

def dottedDecimal (text : List Char) : Option (Bytes 4) :=
  match text.splitOn '.' with
  | [a, b, c, d] =>
    if [a, b, c, d].all fun p => p ≠ [] ∧ p.all Char.isDigit ∧ digitsValue p < 256 then
      some (ip (digitsValue a) (digitsValue b) (digitsValue c) (digitsValue d))
    else none
  | _ => none

/-- A host that knows IPv4 only. -/
def Host.ipv4 : Host := ⟨dottedDecimal, fun _ => none, none, .other 0, .other 0⟩

def Rule.allowTen (bits : ℕ) (h : bits ≤ 32) : Rule := ⟨true, .v4 (ip 10 0 0 0), bits, h⟩

/-- A file of one line. -/
theorem states_allowTen {ds : List Char} (hne : ds ≠ []) (hd : ∀ c ∈ ds, c.isDigit)
    (hw : digitsValue ds ≤ 32) (hl : ("allow 10.0.0.0/".toList ++ ds).splitOn '\n' =
      ["allow 10.0.0.0/".toList ++ ds]) :
    States .ipv4 ("allow 10.0.0.0/".toList ++ ds) [.allowTen (digitsValue ds) hw] := by
  have hline : Line .ipv4 ([] ++ ("allow".toList ++ ([' '] ++ ("10.0.0.0".toList ++ '/' :: ds))) ++
      []) (some (.allowTen (digitsValue ds) hw)) :=
    .rule (by simp [Spaces]) (show equalsIgnoringCase "allow".toList "allow" by decide)
      (by simp [Spaces, isSpace]) (by simp) (Text.forall_mem_of_all (by decide)) (by simp) (.v4 rfl)
      (.bits hne hd hw) (by simp [Spaces])
  refine ⟨[some _], ?_, rfl⟩
  rw [hl]
  exact .cons (by simpa using hline) .nil

theorem isAllowed_iff_ten :
    (AccessFile.read .ipv4 (some "allow 10.0.0.0/8".toList)).bind
        (AccessFile.isAllowed · (.inet (ip 10 16 0 1))) =
      some (intended [.allowTen 8 (by decide)] (.inet (ip 10 16 0 1))) ↔
        Sound (.inet (ip 10 16 0 1)) [.allowTen 8 (by decide)] :=
  isAllowed_iff (states_allowTen (by decide) (Text.forall_mem_of_all (by decide)) (by decide) (by decide))
    (.inet (ip 10 16 0 1))

/-- A client outside of 10.0.0.0/12 is let in. -/
theorem isAllowed_outside :
    States .ipv4 "allow 10.0.0.0/12".toList [.allowTen 12 (by decide)] ∧
      (AccessFile.read .ipv4 (some "allow 10.0.0.0/12".toList)).bind
        (AccessFile.isAllowed · (.inet (ip 10 16 0 1))) = some true ∧
      intended [.allowTen 12 (by decide)] (.inet (ip 10 16 0 1)) = false :=
  ⟨states_allowTen (by decide) (Text.forall_mem_of_all (by decide)) (by decide) (by decide),
    by decide +kernel, by decide +kernel⟩

end AirSane.Web
