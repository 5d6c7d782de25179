import AirSane.Web.RuleText

/-! # Which lines of an access file are accepted

By the documented syntax a line states a rule or it does not. The reader of the
access file makes an entry of the one and reports the other, but for the lines
that are described here: what follows an address is not checked to be a prefix
length, a string ends for the host at its first null character, and interfaces
are only there for the reader if they have addresses.
-/

namespace AirSane.Web
open Bits

variable {host : Host}

section
variable {line : List Char} {file file' : AccessFile}

variable (host file) in
theorem readLine_eq (hne : trim line ≠ []) (hc : (trim line).head? ≠ some '#') :
    AccessFile.readLine host file line = (Entry.parse host (trim line)).map fun entry =>
      match entry with
      | none => { file with mErrors := file.mErrors ++ illegalEntry (trim line) }
      | some entry => { file with mEntries := file.mEntries ++ [entry] } := by
  unfold AccessFile.readLine
  split
  · next h => exact absurd h hne
  · next h => exact absurd (by rw [h]; rfl) hc
  · rcases Entry.parse host (trim line) with _ | _ | entry <;> rfl

theorem illegalEntry_ne_nil : illegalEntry line ≠ [] :=
  List.append_ne_nil_of_right_ne_nil _ (List.cons_ne_nil _ _)

theorem readLine_mErrors (h : AccessFile.readLine host file line = some file') :
    file.mErrors <+: file'.mErrors := by
  unfold AccessFile.readLine at h
  split at h
  · exact Option.some.inj h ▸ List.prefix_rfl
  · exact Option.some.inj h ▸ List.prefix_rfl
  · rcases hp : Entry.parse host (trim line) with _ | _ | entry
    · simp [hp] at h
    · rw [hp] at h
      rw [← Option.some.inj h]
      exact List.prefix_append _ _
    · rw [hp] at h
      exact Option.some.inj h ▸ List.prefix_rfl

theorem readLines_mErrors {lines : List (List Char)}
    (h : lines.foldlM (AccessFile.readLine host) file = some file') :
    file.mErrors <+: file'.mErrors := by
  induction lines generalizing file with
  | nil => exact Option.some.inj h ▸ List.prefix_rfl
  | cons line lines ih =>
    rw [List.foldlM_cons] at h
    rcases Option.bind_eq_some_iff.1 h with ⟨next, hnext, hrest⟩
    exact (readLine_mErrors hnext).trans (ih hrest)

/-- A file with a line that is reported is refused. -/
theorem refused_of_mem {text : List Char} (hl : line ∈ text.splitOn '\n')
    (hr : ∀ file, AccessFile.readLine host file line =
      some { file with mErrors := file.mErrors ++ illegalEntry (trim line) })
    (h : AccessFile.read host (some text) = some file') : file'.refused := by
  rcases List.append_of_mem hl with ⟨before, after, heq⟩
  simp only [AccessFile.read] at h
  rw [heq, List.foldlM_append] at h
  rcases Option.bind_eq_some_iff.1 h with ⟨next, -, hrest⟩
  rw [List.foldlM_cons, hr, Option.bind_eq_bind, Option.bind_some] at hrest
  have hpre := readLines_mErrors hrest
  intro hnil
  rw [hnil, List.prefix_nil] at hpre
  exact illegalEntry_ne_nil (List.append_eq_nil_iff.1 hpre).2

theorem enforced_iff_of_entry {e : Entry} (h : ∀ file, AccessFile.readLine host file line =
      some { file with mEntries := file.mEntries ++ [e] }) :
    Enforced host line ↔ (∃ v, RuleText host v (trim line)) ∧
      ∀ v, RuleText host v (trim line) → v = e.mKind := by
  constructor
  · intro hen
    refine ⟨?_, fun v hv => ?_⟩
    · by_contra hno
      have hrep := (hen.other (by simpa using hno)).1 ⟨[], []⟩
      simp [h] at hrep
    · rcases hen.rule v hv ⟨[], []⟩ with ⟨networks, hnet⟩
      simp only [h, Option.some.injEq, AccessFile.mk.injEq, List.nil_append, List.cons.injEq,
        and_true] at hnet
      rw [hnet]
  · rintro ⟨⟨v, hv⟩, hall⟩
    refine ⟨fun w hw file => ⟨e.mNetworks, ?_⟩, fun hno => absurd hv (hno v)⟩
    rw [h, hall w hw]

theorem enforced_iff_of_reported (h : ∀ file, AccessFile.readLine host file line =
      some { file with mErrors := file.mErrors ++ illegalEntry (trim line) }) :
    Enforced host line ↔ ∀ v, ¬ RuleText host v (trim line) := by
  constructor
  · intro hen v hv
    rcases hen.rule v hv ⟨[], []⟩ with ⟨networks, hnet⟩
    simp [h] at hnet
  · intro hno
    exact ⟨fun v hv => absurd hv (hno v), fun _ => ⟨h, fun _ _ hl hr => refused_of_mem hl h hr⟩⟩

theorem not_enforced_of_crash (h : ∀ file, AccessFile.readLine host file line = none) :
    ¬ Enforced host line := by
  intro hen
  by_cases hr : ∃ v, RuleText host v (trim line)
  · rcases hr with ⟨v, hv⟩
    rcases hen.rule v hv ⟨[], []⟩ with ⟨networks, hnet⟩
    simp [h] at hnet
  · have hrep := (hen.other (by simpa using hr)).1 ⟨[], []⟩
    simp [h] at hrep

theorem misjudged_iff {kind gap rule : List Char} (h : Parts line kind gap rule) :
    Misjudged host line ↔ Keyword (c_str kind) ∧
      (Misread host rule ∨ NoNetmask host rule ∨ (Keyword kind ∧ NoAddress host rule) ∨
        ('\x00' ∈ kind ∧ Target host rule ∧ ¬ NoAddress host rule)) := by
  constructor
  · rintro ⟨kind', gap', rule', hp, hm⟩
    rcases h.unique hp with ⟨rfl, rfl⟩
    exact hm
  · exact fun hm => ⟨kind, gap, rule, h, hm⟩

theorem enforced_iff_of_parts {kind gap rule : List Char} (ht : host.Textual)
    (hc : (trim line).head? ≠ some '#') (h : Parts (trim line) kind gap rule) :
    Enforced host line ↔ ¬ Misjudged host (trim line) := by
  have hne : trim line ≠ [] := by simp [h.eq, h.kind_ne]
  have hread (file) := readLine_eq host file hne hc
  rw [misjudged_iff h]
  by_cases hk : Keyword (c_str kind)
  · have hkey := keyword_iff hk
    have hmis : Misread host rule → ¬ Target host rule := not_target_of_misread ht
    have haddr : NoAddress host rule → Target host rule := fun ⟨_, _, hr, _⟩ => hr
    have hcrash := parseRule_crash_iff host rule
    have hill := parseRule_illegal_iff rule ht
    simp only [parse_parts h, kindOf_ne_iff.2 hk, if_false] at hread
    cases hp : parseRule host rule with
    | entry networks =>
      simp only [hp] at hread
      have hrules : ((∃ v, RuleText host v (trim line)) ∧
          ∀ v, RuleText host v (trim line) → v = kindOf (c_str kind)) ↔
            Keyword kind ∧ Target host rule := by
        simp only [ruleText_iff h]
        constructor
        · rintro ⟨⟨v, hkind, -, hr⟩, -⟩
          exact ⟨hkind, hr⟩
        · rintro ⟨hkind, hr⟩
          rw [c_str_of_keyword hkind]
          exact ⟨⟨_, hkind, rfl, hr⟩, fun v hv => hv.2.1⟩
      rw [enforced_iff_of_entry hread, hrules]
      simp only [hp, reduceCtorEq, false_iff] at hcrash hill
      constructor
      · rintro ⟨hkind, hr⟩ ⟨-, hm | hn | ⟨-, ha⟩ | ⟨hnul, -, -⟩⟩
        · exact hmis hm hr
        · exact hcrash hn
        · exact hill ⟨fun hm => hmis hm hr, hcrash, fun _ => ha⟩
        · exact hkey.1 hkind hnul
      · intro hno
        have hm : ¬ Misread host rule := fun hm => hno ⟨hk, .inl hm⟩
        rcases Classical.not_imp.1 fun h => hill ⟨hm, hcrash, h⟩ with ⟨hr, ha⟩
        exact ⟨hkey.2 fun hnul => hno ⟨hk, .inr (.inr (.inr ⟨hnul, hr, ha⟩))⟩, hr⟩
    | illegal =>
      simp only [hp] at hread
      rw [enforced_iff_of_reported hread]
      simp only [hp, true_iff] at hill
      have hrules : (∀ v, ¬ RuleText host v (trim line)) ↔ ¬ (Keyword kind ∧ Target host rule) := by
        simp only [ruleText_iff h]
        constructor
        · exact fun hno hr => hno _ ⟨hr.1, rfl, hr.2⟩
        · exact fun hno v hr => hno ⟨hr.1, hr.2.2⟩
      rw [hrules]
      rcases hill with ⟨hm, hn, ha⟩
      constructor
      · rintro hno ⟨-, h | h | ⟨hkind, h⟩ | ⟨-, hr, h⟩⟩
        · exact hm h
        · exact hn h
        · exact hno ⟨hkind, haddr h⟩
        · exact h (ha hr)
      · rintro hno ⟨hkind, hr⟩
        exact hno ⟨hk, .inr (.inr (.inl ⟨hkind, ha hr⟩))⟩
    | crash =>
      simp only [hp] at hread
      simp only [hp, true_iff] at hcrash
      exact ⟨fun hen => absurd hen (not_enforced_of_crash hread), 
        fun hno => absurd ⟨hk, .inr (.inl hcrash)⟩ hno⟩
  · have hno : kindOf (c_str kind) = .NoMatch := not_ne_iff.1 (mt kindOf_ne_iff.1 hk)
    simp only [parse_parts h, hno, if_true] at hread
    rw [enforced_iff_of_reported hread]
    constructor
    · exact fun _ hm => hk hm.1
    · intro _ v hv
      have hkind := ((ruleText_iff h).1 hv).1
      exact hk (by rwa [c_str_of_keyword hkind])

/-- A line that is neither blank nor a comment is judged by the documented
syntax exactly if it is not one of the described lines. -/
theorem enforced_iff (ht : host.Textual) (hne : trim line ≠ [])
    (hc : (trim line).head? ≠ some '#') : Enforced host line ↔ ¬ Misjudged host (trim line) := by
  rcases parts_trim hne with ⟨kind, gap, rule, h⟩ | hword
  · exact enforced_iff_of_parts ht hc h
  · have hparts : ∀ kind gap rule, ¬ Parts (trim line) kind gap rule :=
      fun kind gap rule h => h.rule_ne (h.rest_line.symm.trans hword)
    have hread (file) := readLine_eq host file hne hc
    simp only [parse_word hne hword] at hread
    rw [enforced_iff_of_reported hread]
    constructor
    · rintro _ ⟨kind, gap, rule, h, -⟩
      exact hparts kind gap rule h
    · intro _ v hv
      cases hv with
      | allow h _ _ => exact hparts _ _ _ h
      | deny h _ _ => exact hparts _ _ _ h

end

theorem dottedDecimal_chars {text : List Char} {a : Bytes 4} (h : dottedDecimal text = some a) :
    text ≠ [] ∧ ∀ c ∈ text, isAddressChar c := by
  have htext : ['.'].intercalate (text.splitOn '.') = text := List.intercalate_splitOn '.'
  have hdot : isAddressChar '.' := by decide
  have hdigit (c : Char) (hc : c.isDigit) : isAddressChar c := by simp [isAddressChar, hc]
  rw [dottedDecimal] at h
  split at h
  · next b c d e hsplit =>
    split_ifs at h with hall
    simp only [List.all_cons, List.all_nil, Bool.and_true, Bool.and_eq_true, decide_eq_true_eq,
      List.all_eq_true] at hall
    rw [← htext, hsplit]
    constructor
    · simp [List.intercalate, hall.1.1]
    · intro x hx
      simp only [List.intercalate, List.intersperse,
        List.flatten_cons, List.flatten_nil, List.append_nil, List.mem_append,
        List.mem_singleton] at hx
      rcases hx with hx | rfl | hx | rfl | hx | rfl | hx
      · exact hdigit x (hall.1.2.1 x hx)
      · exact hdot
      · exact hdigit x (hall.2.1.2.1 x hx)
      · exact hdot
      · exact hdigit x (hall.2.2.1.2.1 x hx)
      · exact hdot
      · exact hdigit x (hall.2.2.2.2.1 x hx)
  · cases h

theorem ipv4_textual : Host.ipv4.Textual where
  v4 _ _ h := dottedDecimal_chars h
  v6 _ _ h := by cases h

theorem enforced_iff_ten : Enforced .ipv4 "allow 10.0.0.0/8".toList ↔
    ¬ Misjudged .ipv4 (trim "allow 10.0.0.0/8".toList) :=
  enforced_iff ipv4_textual (by decide) (by decide)

theorem misread_letter : Misread .ipv4 "10.0.0.0/x".toList := by
  have hdiv : Divides ("10.0.0.0".toList ++ '/' :: ['x']) "10.0.0.0".toList ('/' :: ['x']) :=
    .slash (by decide)
  refine ⟨_, _, .v4 (ip 10 0 0 0), hdiv, .v4 rfl, .inr ?_⟩
  rintro bits (_ | ⟨_, hd, _⟩)
  exact absurd (hd 'x' List.mem_cons_self) (by decide)

/-- A suffix that is no number is taken for a prefix length of no bits, and
anyone is let in. -/
theorem not_enforced_letter : Host.ipv4.Textual ∧ ¬ Enforced .ipv4 "allow 10.0.0.0/x".toList ∧
    (AccessFile.read .ipv4 (some "allow 10.0.0.0/x".toList)).bind
      (AccessFile.isAllowed · (.inet (ip 192 0 2 1))) = some true := by
  have htrim : trim "allow 10.0.0.0/x".toList = "allow 10.0.0.0/x".toList := by decide
  have hparts : Parts "allow 10.0.0.0/x".toList "allow".toList [' '] "10.0.0.0/x".toList :=
    ⟨by decide, Text.forall_mem_of_all (by decide), by decide,
      Text.forall_mem_of_all (by decide), by decide, by simp [isSpace], by decide⟩
  refine ⟨ipv4_textual, ?_, by decide +kernel⟩
  rw [enforced_iff_of_parts ipv4_textual (by decide) (htrim.symm ▸ hparts), htrim, not_not]
  exact ⟨_, _, _, hparts, .inl (by decide), .inl misread_letter⟩

end AirSane.Web
