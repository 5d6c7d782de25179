import AirSane.ScanJob.Ticket
import AirSane.Web.Form

/-! # Tickets from the web page

`buildScanJobTicket` writes a form as elements, without escaping anything, and
`ScanSettingsXml` reads them one after the other: what it finds begins and ends in
the element of one entry. A setting is what the form says if its own value has no
markup in it, and no entry before it carries the setting inside.
-/

namespace AirSane.ScanJob
open Text

/-- What the code makes of one entry. -/
def element (e : Octets × Octets) : Octets :=
  ascii "<x:" ++ e.1 ++ [GT] ++ e.2 ++ ascii "</x:" ++ e.1 ++ [GT, LF]

/-- The entries that `buildScanJobTicket` writes. -/
def ticketEntries (dict : Dictionary) : Dictionary :=
  let d := (dict.eraseKey (ascii "preview")).eraseKey (ascii "Resolution")
  let d := (d.assign (ascii "XResolution") (dict.getString (ascii "Resolution"))).assign
    (ascii "YResolution") (dict.getString (ascii "Resolution"))
  let d := d.eraseKey (ascii "PaperSize")
  ((d.assign (ascii "XOffset") (ascii "0")).assign (ascii "YOffset") (ascii "0")).assign
    (ascii "ConcatIfPossible") (ascii "1")

def buildScanJobTicket (dict : Dictionary) : Octets :=
  ascii "<x:ContentRegionUnits>escl:ThreeHundredthsOfInches</x:ContentRegionUnits>\n" ++
    ((ticketEntries dict).map element).flatten

/-- The names that `ScanJob::Private::init` looks up. -/
def settingNames : List Octets :=
  ["Intent", "XResolution", "YResolution", "XOffset", "YOffset", "Width", "Height",
    "ContentRegionUnits", "ColorMode", "DocumentFormat", "DocumentFormatExt", "InputSource",
    "Duplex", "ConcatIfPossible"].map ascii

/-- The value that a ticket is meant to have for a name. -/
def intended (form : Dictionary) (name : Octets) : Octets :=
  if name = ascii "ContentRegionUnits" then ascii "escl:ThreeHundredthsOfInches"
  else if name = ascii "XResolution" ∨ name = ascii "YResolution" then
    form.getString (ascii "Resolution")
  else if name = ascii "XOffset" ∨ name = ascii "YOffset" then ascii "0"
  else if name = ascii "ConcatIfPossible" then ascii "1"
  else form.getString name

/-- The writer and the reader agree. -/
def ReadAsMeant (form : Dictionary) : Prop :=
  ∀ name ∈ settingNames, getString (buildScanJobTicket form) name = intended form name

/-- The leftmost setting of a name in a text. -/
def findSetting (name s : Octets) : Option Octets := s.tails.findSome? (settingAt name)

/-- The setting of a name that stands in the element of an entry. -/
def carried (name : Octets) (e : Octets × Octets) : Option Octets := findSetting name (element e)

/-- The value of a name has no markup, and the entries before it carry no other
value of that name. -/
def Undisturbed (form : Dictionary) (name : Octets) : Prop :=
  LT ∉ intended form name ∧ ∀ v,
    ((ticketEntries form).takeWhile (·.1 ≠ name)).findSome? (carried name) = some v →
      v = intended form name

/-- Not the continuation of an element. -/
def Opens (r : Octets) : Prop := ∀ c ∈ (r.head?), c = LT ∧ ∀ d ∈ (r.drop 1).head?, d ≠ SLASH

section
variable {name p r s t z : Octets}

theorem prefix_append_iff (hp : LF ∉ p) (hz : z.getLast? = some LF) : p <+: z ++ r ↔ p <+: z := by
  constructor
  · intro h
    rcases List.prefix_or_prefix_of_prefix h (List.prefix_append z r) with h | h
    · exact h
    · exact absurd (h.subset (List.mem_of_getLast? hz)) hp
  · exact fun h => h.trans (List.prefix_append z r)

theorem takeWhile_append_of_mem {q : UInt8 → Bool} {b : UInt8} (hb : b ∈ s) (hq : q b = false) :
    (s ++ r).takeWhile q = s.takeWhile q := by
  rw [List.takeWhile_append, if_neg]
  intro hlen
  have hall : s.takeWhile q = s := (List.takeWhile_prefix q).eq_of_length hlen
  have htrue := List.takeWhile_eq_self_iff.1 hall b hb
  rw [hq] at htrue
  cases htrue

/-- The text of an element ends before the next one. -/
theorem takeWhile_value (hr : Opens r) : (s ++ r).takeWhile (· ≠ LT) = s.takeWhile (· ≠ LT) := by
  by_cases hs : LT ∈ s
  · exact takeWhile_append_of_mem hs (by decide)
  · have hall : ∀ b ∈ s, decide (b ≠ LT) = true := by
      intro b hb
      exact decide_eq_true fun h => hs (h ▸ hb)
    rw [List.takeWhile_append_of_pos hall, List.takeWhile_eq_self_iff.2 hall]
    cases r with
    | nil => exact List.append_nil s
    | cons c r =>
      rw [(hr c rfl).1, List.takeWhile_cons_of_neg (by decide), List.append_nil]

theorem drop_cases (hs : s.getLast? = some LF) (k : ℕ) :
    s.drop k = [] ∨ (s.drop k).getLast? = some LF := by
  by_cases hk : s.length ≤ k
  · exact .inl (List.drop_eq_nil_of_le hk)
  · rw [List.getLast?_drop, if_neg hk]
    exact .inr hs

/-- A closing tag is in the element or nowhere. -/
theorem closing_append_iff (hp : LF ∉ p) (hz : z = [] ∨ z.getLast? = some LF) (hr : Opens r) :
    LT :: SLASH :: p <+: z ++ r ↔ LT :: SLASH :: p <+: z := by
  have hne : LF ≠ LT ∧ LF ≠ SLASH := by decide
  rcases hz with rfl | hz
  · constructor
    · rintro ⟨u, hu⟩
      rw [List.nil_append] at hu
      have hslash := (hr LT (by rw [← hu]; rfl)).2 SLASH (by rw [← hu]; rfl)
      exact absurd rfl hslash
    · intro h
      cases List.prefix_nil.1 h
  · exact prefix_append_iff (by simp [hne.1, hne.2, hp]) hz

/-- What begins in an element is decided in it. -/
theorem settingAt_append (hn : LF ∉ name) (ht : t.getLast? = some LF) (hr : Opens r) :
    settingAt name (t ++ r) = settingAt name t := by
  cases t with
  | nil => cases ht
  | cons b rest =>
    by_cases hnil : rest = []
    · have hb : b = LF := by simpa [hnil] using ht
      have hne : LF ≠ LT := by decide
      simp [settingAt, hb, hne]
    · have hrest : rest.getLast? = some LF := by rwa [List.getLast?_cons_of_ne_nil hnil] at ht
      have hletters : (rest ++ r).takeWhile isLetter = rest.takeWhile isLetter :=
        takeWhile_append_of_mem (List.mem_of_getLast? hrest) (by decide)
      have htag : LF ∉ rest.takeWhile isLetter ++ 58 :: name ++ [GT] := by
        have hcolon : LF ≠ 58 ∧ LF ≠ GT := by decide
        have hl : LF ∉ rest.takeWhile isLetter := fun h => by
          have := List.mem_takeWhile_imp h
          exact absurd this (by decide)
        simp [hl, hcolon.1, hcolon.2, hn]
      rw [List.cons_append, settingAt, settingAt]
      simp only [hletters, prefix_append_iff htag hrest]
      generalize rest.takeWhile isLetter ++ 58 :: name = tag at htag ⊢
      by_cases hopen : tag ++ [GT] <+: rest
      · have hlen : tag.length + 1 ≤ rest.length := by simpa using hopen.length_le
        have hbody : (rest ++ r).drop (tag.length + 1) = rest.drop (tag.length + 1) ++ r :=
          List.drop_append_of_le_length hlen
        simp only [hbody, takeWhile_value hr]
        generalize hb : rest.drop (tag.length + 1) = body
        have hv : (body.takeWhile (· ≠ LT)).length ≤ body.length :=
          (List.takeWhile_prefix _).length_le
        have hz : body.drop (body.takeWhile (· ≠ LT)).length = [] ∨
            (body.drop (body.takeWhile (· ≠ LT)).length).getLast? = some LF := by
          rw [← hb, List.drop_drop]
          exact drop_cases hrest _
        have hclose : [LT, SLASH] ++ tag ++ [GT] = LT :: SLASH :: (tag ++ [GT]) := by simp
        simp only [List.drop_append_of_le_length hv, hclose, closing_append_iff htag hz hr]
      · rw [if_neg fun h => hopen h.2.2.1, if_neg fun h => hopen h.2.2.1]

theorem findSetting_cons {b : UInt8} :
    findSetting name (b :: s) = (settingAt name (b :: s)).or (findSetting name s) := by
  rw [findSetting, List.tails_cons, List.findSome?_cons, findSetting]
  cases settingAt name (b :: s) <;> rfl

theorem findSetting_nil : findSetting name [] = none := rfl

/-- Elements are searched one after the other. -/
theorem findSetting_append (hn : LF ∉ name) (hs : s = [] ∨ s.getLast? = some LF) (hr : Opens r) :
    findSetting name (s ++ r) = (findSetting name s).or (findSetting name r) := by
  induction s with
  | nil => rw [List.nil_append, findSetting_nil, Option.none_or]
  | cons b s ih =>
    have hlast : (b :: s).getLast? = some LF := hs.elim (fun h => by cases h) id
    have htail : s = [] ∨ s.getLast? = some LF := by
      by_cases hnil : s = []
      · exact .inl hnil
      · rw [List.getLast?_cons_of_ne_nil hnil] at hlast
        exact .inr hlast
    have hhead := settingAt_append hn hlast hr
    rw [List.cons_append] at hhead ⊢
    rw [findSetting_cons, findSetting_cons, hhead, ih htail, Option.or_assoc]

theorem getLast?_element {e : Octets × Octets} : (element e).getLast? = some LF := by
  have hlast : element e =
      (ascii "<x:" ++ e.1 ++ [GT] ++ e.2 ++ ascii "</x:" ++ e.1 ++ [GT]) ++ [LF] := by simp [element]
  rw [hlast, List.getLast?_concat]

theorem opens_elements {l : List (Octets × Octets)} : Opens (l.map element).flatten := by
  cases l with
  | nil =>
    intro c hc
    cases hc
  | cons e l =>
    intro c hc
    have htext : ((e :: l).map element).flatten =
        LT :: 120 :: (58 :: e.1 ++ [GT] ++ e.2 ++ ascii "</x:" ++ e.1 ++ [GT, LF] ++
          (l.map element).flatten) := by
      have htag : ascii "<x:" = [LT, 120, 58] := by decide
      simp [element, htag]
    rw [htext] at hc ⊢
    refine ⟨(Option.some.inj hc).symm, fun d hd => ?_⟩
    rw [← Option.some.inj hd]
    decide

theorem findSetting_elements (hn : LF ∉ name) (l : List (Octets × Octets)) :
    findSetting name (l.map element).flatten = l.findSome? (carried name) := by
  induction l with
  | nil => rfl
  | cons e l ih =>
    rw [List.map_cons, List.flatten_cons,
      findSetting_append hn (.inr getLast?_element) opens_elements, ih, List.findSome?_cons]
    cases hc : carried name e with
    | none =>
      rw [carried] at hc
      rw [hc, Option.none_or]
    | some v =>
      rw [carried] at hc
      rw [hc, Option.some_or]

/-- What is read has no markup. -/
theorem not_mem_of_settingAt {v : Octets} (h : settingAt name s = some v) : LT ∉ v := by
  cases s with
  | nil => cases h
  | cons b rest =>
    rw [settingAt] at h
    split_ifs at h
    rw [← Option.some.inj h]
    intro hm
    exact absurd (List.mem_takeWhile_imp hm) (by decide)

theorem not_mem_of_findSetting {v : Octets} (h : findSetting name s = some v) : LT ∉ v := by
  rcases List.exists_of_findSome?_eq_some h with ⟨t, -, ht⟩
  exact not_mem_of_settingAt ht

/-- An entry without markup in its value carries it. -/
theorem carried_self {v : Octets} (hv : LT ∉ v) : carried name (name, v) = some v := by
  have htag : ascii "<x:" = [LT, 120, 58] := by decide
  have hclosing : ascii "</x:" = [LT, SLASH, 120, 58] := by decide
  generalize hend : LT :: SLASH :: 120 :: 58 :: (name ++ [GT, LF]) = last
  have htext : element (name, v) = LT :: ((120 :: 58 :: name ++ [GT]) ++ (v ++ last)) := by
    rw [← hend]
    simp [element, htag, hclosing]
  have hletters : ((120 :: 58 :: name ++ [GT]) ++ (v ++ last)).takeWhile isLetter = [120] := by
    simp [isLetter]
  have hbody : ((120 :: 58 :: name ++ [GT]) ++ (v ++ last)).drop (([120] ++ 58 :: name).length + 1) =
      v ++ last := by
    rw [List.drop_left']
    simp
  have hvalue : (v ++ last).takeWhile (· ≠ LT) = v := by
    have hall : ∀ b ∈ v, decide (b ≠ LT) = true := by
      intro b hb
      exact decide_eq_true fun h => hv (h ▸ hb)
    rw [List.takeWhile_append_of_pos hall, ← hend, List.takeWhile_cons_of_neg (by decide),
      List.append_nil]
  have hmatch : settingAt name (element (name, v)) = some v := by
    rw [htext, settingAt]
    simp only [hletters, hbody, hvalue, List.drop_left]
    rw [if_pos]
    refine ⟨trivial, List.cons_ne_nil _ _, ?_, ?_⟩
    · exact List.prefix_append _ _
    · rw [← hend]
      exact ⟨[LF], by simp⟩
  rw [htext] at hmatch
  rw [carried, htext, findSetting_cons, hmatch, Option.some_or]

theorem findSetting_of_not_mem (hs : LT ∉ s) : findSetting name (s ++ r) = findSetting name r := by
  induction s with
  | nil => rfl
  | cons b s ih =>
    rw [List.mem_cons, not_or] at hs
    have hhead : settingAt name (b :: (s ++ r)) = none := by
      rw [settingAt, if_neg fun h => hs.1 h.1.symm]
    rw [List.cons_append, findSetting_cons, hhead, Option.none_or, ih hs.2]

/-- An entry without markup carries no other setting, unless its key goes on after
the end of a tag. -/
theorem carried_eq_none {e : Octets × Octets} (hn : GT ∉ name) (hk : LT ∉ e.1) (hv : LT ∉ e.2)
    (hne : e.1 ≠ name) (hpre : ¬ name ++ [GT] <+: e.1) : carried name e = none := by
  have htag : ascii "<x:" = [LT, 120, 58] := by decide
  have hclosing : ascii "</x:" = [LT, SLASH, 120, 58] := by decide
  have htext : element e = LT :: ((120 :: 58 :: (e.1 ++ GT :: e.2)) ++
      LT :: ((SLASH :: 120 :: 58 :: (e.1 ++ [GT, LF])) ++ [])) := by
    simp [element, htag, hclosing]
  have hopen : settingAt name (element e) = none := by
    rw [htext, settingAt, if_neg]
    rintro ⟨-, -, hprefix, -⟩
    have hletters : ((120 :: 58 :: (e.1 ++ GT :: e.2)) ++
        LT :: ((SLASH :: 120 :: 58 :: (e.1 ++ [GT, LF])) ++ [])).takeWhile isLetter = [120] := by
      simp [isLetter]
    rw [hletters] at hprefix
    have hname : name ++ [GT] <+: e.1 ++ GT :: (e.2 ++
        LT :: ((SLASH :: 120 :: 58 :: (e.1 ++ [GT, LF])) ++ [])) := by simpa using hprefix
    rcases List.prefix_or_prefix_of_prefix hname (List.prefix_append e.1 _) with h | ⟨u, hu⟩
    · exact hpre h
    · cases u using List.reverseRecOn with
      | nil => exact hpre (by rw [← hu, List.append_nil])
      | append_singleton u b _ =>
        rw [← List.append_assoc] at hu
        have hkey := (List.append_inj' hu rfl).1
        rw [← hu, List.append_assoc, List.prefix_append_right_inj] at hname
        cases u with
        | nil => exact hne (by rw [← hkey, List.append_nil])
        | cons c u =>
          have hc := (List.cons_prefix_cons.1 hname).1
          exact hn (by rw [← hkey, hc]; simp)
  have hfirst : LT ∉ 120 :: 58 :: (e.1 ++ GT :: e.2) := by
    have hx : LT ≠ 120 ∧ LT ≠ 58 ∧ LT ≠ GT := by decide
    simp [hx, hk, hv]
  have hlast : LT ∉ SLASH :: 120 :: 58 :: (e.1 ++ [GT, LF]) := by
    have hx : LT ≠ SLASH ∧ LT ≠ 120 ∧ LT ≠ 58 ∧ LT ≠ GT ∧ LT ≠ LF := by decide
    simp [hx, hk]
  have hclose : settingAt name (LT :: ((SLASH :: 120 :: 58 :: (e.1 ++ [GT, LF])) ++ [])) = none := by
    rw [settingAt, if_neg]
    rintro ⟨-, hletters, -⟩
    exact hletters (by simp [isLetter, SLASH])
  rw [htext] at hopen
  rw [carried, htext, findSetting_cons, hopen, Option.none_or, findSetting_of_not_mem hfirst,
    findSetting_cons, hclose, Option.none_or, findSetting_of_not_mem hlast, findSetting_nil]

theorem not_mem_findSome {l : Dictionary} : LT ∉ (l.findSome? (carried name)).getD [] := by
  cases hf : l.findSome? (carried name) with
  | none => exact List.not_mem_nil
  | some v =>
    rcases List.exists_of_findSome?_eq_some hf with ⟨e, -, he⟩
    exact not_mem_of_findSetting he

/-- What a dictionary reads for a name, entry by entry. -/
theorem findSome_carried_iff {l : Dictionary} : (l.findSome? (carried name)).getD [] = l.getString name ↔
    LT ∉ l.getString name ∧ ∀ v, (l.takeWhile (·.1 ≠ name)).findSome? (carried name) = some v →
      v = l.getString name := by
  induction l with
  | nil => simp [Dictionary.getString]
  | cons e l ih =>
    by_cases he : e.1 = name
    · have hget : Dictionary.getString (e :: l) name = e.2 := by simp [Dictionary.getString, he]
      have htake : (e :: l).takeWhile (·.1 ≠ name) = [] := List.takeWhile_cons_of_neg (by simp [he])
      rw [hget, htake]
      constructor
      · intro h
        refine ⟨?_, fun v hv => by cases hv⟩
        rw [← h]
        exact not_mem_findSome
      · rintro ⟨hv, -⟩
        have hself : carried name e = some e.2 := by
          rw [← he]
          exact carried_self hv
        rw [List.findSome?_cons, hself]
        rfl
    · have hget : Dictionary.getString (e :: l) name = Dictionary.getString l name := by
        simp [Dictionary.getString, he]
      have htake : (e :: l).takeWhile (·.1 ≠ name) = e :: l.takeWhile (·.1 ≠ name) :=
        List.takeWhile_cons_of_pos (by simp [he])
      rw [hget, htake, List.findSome?_cons, List.findSome?_cons]
      cases hc : carried name e with
      | none => exact ih
      | some w =>
        constructor
        · intro h
          have hw : w = Dictionary.getString l name := h
          refine ⟨hw ▸ not_mem_of_findSetting hc, fun v hv => ?_⟩
          rw [← hw]
          exact (Option.some.inj hv).symm
        · exact fun h => h.2 w rfl

end

section
variable {form : Dictionary} {name : Octets}

/-- The dictionary that is written has the values that are meant. -/
theorem getString_ticketEntries (hn : name ∈ settingNames)
    (hu : name ≠ ascii "ContentRegionUnits") :
    (ticketEntries form).getString name = intended form name := by
  have hne : ∀ n ∈ settingNames, n ≠ ascii "preview" ∧ n ≠ ascii "Resolution" ∧
      n ≠ ascii "PaperSize" := forall_mem_of_all (by decide +kernel)
  rcases hne name hn with ⟨hpreview, hresolution, hpaper⟩
  rw [ticketEntries, intended, if_neg hu]
  by_cases hconcat : name = ascii "ConcatIfPossible"
  · rw [hconcat, Dictionary.getString_assign_self, if_neg (by decide), if_neg (by decide), if_pos rfl]
  rw [Dictionary.getString_assign_ne hconcat]
  by_cases hyoffset : name = ascii "YOffset"
  · rw [hyoffset, Dictionary.getString_assign_self, if_neg (by decide), if_pos (.inr rfl)]
  rw [Dictionary.getString_assign_ne hyoffset]
  by_cases hxoffset : name = ascii "XOffset"
  · rw [hxoffset, Dictionary.getString_assign_self, if_neg (by decide), if_pos (.inl rfl)]
  rw [Dictionary.getString_assign_ne hxoffset, Dictionary.getString_eraseKey_ne hpaper]
  by_cases hyres : name = ascii "YResolution"
  · rw [hyres, Dictionary.getString_assign_self, if_pos (.inr rfl)]
  rw [Dictionary.getString_assign_ne hyres]
  by_cases hxres : name = ascii "XResolution"
  · rw [hxres, Dictionary.getString_assign_self, if_pos (.inl rfl)]
  rw [Dictionary.getString_assign_ne hxres, Dictionary.getString_eraseKey_ne hresolution,
    Dictionary.getString_eraseKey_ne hpreview, if_neg (not_or.2 ⟨hxres, hyres⟩),
    if_neg (not_or.2 ⟨hxoffset, hyoffset⟩), if_neg hconcat]

theorem buildScanJobTicket_eq : buildScanJobTicket form =
    (((ascii "ContentRegionUnits", ascii "escl:ThreeHundredthsOfInches") ::
      ticketEntries form).map element).flatten := by
  rw [buildScanJobTicket, List.map_cons, List.flatten_cons]
  exact congrArg (· ++ _) (by decide +kernel)

theorem getString_ticket (hn : name ∈ settingNames) :
    getString (buildScanJobTicket form) name =
      ((carried name (ascii "ContentRegionUnits", ascii "escl:ThreeHundredthsOfInches")).or
        ((ticketEntries form).findSome? (carried name))).getD [] := by
  have hlf : ∀ n ∈ settingNames, LF ∉ n := forall_mem_of_all (by decide +kernel)
  have hfind : getString (buildScanJobTicket form) name =
      (findSetting name (buildScanJobTicket form)).getD [] := rfl
  rw [hfind, buildScanJobTicket_eq, findSetting_elements (hlf name hn), List.findSome?_cons]
  cases carried name (ascii "ContentRegionUnits", ascii "escl:ThreeHundredthsOfInches") <;> rfl

/-- Forms without markup disturb nothing. -/
theorem undisturbed_of_plain (hn : GT ∉ name) (hv : LT ∉ intended form name)
    (hplain : ∀ e ∈ ticketEntries form, LT ∉ e.1 ∧ LT ∉ e.2 ∧ ¬ name ++ [GT] <+: e.1) :
    Undisturbed form name := by
  refine ⟨hv, fun v h => ?_⟩
  rcases List.exists_of_findSome?_eq_some h with ⟨e, he, hcarried⟩
  have hplain' := hplain e ((List.takeWhile_prefix _).subset he)
  have hne : e.1 ≠ name := by simpa using List.mem_takeWhile_imp he
  rw [carried_eq_none hn hplain'.1 hplain'.2.1 hne hplain'.2.2] at hcarried
  cases hcarried

/-- A form is read as it is meant exactly if no entry of it disturbs a setting. -/
theorem readAsMeant_iff (form : Dictionary) : ReadAsMeant form ↔
    ∀ name ∈ settingNames, name ≠ ascii "ContentRegionUnits" → Undisturbed form name := by
  have hother : ∀ n ∈ settingNames, n ≠ ascii "ContentRegionUnits" →
      carried n (ascii "ContentRegionUnits", ascii "escl:ThreeHundredthsOfInches") = none :=
    forall_mem_of_all (by decide +kernel)
  apply forall₂_congr
  intro name hn
  rw [getString_ticket hn]
  by_cases hu : name = ascii "ContentRegionUnits"
  · have hself : carried name (ascii "ContentRegionUnits", ascii "escl:ThreeHundredthsOfInches") =
        some (ascii "escl:ThreeHundredthsOfInches") := by
      rw [hu]
      exact carried_self (by decide)
    rw [hself, intended, if_pos hu]
    exact ⟨fun _ h => absurd hu h, fun _ => rfl⟩
  · rw [hother name hn hu, Option.none_or, ← getString_ticketEntries hn hu, findSome_carried_iff,
      Undisturbed, getString_ticketEntries hn hu]
    exact ⟨fun h _ => h, fun h => h hu⟩

end

/-- A field whose value has the element of another setting in it. -/
theorem not_readAsMeant_injected : ¬ ReadAsMeant
    (Web.parseForm (ascii "note=%3Cx:Intent%3EDocument%3C/x:Intent%3E")) := by
  intro h
  have hintent := h (ascii "Intent") (by decide)
  revert hintent
  decide +kernel

end AirSane.ScanJob
