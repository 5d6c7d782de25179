import AirSane.Server.OptionsFile

/-! # Options that are written and read

What is written with one entry in a line, between blank lines and comments, is
read back with its sections, and a scanner gets the last of each of the options that
the server knows and all of the other ones.
-/

namespace AirSane
open Text Web

namespace OptionsFile

/-- White space inside a line. -/
def Gap (s : Octets) : Prop := LF ∉ s ∧ ∀ b ∈ s, isspace b = true

structure IsName (name : Octets) : Prop where
  nonempty : name ≠ []
  solid : ∀ b ∈ name, isspace b = false
  noComment : name.head? ≠ some HASH

/-- A value in one line, with no white space around it. It may be empty. -/
structure IsValue (value : Octets) : Prop where
  inline : LF ∉ value
  first : ∀ b ∈ value.head?, isspace b = false
  last : ∀ b ∈ value.getLast?, isspace b = false

theorem gap_of_all {s : Octets} (h : (s.all fun b => b != LF && isspace b) = true) : Gap s := by
  simp only [List.all_eq_true, Bool.and_eq_true, bne_iff_ne] at h
  exact ⟨fun hm => (h LF hm).1 rfl, fun b hb => (h b hb).2⟩

theorem isName_of_all {name : Octets} (hne : name ≠ [])
    (h : (name.all fun b => b != HASH && !isspace b) = true) : IsName name := by
  simp only [List.all_eq_true, Bool.and_eq_true, bne_iff_ne, Bool.not_eq_true'] at h
  exact ⟨hne, fun b hb => (h b hb).2, fun hb => (h HASH (List.mem_of_mem_head? hb)).1 rfl⟩

theorem isValue_of_all {value : Octets} (hinline : LF ∉ value)
    (hfirst : (value.head?.all fun b => !isspace b) = true)
    (hlast : (value.getLast?.all fun b => !isspace b) = true) : IsValue value := by
  simp only [Option.all_eq_true, Bool.not_eq_true'] at hfirst hlast
  exact ⟨hinline, fun b hb => hfirst b hb, fun b hb => hlast b hb⟩

/-- What is written in a line, if anything is. -/
inductive LineOf : List RawOption → Octets → Prop where
  | blank {gap : Octets} (h : Gap gap) : LineOf [] gap
  | comment {indent text : Octets} (h : Gap indent) (ht : LF ∉ text) :
    LineOf [] (indent ++ HASH :: text)
  | entry {indent name sep value trail : Octets} (hindent : Gap indent) (hname : IsName name)
      (hsep : Gap sep) (hvalue : IsValue value) (hgap : value ≠ [] → sep ≠ [])
      (htrail : Gap trail) :
    LineOf [(name, value)] (indent ++ (name ++ (sep ++ (value ++ trail))))

/-- What is written in a file. The last line may lack its line feed. -/
inductive Written : List RawOption → Octets → Prop where
  | nil : Written [] []
  | line {es es' : List RawOption} {l s : Octets} (h : LineOf es l) (hs : Written es' s) :
    Written (es ++ es') (l ++ LF :: s)
  | last {es : List RawOption} {l : Octets} (h : LineOf es l) : Written es l

variable {s t l line rest indent name sep value trail : Octets} {r : Reading}
  {es : List RawOption} {c : UInt8}

theorem lines_of_none (h : getline (s.dropWhile isspace) = none) : lines s = [] := by
  rw [lines]
  split
  · rfl
  · next heq => rw [h] at heq; cases heq

theorem lines_of_some (h : getline (s.dropWhile isspace) = some (line, rest)) :
    lines s = line :: lines rest := by
  rw [lines]
  split
  · next heq => rw [h] at heq; cases heq
  · next heq =>
    obtain ⟨rfl, rfl⟩ := Prod.mk.inj (Option.some.inj (h.symm.trans heq))
    rfl

/-- White space before a line makes no difference, line feeds included. -/
theorem lines_space (h : ∀ b ∈ t, isspace b = true) (s : Octets) : lines (t ++ s) = lines s := by
  have hdrop : (t ++ s).dropWhile isspace = s.dropWhile isspace := List.dropWhile_append_of_pos h
  cases hline : getline (s.dropWhile isspace) with
  | none => rw [lines_of_none hline, lines_of_none (hdrop ▸ hline)]
  | some p => rw [lines_of_some hline, lines_of_some (hdrop ▸ hline)]

theorem getline_append (h : LF ∉ s) : getline (s ++ LF :: t) = some (s, t) := by
  have hall : ∀ b ∈ s, decide (b ≠ LF) = true := fun b hb => decide_eq_true fun heq => h (heq ▸ hb)
  rw [getline, if_neg (by simp), List.takeWhile_append_of_pos hall,
    List.dropWhile_append_of_pos hall]
  simp

theorem getline_self (h : LF ∉ s) (hs : s ≠ []) : getline s = some (s, []) := by
  have hall : ∀ b ∈ s, decide (b ≠ LF) = true := fun b hb => decide_eq_true fun heq => h (heq ▸ hb)
  rw [getline, if_neg hs, List.takeWhile_eq_self_iff.2 hall, List.dropWhile_eq_nil_iff.2 hall]
  rfl

theorem lines_cons (hc : isspace c = false) (h : LF ∉ c :: t) (s : Octets) :
    lines (c :: t ++ LF :: s) = (c :: t) :: lines s := by
  refine lines_of_some ?_
  rw [List.cons_append, List.dropWhile_cons_of_neg (by simp [hc])]
  exact getline_append h

theorem lines_cons_end (hc : isspace c = false) (h : LF ∉ c :: t) : lines (c :: t) = [c :: t] := by
  have hline : getline ((c :: t).dropWhile isspace) = some (c :: t, []) := by
    rw [List.dropWhile_cons_of_neg (by simp [hc])]
    exact getline_self h (List.cons_ne_nil c t)
  rw [lines_of_some hline, lines_of_none rfl]

/-- A text that is empty or begins with white space ends a word. -/
theorem word_append (hname : ∀ b ∈ name, isspace b = false)
    (ht : ∀ b, t.head? = some b → isspace b = true) :
    ((name ++ t).takeWhile fun b => !isspace b) = name ∧
      ((name ++ t).dropWhile fun b => !isspace b) = t := by
  have hall : ∀ b ∈ name, (!isspace b) = true := fun b hb => by simp [hname b hb]
  rw [List.takeWhile_append_of_pos hall, List.dropWhile_append_of_pos hall]
  cases t with
  | nil => simp
  | cons b t => simp [ht b rfl]

/-- White space behind a value is cut off. -/
theorem rdropWhile_value (hvalue : IsValue value) (htrail : Gap trail) :
    (value ++ trail).rdropWhile isspace = value := by
  have hall : ∀ b ∈ trail.reverse, isspace b = true := fun b hb => htrail.2 b (by simpa using hb)
  have hself : value.rdropWhile isspace = value := List.rdropWhile_eq_self_iff.2 fun hne => by
    simp [hvalue.last _ (List.getLast?_eq_some_getLast hne)]
  rw [List.rdropWhile, List.reverse_append, List.dropWhile_append_of_pos hall, ← List.rdropWhile,
    hself]

/-- The parts of a line with an entry. -/
theorem readLine_entry (hname : IsName name) (hsep : Gap sep) (hvalue : IsValue value)
    (hgap : value ≠ [] → sep ≠ []) (htrail : Gap trail) :
    readLine (name ++ (sep ++ (value ++ trail))) = (name, value) := by
  have hstart : ((name ++ (sep ++ (value ++ trail))).dropWhile isspace) =
      name ++ (sep ++ (value ++ trail)) := by
    obtain ⟨c, name, rfl⟩ := List.exists_cons_of_ne_nil hname.nonempty
    exact List.dropWhile_cons_of_neg (by simp [hname.solid c])
  have hbehind : ∀ b, (sep ++ (value ++ trail)).head? = some b → isspace b = true := by
    intro b hb
    cases sep with
    | cons c sep => exact hsep.2 b (by simp_all)
    | nil =>
      obtain rfl : value = [] := not_not.1 fun hne => hgap hne rfl
      exact htrail.2 b (List.mem_of_head? hb)
  obtain ⟨htake, hdrop⟩ := word_append hname.solid hbehind
  unfold readLine
  rw [hstart, htake, hdrop]
  dsimp only
  rw [List.dropWhile_append_of_pos hsep.2]
  cases value with
  | nil =>
    rw [List.nil_append, List.dropWhile_eq_nil_iff.2 htrail.2]
    rfl
  | cons c value =>
    have hline : LF ∉ c :: value ++ trail := List.not_mem_append hvalue.inline htrail.1
    rw [List.cons_append, List.dropWhile_cons_of_neg (by simp [hvalue.first c rfl]),
      ← List.cons_append, getline_self hline (by simp)]
    exact congrArg (Prod.mk name) (rdropWhile_value hvalue htrail)

/-- A line of white space adds nothing; any other one adds what is written in it. -/
theorem LineOf.parts (h : LineOf es l) : LF ∉ l ∧
    (((∀ b ∈ l, isspace b = true) ∧ es = []) ∨
      ∃ indent c t, l = indent ++ c :: t ∧ (∀ b ∈ indent, isspace b = true) ∧
        isspace c = false ∧ ∀ r : Reading, r.addLine (c :: t) = es.foldl Reading.addOption r) := by
  cases h with
  | blank h => exact ⟨h.1, .inl ⟨h.2, rfl⟩⟩
  | @comment indent text h ht =>
    refine ⟨List.not_mem_append h.1 (by simpa using ⟨by decide, ht⟩), .inr ?_⟩
    exact ⟨indent, HASH, text, rfl, h.2, by decide, fun r => if_pos (.inr rfl)⟩
  | @entry indent name sep value trail hindent hname hsep hvalue hgap htrail =>
    obtain ⟨c, name, rfl⟩ := List.exists_cons_of_ne_nil hname.nonempty
    have hc : isspace c = false := hname.solid c (by simp)
    have hinline : LF ∉ c :: name := fun hm => absurd (hname.solid LF hm) (by decide)
    refine ⟨?_, .inr ⟨indent, c, name ++ (sep ++ (value ++ trail)), rfl, hindent.2, hc,
      fun r => ?_⟩⟩
    · exact List.not_mem_append hindent.1 (List.not_mem_append hinline
        (List.not_mem_append hsep.1 (List.not_mem_append hvalue.inline htrail.1)))
    · have hcomment : c ≠ HASH := fun heq => hname.noComment (by rw [heq]; rfl)
      rw [Reading.addLine, if_neg (by simp [hcomment]), ← List.cons_append,
        readLine_entry hname hsep hvalue hgap htrail]
      rfl

theorem foldl_lines_line (h : LineOf es l) (s : Octets) (r : Reading) :
    (lines (l ++ LF :: s)).foldl Reading.addLine r =
      (lines s).foldl Reading.addLine (es.foldl Reading.addOption r) := by
  obtain ⟨hinline, ⟨hspace, rfl⟩ | ⟨indent, c, t, rfl, hindent, hc, hadd⟩⟩ := h.parts
  · have hfeed : ∀ b ∈ [LF], isspace b = true := forall_mem_of_all (by decide)
    rw [lines_space hspace, ← List.singleton_append, lines_space hfeed]
    rfl
  · have hline : LF ∉ c :: t := fun hm => hinline (List.mem_append_right _ hm)
    rw [List.append_assoc, lines_space hindent, lines_cons hc hline, List.foldl_cons, hadd]

theorem foldl_lines_last (h : LineOf es l) (r : Reading) :
    (lines l).foldl Reading.addLine r = es.foldl Reading.addOption r := by
  obtain ⟨hinline, ⟨hspace, rfl⟩ | ⟨indent, c, t, rfl, hindent, hc, hadd⟩⟩ := h.parts
  · rw [← List.append_nil l, lines_space hspace, lines_of_none rfl]
    rfl
  · have hline : LF ∉ c :: t := fun hm => hinline (List.mem_append_right _ hm)
    rw [lines_space hindent, lines_cons_end hc hline, List.foldl_cons, hadd]
    rfl

/-- The entries of a file are read in their order. -/
theorem foldl_lines_written (h : Written es s) (r : Reading) :
    (lines s).foldl Reading.addLine r = es.foldl Reading.addOption r := by
  induction h generalizing r with
  | nil => rw [lines_of_none rfl]; rfl
  | line h hs ih => rw [foldl_lines_line h, ih, List.foldl_append]
  | last h => exact foldl_lines_last h r

/-- A device line and the options in its section. -/
def section' (s : Octets × List RawOption) : List RawOption := (ascii "device", s.1) :: s.2

/-- All that is written in a file. -/
def entries (globals : List RawOption) (sections : List (Octets × List RawOption)) :
    List RawOption := globals ++ sections.flatMap section'

variable {fileName : Octets} {globals options : List RawOption}
  {sections done : List (Octets × List RawOption)} {i : Option ℕ}

theorem foldl_globals (h : ∀ o ∈ options, o.1 ≠ ascii "device") :
    options.foldl Reading.addOption ⟨⟨fileName, globals, []⟩, none⟩ =
      ⟨⟨fileName, globals ++ options, []⟩, none⟩ := by
  induction options generalizing globals with
  | nil => rw [List.append_nil]; rfl
  | cons o options ih =>
    rw [List.forall_mem_cons] at h
    rw [List.foldl_cons, Reading.addOption, if_neg h.1, ih h.2]
    simp

theorem modify_last {α : Type} (f : α → α) (l : List α) (x : α) :
    (l ++ [x]).modify l.length f = l ++ [f x] := by
  induction l with
  | nil => rfl
  | cons a l ih => exact congrArg (List.cons a) ih

/-- The options behind a device line go to its section. -/
theorem foldl_section {pattern : Octets} {before : List RawOption}
    (h : ∀ o ∈ options, o.1 ≠ ascii "device") :
    options.foldl Reading.addOption
        ⟨⟨fileName, globals, done ++ [(pattern, before)]⟩, some done.length⟩ =
      ⟨⟨fileName, globals, done ++ [(pattern, before ++ options)]⟩, some done.length⟩ := by
  induction options generalizing before with
  | nil => rw [List.append_nil]; rfl
  | cons o options ih =>
    rw [List.forall_mem_cons] at h
    rw [List.foldl_cons, Reading.addOption, if_neg h.1]
    dsimp only
    rw [modify_last, ih h.2]
    simp

theorem foldl_sections (h : ∀ s ∈ sections, ∀ o ∈ s.2, o.1 ≠ ascii "device") (i : Option ℕ) :
    ((sections.flatMap section').foldl Reading.addOption ⟨⟨fileName, globals, done⟩, i⟩).file =
      ⟨fileName, globals, done ++ sections⟩ := by
  induction sections generalizing done i with
  | nil => rw [List.append_nil]; rfl
  | cons s sections ih =>
    rw [List.forall_mem_cons] at h
    rw [List.flatMap_cons, List.foldl_append, section', List.foldl_cons, Reading.addOption,
      if_pos rfl]
    dsimp only
    rw [foldl_section h.1, ih h.2]
    simp

/-- A file is read back as it was written. -/
theorem read_written {content : Octets} (hg : ∀ o ∈ globals, o.1 ≠ ascii "device")
    (hs : ∀ s ∈ sections, ∀ o ∈ s.2, o.1 ≠ ascii "device")
    (h : Written (entries globals sections) content) :
    read fileName content = ⟨fileName, globals, sections⟩ := by
  rw [read, foldl_lines_written h, entries, List.foldl_append, foldl_globals hg, foldl_sections hs]
  rfl

section
variable {D : Type} (ctx : OptionsContext D)

/-- What applies to a scanner, in the order of the file. -/
def applicable (scanner : ScannerName) (globals : List RawOption)
    (sections : List (Octets × List RawOption)) : List RawOption :=
  globals ++ (sections.filter fun s => isMatch ctx scanner s.1).flatMap Prod.snd

theorem foldl_matching (scanner : ScannerName) (globals : List RawOption)
    (sections : List (Octets × List RawOption)) :
    sections.foldl (fun raw s => if isMatch ctx scanner s.1 then raw ++ s.2 else raw) globals =
      applicable ctx scanner globals sections := by
  induction sections generalizing globals with
  | nil => simp [applicable]
  | cons s sections ih =>
    rw [List.foldl_cons, ih]
    by_cases h : isMatch ctx scanner s.1 = true <;> simp [applicable, h]

variable [One D]

/-- The value that an option was given last, under any of its names. -/
def lastOf (names : List Octets) (options : List RawOption) : Option Octets :=
  ((options.filter fun o => names.any (o.1 = ·)).getLast?).map Prod.snd

/-- The names that the server knows. -/
def known : List Octets :=
  [ascii "icon", ascii "note", ascii "location", ascii "gray-gamma", ascii "color-gamma",
    ascii "synthesize-gray"]

/-- The options that a sequence of them amounts to. -/
def amounting (fileName : Octets) (options : List RawOption) : Options D where
  icon := (lastOf [ascii "icon"] options).elim [] (iconPath fileName)
  note := (lastOf [ascii "note", ascii "location"] options).getD []
  gray_gamma := (lastOf [ascii "gray-gamma"] options).elim 1 fun v => ctx.atof (c_str v)
  color_gamma := (lastOf [ascii "color-gamma"] options).elim 1 fun v => ctx.atof (c_str v)
  synthesize_gray := (lastOf [ascii "synthesize-gray"] options).elim false fun v =>
    v = ascii "true" || v = ascii "yes"
  sane_options := options.filter fun o => !known.any (o.1 = ·)

theorem lastOf_concat (names : List Octets) (options : List RawOption) (o : RawOption) :
    lastOf names (options ++ [o]) =
      if names.any (o.1 = ·) then some o.2 else lastOf names options := by
  unfold lastOf
  rw [List.filter_append]
  by_cases h : names.any (o.1 = ·) = true <;> simp [h]

/-- One more option changes the value of one name, or is passed on. -/
theorem process_amounting (options : List RawOption) (o : RawOption) :
    process ctx fileName (amounting ctx fileName options) o =
      amounting ctx fileName (options ++ [o]) := by
  obtain ⟨name, value⟩ := o
  have hrest : ((options ++ [(name, value)]).filter fun o => !known.any (o.1 = ·)) =
      (options.filter fun o => !known.any (o.1 = ·)) ++
        if known.any (name = ·) then [] else [(name, value)] := by
    rw [List.filter_append]
    by_cases h : known.any (name = ·) = true <;> simp [h]
  unfold process
  dsimp only
  split_ifs with hicon hnote hgray hcolor hsynth
  · subst hicon
    simp only [amounting, lastOf_concat, hrest]
    simp +decide [known]
  · rcases hnote with rfl | rfl
    · simp only [amounting, lastOf_concat, hrest]
      simp +decide [known]
    · simp only [amounting, lastOf_concat, hrest]
      simp +decide [known]
  · subst hgray
    simp only [amounting, lastOf_concat, hrest]
    simp +decide [known]
  · subst hcolor
    simp only [amounting, lastOf_concat, hrest]
    simp +decide [known]
  · subst hsynth
    simp only [amounting, lastOf_concat, hrest]
    simp +decide [known]
  · simp only [amounting, lastOf_concat, hrest]
    simp +decide [known, hicon, hnote, hgray, hcolor, hsynth]

theorem foldl_process (options : List RawOption) :
    options.foldl (process ctx fileName) defaults = amounting ctx fileName options := by
  induction options using List.reverseRecOn with
  | nil => rfl
  | append_singleton options o ih =>
    rw [List.foldl_append, ih]
    exact process_amounting ctx options o

/-- The options for a scanner are those that the written ones amount to. -/
theorem scannerOptions_written {content : Octets} (hg : ∀ o ∈ globals, o.1 ≠ ascii "device")
    (hs : ∀ s ∈ sections, ∀ o ∈ s.2, o.1 ≠ ascii "device")
    (h : Written (entries globals sections) content) (scanner : ScannerName) :
    (read fileName content).scannerOptions ctx scanner =
      amounting ctx fileName (applicable ctx scanner globals sections) := by
  rw [read_written hg hs h, scannerOptions, foldl_matching, foldl_process]

end

/-- A word matches itself; two is a number. -/
def plain : OptionsContext ℚ where
  regex_match := fun text pattern => text = pattern
  atof := fun s => if s = ascii "2" then 2 else 0

theorem scannerOptions_written_section : ∃ content,
    content = ascii ("# for all\nresolution 300 \n\n  device genesys\nicon\ta b.png\n" ++
      "gray-gamma 2") ∧
    (read (ascii "/etc/options.conf") content).scannerOptions plain
      ⟨ascii "genesys", ascii "Canon"⟩ =
        { icon := ascii "/etc/a b.png"
          note := []
          gray_gamma := 2
          color_gamma := 1
          synthesize_gray := false
          sane_options := [(ascii "resolution", ascii "300")] } := by
  have hnone : Gap [] := gap_of_all rfl
  have hspace : Gap (ascii " ") := gap_of_all (by decide)
  have hindent : Gap (ascii "  ") := gap_of_all (by decide)
  have htab : Gap (ascii "\t") := gap_of_all (by decide)
  have hcomment : LineOf [] ([] ++ HASH :: ascii " for all") := .comment hnone (by decide)
  have hoptions : Written ([(ascii "icon", ascii "a b.png")] ++ [(ascii "gray-gamma", ascii "2")])
      _ :=
    .line (.entry hnone (isName_of_all (by decide) (by decide)) htab
      (isValue_of_all (by decide) (by decide) (by decide))
      (by decide) hnone)
      (.last (.entry hnone (isName_of_all (by decide) (by decide)) hspace
        (isValue_of_all (by decide) (by decide) (by decide)) (by decide) hnone))
  have hdevice : Written ([] ++ ([(ascii "device", ascii "genesys")] ++ _)) _ :=
    .line (.blank hnone) (.line (.entry hindent (isName_of_all (by decide) (by decide)) hspace
      (isValue_of_all (by decide) (by decide) (by decide)) (by decide) hnone) hoptions)
  have hall : Written ([] ++ ([(ascii "resolution", ascii "300")] ++ _)) _ :=
    .line hcomment (.line (.entry hnone (isName_of_all (by decide) (by decide)) hspace
      (isValue_of_all (by decide) (by decide) (by decide)) (by decide) hspace) hdevice)
  have hwritten : Written (entries [(ascii "resolution", ascii "300")] [(ascii "genesys",
      [(ascii "icon", ascii "a b.png"), (ascii "gray-gamma", ascii "2")])]) _ := hall
  exact ⟨_, by decide, (scannerOptions_written plain (by decide) (by decide) hwritten _).trans
    (by rfl)⟩

end OptionsFile
end AirSane
