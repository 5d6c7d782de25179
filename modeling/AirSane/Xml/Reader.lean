import AirSane.Text.Octets

/-! # A reader of XML

The tree of a document, read byte by byte. References to the five predefined entities are
replaced, text of nothing but white space is left out, and instructions are skipped;
comments, document types and sections of character data are not read.
-/

namespace Xml
open Text

def LESS : UInt8 := 60
def GREATER : UInt8 := 62
def SLASH : UInt8 := 47
def QUESTION : UInt8 := 63
def EQUALS : UInt8 := 61
def AMPERSAND : UInt8 := 38
def SEMICOLON : UInt8 := 59

inductive Node where
  | text (s : Octets)
  | element (name : Octets) (attributes : List (Octets × Octets)) (children : List Node)

structure Tag where
  name : Octets
  attributes : List (Octets × Octets)

/-- An element that is not at its end, with its children so far. -/
structure Frame where
  tag : Tag
  children : List Node

def Frame.add (f : Frame) (ns : List Node) : Frame := { f with children := f.children ++ ns }

inductive Place where
  | text (s : Octets)
  | reference (s r : Octets)
  /-- Behind the first character of a tag. -/
  | tag
  | opening (t : Tag)
  | attributes (t : Tag)
  | key (t : Tag) (key : Octets)
  | value (t : Tag) (key : Octets)
  | quoted (quote : UInt8) (t : Tag) (key v : Octets)
  | quotedReference (quote : UInt8) (t : Tag) (key v r : Octets)
  /-- Behind the value of an attribute. -/
  | valued (t : Tag)
  | selfClosing (t : Tag)
  | closing (name : Octets)
  | closed (name : Octets)
  | instruction (last : UInt8)

/-- The innermost element comes first. -/
structure State where
  place : Place
  stack : List Frame

def isWhite (b : UInt8) : Bool := b = 9 || b = 10 || b = 13 || b = 32

/-- No control character but white space. -/
def isChar (b : UInt8) : Bool := 32 ≤ b || isWhite b

def isNameStart (b : UInt8) : Bool :=
  (65 ≤ b && b ≤ 90) || (97 ≤ b && b ≤ 122) || b = 58 || b = 95 || 128 ≤ b

def isNameChar (b : UInt8) : Bool := isNameStart b || (48 ≤ b && b ≤ 57) || b = 45 || b = 46

/-- The character that a reference stands for. -/
def referenced (r : Octets) : Option UInt8 :=
  if r = ascii "quot" then some 34
  else if r = ascii "apos" then some 39
  else if r = ascii "amp" then some 38
  else if r = ascii "lt" then some 60
  else if r = ascii "gt" then some 62
  else none

def texts (s : Octets) : List Node := if s.all isWhite then [] else [.text s]

namespace State

/-- The state behind children of the innermost element. -/
def added (ns : List Node) (place : Place) : List Frame → Option State
  | [] => none
  | f :: fs => some ⟨place, f.add ns :: fs⟩

def opened (t : Tag) (stack : List Frame) : State := ⟨.text [], ⟨t, []⟩ :: stack⟩

/-- The outermost element stays open. -/
def close (name : Octets) : List Frame → Option State
  | f :: g :: fs =>
    if f.tag.name = name then added [.element name f.tag.attributes f.children] (.text []) (g :: fs)
    else none
  | _ => none

def stepText (s : Octets) (stack : List Frame) (b : UInt8) : Option State :=
  if b = LESS then added (texts s) .tag stack
  else if b = AMPERSAND then some ⟨.reference s [], stack⟩
  else if isChar b then some ⟨.text (s ++ [b]), stack⟩
  else none

def stepTag (stack : List Frame) (b : UInt8) : Option State :=
  if b = SLASH then some ⟨.closing [], stack⟩
  else if b = QUESTION then some ⟨.instruction 0, stack⟩
  else if isNameStart b then some ⟨.opening ⟨[b], []⟩, stack⟩
  else none

/-- What ends a name or a value in a tag. -/
def stepBehind (t : Tag) (stack : List Frame) (b : UInt8) : Option State :=
  if isWhite b then some ⟨.attributes t, stack⟩
  else if b = SLASH then some ⟨.selfClosing t, stack⟩
  else if b = GREATER then some (opened t stack)
  else none

def stepQuoted (quote : UInt8) (t : Tag) (key v : Octets) (stack : List Frame) (b : UInt8) :
    Option State :=
  if b = quote then
    if (t.attributes.map Prod.fst).contains key then none
    else some ⟨.valued { t with attributes := t.attributes ++ [(key, v)] }, stack⟩
  else if b = LESS then none
  else if b = AMPERSAND then some ⟨.quotedReference quote t key v [], stack⟩
  else if isChar b then some ⟨.quoted quote t key (v ++ [b]), stack⟩
  else none

def step (st : State) (b : UInt8) : Option State :=
  match st.place with
  | .text s => stepText s st.stack b
  | .reference s r =>
    if b = SEMICOLON then (referenced r).map fun c => ⟨.text (s ++ [c]), st.stack⟩
    else some ⟨.reference s (r ++ [b]), st.stack⟩
  | .tag => stepTag st.stack b
  | .opening t =>
    if isNameChar b then some ⟨.opening { t with name := t.name ++ [b] }, st.stack⟩
    else stepBehind t st.stack b
  | .attributes t =>
    if isNameStart b then some ⟨.key t [b], st.stack⟩ else stepBehind t st.stack b
  | .key t k =>
    if isNameChar b then some ⟨.key t (k ++ [b]), st.stack⟩
    else if b = EQUALS then some ⟨.value t k, st.stack⟩
    else none
  | .value t k => if b = 34 ∨ b = 39 then some ⟨.quoted b t k [], st.stack⟩ else none
  | .quoted quote t k v => stepQuoted quote t k v st.stack b
  | .quotedReference quote t k v r =>
    if b = SEMICOLON then (referenced r).map fun c => ⟨.quoted quote t k (v ++ [c]), st.stack⟩
    else some ⟨.quotedReference quote t k v (r ++ [b]), st.stack⟩
  | .valued t => stepBehind t st.stack b
  | .selfClosing t =>
    if b = GREATER then added [.element t.name t.attributes []] (.text []) st.stack else none
  | .closing name =>
    if isNameChar b then some ⟨.closing (name ++ [b]), st.stack⟩
    else if isWhite b then some ⟨.closed name, st.stack⟩
    else if b = GREATER then close name st.stack
    else none
  | .closed name =>
    if isWhite b then some ⟨.closed name, st.stack⟩
    else if b = GREATER then close name st.stack
    else none
  | .instruction last =>
    if last = QUESTION ∧ b = GREATER then some ⟨.text [], st.stack⟩
    else some ⟨.instruction b, st.stack⟩

def read (st : State) (s : Octets) : Option State := s.foldlM step st

end State

/-- Outside the element of a document. -/
def document : Frame := ⟨⟨[], []⟩, []⟩

/-- The one element of a document. -/
def parse (s : Octets) : Option Node :=
  match State.read ⟨.text [], [document]⟩ s with
  | some ⟨.text t, [f]⟩ =>
    match f.children ++ texts t with
    | [.element name attributes children] => some (.element name attributes children)
    | _ => none
  | _ => none

def White (s : Octets) : Prop := ∀ b ∈ s, isWhite b = true

/-- The name of an element or of an attribute. -/
structure Name (n : Octets) : Prop where
  start : (n.take 1).any isNameStart = true
  chars : (n.drop 1).all isNameChar = true

/-- A value between single quotes. -/
def Value (v : Octets) : Prop :=
  ∀ b ∈ v, b ≠ 39 ∧ b ≠ LESS ∧ b ≠ AMPERSAND ∧ isChar b = true

/-- Text that stands for itself. -/
def Plain (s : Octets) : Prop := ∀ b ∈ s, b ≠ LESS ∧ b ≠ AMPERSAND ∧ isChar b = true

instance (n : Octets) : Decidable (Name n) :=
  decidable_of_iff ((n.take 1).any isNameStart = true ∧ (n.drop 1).all isNameChar = true)
    ⟨fun h => ⟨h.1, h.2⟩, fun h => ⟨h.start, h.chars⟩⟩

instance (v : Octets) : Decidable (Value v) := List.decidableBAll _ v

instance (s : Octets) : Decidable (Plain s) := List.decidableBAll _ s

def attributeText (x : Octets × Octets) : Octets := 32 :: (x.1 ++ (EQUALS :: 39 :: (x.2 ++ [39])))

def startTag (t : Tag) : Octets :=
  LESS :: (t.name ++ (t.attributes.flatMap attributeText ++ [GREATER]))

def endTag (name : Octets) : Octets := LESS :: SLASH :: (name ++ [GREATER])

def emptyTag (name : Octets) : Octets := LESS :: (name ++ [32, SLASH, GREATER])

/-- Text is read as what it stands for. -/
def Chars (s v : Octets) : Prop :=
  ∀ w stack, State.read ⟨.text w, stack⟩ s = some ⟨.text (w ++ v), stack⟩

/-- From white space to white space, children are added to the innermost element. -/
def Content (s : Octets) (ns : List Node) : Prop :=
  ∀ w f fs, White w →
    ∃ w', White w' ∧ State.read ⟨.text w, f :: fs⟩ s = some ⟨.text w', f.add ns :: fs⟩

/-- All that stands in an element. -/
def Inner (s : Octets) (ns : List Node) : Prop :=
  ∀ f fs, ∃ t g, State.read ⟨.text [], f :: fs⟩ s = some ⟨.text t, g :: fs⟩ ∧
    g.add (texts t) = f.add ns

section
variable {s t u v w n : Octets} {ns ms : List Node} {f : Frame} {stack : List Frame} {st : State}

@[simp] theorem Frame.add_nil : f.add [] = f := by
  rw [Frame.add, List.append_nil]

@[simp] theorem Frame.add_add : (f.add ns).add ms = f.add (ns ++ ms) := by
  simp [Frame.add]

theorem texts_eq_nil (h : White s) : texts s = [] := if_pos (List.all_eq_true.2 h)

theorem White.append (hs : White s) (ht : White t) : White (s ++ t) := fun b hb =>
  (List.mem_append.1 hb).elim (hs b) (ht b)

namespace State

theorem read_nil : read st [] = some st := rfl

theorem read_cons (b : UInt8) : read st (b :: s) = (st.step b).bind fun st' => read st' s :=
  List.foldlM_cons

theorem read_append : read st (s ++ t) = (read st s).bind fun st' => read st' t :=
  List.foldlM_append

theorem read_of_step {b : UInt8} {st' : State} (h : st.step b = some st') :
    read st (b :: s) = read st' s := by
  rw [read_cons, h, Option.bind_some]

theorem read_append_of_eq {st' : State} (h : read st s = some st') :
    read st (s ++ t) = read st' t := by
  rw [read_append, h, Option.bind_some]

/-- A place that gathers bytes of some kind. -/
theorem read_gathered (place : Octets → Place)
    (hstep : ∀ b ∈ s, ∀ w, step ⟨place w, stack⟩ b = some ⟨place (w ++ [b]), stack⟩) :
    read ⟨place w, stack⟩ s = some ⟨place (w ++ s), stack⟩ := by
  induction s generalizing w with
  | nil => rw [List.append_nil]; rfl
  | cons b s ih =>
    rw [read_of_step (hstep b List.mem_cons_self w),
      ih fun c hc => hstep c (List.mem_cons_of_mem _ hc), List.append_assoc]
    rfl

/-- A name that is gathered behind its first character. -/
theorem read_name (place : Octets → Place) (hn : Name n)
    (hstep : ∀ b w, isNameChar b = true →
      step ⟨place w, stack⟩ b = some ⟨place (w ++ [b]), stack⟩)
    (hstart : ∀ b, isNameStart b = true → step st b = some ⟨place [b], stack⟩) :
    read st n = some ⟨place n, stack⟩ := by
  match n, hn with
  | [], hn => exact absurd hn.start (by decide)
  | b :: r, hn =>
    have hr : r.all isNameChar = true := hn.chars
    rw [read_of_step (hstart b (by simpa using hn.start)),
      read_gathered place fun c hc w => hstep c w (List.all_eq_true.1 hr c hc)]
    rfl

end State

section
open State

theorem Chars.nil : Chars [] [] := fun w stack => by
  rw [List.append_nil]
  rfl

theorem Chars.append (hs : Chars s u) (ht : Chars t v) : Chars (s ++ t) (u ++ v) := by
  intro w stack
  rw [read_append_of_eq (hs w stack), ht, List.append_assoc]

theorem Plain.chars (h : Plain s) : Chars s s := by
  intro w stack
  refine read_gathered Place.text fun b hb w => ?_
  have hb := h b hb
  simp only [step, stepText, hb.1, hb.2.1, hb.2.2, if_false, if_true]

/-- A reference to an entity. -/
theorem chars_reference {r : Octets} {c : UInt8} (hr : SEMICOLON ∉ r)
    (hc : referenced r = some c) : Chars (AMPERSAND :: (r ++ [SEMICOLON])) [c] := by
  intro w stack
  have hread : read ⟨.reference w [], stack⟩ r = some ⟨.reference w r, stack⟩ := by
    refine read_gathered (Place.reference w) fun b hb v => if_neg ?_
    rintro rfl
    exact hr hb
  have hbegin : step ⟨.text w, stack⟩ AMPERSAND = some ⟨.reference w [], stack⟩ := rfl
  have hend : step ⟨.reference w r, stack⟩ SEMICOLON = some ⟨.text (w ++ [c]), stack⟩ := by
    change (referenced r).map (fun c => State.mk (.text (w ++ [c])) stack) = _
    rw [hc, Option.map_some]
  rw [read_of_step hbegin, read_append_of_eq hread, read_of_step hend]
  rfl

/-- Behind white space a tag begins. -/
theorem step_less (hw : White w) :
    step ⟨.text w, f :: stack⟩ LESS = some ⟨.tag, f :: stack⟩ := by
  change stepText w (f :: stack) LESS = _
  rw [stepText, if_pos rfl, texts_eq_nil hw, added, Frame.add_nil]

/-- The name behind the first character of a tag. -/
theorem read_opening (hn : Name n) :
    read ⟨.tag, stack⟩ n = some ⟨.opening ⟨n, []⟩, stack⟩ := by
  refine read_name (fun n => .opening ⟨n, []⟩) hn (fun b w hb => if_pos hb) fun b hb => ?_
  have hslash : b ≠ SLASH := by
    rintro rfl
    exact absurd hb (by decide)
  have hquestion : b ≠ QUESTION := by
    rintro rfl
    exact absurd hb (by decide)
  change stepTag stack b = _
  rw [stepTag, if_neg hslash, if_neg hquestion, if_pos hb]

theorem read_attribute {x : Octets × Octets} {t : Tag} {place : Place} (hn : Name x.1)
    (hv : Value x.2) (hnew : x.1 ∉ t.attributes.map Prod.fst)
    (hplace : step ⟨place, stack⟩ 32 = some ⟨.attributes t, stack⟩) :
    read ⟨place, stack⟩ (attributeText x) =
      some ⟨.valued { t with attributes := t.attributes ++ [x] }, stack⟩ := by
  have hkey : read ⟨.attributes t, stack⟩ x.1 = some ⟨.key t x.1, stack⟩ :=
    read_name (.key t) hn (fun b w hb => if_pos hb) (fun b hb => if_pos hb)
  have hequals : step ⟨.key t x.1, stack⟩ EQUALS = some ⟨.value t x.1, stack⟩ := rfl
  have hquote : step ⟨.value t x.1, stack⟩ 39 = some ⟨.quoted 39 t x.1 [], stack⟩ := rfl
  have hvalue : read ⟨.quoted 39 t x.1 [], stack⟩ x.2 = some ⟨.quoted 39 t x.1 x.2, stack⟩ := by
    refine read_gathered (Place.quoted 39 t x.1) fun b hb w => ?_
    have hb := hv b hb
    simp only [step, stepQuoted, hb.1, hb.2.1, hb.2.2.1, hb.2.2.2, if_false, if_true]
  have hend : step ⟨.quoted 39 t x.1 x.2, stack⟩ 39 =
      some ⟨.valued { t with attributes := t.attributes ++ [x] }, stack⟩ := by
    change stepQuoted 39 t x.1 x.2 stack 39 = _
    rw [stepQuoted, if_pos rfl, if_neg (mt List.contains_iff_mem.1 hnew)]
  rw [attributeText, read_of_step hplace, read_append_of_eq hkey, read_of_step hequals,
    read_of_step hquote, read_append_of_eq hvalue, read_of_step hend]
  rfl

/-- The attributes of a tag, and its end. -/
theorem read_attributes {t : Tag} {place : Place} {l : List (Octets × Octets)}
    (hl : ∀ x ∈ l, Name x.1 ∧ Value x.2) (hnew : ((t.attributes ++ l).map Prod.fst).Nodup)
    (hplace : ∀ b, isNameChar b = false → step ⟨place, stack⟩ b = stepBehind t stack b) :
    read ⟨place, stack⟩ (l.flatMap attributeText ++ [GREATER]) =
      some (opened { t with attributes := t.attributes ++ l } stack) := by
  induction l generalizing t place with
  | nil =>
    rw [List.flatMap_nil, List.nil_append, List.append_nil,
      read_of_step (hplace GREATER (by decide))]
    rfl
  | cons x l ih =>
    have hx := hl x List.mem_cons_self
    have hnotin : x.1 ∉ t.attributes.map Prod.fst := by
      rw [List.map_append, List.map_cons] at hnew
      exact fun hm => (List.nodup_append.1 hnew).2.2 _ hm _ List.mem_cons_self rfl
    rw [List.append_cons] at hnew
    rw [List.flatMap_cons, List.append_assoc,
      read_append_of_eq (read_attribute hx.1 hx.2 hnotin (hplace 32 (by decide))),
      ih (t := ⟨t.name, t.attributes ++ [x]⟩) (fun y hy => hl y (List.mem_cons_of_mem _ hy)) hnew
        fun b _ => rfl, List.append_assoc]
    rfl

/-- The tag that opens an element. -/
theorem read_startTag {t : Tag} (hn : Name t.name)
    (ha : ∀ x ∈ t.attributes, Name x.1 ∧ Value x.2) (hnew : (t.attributes.map Prod.fst).Nodup)
    (hw : White w) : read ⟨.text w, f :: stack⟩ (startTag t) = some (opened t (f :: stack)) := by
  rw [startTag, read_of_step (step_less hw), read_append_of_eq (read_opening hn),
    read_attributes (t := ⟨t.name, []⟩) ha hnew]
  · rfl
  · intro b hb
    rw [step, hb]
    rfl

theorem read_endTag {g : Frame} {t : Tag} (hn : Name t.name) (hf : f.tag = t) :
    read ⟨.text s, f :: g :: stack⟩ (endTag t.name) = some ⟨.text [],
      g.add [.element t.name t.attributes (f.add (texts s)).children] :: stack⟩ := by
  have hname : read ⟨.closing [], f.add (texts s) :: g :: stack⟩ t.name =
      some ⟨.closing t.name, f.add (texts s) :: g :: stack⟩ := by
    have hstart (b : UInt8) (hb : isNameStart b = true) : isNameChar b = true := by
      rw [isNameChar, hb, Bool.true_or, Bool.true_or, Bool.true_or]
    exact read_name .closing hn (fun b w hb => if_pos hb) fun b hb => if_pos (hstart b hb)
  have hless : step ⟨.text s, f :: g :: stack⟩ LESS =
      some ⟨.tag, f.add (texts s) :: g :: stack⟩ := rfl
  have hslash : step ⟨.tag, f.add (texts s) :: g :: stack⟩ SLASH =
      some ⟨.closing [], f.add (texts s) :: g :: stack⟩ := rfl
  rw [endTag, read_of_step hless, read_of_step hslash, read_append_of_eq hname, read_of_step]
  · rfl
  · subst hf
    exact if_pos rfl

theorem Content.nil : Content [] [] := fun w f fs hw => ⟨w, hw, by rw [Frame.add_nil]; rfl⟩

theorem White.content (h : White s) : Content s [] := by
  intro w f fs hw
  have hplain : Plain s := fun b hb => by
    have hwhite := h b hb
    refine ⟨?_, ?_, ?_⟩
    · rintro rfl
      exact absurd hwhite (by decide)
    · rintro rfl
      exact absurd hwhite (by decide)
    · rw [isChar, hwhite, Bool.or_true]
  exact ⟨w ++ s, hw.append h, by rw [hplain.chars, Frame.add_nil]⟩

theorem Content.append (hs : Content s ns) (ht : Content t ms) : Content (s ++ t) (ns ++ ms) := by
  intro w f fs hw
  obtain ⟨w', hw', hread⟩ := hs w f fs hw
  obtain ⟨w'', hw'', hread'⟩ := ht w' (f.add ns) fs hw'
  exact ⟨w'', hw'', by rw [read_append_of_eq hread, hread', Frame.add_add]⟩

theorem Content.inner (h : Content s ns) : Inner s ns := by
  intro f fs
  obtain ⟨w, hw, hread⟩ := h [] f fs fun b hb => absurd hb List.not_mem_nil
  exact ⟨w, f.add ns, hread, by rw [texts_eq_nil hw, Frame.add_nil]⟩

theorem Chars.inner (h : Chars s v) : Inner s (texts v) := fun f fs =>
  ⟨v, f, h [] (f :: fs), rfl⟩

/-- An element with all that stands in it. -/
theorem Inner.element {t : Tag} (h : Inner s ns) (hn : Name t.name)
    (ha : ∀ x ∈ t.attributes, Name x.1 ∧ Value x.2) (hnew : (t.attributes.map Prod.fst).Nodup) :
    Content (startTag t ++ (s ++ endTag t.name)) [.element t.name t.attributes ns] := by
  intro w f fs hw
  obtain ⟨u, g, hread, hg⟩ := h ⟨t, []⟩ (f :: fs)
  have htag : g.tag = t := congrArg Frame.tag hg
  have hchildren : (g.add (texts u)).children = ns := by
    rw [hg]
    rfl
  refine ⟨[], fun b hb => absurd hb List.not_mem_nil, ?_⟩
  rw [read_append_of_eq (read_startTag hn ha hnew hw), opened, read_append_of_eq hread,
    read_endTag hn htag, hchildren]

theorem content_emptyTag (hn : Name n) : Content (emptyTag n) [.element n [] []] := by
  intro w f fs hw
  refine ⟨[], fun b hb => absurd hb List.not_mem_nil, ?_⟩
  rw [emptyTag, read_of_step (step_less hw), read_append_of_eq (read_opening hn)]
  rfl

/-- An instruction leaves no children. -/
theorem content_instruction (hs : GREATER ∉ s) :
    Content (LESS :: QUESTION :: (s ++ [QUESTION, GREATER])) [] := by
  intro w f fs hw
  have hgathered : ∀ last, ∃ last',
      read ⟨.instruction last, f :: fs⟩ s = some ⟨.instruction last', f :: fs⟩ := by
    induction s with
    | nil => exact fun last => ⟨last, rfl⟩
    | cons b s ih =>
      intro last
      have hb : ¬ (last = QUESTION ∧ b = GREATER) := fun h => hs (h.2 ▸ List.mem_cons_self)
      have hstep : step ⟨.instruction last, f :: fs⟩ b = some ⟨.instruction b, f :: fs⟩ :=
        if_neg hb
      obtain ⟨last', hread⟩ := ih (fun hm => hs (List.mem_cons_of_mem _ hm)) b
      exact ⟨last', by rw [read_of_step hstep, hread]⟩
  obtain ⟨last, hread⟩ := hgathered 0
  have hquestion : step ⟨.tag, f :: fs⟩ QUESTION = some ⟨.instruction 0, f :: fs⟩ := rfl
  have hlast : step ⟨.instruction last, f :: fs⟩ QUESTION =
      some ⟨.instruction QUESTION, f :: fs⟩ := if_neg fun h => absurd h.2 (by decide)
  refine ⟨[], fun b hb => absurd hb List.not_mem_nil, ?_⟩
  rw [read_of_step (step_less hw), read_of_step hquestion, read_append_of_eq hread,
    read_of_step hlast, Frame.add_nil]
  rfl

theorem Content.flatMap {α : Type} {l : List α} {x : α → Octets} {y : α → List Node}
    (h : ∀ a ∈ l, Content (x a) (y a)) : Content (l.flatMap x) (l.flatMap y) := by
  induction l with
  | nil => exact .nil
  | cons a l ih =>
    exact (h a List.mem_cons_self).append (ih fun b hb => h b (List.mem_cons_of_mem _ hb))

/-- What stands in a document is its element, if it is one. -/
theorem Content.parse {children : List Node} {attributes : List (Octets × Octets)}
    (h : Content s [.element n attributes children]) :
    parse s = some (.element n attributes children) := by
  obtain ⟨w, hw, hread⟩ := h [] document [] fun b hb => absurd hb List.not_mem_nil
  rw [Xml.parse, hread]
  simp only [texts_eq_nil hw]
  rfl

end
end
end Xml
