import AirSane.Text.Octets

/-! # Tokens of HTML

The tags of a document and the characters between them, as a browser finds them. The
bytes are read one by one. A document type and a comment make no tokens, character
references are left as they are, and a script is read as other raw text is.
-/

namespace Html
open Text

def LESS : UInt8 := 60
def GREATER : UInt8 := 62
def SLASH : UInt8 := 47
def EQUALS : UInt8 := 61
def DASH : UInt8 := 45

/-- White space between attributes. -/
def isSpace (b : UInt8) : Bool := b = 9 || b = 10 || b = 12 || b = 13 || b = 32

def isLetter (b : UInt8) : Bool := (65 ≤ b && b ≤ 90) || (97 ≤ b && b ≤ 122)

structure Tag where
  closing : Bool
  name : Octets
  attributes : List (Octets × Octets)
  selfClosing : Bool
  deriving DecidableEq, Repr

namespace Tag

def opened (name : Octets) : Tag := ⟨false, name, [], false⟩
def closed (name : Octets) : Tag := ⟨true, name, [], false⟩

/-- Of two attributes with one name the first one counts. -/
def add (t : Tag) (key v : Octets) : Tag :=
  if t.attributes.any (·.1 = key) then t else { t with attributes := t.attributes ++ [(key, v)] }

end Tag

inductive Token where
  | char (b : UInt8)
  | tag (t : Tag)
  deriving DecidableEq, Repr

/-- Where in a document the tokenizer is. -/
inductive State where
  | data
  /-- In an element that has only text in it, up to its own end tag. -/
  | text (element : Octets)
  | textLess (element : Octets)
  | textEnd (element seen : Octets)
  | plaintext
  | tagOpen
  | endTagOpen
  | tagName (t : Tag)
  | beforeKey (t : Tag)
  | key (t : Tag) (key : Octets)
  | afterKey (t : Tag) (key : Octets)
  | beforeValue (t : Tag) (key : Octets)
  | quoted (quote : UInt8) (t : Tag) (key v : Octets)
  | unquoted (t : Tag) (key v : Octets)
  | selfClosing (t : Tag)
  | declaration
  | declarationDash
  /-- In a document type, or in what is skipped like one. -/
  | skipped
  | comment (seen : Octets)
  deriving DecidableEq, Repr

namespace State

def textElements : List Octets :=
  ["title", "textarea", "style", "xmp", "iframe", "noembed", "noframes", "noscript", "script"].map
    ascii

/-- Behind a tag. -/
def behind (t : Tag) : State :=
  if t.closing then .data
  else if textElements.any (t.name = ·) then .text t.name
  else if t.name = ascii "plaintext" then .plaintext
  else .data

def emit (t : Tag) : State × List Token := (behind t, [.tag t])

def stepData (b : UInt8) : State × List Token :=
  if b = LESS then (.tagOpen, []) else (.data, [.char b])

def stepText (element : Octets) (b : UInt8) : State × List Token :=
  if b = LESS then (.textLess element, []) else (.text element, [.char b])

/-- Characters that have turned out not to begin a tag, and the next one. -/
def revert (seen : Octets) (r : State × List Token) : State × List Token :=
  (r.1, seen.map .char ++ r.2)

def stepBeforeKey (t : Tag) (b : UInt8) : State × List Token :=
  if isSpace b then (.beforeKey t, [])
  else if b = SLASH then (.selfClosing t, [])
  else if b = GREATER then emit t
  else (.key t [toLower b], [])

def stepTagName (t : Tag) (b : UInt8) : State × List Token :=
  if isSpace b then (.beforeKey t, [])
  else if b = SLASH then (.selfClosing t, [])
  else if b = GREATER then emit t
  else (.tagName { t with name := t.name ++ [toLower b] }, [])

def stepAfterKey (t : Tag) (key : Octets) (b : UInt8) : State × List Token :=
  if isSpace b then (.afterKey t key, [])
  else if b = SLASH then (.selfClosing (t.add key []), [])
  else if b = EQUALS then (.beforeValue t key, [])
  else if b = GREATER then emit (t.add key [])
  else (.key (t.add key []) [toLower b], [])

/-- A comment ends in `-->` or `--!>`, or at once. -/
def endsComment (seen : Octets) : Bool :=
  seen = [] || seen = [DASH] || seen.reverse.take 2 = [DASH, DASH] ||
    seen.reverse.take 3 = [33, DASH, DASH]

def step : State → UInt8 → State × List Token
  | .data, b => stepData b
  | .text element, b => stepText element b
  | .textLess element, b =>
    if b = SLASH then (.textEnd element [], []) else revert [LESS] (stepText element b)
  | .textEnd element seen, b =>
    if isLetter b then (.textEnd element (seen ++ [b]), [])
    else if seen.map toLower = element ∧ (isSpace b ∨ b = SLASH ∨ b = GREATER) then
      stepTagName (.closed element) b
    else revert (LESS :: SLASH :: seen) (stepText element b)
  | .plaintext, b => (.plaintext, [.char b])
  | .tagOpen, b =>
    if b = 33 then (.declaration, [])
    else if b = SLASH then (.endTagOpen, [])
    else if isLetter b then (.tagName (.opened [toLower b]), [])
    else if b = 63 then (.skipped, [])
    else revert [LESS] (stepData b)
  | .endTagOpen, b =>
    if isLetter b then (.tagName (.closed [toLower b]), [])
    else if b = GREATER then (.data, [])
    else (.skipped, [])
  | .tagName t, b => stepTagName t b
  | .beforeKey t, b => stepBeforeKey t b
  | .key t k, b =>
    if isSpace b ∨ b = SLASH ∨ b = GREATER ∨ b = EQUALS then stepAfterKey t k b
    else (.key t (k ++ [toLower b]), [])
  | .afterKey t k, b => stepAfterKey t k b
  | .beforeValue t k, b =>
    if isSpace b then (.beforeValue t k, [])
    else if b = 34 ∨ b = 39 then (.quoted b t k [], [])
    else if b = GREATER then emit (t.add k [])
    else (.unquoted t k [b], [])
  | .quoted quote t k v, b =>
    if b = quote then (.beforeKey (t.add k v), []) else (.quoted quote t k (v ++ [b]), [])
  | .unquoted t k v, b =>
    if isSpace b then (.beforeKey (t.add k v), [])
    else if b = GREATER then emit (t.add k v)
    else (.unquoted t k (v ++ [b]), [])
  | .selfClosing t, b =>
    if b = GREATER then emit { t with selfClosing := true } else stepBeforeKey t b
  | .declaration, b =>
    if b = DASH then (.declarationDash, [])
    else if b = GREATER then (.data, [])
    else (.skipped, [])
  | .declarationDash, b =>
    if b = DASH then (.comment [], [])
    else if b = GREATER then (.data, [])
    else (.skipped, [])
  | .skipped, b => if b = GREATER then (.data, []) else (.skipped, [])
  | .comment seen, b =>
    if b = GREATER ∧ endsComment seen = true then (.data, []) else (.comment (seen ++ [b]), [])

def run : State → Octets → State × List Token
  | st, [] => (st, [])
  | st, b :: s => ((run (st.step b).1 s).1, (st.step b).2 ++ (run (st.step b).1 s).2)

end State

/-- The tokens of a document. -/
def tokenize (s : Octets) : List Token := (State.run .data s).2

/-- The tags among tokens. -/
def tags (ts : List Token) : List Tag :=
  ts.filterMap fun
    | .char _ => none
    | .tag t => some t

def br : Tag := .opened (ascii "br")

/-- Text whose markup characters are all written as character references, with line
breaks. -/
inductive Escaped : Octets → Prop where
  | nil : Escaped []
  | char {b : UInt8} {s : Octets} (hb : b ∉ ascii "<>&\"'") (h : Escaped s) : Escaped (b :: s)
  | reference {s : Octets} (name : String) (hname : name ∈ ["lt", "gt", "amp", "quot", "apos"])
    (h : Escaped s) : Escaped (ascii "&" ++ ascii name ++ ascii ";" ++ s)
  | lineBreak {s : Octets} (h : Escaped s) : Escaped (ascii "<br>" ++ s)

/-- Characters and line breaks. -/
def TextOnly (ts : List Token) : Prop := ∀ t ∈ ts, t = .tag br ∨ ∃ b, t = .char b

section
variable {st : State} {s t element : Octets} {ts us : List Token}

namespace State

theorem run_append (st : State) (s t : Octets) :
    run st (s ++ t) = ((run (run st s).1 t).1, (run st s).2 ++ (run (run st s).1 t).2) := by
  induction s generalizing st with
  | nil => rfl
  | cons b s ih =>
    rw [List.cons_append, run, ih, run]
    simp only [List.append_assoc]

/-- What stands in a document before some text decides where the text is read. -/
theorem run_append_of_eq {st' : State} (h : (run st s).1 = st') :
    run st (s ++ t) = ((run st' t).1, (run st s).2 ++ (run st' t).2) := by
  rw [run_append, h]

theorem run_append_fst {st' : State} (h : (run st s).1 = st') :
    (run st (s ++ t)).1 = (run st' t).1 := by rw [run_append_of_eq h]

/-- A state that characters leave alone. -/
theorem run_chars (hstep : ∀ b ∈ s, st.step b = (st, [.char b])) :
    run st s = (st, s.map .char) := by
  induction s with
  | nil => rfl
  | cons b s ih =>
    rw [run, hstep b List.mem_cons_self, ih fun c hc => hstep c (List.mem_cons_of_mem _ hc)]
    rfl

theorem run_data (h : LESS ∉ s) : run .data s = (.data, s.map .char) := by
  apply run_chars
  intro b hb
  exact if_neg fun he : b = LESS => h (he ▸ hb)

/-- The content of an element that has only text in it. -/
theorem run_text (h : LESS ∉ s) : run (.text element) s = (.text element, s.map .char) := by
  apply run_chars
  intro b hb
  exact if_neg fun he : b = LESS => h (he ▸ hb)

end State

theorem TextOnly.append (h : TextOnly ts) (h' : TextOnly us) : TextOnly (ts ++ us) := by
  intro t ht
  exact (List.mem_append.1 ht).elim (h t) (h' t)

theorem textOnly_chars (s : Octets) : TextOnly (s.map .char) := by
  intro t ht
  obtain ⟨b, -, rfl⟩ := List.mem_map.1 ht
  exact .inr ⟨b, rfl⟩

/-- Escaped text does not leave the text that it stands in. -/
theorem Escaped.run_data (h : Escaped s) :
    (State.run .data s).1 = .data ∧ TextOnly (State.run .data s).2 := by
  have hchars {s t : Octets} (hs : LESS ∉ s)
      (ih : (State.run .data t).1 = .data ∧ TextOnly (State.run .data t).2) :
      (State.run .data (s ++ t)).1 = .data ∧ TextOnly (State.run .data (s ++ t)).2 := by
    rw [State.run_append, State.run_data hs]
    exact ⟨ih.1, (textOnly_chars s).append ih.2⟩
  induction h with
  | nil => exact ⟨rfl, fun _ ht => absurd ht List.not_mem_nil⟩
  | @char b s hb h ih =>
    refine hchars (s := [b]) (fun hlt => hb ?_) ih
    rw [← List.mem_singleton.1 hlt]
    decide
  | @reference s name hname h ih =>
    have hnames : ∀ name ∈ ["lt", "gt", "amp", "quot", "apos"],
        LESS ∉ ascii "&" ++ ascii name ++ ascii ";" := forall_mem_of_all (by decide)
    exact hchars (hnames name hname) ih
  | @lineBreak s h ih =>
    have hbr : State.run .data (ascii "<br>") = (.data, [.tag br]) := by decide
    rw [State.run_append, hbr]
    refine ⟨ih.1, TextOnly.append (fun t ht => ?_) ih.2⟩
    exact .inl (List.mem_singleton.1 ht)

/-- Text has no tags but line breaks. -/
theorem TextOnly.tags (h : TextOnly ts) : (tags ts).filter (· ≠ br) = [] := by
  rw [List.filter_eq_nil_iff]
  intro t ht
  obtain ⟨token, htoken, hsome⟩ := List.mem_filterMap.1 ht
  rcases h token htoken with rfl | ⟨b, rfl⟩
  · rw [decide_eq_true_eq, not_not]
    exact (Option.some.inj hsome).symm
  · cases hsome

theorem tags_append : tags (ts ++ us) = tags ts ++ tags us := List.filterMap_append

/-- Escaped text between the same parts of documents makes no difference for the tags. -/
theorem tags_escaped {front text rear : Octets} (hfront : (State.run .data front).1 = .data)
    (h : Escaped text) :
    (tags (tokenize (front ++ (text ++ rear)))).filter (· ≠ br) =
      (tags (tokenize front) ++ tags (tokenize rear)).filter (· ≠ br) := by
  have htext := h.run_data
  rw [tokenize, State.run_append_of_eq hfront, State.run_append_of_eq htext.1, tags_append,
    tags_append, List.filter_append, List.filter_append, htext.2.tags, List.nil_append,
    ← List.filter_append]
  rfl

end
end Html
