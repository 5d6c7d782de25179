import AirSane.Text.LiteralStrings
import Mathlib.Data.List.TakeWhile

/-! # Tokens of PDF

The tokens of a PDF file as a reader finds them, byte by byte. A keyword or a number
ends where a delimiter or white space follows, so that what a text is read as depends on
where the reader is when it begins.
-/

namespace Pdf
open Text
open Literal (Mode isWhite)

deriving instance DecidableEq for Mode

inductive Token where
  | number (n : ℤ)
  /-- A number that is not an integer. -/
  | real (s : Octets)
  | word (s : Octets)
  | name (s : Octets)
  | text (s : Octets)
  | hex (s : Octets)
  | dictOpen
  | dictClose
  | arrayOpen
  | arrayClose
  deriving DecidableEq

def isDelimiter (b : UInt8) : Bool :=
  b = 37 || b = 40 || b = 41 || b = 47 || b = 60 || b = 62 || b = 91 || b = 93 || b = 123 || b = 125

/-- The characters of names, keywords and numbers. -/
def isRegular (b : UInt8) : Bool := !isWhite b && !isDelimiter b

def isDecimal (b : UInt8) : Bool := 48 ≤ b && b ≤ 57

def isSign (b : UInt8) : Bool := b = 43 || b = 45

/-- A number without its sign. -/
def magnitude : Octets → Octets
  | [] => []
  | b :: s => if isSign b then s else b :: s

def isInteger (s : Octets) : Bool := magnitude s ≠ [] && (magnitude s).all isDecimal

/-- Digits with a point somewhere. -/
def isReal (s : Octets) : Bool :=
  (magnitude s).any isDecimal && (magnitude s).count 46 = 1 &&
    (magnitude s).all fun b => isDecimal b || b = 46

def integerValue (s : Octets) : ℤ :=
  if s.head? = some 45 then -(value 10 (magnitude s) : ℤ) else value 10 (magnitude s)

/-- What a run of regular characters is. -/
def atom (s : Octets) : Token :=
  if isInteger s then .number (integerValue s) else if isReal s then .real s else .word s

/-- Where in a file the reader is. -/
inductive State where
  | between
  | regular (s : Octets)
  | name (s : Octets)
  | literal (mode : Mode) (depth : ℕ) (s : Octets)
  | less
  | greater
  | hex (s : Octets)
  | comment
  deriving DecidableEq

namespace State

/-- A character that does not go on with the token before it. -/
def start (b : UInt8) : State × List Token :=
  if isRegular b then (.regular [b], [])
  else if isWhite b then (.between, [])
  else if b = 40 then (.literal .text 0 [], [])
  else if b = 60 then (.less, [])
  else if b = 62 then (.greater, [])
  else if b = 91 then (.between, [.arrayOpen])
  else if b = 93 then (.between, [.arrayClose])
  else if b = 47 then (.name [], [])
  else if b = 37 then (.comment, [])
  else (.between, [.word [b]])

def stepHex (s : Octets) (b : UInt8) : State × List Token :=
  if b = 62 then (.between, [.hex s])
  else if isWhite b then (.hex s, [])
  else (.hex (s ++ [b]), [])

/-- A token that is finished, and the character that shows it. -/
def finish (t : Token) (b : UInt8) : State × List Token := ((start b).1, t :: (start b).2)

def step : State → UInt8 → State × List Token
  | .between, b => start b
  | .regular s, b => if isRegular b then (.regular (s ++ [b]), []) else finish (atom s) b
  | .name s, b => if isRegular b then (.name (s ++ [b]), []) else finish (.name s) b
  | .literal mode depth s, b =>
    match Literal.step mode depth b with
    | (out, some (mode, depth)) => (.literal mode depth (s ++ out), [])
    | (out, none) => (.between, [.text (s ++ out)])
  | .less, b => if b = 60 then (.between, [.dictOpen]) else stepHex [] b
  | .greater, b => if b = 62 then (.between, [.dictClose]) else finish (.word [62]) b
  | .hex s, b => stepHex s b
  | .comment, b => if b = CR ∨ b = LF then (.between, []) else (.comment, [])

def run : State → Octets → State × List Token
  | st, [] => (st, [])
  | st, b :: s => ((run (st.step b).1 s).1, (st.step b).2 ++ (run (st.step b).1 s).2)

end State

/-- The tokens up to one that is looked for, that one, and what follows the character
that has ended it. -/
def readTo (stop : Token → Bool) : State → Octets → Option (List Token × Token × Octets)
  | _, [] => none
  | st, b :: s =>
    match (st.step b).2.dropWhile fun t => !stop t with
    | t :: _ => some ((st.step b).2.takeWhile fun t => !stop t, t, s)
    | [] => (readTo stop (st.step b).1 s).map fun r => ((st.step b).2 ++ r.1, r.2)

/-- A part of a text with the tokens that it is: as it stands, or a run of regular
characters. -/
inductive Part where
  | fixed (s : Octets) (ts : List Token)
  | atom (s : Octets) (t : Token)

def Part.print : Part → Octets
  | .fixed s _ => s
  | .atom s _ => s

def Part.tokens : Part → List Token
  | .fixed _ ts => ts
  | .atom _ t => [t]

/-- Some regular characters, and no others. -/
def Regular (s : Octets) : Prop := s ≠ [] ∧ ∀ b ∈ s, isRegular b = true

/-- A run of regular characters ends where this begins. -/
def isDelimited : Octets → Bool
  | [] => false
  | b :: _ => !isRegular b

/-- Parts that do not run into each other, and are the tokens that they say. -/
inductive Fits : List Part → Prop where
  | nil : Fits []
  | fixed {s : Octets} {ts : List Token} {ps : List Part}
    (hs : State.run .between s = (.between, ts)) (h : Fits ps) : Fits (.fixed s ts :: ps)
  | atom {s u : Octets} {t : Token} {ts : List Token} {ps : List Part} (hs : Regular s)
    (ht : Pdf.atom s = t) (hu : isDelimited u = true) (h : Fits (.fixed u ts :: ps)) :
    Fits (.atom s t :: .fixed u ts :: ps)

section
variable {st st' : State} {s t : Octets} {b : UInt8} {stop : Token → Bool} {ts us : List Token}
  {ps qs : List Part} {k : Token} {n : ℕ}

namespace State

theorem run_append (st : State) (s t : Octets) :
    run st (s ++ t) = ((run (run st s).1 t).1, (run st s).2 ++ (run (run st s).1 t).2) := by
  induction s generalizing st with
  | nil => rfl
  | cons b s ih =>
    rw [List.cons_append, run, ih, run]
    simp only [List.append_assoc]

theorem run_regular (u : Octets) (h : ∀ b ∈ s, isRegular b = true) :
    run (.regular u) s = (.regular (u ++ s), []) := by
  induction s generalizing u with
  | nil => rw [List.append_nil, run]
  | cons b s ih =>
    have hb : step (.regular u) b = (.regular (u ++ [b]), []) := if_pos (h b List.mem_cons_self)
    rw [run, hb, ih (u ++ [b]) fun c hc => h c (List.mem_cons_of_mem _ hc), List.append_assoc]
    rfl

theorem run_atom (h : Regular s) : run .between s = (.regular s, []) := by
  obtain ⟨b, s, rfl⟩ := List.exists_cons_of_ne_nil h.1
  have hb : step .between b = (.regular [b], []) := if_pos (h.2 b List.mem_cons_self)
  rw [run, hb, run_regular [b] fun c hc => h.2 c (List.mem_cons_of_mem _ hc)]
  rfl

theorem step_regular (h : isRegular b = false) : step (.regular s) b = finish (atom s) b :=
  if_neg (by simp [h])

/-- A run of regular characters is a token as soon as another character follows. -/
theorem run_delimited (h : isDelimited t = true) :
    run (.regular s) t = ((run .between t).1, atom s :: (run .between t).2) := by
  cases t with
  | nil => cases h
  | cons b t =>
    rw [run, step_regular (by simpa [isDelimited] using h)]
    rfl

theorem run_hexDigits (u : Octets) (h : ∀ b ∈ s, isRegular b = true) :
    run (.hex u) s = (.hex (u ++ s), []) := by
  induction s generalizing u with
  | nil => rw [List.append_nil, run]
  | cons b s ih =>
    have hb := h b List.mem_cons_self
    have hne : b ≠ 62 := by
      rintro rfl
      exact absurd hb (by decide)
    have hwhite : isWhite b = false := by
      rw [isRegular, Bool.and_eq_true, Bool.not_eq_true'] at hb
      exact hb.1
    have hb : step (.hex u) b = (.hex (u ++ [b]), []) := by simp [step, stepHex, hne, hwhite]
    rw [run, hb, ih (u ++ [b]) fun c hc => h c (List.mem_cons_of_mem _ hc), List.append_assoc]
    rfl

/-- A string in hexadecimal digits. -/
theorem run_hex (h : ∀ b ∈ s, isRegular b = true) :
    run .between (ascii "<" ++ (s ++ ascii ">")) = (.between, [.hex s]) := by
  cases s with
  | nil => decide
  | cons b s =>
    have hless : run .between (ascii "<") = (.less, []) := by decide
    have hne : b ≠ 60 := by
      rintro rfl
      exact absurd (h 60 List.mem_cons_self) (by decide)
    have hb : step .less b = step (.hex []) b := if_neg hne
    have hsame : run .less (b :: s ++ ascii ">") = run (.hex []) (b :: s ++ ascii ">") := by
      rw [List.cons_append, run, run, hb]
    have hend : run (.hex (b :: s)) (ascii ">") = (.between, [.hex (b :: s)]) := rfl
    rw [run_append, hless, hsame, run_append, run_hexDigits [] h, List.nil_append, hend]
    rfl

end State

theorem run_parts (h : Fits ps) :
    State.run .between (ps.flatMap Part.print) = (.between, ps.flatMap Part.tokens) := by
  induction h with
  | nil => rfl
  | fixed hs h ih =>
    rw [List.flatMap_cons, Part.print, State.run_append, hs, ih]
    rfl
  | @atom s u t ts ps hs ht hu h ih =>
    rw [List.flatMap_cons, Part.print, State.run_append, State.run_atom hs]
    have hd : isDelimited ((Part.fixed u ts :: ps).flatMap Part.print) = true := by
      cases u with
      | nil => cases hu
      | cons b u => exact hu
    rw [State.run_delimited hd, ih, ht]
    rfl

theorem Fits.append (h : Fits ps) (h' : Fits qs) : Fits (ps ++ qs) := by
  induction h with
  | nil => exact h'
  | fixed hs _ ih => exact .fixed hs ih
  | atom hs ht hu _ ih => exact .atom hs ht hu ih

theorem Fits.flatMap {α : Type} {f : α → List Part} {as : List α}
    (h : ∀ a ∈ as, Fits (f a)) : Fits (as.flatMap f) := by
  induction as with
  | nil => exact .nil
  | cons a as ih =>
    exact (h a List.mem_cons_self).append (ih fun x hx => h x (List.mem_cons_of_mem _ hx))

/-- Text in which nothing is found that is looked for. -/
theorem readTo_append (h : State.run st s = (st', ts)) (hts : ∀ t ∈ ts, stop t = false) :
    readTo stop st (s ++ t) = (readTo stop st' t).map fun r => (ts ++ r.1, r.2) := by
  induction s generalizing st ts with
  | nil =>
    obtain ⟨rfl, rfl⟩ := Prod.mk.inj h
    simp
  | cons b s ih =>
    obtain ⟨rfl, rfl⟩ := Prod.mk.inj h
    have hb : ((st.step b).2.dropWhile fun t => !stop t) = [] := by
      rw [List.dropWhile_eq_nil_iff]
      intro t ht
      rw [hts t (List.mem_append_left _ ht)]
      rfl
    rw [List.cons_append, readTo, hb, ih rfl fun t ht => hts t (List.mem_append_right _ ht)]
    simp only [Option.map_map, Function.comp_def, List.append_assoc]

/-- A keyword at the end of a line. -/
theorem readTo_word (h : Regular s) (hs : stop (atom s) = true) :
    readTo stop .between (s ++ LF :: t) = some ([], atom s, t) := by
  rw [readTo_append (State.run_atom h) (by simp), readTo, State.step_regular (by decide)]
  have hstart : State.start LF = (.between, []) := by decide
  simp [State.finish, hstart, hs]

/-- Parts, and a keyword at the end of a line behind them. -/
theorem readTo_parts (stop : Token → Bool) (h : Fits ps) (hps : ∀ t ∈ ps.flatMap Part.tokens, stop t = false)
    (hs : Regular s) (hstop : stop (atom s) = true) :
    readTo stop .between (ps.flatMap Part.print ++ (s ++ LF :: t)) =
      some (ps.flatMap Part.tokens, atom s, t) := by
  rw [readTo_append (run_parts h) hps, readTo_word hs hstop]
  simp

/-- The digits are those of the decimal system. -/
theorem isDecimal_of_mem_numeral (h : b ∈ numeral 10 n) : isDecimal b = true := by
  have hdigit : ∀ d < 10, isDecimal (digit d) = true := by decide
  unfold numeral at h
  split at h
  · obtain rfl := List.mem_singleton.1 h
    decide
  · obtain ⟨d, hd, rfl⟩ := List.mem_map.1 h
    exact hdigit d (Nat.digits_lt_base (by omega) (List.mem_reverse.1 hd))

theorem regular_of_decimal (b : UInt8) : isDecimal b = true → isRegular b = true :=
  forall_byte (p := fun b => isDecimal b = true → isRegular b = true) (by decide +kernel) b

theorem not_sign_of_decimal (h : isDecimal b = true) : isSign b = false := by
  rw [isSign, Bool.or_eq_false_iff, decide_eq_false_iff_not, decide_eq_false_iff_not]
  constructor <;> (rintro rfl; exact absurd h (by decide))

theorem regular_digits (hs : s ≠ []) (h : ∀ b ∈ s, isDecimal b = true) : Regular s :=
  ⟨hs, fun b hb => regular_of_decimal b (h b hb)⟩

theorem atom_digits (hs : s ≠ []) (h : ∀ b ∈ s, isDecimal b = true) :
    atom s = .number (value 10 s) := by
  obtain ⟨b, s, rfl⟩ := List.exists_cons_of_ne_nil hs
  have hb := h b List.mem_cons_self
  have hsign : magnitude (b :: s) = b :: s := by simp [magnitude, not_sign_of_decimal hb]
  have hall : (b :: s).all isDecimal = true := List.all_eq_true.2 h
  have hminus : b ≠ 45 := by
    rintro rfl
    exact absurd hb (by decide)
  rw [atom, isInteger, hsign, hall, if_pos (by simp), integerValue, hsign, if_neg (by simpa)]

theorem atom_negative (hs : s ≠ []) (h : ∀ b ∈ s, isDecimal b = true) :
    atom (45 :: s) = .number (-(value 10 s : ℤ)) := by
  have hsign : magnitude (45 :: s) = s := rfl
  have hall : s.all isDecimal = true := List.all_eq_true.2 h
  rw [atom, isInteger, hsign, hall, if_pos (by simp [hs]), integerValue, hsign,
    if_pos List.head?_cons]

theorem regular_numeral : Regular (numeral 10 n) :=
  regular_digits numeral_ne_nil fun _ => isDecimal_of_mem_numeral

theorem atom_numeral : atom (numeral 10 n) = .number n := by
  rw [atom_digits numeral_ne_nil fun _ => isDecimal_of_mem_numeral,
    value_numeral (by omega) (by omega)]

end
end Pdf
