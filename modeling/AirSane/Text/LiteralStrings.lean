import AirSane.Text.Octets

/-! # Literal strings

Strings in parentheses as a PDF reader reads them: parentheses nest, a backslash
escapes what follows it, the ends of lines are all the same. And the dictionaries of
names and such strings that are made of them.
-/

namespace Text.Literal

/-- What a backslash and a character stand for. -/
def escapeValue (b : UInt8) : Option UInt8 :=
  if b = 110 then some 10
  else if b = 114 then some 13
  else if b = 116 then some 9
  else if b = 98 then some 8
  else if b = 102 then some 12
  else if b ∈ ascii "()\\" then some b
  else none

def octalValue (b : UInt8) : Option ℕ := if 48 ≤ b ∧ b ≤ 55 then some (b.toNat - 48) else none

/-- What the reader is in the middle of. -/
inductive Mode where
  | text
  /-- Behind a carriage return, which ends a line together with a line feed. -/
  | lineEnd
  | escape
  | octal (digits v : ℕ)

/-- What is read of a character, and how the reader goes on unless the string ends. -/
def textStep (depth : ℕ) (b : UInt8) : Octets × Option (Mode × ℕ) :=
  if b = 92 then ([], some (.escape, depth))
  else if b = 40 then ([b], some (.text, depth + 1))
  else if b = 41 then if depth = 0 then ([], none) else ([b], some (.text, depth - 1))
  else if b = CR then ([LF], some (.lineEnd, depth))
  else ([b], some (.text, depth))

def escapeStep (depth : ℕ) (b : UInt8) : Octets × Option (Mode × ℕ) :=
  match escapeValue b, octalValue b with
  | some v, _ => ([v], some (.text, depth))
  | none, some d => ([], some (.octal 1 d, depth))
  | none, none =>
    if b = CR then ([], some (.lineEnd, depth))
    else if b = LF then ([], some (.text, depth))
    else ([b], some (.text, depth))

def step : Mode → ℕ → UInt8 → Octets × Option (Mode × ℕ)
  | .text, depth, b => textStep depth b
  | .lineEnd, depth, b => if b = LF then ([], some (.text, depth)) else textStep depth b
  | .escape, depth, b => escapeStep depth b
  | .octal digits v, depth, b =>
    match octalValue b, decide (digits < 3) with
    | some d, true => ([], some (.octal (digits + 1) (8 * v + d), depth))
    | _, _ => (UInt8.ofNat v :: (textStep depth b).1, (textStep depth b).2)

/-- A string and what is behind its closing parenthesis. -/
def read : Mode → ℕ → Octets → Option (Octets × Octets)
  | _, _, [] => none
  | mode, depth, b :: s =>
    match step mode depth b with
    | (out, none) => some (out, s)
    | (out, some (mode, depth)) => (read mode depth s).map fun r => (out ++ r.1, r.2)

def isWhite (b : UInt8) : Bool := b ∈ [0, 9, 10, 12, 13, 32]

/-- The characters that names are made of. -/
def isRegular (b : UInt8) : Bool := !isWhite b && b ∉ ascii "()<>[]\x7b\x7d/%"

/-- What follows this character, if there is it. -/
def behind (c : UInt8) : Octets → Option Octets
  | [] => none
  | b :: s => if b = c then some s else none

/-- A name without escapes and a string, and what follows. -/
def readEntry (s : Octets) : Option ((Octets × Octets) × Octets) :=
  (behind 47 (s.dropWhile isWhite)).bind fun s =>
    (behind 40 ((s.dropWhile isRegular).dropWhile isWhite)).bind fun text =>
      if 35 ∈ s.takeWhile isRegular then none
      else (read .text 0 text).map fun r => ((s.takeWhile isRegular, r.1), r.2)

/-- The entries up to the end of a dictionary. -/
def readEntries : ℕ → Octets → Option (List (Octets × Octets) × Octets)
  | 0, _ => none
  | fuel + 1, s =>
    if ascii ">>" <+: s.dropWhile isWhite then some ([], (s.dropWhile isWhite).drop 2)
    else (readEntry s).bind fun r => (readEntries fuel r.2).map fun q => (r.1 :: q.1, q.2)

def readDictionary (s : Octets) : Option (List (Octets × Octets) × Octets) :=
  if ascii "<<" <+: s.dropWhile isWhite then readEntries s.length ((s.dropWhile isWhite).drop 2)
  else none

/-- What an escape of single bytes must do. -/
def Undone (f : UInt8 → Octets) : Prop :=
  ∀ b t, read .text 0 (f b ++ t) = (read .text 0 t).map fun r => (b :: r.1, r.2)

/-- A name that is printed as it is. -/
def IsName (name : Octets) : Prop := ∀ b ∈ name, isRegular b = true ∧ b ≠ 35

/-- An entry on a line of its own. -/
def printEntry (f : UInt8 → Octets) (e : Octets × Octets) : Octets :=
  47 :: (e.1 ++ 32 :: 40 :: (e.2.flatMap f ++ 41 :: [LF]))

variable {s t white : Octets} {b v : UInt8} {depth : ℕ} {f : UInt8 → Octets}
  {d : List (Octets × Octets)} {e : Octets × Octets}

/-- A backslash and a letter that it escapes. -/
theorem read_escape (h : escapeValue b = some v) :
    read .text depth (92 :: b :: t) = (read .text depth t).map fun r => (v :: r.1, r.2) := by
  have hskip : read .text depth (92 :: b :: t) = read .escape depth (b :: t) := by
    simp [read, step, textStep]
  rw [hskip, read, step, escapeStep, h]
  rfl

/-- A character that has no meaning of its own. -/
theorem read_plain (h : b ∉ ascii "()\\\r") :
    read .text depth (b :: t) = (read .text depth t).map fun r => (b :: r.1, r.2) := by
  have hne : b ≠ 40 ∧ b ≠ 41 ∧ b ≠ 92 ∧ b ≠ CR := by
    refine ⟨?_, ?_, ?_, ?_⟩ <;> rintro rfl <;> exact h (by decide)
  simp [read, step, textStep, hne]

theorem read_close : read .text 0 (41 :: t) = some ([], t) := rfl

/-- An encoded string ends where it should. -/
theorem read_flatMap (hf : Undone f) (s t : Octets) :
    read .text 0 (s.flatMap f ++ 41 :: t) = some (s, t) := by
  induction s with
  | nil => exact read_close
  | cons b s ih =>
    rw [List.flatMap_cons, List.append_assoc, hf, ih]
    rfl

theorem dropWhile_white (white : Octets) (hw : ∀ b ∈ white, isWhite b = true) (hb : isWhite b = false) :
    (white ++ b :: t).dropWhile isWhite = b :: t := by
  rw [List.dropWhile_append_of_pos hw, List.dropWhile_cons_of_neg (by simp [hb])]

theorem readEntry_printEntry (hf : Undone f) (he : IsName e.1)
    (hw : ∀ b ∈ white, isWhite b = true) (t : Octets) :
    readEntry (white ++ (printEntry f e ++ t)) = some (e, LF :: t) := by
  set text := e.2.flatMap f ++ 41 :: LF :: t with htext
  have hprint : printEntry f e ++ t = 47 :: (e.1 ++ 32 :: 40 :: text) := by
    simp [printEntry, htext]
  have hblank : isRegular 32 = false := by decide
  have hregular : ∀ b ∈ e.1, isRegular b = true := fun b hb => (he b hb).1
  have htake : (e.1 ++ 32 :: 40 :: text).takeWhile isRegular = e.1 := by
    rw [List.takeWhile_append_of_pos hregular, List.takeWhile_cons_of_neg (by simp [hblank]),
      List.append_nil]
  have hdrop : ((e.1 ++ 32 :: 40 :: text).dropWhile isRegular).dropWhile isWhite = 40 :: text := by
    rw [List.dropWhile_append_of_pos hregular, List.dropWhile_cons_of_neg (by simp [hblank])]
    exact dropWhile_white [32] (forall_mem_of_all (by decide)) (by decide)
  have hno : 35 ∉ e.1 := fun hm => (he 35 hm).2 rfl
  rw [readEntry, hprint, dropWhile_white white hw (by decide), behind, if_pos rfl, Option.bind_some, hdrop,
    behind, if_pos rfl, Option.bind_some, htake, if_neg hno, htext, read_flatMap hf]
  rfl

theorem readEntries_print (hf : Undone f) (hd : ∀ e ∈ d, IsName e.1) {fuel : ℕ}
    (hfuel : d.length < fuel) (white : Octets) (hw : ∀ b ∈ white, isWhite b = true) (t : Octets) :
    readEntries fuel (white ++ (d.flatMap (printEntry f) ++ (ascii ">>" ++ t))) = some (d, t) := by
  have hend : ascii ">>" = [62, 62] := rfl
  induction d generalizing white fuel with
  | nil =>
    obtain ⟨fuel, rfl⟩ : ∃ k, fuel = k + 1 := ⟨fuel - 1, by simp at hfuel; omega⟩
    have hskip := dropWhile_white (t := 62 :: t) white hw (by decide : isWhite 62 = false)
    rw [readEntries, hend, List.flatMap_nil, List.nil_append, List.cons_append, List.singleton_append,
      hskip, if_pos (by simp)]
    rfl
  | cons e d ih =>
    obtain ⟨fuel, rfl⟩ : ∃ k, fuel = k + 1 := ⟨fuel - 1, by simp at hfuel; omega⟩
    set rest := d.flatMap (printEntry f) ++ (ascii ">>" ++ t) with hrest
    have hsplit : (e :: d).flatMap (printEntry f) ++ (ascii ">>" ++ t) = printEntry f e ++ rest := by
      simp [hrest]
    have hslash : ∃ u, printEntry f e ++ rest = 47 :: u := ⟨_, rfl⟩
    obtain ⟨u, hu⟩ := hslash
    have hmore : ¬ ascii ">>" <+: (white ++ (printEntry f e ++ rest)).dropWhile isWhite := by
      rw [hu, dropWhile_white white hw (by decide), hend, List.cons_prefix_cons]
      exact fun h => absurd h.1 (by decide)
    have hread := readEntry_printEntry hf (hd e (by simp)) hw rest
    have hlater := ih (fun e he => hd e (by simp [he])) (by simp at hfuel; omega)
      [LF] (forall_mem_of_all (by decide))
    rw [readEntries, hsplit, if_neg hmore, hread, Option.bind_some]
    rw [List.singleton_append] at hlater
    rw [hlater]
    rfl

/-- A dictionary of names and strings is read back from its lines. -/
theorem readDictionary_print (hf : Undone f) (hd : ∀ e ∈ d, IsName e.1) (t : Octets) :
    readDictionary (ascii "<<\n" ++ (d.flatMap (printEntry f) ++ (ascii ">>" ++ t))) =
      some (d, t) := by
  have hbegin : ascii "<<\n" = 60 :: 60 :: [LF] := rfl
  have hlength : d.length ≤ (d.flatMap (printEntry f)).length := by
    induction d with
    | nil => simp
    | cons e d ih =>
      have hrest := ih fun e he => hd e (by simp [he])
      simp only [List.flatMap_cons, List.length_append, List.length_cons, printEntry]
      omega
  have hfuel : d.length < (ascii "<<\n" ++ (d.flatMap (printEntry f) ++ (ascii ">>" ++ t))).length := by
    simp only [List.length_append, hbegin, List.length_cons]
    omega
  have hread := readEntries_print hf hd hfuel [LF] (forall_mem_of_all (by decide)) t
  have hskip : (ascii "<<\n" ++ (d.flatMap (printEntry f) ++ (ascii ">>" ++ t))).dropWhile isWhite =
      ascii "<<\n" ++ (d.flatMap (printEntry f) ++ (ascii ">>" ++ t)) := by
    rw [hbegin]
    exact dropWhile_white [] (by simp) (by decide)
  have hpre : ascii "<<" <+: ascii "<<\n" ++ (d.flatMap (printEntry f) ++ (ascii ">>" ++ t)) :=
    (by decide : ascii "<<" <+: ascii "<<\n").trans (List.prefix_append _ _)
  rw [readDictionary, hskip, if_pos hpre]
  exact hread

end Text.Literal
