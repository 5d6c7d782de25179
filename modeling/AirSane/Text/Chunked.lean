import AirSane.Text.Octets

/-! # The chunked transfer coding

A body in chunks, and the reader that finds its end in whatever follows it.
-/

namespace Text

def chunk (data : Octets) : Octets := numeral 16 data.length ++ crlf ++ data ++ crlf

def lastChunk : Octets := digit 0 :: crlf ++ crlf

def encodeChunks (pieces : List Octets) : Octets := (pieces.map chunk).flatten ++ lastChunk

def isDigit (b : UInt8) : Bool := (digitValue b).isSome

def skipCrlf : Octets → Option Octets
  | 13 :: 10 :: rest => some rest
  | _ => none

/-- A number up to the end of its line. -/
def readSize (s : Octets) : Option (ℕ × Octets) :=
  if s.takeWhile isDigit = [] then none
  else (skipCrlf (s.dropWhile isDigit)).map fun rest => (value 16 (s.takeWhile isDigit), rest)

/-- Chunks up to the empty one, and what follows it. -/
def readChunks : ℕ → Octets → Option (Octets × Octets)
  | 0, _ => none
  | fuel + 1, s => do
    let (n, rest) ← readSize s
    if n = 0 then return ([], ← skipCrlf rest)
    else if rest.length < n then none
    else
      let (payload, tail) ← readChunks fuel (← skipCrlf (rest.drop n))
      return (rest.take n ++ payload, tail)

/-- Every chunk takes at least one octet. -/
def decodeChunks (s : Octets) : Option (Octets × Octets) := readChunks (s.length + 1) s

section
variable {s data tail : Octets}

@[simp] theorem skipCrlf_crlf : skipCrlf (crlf ++ tail) = some tail := rfl

theorem readSize_numeral (n : ℕ) : readSize (numeral 16 n ++ crlf ++ tail) = some (n, tail) := by
  have hdigit : ∀ b ∈ numeral 16 n, isDigit b = true := by
    intro b hb
    obtain ⟨d, hd⟩ := numeral_digit (by omega) (by omega) hb
    simp [isDigit, hd]
  have hstop : isDigit CR = false := by decide
  have htake : (numeral 16 n ++ crlf ++ tail).takeWhile isDigit = numeral 16 n := by
    rw [List.append_assoc, List.takeWhile_append_of_pos hdigit]
    simp [crlf, hstop]
  have hdrop : (numeral 16 n ++ crlf ++ tail).dropWhile isDigit = crlf ++ tail := by
    rw [List.append_assoc, List.dropWhile_append_of_pos hdigit]
    simp [crlf, hstop]
  rw [readSize, htake, hdrop, if_neg numeral_ne_nil, skipCrlf_crlf,
    value_numeral (by omega) (by omega)]
  rfl

theorem readChunks_last (fuel : ℕ) : readChunks (fuel + 1) (lastChunk ++ tail) = some ([], tail) := by
  have hsize : readSize (lastChunk ++ tail) = some (0, crlf ++ tail) := readSize_numeral 0
  simp [readChunks, hsize]

theorem readChunks_chunk (fuel : ℕ) (hd : data ≠ []) :
    readChunks (fuel + 1) (chunk data ++ s) =
      (readChunks fuel s).map fun r => (data ++ r.1, r.2) := by
  have hsize : readSize (chunk data ++ s) = some (data.length, data ++ (crlf ++ s)) := by
    simp only [chunk, List.append_assoc]
    rw [← List.append_assoc]
    exact readSize_numeral _
  have hlen : data.length ≠ 0 := by simpa using hd
  have hfit : ¬ (data ++ (crlf ++ s)).length < data.length := by simp
  simp only [readChunks, hsize, Option.bind_eq_bind, Option.bind_some, hlen, if_false, hfit,
    List.drop_left, skipCrlf_crlf, List.take_left]
  cases readChunks fuel s with
  | none => rfl
  | some r => rfl

theorem readChunks_encode (pieces : List Octets) (hp : ∀ p ∈ pieces, p ≠ []) {fuel : ℕ}
    (hf : pieces.length < fuel) :
    readChunks fuel (encodeChunks pieces ++ tail) = some (pieces.flatten, tail) := by
  induction pieces generalizing fuel with
  | nil =>
    obtain ⟨fuel, rfl⟩ : ∃ k, fuel = k + 1 := ⟨fuel - 1, by simp at hf; omega⟩
    exact readChunks_last fuel
  | cons p pieces ih =>
    obtain ⟨fuel, rfl⟩ : ∃ k, fuel = k + 1 := ⟨fuel - 1, by simp at hf; omega⟩
    have hrest : readChunks fuel (encodeChunks pieces ++ tail) = some (pieces.flatten, tail) := by
      apply ih fun q hq => hp q (by simp [hq])
      simpa using hf
    have hsplit : encodeChunks (p :: pieces) ++ tail = chunk p ++ (encodeChunks pieces ++ tail) := by
      simp [encodeChunks]
    rw [hsplit, readChunks_chunk fuel (hp p (by simp)), hrest]
    simp

theorem length_le_encode (pieces : List Octets) :
    pieces.length ≤ (encodeChunks pieces).length := by
  induction pieces with
  | nil => simp
  | cons p pieces ih =>
    have hlen : (encodeChunks (p :: pieces)).length = (chunk p).length + (encodeChunks pieces).length := by
      simp [encodeChunks]
    have hpos : 1 ≤ (chunk p).length := by
      simp [chunk, crlf]
      omega
    rw [hlen, List.length_cons]
    omega

/-- A chunked body is read back, and its end is found whatever follows. -/
theorem decode_encodeChunks (pieces : List Octets) (hp : ∀ p ∈ pieces, p ≠ []) (tail : Octets) :
    decodeChunks (encodeChunks pieces ++ tail) = some (pieces.flatten, tail) := by
  apply readChunks_encode pieces hp
  have hle := length_le_encode pieces
  rw [List.length_append]
  omega

end
end Text
