import AirSane.Web.Response

/-! # HTTP requests

The constructor of `HttpServer::Request` over the bytes up to the end of the
stream, what a complete head is, and the streams that the constructor takes for
one although they end inside.
-/

namespace AirSane.Web
open Text

def COLON : UInt8 := 58

/-- `std::getline`: the text up to the next line feed or the end, and what is
left. It fails at the end of the stream. -/
def getline (s : Octets) : Option (Octets × Octets) :=
  if s = [] then none
  else some (s.takeWhile (· ≠ LF), (s.dropWhile (· ≠ LF)).drop 1)

/-- The words that `>>` extracts one after the other. -/
def tokens (line : Octets) : List Octets := (line.splitOnP isspace).filter fun w => w ≠ []

structure Request where
  mValid : Bool
  mMethod : Octets
  mUri : Octets
  mProtocol : Octets
  mHeaders : Dictionary
  /-- What the constructor leaves in the stream. -/
  rest : Octets

namespace Request

/-- The header line `key:value`, with the carriage return that it ends in. -/
def addHeader (d : Dictionary) (line : Octets) : Dictionary :=
  d.assign (ctolower (ctrim (line.takeWhile (· ≠ COLON))))
    (ctrim ((line.dropWhile (· ≠ COLON)).drop 1))

/-- The loop over the header lines, which takes a line in every pass. -/
def readHeaders : ℕ → Request → Request
  | 0, r => r
  | fuel + 1, r =>
    match getline r.rest with
    | none => r
    | some (line, rest) =>
      if line = [CR] then { r with rest := rest }
      else if line.getLast? ≠ some CR ∨ COLON ∉ line then { r with mValid := false, rest := rest }
      else readHeaders fuel { r with mHeaders := addHeader r.mHeaders line, rest := rest }

/-- The request line. A stream that is at its end leaves the request valid. -/
def readRequestLine (s : Octets) : Request :=
  match getline s with
  | none => ⟨true, [], [], [], [], s⟩
  | some (line, rest) =>
    match tokens line with
    | method :: uri :: protocol :: _ => ⟨true, method, uri, protocol, [], rest⟩
    | [method, uri] => ⟨false, method, uri, [], [], rest⟩
    | [method] => ⟨false, method, [], [], [], rest⟩
    | [] => ⟨false, [], [], [], [], rest⟩

/-- The constructor. -/
def read (s : Octets) : Request :=
  let r := readRequestLine s
  if r.mValid then readHeaders (r.rest.length + 1) r else r

end Request

/-- Header lines and the empty line that ends a head, with what follows. -/
inductive HeaderLines : Octets → Octets → Prop where
  | blank (rest : Octets) : HeaderLines (crlf ++ rest) rest
  | line {l t rest : Octets} (hl : LF ∉ l) (hc : COLON ∈ l) (h : HeaderLines t rest) :
    HeaderLines (l ++ crlf ++ t) rest

/-- Header lines that end before the line feed of the empty line. -/
inductive CutLines : Octets → Prop where
  | nil : CutLines []
  | blank : CutLines [CR]
  | last {l : Octets} (hl : LF ∉ l) (hc : COLON ∈ l) : CutLines (l ++ [CR])
  | line {l t : Octets} (hl : LF ∉ l) (hc : COLON ∈ l) (h : CutLines t) :
    CutLines (l ++ crlf ++ t)

/-- A line with at least three words. -/
def RequestLine (l : Octets) : Prop := LF ∉ l ∧ 3 ≤ (tokens l).length

/-- A request line, header lines and an empty line. -/
def CompleteHead (s rest : Octets) : Prop :=
  ∃ l t, s = l ++ LF :: t ∧ RequestLine l ∧ HeaderLines t rest

/-- The stream ends before a head does that is well formed so far. -/
def EndsInside (s : Octets) : Prop :=
  s = [] ∨ RequestLine s ∨ ∃ l t, s = l ++ LF :: t ∧ RequestLine l ∧ CutLines t

section
variable {l t s rest : Octets}

theorem getline_line (h : LF ∉ l) : getline (l ++ LF :: t) = some (l, t) := by
  have hp : ∀ b ∈ l, decide (b ≠ LF) = true := by
    intro b hb
    simpa using fun he : b = LF => h (he ▸ hb)
  have htake : (l ++ LF :: t).takeWhile (· ≠ LF) = l := by
    rw [List.takeWhile_append_of_pos hp]
    simp
  have hdrop : (l ++ LF :: t).dropWhile (· ≠ LF) = LF :: t := by
    rw [List.dropWhile_append_of_pos hp]
    simp
  rw [getline, if_neg (by simp), htake, hdrop]
  rfl

theorem getline_last (h : LF ∉ l) (hne : l ≠ []) : getline l = some (l, []) := by
  have hp : ∀ b ∈ l, decide (b ≠ LF) = true := by
    intro b hb
    simpa using fun he : b = LF => h (he ▸ hb)
  have htake : (l ++ []).takeWhile (· ≠ LF) = l ++ [].takeWhile (· ≠ LF) :=
    List.takeWhile_append_of_pos hp
  have hdrop : (l ++ []).dropWhile (· ≠ LF) = [].dropWhile (· ≠ LF) :=
    List.dropWhile_append_of_pos hp
  simp only [List.append_nil, List.takeWhile_nil, List.dropWhile_nil] at htake hdrop
  rw [getline, if_neg hne, htake, hdrop]
  rfl

/-- A stream is at its end, in its last line, or before another line. -/
theorem stream_cases (s : Octets) :
    s = [] ∨ (s ≠ [] ∧ LF ∉ s) ∨ ∃ l t, s = l ++ LF :: t ∧ LF ∉ l := by
  by_cases hs : s = []
  · exact .inl hs
  · by_cases hm : LF ∈ s
    · exact .inr (.inr (List.eq_append_cons_of_mem hm))
    · exact .inr (.inl ⟨hs, hm⟩)

/-- The first line of a text is determined. -/
theorem line_inj {l l' t t' : Octets} (hl : LF ∉ l) (hl' : LF ∉ l')
    (h : l ++ LF :: t = l' ++ LF :: t') : l = l' ∧ t = t' := by
  have h₁ := getline_line (t := t) hl
  rw [h, getline_line hl'] at h₁
  simpa [eq_comm] using h₁

theorem header_eq (l t : Octets) : l ++ crlf ++ t = (l ++ [CR]) ++ LF :: t := by
  simp [crlf]

theorem not_mem_header (hl : LF ∉ l) : LF ∉ l ++ [CR] := by
  have hne : LF ≠ CR := by decide
  simp [hl, hne]

theorem header_ne (hc : COLON ∈ l) : l ++ [CR] ≠ [CR] := by
  intro h
  have hnil : l = [] := by simpa using h
  simp [hnil] at hc

/-- Complete header lines are not cut off as well. -/
theorem HeaderLines.not_cut (h : HeaderLines t rest) : ¬ CutLines t := by
  induction h with
  | blank rest =>
    intro hcut
    generalize ht : crlf ++ rest = t at hcut
    have hline : [CR] ++ LF :: rest = t := by simpa [crlf] using ht
    cases hcut with
    | nil => simp at hline
    | blank => simp at hline
    | @last l hl hc =>
      apply not_mem_header hl
      rw [← hline]
      simp
    | @line l t' hl hc h =>
      rw [header_eq] at hline
      exact header_ne hc (line_inj (by decide) (not_mem_header hl) hline).1.symm
  | @line l t rest hl hc h ih =>
    intro hcut
    generalize ht : l ++ crlf ++ t = s at hcut
    rw [header_eq] at ht
    cases hcut with
    | nil => simp at ht
    | blank =>
      have hmem : LF ∈ [CR] := by
        rw [← ht]
        simp
      exact absurd hmem (by decide)
    | @last l' hl' hc' =>
      apply not_mem_header hl'
      rw [← ht]
      simp
    | @line l' t' hl' hc' h' =>
      rw [header_eq] at ht
      obtain ⟨-, rfl⟩ := line_inj (not_mem_header hl) (not_mem_header hl') ht
      exact ih h'

namespace Request
variable {fuel : ℕ} {d : Dictionary} {m u p : Octets}

/-- A pass over a header line. -/
theorem readHeaders_line {r : Request} (hl : LF ∉ l) (hc : COLON ∈ l)
    (hr : r.rest = l ++ crlf ++ t) :
    readHeaders (fuel + 1) r =
      readHeaders fuel { r with mHeaders := addHeader r.mHeaders (l ++ [CR]), rest := t } := by
  rw [readHeaders, hr, header_eq, getline_line (not_mem_header hl)]
  simp [header_ne hc, hc]

theorem readHeaders_blank {r : Request} (hr : r.rest = crlf ++ rest) :
    readHeaders (fuel + 1) r = { r with rest := rest } := by
  have hline : r.rest = [CR] ++ LF :: rest := by simp [hr, crlf]
  rw [readHeaders, hline, getline_line (by decide)]
  simp

theorem readHeaders_nil {r : Request} (hr : r.rest = []) : readHeaders fuel r = r := by
  cases fuel with
  | zero => rfl
  | succ fuel => simp [readHeaders, hr, getline]

/-- Header lines that are cut off leave the request valid. -/
theorem readHeaders_cut (h : CutLines t) {r : Request} (hf : t.length < fuel) (hr : r.rest = t)
    (hv : r.mValid = true) : (readHeaders fuel r).mValid = true := by
  induction h generalizing r fuel with
  | nil => rw [readHeaders_nil hr, hv]
  | blank =>
    obtain ⟨fuel, rfl⟩ : ∃ k, fuel = k + 1 := ⟨fuel - 1, by omega⟩
    rw [readHeaders, hr, getline_last (by decide) (by simp)]
    simpa using hv
  | @last l hl hc =>
    obtain ⟨fuel, rfl⟩ : ∃ k, fuel = k + 1 := ⟨fuel - 1, by omega⟩
    rw [readHeaders, hr, getline_last (not_mem_header hl) (by simp)]
    simp only [header_ne hc, if_false]
    rw [if_neg (by simp [hc]), readHeaders_nil rfl]
    exact hv
  | @line l t hl hc h ih =>
    obtain ⟨fuel, rfl⟩ : ∃ k, fuel = k + 1 := ⟨fuel - 1, by omega⟩
    rw [readHeaders_line hl hc hr]
    have hlen : t.length < fuel := by
      simp [crlf] at hf
      omega
    exact ih hlen rfl hv

/-- A line without its carriage return. -/
theorem line_cases (h : ¬ (l.getLast? ≠ some CR ∨ COLON ∉ l)) :
    ∃ k, l = k ++ [CR] ∧ COLON ∈ k := by
  simp only [ne_eq, not_or, not_not] at h
  obtain ⟨hlast, hc⟩ := h
  obtain ⟨k, hk⟩ := List.getLast?_eq_some_iff.1 hlast
  refine ⟨k, hk, ?_⟩
  have hcr : COLON ≠ CR := by decide
  simpa [hk, hcr] using hc

/-- A request that stays valid has read a complete head, or what the stream had
of one. -/
theorem readHeaders_valid {r : Request} (hf : r.rest.length < fuel)
    (h : (readHeaders fuel r).mValid = true) :
    HeaderLines r.rest (readHeaders fuel r).rest ∨ CutLines r.rest := by
  induction fuel generalizing r with
  | zero => omega
  | succ fuel ih =>
    rcases stream_cases r.rest with hs | ⟨hne, hl⟩ | ⟨l, t, hs, hl⟩
    · rw [hs]
      exact .inr .nil
    · rw [readHeaders, getline_last hl hne] at h
      by_cases hcr : r.rest = [CR]
      · rw [hcr]
        exact .inr .blank
      · simp only [hcr, if_false] at h
        split at h
        · cases h
        · rename_i hgood
          obtain ⟨k, hk, hc⟩ := line_cases hgood
          rw [hk] at hl ⊢
          exact .inr (.last (fun hm => hl (by simp [hm])) hc)
    · rw [readHeaders, hs, getline_line hl] at h ⊢
      by_cases hcr : l = [CR]
      · simp only [hcr, if_true]
        exact .inl (.blank t)
      · simp only [hcr, if_false] at h ⊢
        split at h
        · cases h
        · rename_i hgood
          obtain ⟨k, rfl, hc⟩ := line_cases hgood
          have hk : LF ∉ k := fun hm => hl (by simp [hm])
          have hlen : t.length < fuel := by
            rw [hs] at hf
            simp at hf
            omega
          rw [if_neg hgood, ← header_eq]
          exact (ih hlen h).imp (.line hk hc) (.line hk hc)

/-- The request line is good if and only if it has three words. -/
theorem readRequestLine_of_getline (h : getline s = some (l, t)) :
    ((readRequestLine s).mValid = true ↔ 3 ≤ (tokens l).length) ∧ (readRequestLine s).rest = t := by
  rw [readRequestLine, h]
  dsimp only
  generalize tokens l = words
  rcases words with _ | ⟨m, _ | ⟨u, _ | ⟨p, ws⟩⟩⟩ <;> simp

theorem read_of_invalid (h : (readRequestLine s).mValid ≠ true) : (read s).mValid ≠ true := by
  simp [read, h]

theorem read_of_valid (h : (readRequestLine s).mValid = true) :
    read s = readHeaders ((readRequestLine s).rest.length + 1) (readRequestLine s) := by
  simp [read, h]

/-- A stream that ends inside a head makes a valid request all the same. -/
theorem valid_of_endsInside (h : EndsInside s) : (read s).mValid = true := by
  rcases h with rfl | ⟨hl, hw⟩ | ⟨l, t, rfl, ⟨hl, hw⟩, hcut⟩
  · rfl
  · have hne : s ≠ [] := by
      rintro rfl
      exact absurd hw (by decide)
    obtain ⟨hv, hr⟩ := readRequestLine_of_getline (getline_last hl hne)
    rw [read_of_valid (hv.2 hw), readHeaders_nil hr]
    exact hv.2 hw
  · obtain ⟨hv, hr⟩ := readRequestLine_of_getline (getline_line (t := t) hl)
    rw [read_of_valid (hv.2 hw), hr]
    exact readHeaders_cut hcut (by omega) hr (hv.2 hw)

theorem not_complete_of_endsInside (h : EndsInside s) : ¬ CompleteHead s rest := by
  rintro ⟨l, t, hs, ⟨hl, -⟩, hh⟩
  rcases h with rfl | ⟨hl', -⟩ | ⟨l', t', hs', ⟨hl', -⟩, hcut⟩
  · simp at hs
  · simp [hs] at hl'
  · obtain ⟨-, rfl⟩ := line_inj hl hl' (hs.symm.trans hs')
    exact hh.not_cut hcut

/-- A valid request has a complete head, and nothing past it is consumed, unless
the stream ends inside of the head. -/
theorem complete_iff (s : Octets) :
    ((read s).mValid = true → CompleteHead s (read s).rest) ↔ ¬ EndsInside s := by
  constructor
  · exact fun h hin => not_complete_of_endsInside hin (h (valid_of_endsInside hin))
  · intro hin hv
    by_cases hfirst : (readRequestLine s).mValid = true
    · rw [read_of_valid hfirst] at hv ⊢
      rcases stream_cases s with rfl | ⟨hne, hl⟩ | ⟨l, t, rfl, hl⟩
      · exact absurd (.inl rfl) hin
      · obtain ⟨hw, -⟩ := readRequestLine_of_getline (getline_last hl hne)
        exact absurd (.inr (.inl ⟨hl, hw.1 hfirst⟩)) hin
      · obtain ⟨hw, hr⟩ := readRequestLine_of_getline (getline_line (t := t) hl)
        have hline : RequestLine l := ⟨hl, hw.1 hfirst⟩
        rcases readHeaders_valid (by omega) hv with hh | hcut
        · refine ⟨l, _, ?_, hline, hh⟩
          rw [hr]
        · rw [hr] at hcut
          exact absurd (.inr (.inr ⟨l, t, rfl, hline, hcut⟩)) hin
    · exact absurd hv (read_of_invalid hfirst)

/-- No bytes at all are a valid request, and so are a request line and a header
line without an empty line. -/
theorem valid_without_head :
    ¬ (∀ s, (read s).mValid = true → CompleteHead s (read s).rest) ∧
      (read []).mValid = true ∧ (read []).mMethod = [] ∧
      (read (ascii "GET / HTTP/1.1\r\nHost: a\r\n")).mValid = true := by
  refine ⟨fun h => ?_, by decide, by decide, by decide +kernel⟩
  obtain ⟨l, t, hs, -⟩ := h [] (by decide)
  simp at hs

end Request
end
end AirSane.Web
