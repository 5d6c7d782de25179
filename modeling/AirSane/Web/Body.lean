import AirSane.Web.Request
import AirSane.Basic.Strtonum
import Mathlib.Data.List.DropRight

/-! # Request bodies

`HttpServer::Request::content` and `contentLength` over the bytes that the
constructor leaves in the stream. A body is read as the client sent it if the
client sent all of it and its length is a whole number, and not otherwise unless
the number it is taken for is negative.
-/

namespace AirSane.Web
open Text

/-- A request, and what `content` has read of its body. -/
structure Received extends Request where
  mContent : Octets

section
variable (machine : Option ℚ → ℤ)

def Request.contentLength (r : Request) : ℤ :=
  if r.mHeaders.hasKey HTTP_HEADER_CONTENT_LENGTH then
    toInt machine (r.mHeaders.getNumber HTTP_HEADER_CONTENT_LENGTH)
  else -1

/-- A stream that ends early leaves the zeros that the buffer was made of. -/
def Received.content (r : Received) : Octets × Received :=
  if r.mContent = [] ∧ 0 ≤ r.contentLength machine then
    let length := (r.contentLength machine).toNat
    let mContent := r.rest.take length ++ List.replicate (length - r.rest.length) 0
    (mContent, { r with mContent := mContent, rest := r.rest.drop length })
  else (r.mContent, r)

/-- A request after so many calls of `content`. -/
def Received.after (r : Received) : ℕ → Received
  | 0 => r
  | k + 1 => ((r.after k).content machine).2

/-- What the call of `content` after so many others returns. -/
def Request.contentAt (r : Request) (k : ℕ) : Octets :=
  ((Received.after machine { r with mContent := [] } k).content machine).1

end

/-- The header lines of a head, as what stands before and after the first colon,
up to the empty line, and what follows it. -/
inductive Fields : Octets → List (Octets × Octets) → Octets → Prop where
  | blank (body : Octets) : Fields (crlf ++ body) [] body
  | line {name v t body : Octets} {fields : List (Octets × Octets)} (hn : COLON ∉ name)
    (hl : LF ∉ name ++ COLON :: v) (h : Fields t fields body) :
    Fields (name ++ COLON :: v ++ crlf ++ t) ((name, v) :: fields) body

/-- A request line and header lines, with the body. -/
def Message (s : Octets) (fields : List (Octets × Octets)) (body : Octets) : Prop :=
  ∃ l t, s = l ++ LF :: t ∧ RequestLine l ∧ Fields t fields body

/-- The line `name: value` of a head. -/
def addField (d : Dictionary) (e : Octets × Octets) : Dictionary :=
  d.assign (ctolower (ctrim e.1)) (ctrim e.2)

/-- The value of the last field of that name. -/
def fieldValue (fields : List (Octets × Octets)) (key : Octets) : Option Octets :=
  (fields.reverse.find? fun e => ctolower (ctrim e.1) = key).map Prod.snd

/-- A value without the white space at its ends. -/
def strip (v : Octets) : Octets := (v.dropWhile isspace).rdropWhile isspace

/-- Every call returns what the client sent of the number of bytes that it
announced, or nothing if the value is no such number. -/
structure AsSent (machine : Option ℚ → ℤ) (r : Request) (value : Option Octets) (body : Octets) :
    Prop where
  number : ∀ v ∈ value, ∀ n, Decimal (strip v) n → InInt n →
    ∀ k, r.contentAt machine k = body.take n.toNat
  other : (∀ v ∈ value, ∀ n, Decimal (strip v) n → ¬ InInt n) →
    r.contentLength machine < 0 ∧ ∀ k, r.contentAt machine k = []
  sent : ∀ k, r.contentAt machine k <+: body

/-- The value is a whole number, and so many bytes follow, or it is none and what is
read of it is a negative number. -/
def Honest (v body : Octets) : Prop :=
  (∃ n, Decimal (strip v) n ∧ InInt n ∧ n ≤ body.length) ∨
    (∀ n, Decimal (strip v) n → ¬ InInt n) ∧ Negative (ctrim v)

section
variable {s t v body : Octets} {fields : List (Octets × Octets)}

theorem ctrim_dropWhile : ctrim (s.dropWhile isspace) = ctrim s := by
  induction s with
  | nil => rfl
  | cons b s ih =>
    by_cases hb : isspace b = true
    · rw [List.dropWhile_cons_of_pos hb, ih]
      simp [ctrim, hb]
    · rw [List.dropWhile_cons_of_neg hb]

theorem ctrim_reverse : ctrim s.reverse = (ctrim s).reverse := List.filter_reverse ..

theorem ctrim_strip : ctrim (strip v) = ctrim v := by
  rw [strip, List.rdropWhile, ctrim_reverse, ctrim_dropWhile, ctrim_reverse, List.reverse_reverse,
    ctrim_dropWhile]

theorem ctrim_decimal {n : ℤ} (h : Decimal s n) : ctrim s = s := by
  have hdigits {ds : Octets} (hd : ds.all isDigit) : ctrim ds = ds := by
    rw [ctrim, List.filter_eq_self]
    intro b hb
    rw [not_space_of_isDigit b (List.all_eq_true.1 hd b hb)]
    rfl
  have hcons {b : UInt8} {ds : Octets} (hb : isspace b = false) (hd : ds.all isDigit) :
      ctrim (b :: ds) = b :: ds := by
    rw [ctrim, List.filter_cons_of_pos (by rw [hb]; rfl)]
    exact congrArg _ (hdigits hd)
  rcases h with ⟨digits, -, hd, ⟨rfl | rfl, -⟩ | ⟨rfl, -⟩⟩
  · exact hdigits hd
  · exact hcons (by decide) hd
  · exact hcons (by decide) hd

theorem addHeader_line {name : Octets} {d : Dictionary} (hn : COLON ∉ name) :
    Request.addHeader d (name ++ COLON :: v ++ [CR]) = addField d (name, v) := by
  have hp : ∀ b ∈ name, decide (b ≠ COLON) = true := by
    intro b hb
    simpa using fun heq : b = COLON => hn (heq ▸ hb)
  have hsplit : name ++ COLON :: v ++ [CR] = name ++ COLON :: (v ++ [CR]) := by simp
  have htake : (name ++ COLON :: (v ++ [CR])).takeWhile (· ≠ COLON) = name := by
    rw [List.takeWhile_append_of_pos hp]
    simp
  have hdrop : (name ++ COLON :: (v ++ [CR])).dropWhile (· ≠ COLON) = COLON :: (v ++ [CR]) := by
    rw [List.dropWhile_append_of_pos hp]
    simp
  have hcr : ctrim (v ++ [CR]) = ctrim v := by
    have hnil : ctrim [CR] = [] := by decide
    rw [ctrim, List.filter_append, ← ctrim, ← ctrim, hnil, List.append_nil]
  rw [hsplit, Request.addHeader, htake, hdrop, List.drop_succ_cons, List.drop_zero, hcr]
  rfl

theorem readHeaders_fields (h : Fields t fields body) {r : Request} {fuel : ℕ} (hr : r.rest = t)
    (hf : t.length < fuel) : Request.readHeaders fuel r =
      { r with mHeaders := fields.foldl addField r.mHeaders, rest := body } := by
  induction h generalizing r fuel with
  | blank body =>
    obtain ⟨fuel, rfl⟩ : ∃ k, fuel = k + 1 := ⟨fuel - 1, by omega⟩
    exact Request.readHeaders_blank hr
  | @line name v t body fields hn hl h ih =>
    obtain ⟨fuel, rfl⟩ : ∃ k, fuel = k + 1 := ⟨fuel - 1, by omega⟩
    have hcolon : COLON ∈ name ++ COLON :: v := by simp
    have hlen : t.length < fuel := by
      simp only [List.length_append] at hf
      have hcrlf : crlf.length = 2 := rfl
      omega
    rw [Request.readHeaders_line hl hcolon hr, ih rfl hlen, addHeader_line hn]
    rfl

/-- The request that is read from a message. -/
theorem read_message (h : Message s fields body) : (Request.read s).mValid = true ∧
    (Request.read s).mHeaders = fields.foldl addField [] ∧ (Request.read s).rest = body := by
  rcases h with ⟨l, t, rfl, ⟨hl, hwords⟩, hfields⟩
  have hline := getline_line (t := t) hl
  obtain ⟨hvalid, hrest⟩ := Request.readRequestLine_of_getline hline
  have hheaders : (Request.readRequestLine (l ++ LF :: t)).mHeaders = [] := by
    rw [Request.readRequestLine, hline]
    dsimp only
    split <;> rfl
  rw [Request.read_of_valid (hvalid.2 hwords), hrest, readHeaders_fields hfields hrest (by omega),
    hheaders]
  exact ⟨hvalid.2 hwords, rfl, rfl⟩

theorem fieldValue_append {e : Octets × Octets} {key : Octets} :
    fieldValue (fields ++ [e]) key =
      if ctolower (ctrim e.1) = key then some e.2 else fieldValue fields key := by
  rw [fieldValue, List.reverse_append, List.reverse_singleton, List.singleton_append,
    List.find?_cons]
  by_cases he : ctolower (ctrim e.1) = key <;> simp [he, fieldValue]

/-- What is stored of the last field of a name. -/
theorem foldl_addField (fields : List (Octets × Octets)) (key : Octets) :
    (fields.foldl addField []).getString key = ((fieldValue fields key).map ctrim).getD [] ∧
      (key ∈ Dictionary.keys (fields.foldl addField []) ↔ (fieldValue fields key).isSome) := by
  induction fields using List.reverseRecOn with
  | nil => exact ⟨rfl, by simp [Dictionary.keys, fieldValue]⟩
  | append_singleton fields e ih =>
    rw [List.foldl_append, List.foldl_cons, List.foldl_nil, fieldValue_append, addField,
      Dictionary.keys_assign]
    by_cases he : ctolower (ctrim e.1) = key
    · rw [if_pos he, he, Dictionary.getString_assign_self]
      refine ⟨rfl, ?_⟩
      split_ifs with hm
      · simp [hm]
      · simp
    · rw [if_neg he, Dictionary.getString_assign_ne fun h => he h.symm, ← ih.2]
      refine ⟨ih.1, ?_⟩
      split_ifs
      · rfl
      · have hne : key ≠ ctolower (ctrim e.1) := fun h => he h.symm
        simp [hne]

theorem contentLength_eq {machine : Option ℚ → ℤ} (h : Message s fields body) :
    (Request.read s).contentLength machine =
      match fieldValue fields HTTP_HEADER_CONTENT_LENGTH with
      | some v => toInt machine (strtonum (ctrim v))
      | none => -1 := by
  have hfold := foldl_addField fields HTTP_HEADER_CONTENT_LENGTH
  rw [Request.contentLength, (read_message h).2.1]
  cases hv : fieldValue fields HTTP_HEADER_CONTENT_LENGTH with
  | none =>
    rw [if_neg]
    rw [Dictionary.hasKey_eq_true, hfold.2, hv]
    simp
  | some v =>
    rw [if_pos, Dictionary.getNumber, hfold.1, hv]
    · rfl
    · rw [Dictionary.hasKey_eq_true, hfold.2, hv]
      rfl

section
variable {machine : Option ℚ → ℤ} {r : Request}

/-- A negative length is the length of no body. -/
theorem contentAt_negative (h : r.contentLength machine < 0) (k : ℕ) :
    r.contentAt machine k = [] := by
  have hstep : ({ r with mContent := [] } : Received).content machine = ([], { r with mContent := [] }) := by
    rw [Received.content, if_neg fun hc => absurd hc.2 h.not_ge]
  have hafter : Received.after machine { r with mContent := [] } k = { r with mContent := [] } := by
    induction k with
    | zero => rfl
    | succ k ih => rw [Received.after, ih, hstep]
  rw [Request.contentAt, hafter, hstep]

/-- The bytes that are there of a body, and zeros for those that are not. -/
def filled (n : ℕ) (rest : Octets) : Octets :=
  rest.take n ++ List.replicate (n - rest.length) 0

theorem length_filled (n : ℕ) (rest : Octets) : (filled n rest).length = n := by
  rw [filled, List.length_append, List.length_take, List.length_replicate]
  omega

/-- A call of `content` returns the body, before it was read and after that. -/
theorem content_step {n : ℕ} {x : Received} (h : r.contentLength machine = n)
    (hx : x.mHeaders = r.mHeaders)
    (hbody : x.mContent = filled n r.rest ∨ x.mContent = [] ∧ x.rest = r.rest) :
    (x.content machine).1 = filled n r.rest ∧
      (x.content machine).2.mHeaders = r.mHeaders ∧
        (x.content machine).2.mContent = filled n r.rest := by
  have hlength : x.contentLength machine = n := by
    rw [Request.contentLength, hx]
    exact h
  have hnonneg : 0 ≤ x.contentLength machine := by
    rw [hlength]
    exact Int.natCast_nonneg n
  by_cases hempty : x.mContent = []
  · have hfill : x.rest.take n ++ List.replicate (n - x.rest.length) 0 = filled n r.rest := by
      rcases hbody with hfull | ⟨-, hrest⟩
      · have hn : n = 0 := by
          rw [← length_filled n r.rest, ← hfull, hempty]
          rfl
        simp [hn, filled]
      · rw [hrest, filled]
    rw [Received.content, if_pos ⟨hempty, hnonneg⟩, hlength, Int.toNat_natCast]
    exact ⟨hfill, hx, hfill⟩
  · rw [Received.content, if_neg fun hc => hempty hc.1]
    have hfull : x.mContent = filled n r.rest := hbody.elim id fun hb => absurd hb.1 hempty
    exact ⟨hfull, hx, hfull⟩

theorem contentAt_length {n : ℕ} (h : r.contentLength machine = n) (k : ℕ) :
    r.contentAt machine k = filled n r.rest := by
  have hafter : (Received.after machine { r with mContent := [] } k).mHeaders = r.mHeaders ∧
      ((Received.after machine { r with mContent := [] } k).mContent = filled n r.rest ∨
        (Received.after machine { r with mContent := [] } k).mContent = [] ∧
          (Received.after machine { r with mContent := [] } k).rest = r.rest) := by
    induction k with
    | zero => exact ⟨rfl, .inr ⟨rfl, rfl⟩⟩
    | succ k ih =>
      have hstep := content_step h ih.1 ih.2
      exact ⟨hstep.2.1, .inl hstep.2.2⟩
  exact (content_step h hafter.1 hafter.2).1

end

/-- A body is what the client sent, whatever numbers that do not fit become, exactly
if there is no length or an honest one. -/
theorem asSent_iff (h : Message s fields body) :
    (∀ machine, AsSent machine (Request.read s) (fieldValue fields HTTP_HEADER_CONTENT_LENGTH) body) ↔
      ∀ v ∈ fieldValue fields HTTP_HEADER_CONTENT_LENGTH, Honest v body := by
  have hrest := (read_message h).2.2
  constructor
  · intro hall v hv
    by_cases hn : ∃ n, Decimal (strip v) n ∧ InInt n
    · rcases hn with ⟨n, hdecimal, hfits⟩
      refine .inl ⟨n, hdecimal, hfits, ?_⟩
      by_contra hshort
      rw [not_le] at hshort
      have hlength : (Request.read s).contentLength (fun _ => 0) = n.toNat := by
        rw [contentLength_eq h, hv]
        dsimp only
        rw [← ctrim_strip, ctrim_decimal hdecimal, toInt_decimal _ hdecimal hfits]
        omega
      have hbody := (hall fun _ => 0).number v hv n hdecimal hfits 0
      rw [contentAt_length hlength, hrest] at hbody
      have hcount := congrArg List.length hbody
      rw [length_filled, List.length_take] at hcount
      omega
    · refine .inr ⟨fun n hd hf => hn ⟨n, hd, hf⟩, ?_⟩
      have hlength := ((hall fun _ => 0).other fun w hw n hd hf => hn ⟨n, by
        rwa [← Option.mem_unique hw hv], hf⟩).1
      rw [contentLength_eq h, hv] at hlength
      dsimp only at hlength
      exact negative_of_toInt hlength
  · intro hall machine
    have hnegative (hlength : (Request.read s).contentLength machine < 0)
        (hn : ∀ v ∈ fieldValue fields HTTP_HEADER_CONTENT_LENGTH, ∀ n, Decimal (strip v) n →
          InInt n → n < 0) :
        AsSent machine (Request.read s) (fieldValue fields HTTP_HEADER_CONTENT_LENGTH) body := by
      have hcontent := contentAt_negative hlength
      refine ⟨fun v hv n hd hf k => ?_, fun _ => ⟨hlength, hcontent⟩, fun k => ?_⟩
      · rw [hcontent, Int.toNat_of_nonpos (hn v hv n hd hf).le, List.take_zero]
      · rw [hcontent]
        exact List.nil_prefix
    cases hv : fieldValue fields HTTP_HEADER_CONTENT_LENGTH with
    | none =>
      rw [← hv]
      apply hnegative
      · rw [contentLength_eq h, hv]
        exact neg_one_lt_zero
      · simp [hv]
    | some v =>
      rcases hall v hv with ⟨n, hdecimal, hfits, hshort⟩ | ⟨hno, hneg⟩
      · have hlength : (Request.read s).contentLength machine = n := by
          rw [contentLength_eq h, hv]
          dsimp only
          rw [← ctrim_strip, ctrim_decimal hdecimal, toInt_decimal _ hdecimal hfits]
        have hunique : ∀ w ∈ some v, ∀ k, Decimal (strip w) k → InInt k → k = n := by
          intro w hw k hd hf
          rw [← Option.mem_some_iff.1 hw] at hd
          rw [← toInt_decimal machine hd hf, toInt_decimal machine hdecimal hfits]
        by_cases hn : n < 0
        · rw [← hv]
          apply hnegative (hlength ▸ hn)
          intro w hw k hd hf
          rw [hunique w (hv ▸ hw) k hd hf]
          exact hn
        · have hcontent (k : ℕ) : (Request.read s).contentAt machine k = body.take n.toNat := by
            rw [contentAt_length (n := n.toNat) (by omega), hrest, filled,
              Nat.sub_eq_zero_of_le (by omega), List.replicate_zero, List.append_nil]
          refine ⟨fun w hw k hd hf j => ?_, fun hno => ?_, fun k => ?_⟩
          · rw [hcontent, hunique w hw k hd hf]
          · exact absurd hfits (hno v rfl n hdecimal)
          · rw [hcontent]
            exact List.take_prefix _ _
      · rw [← hv]
        apply hnegative
        · rw [contentLength_eq h, hv]
          exact toInt_negative hneg
        · intro w hw n hd hf
          rw [hv, Option.mem_some_iff] at hw
          exact absurd hf (hno n (hw ▸ hd))

end

/-- Three bytes that are sent with this value of their length. -/
def upload (v : Octets) : Octets :=
  ascii "PUT / HTTP/1.1\r" ++
    LF :: (ascii "Content-Length" ++ COLON :: v ++ crlf ++ (crlf ++ ascii "abc"))

theorem message_upload {v : Octets} (hv : LF ∉ v) :
    Message (upload v) [(ascii "Content-Length", v)] (ascii "abc") := by
  refine ⟨_, _, rfl, ⟨by decide, by decide +kernel⟩, .line (by decide) ?_ (.blank _)⟩
  have hname : LF ∉ ascii "Content-Length" := by decide
  have hcolon : LF ≠ COLON := by decide
  simp [hname, hcolon, hv]

theorem asSent_iff_upload : (∀ machine, AsSent machine (Request.read (upload (ascii " 3")))
      (fieldValue [(ascii "Content-Length", ascii " 3")] HTTP_HEADER_CONTENT_LENGTH) (ascii "abc")) ↔
    ∀ v ∈ fieldValue [(ascii "Content-Length", ascii " 3")] HTTP_HEADER_CONTENT_LENGTH,
      Honest v (ascii "abc") :=
  asSent_iff (message_upload (by decide))

/-- A body of three bytes that is announced with five. -/
theorem not_asSent_short : ¬ ∃ machine, AsSent machine (Request.read (upload (ascii " 5")))
    (fieldValue [(ascii "Content-Length", ascii " 5")] HTTP_HEADER_CONTENT_LENGTH) (ascii "abc") := by
  rintro ⟨machine, h⟩
  have hmessage := message_upload (v := ascii " 5") (by decide)
  have hvalue : fieldValue [(ascii "Content-Length", ascii " 5")] HTTP_HEADER_CONTENT_LENGTH =
      some (ascii " 5") := by decide +kernel
  have hdecimal : Decimal (strip (ascii " 5")) 5 := ⟨ascii "5", by decide, by decide, by decide +kernel⟩
  have hlength : (Request.read (upload (ascii " 5"))).contentLength machine = 5 := by
    rw [contentLength_eq hmessage, hvalue]
    dsimp only
    rw [← ctrim_strip, ctrim_decimal hdecimal, toInt_decimal _ hdecimal (by decide)]
  have hbody := h.number _ hvalue 5 hdecimal (by decide) 0
  rw [contentAt_length (n := 5) hlength] at hbody
  have hcount := congrArg List.length hbody
  rw [length_filled] at hcount
  exact absurd hcount (by decide)

end AirSane.Web
