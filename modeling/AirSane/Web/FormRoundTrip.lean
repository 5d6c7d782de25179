import AirSane.Web.Form

/-! # Forms that are sent and read back

Form data as it is encoded by a client, and what `HttpServer::Request::formData`
makes of it, the first time it is asked for and later.
-/

namespace AirSane.Web
open Text

/-- A text and what it may be encoded as. -/
inductive PercentEncoded : Octets → Octets → Prop where
  | nil : PercentEncoded [] []
  | literal {s t : Octets} (b : UInt8) (hb : b ∉ ascii "%&+=") (h : PercentEncoded s t) :
    PercentEncoded (b :: s) (b :: t)
  | plus {s t : Octets} (h : PercentEncoded s t) : PercentEncoded (32 :: s) (PLUS :: t)
  | escape {s t : Octets} (b : UInt8) {x y : UInt8} (hx : digitValue x = some (b.toNat / 16))
    (hy : digitValue y = some (b.toNat % 16)) (h : PercentEncoded s t) :
    PercentEncoded (b :: s) (PERCENT :: x :: y :: t)

def EncodedEntry (pair : Octets × Octets) (entry : Octets) : Prop :=
  ∃ key v, PercentEncoded pair.1 key ∧ PercentEncoded pair.2 v ∧ entry = key ++ EQUALS :: v

/-- The entries of a form, with an ampersand between each and the next. -/
def EncodedForm (pairs : List (Octets × Octets)) (form : Octets) : Prop :=
  ∃ entries, List.Forall₂ EncodedEntry pairs entries ∧ form = [AMPERSAND].intercalate entries

/-- A message whose body begins with so many bytes of a form as it says. -/
structure Posted (s form : Octets) : Prop where
  message : ∃ fields rest, Message s fields (form ++ rest) ∧
    (∃ v, fieldValue fields HTTP_HEADER_CONTENT_TYPE = some v ∧
      strip v = ascii "application/x-www-form-urlencoded") ∧
    ∃ v, fieldValue fields HTTP_HEADER_CONTENT_LENGTH = some v ∧ Decimal (strip v) form.length

/-- A request, and what it has kept of its body and its form. -/
structure Asked extends Received where
  mFormData : Dictionary

section
variable (machine : Option ℚ → ℤ)

/-- `Request::formData`, with what it keeps. -/
def Asked.formData (r : Asked) : Dictionary × Asked :=
  if r.hasFormData machine ∧ r.mFormData = [] then
    let read := r.toReceived.content machine
    let mFormData := (formEntries read.1).foldl addEntry r.mFormData
    (mFormData, { read.2 with mFormData := mFormData })
  else (r.mFormData, r)

/-- A request that was not asked for anything yet. -/
def Request.unasked (r : Request) : Asked := { r with mContent := [], mFormData := [] }

/-- A request after so many calls of `formData`. -/
def Asked.after (r : Asked) : ℕ → Asked
  | 0 => r
  | k + 1 => ((r.after k).formData machine).2

/-- What the call of `formData` after so many others returns. -/
def Request.formDataAt (r : Request) (k : ℕ) : Dictionary :=
  ((r.unasked.after machine k).formData machine).1

end

variable {s t form : Octets} {pairs : List (Octets × Octets)} {pair : Octets × Octets}
  {entry : Octets} {machine : Option ℚ → ℤ} {r : Request}

/-- The first call returns what the body is read to. -/
theorem formDataAt_zero : r.formDataAt machine 0 =
    Received.formData machine { r with mContent := [] } := by
  rw [Request.formDataAt, Asked.after, Asked.formData, Received.formData]
  by_cases hf : r.hasFormData machine = true
  · rw [if_pos ⟨hf, rfl⟩, if_pos hf]
    rfl
  · rw [if_neg fun h => hf h.1, if_neg hf]
    rfl

/-- A form that is not empty is kept. -/
theorem formDataAt_eq (h : r.formDataAt machine 0 ≠ []) (k : ℕ) :
    r.formDataAt machine k = r.formDataAt machine 0 := by
  have hfirst : (r.unasked.after machine 1).mFormData = r.formDataAt machine 0 := by
    change (r.unasked.formData machine).2.mFormData = (r.unasked.formData machine).1
    rw [Asked.formData]
    split_ifs <;> rfl
  have hkeep {x : Asked} (hx : x.mFormData = r.formDataAt machine 0) :
      x.formData machine = (x.mFormData, x) :=
    if_neg fun hc => h (hx ▸ hc.2)
  have hkept (k : ℕ) : (r.unasked.after machine (k + 1)).mFormData = r.formDataAt machine 0 := by
    induction k with
    | zero => exact hfirst
    | succ k ih =>
      rw [Asked.after, hkeep ih]
      exact ih
  cases k with
  | zero => rfl
  | succ k =>
    rw [Request.formDataAt, hkeep (hkept k)]
    exact hkept k

/-- Digits are none of the characters that a form is divided at. -/
theorem digit_ne {x : UInt8} {d : ℕ} (h : digitValue x = some d) :
    x ≠ PERCENT ∧ x ≠ AMPERSAND ∧ x ≠ EQUALS ∧ x ≠ 0 := by
  have hall : ∀ b : UInt8, (digitValue b).isSome → b ≠ PERCENT ∧ b ≠ AMPERSAND ∧ b ≠ EQUALS ∧ b ≠ 0 :=
    forall_byte (by decide +kernel)
  exact hall x (by simp [h])

theorem PercentEncoded.separate (h : PercentEncoded s t) : AMPERSAND ∉ t ∧ EQUALS ∉ t := by
  have hdistinct : AMPERSAND ≠ PLUS ∧ EQUALS ≠ PLUS ∧ AMPERSAND ≠ PERCENT ∧ EQUALS ≠ PERCENT := by
    decide
  induction h with
  | nil => simp
  | literal b hb h ih =>
    have hamp : AMPERSAND ≠ b := fun heq => hb (heq ▸ by decide)
    have heq : EQUALS ≠ b := fun heq => hb (heq ▸ by decide)
    simp [ih, hamp, heq]
  | plus h ih => simp [ih, hdistinct]
  | escape b hx hy h ih =>
    simp [ih, hdistinct, (digit_ne hx).2.1.symm, (digit_ne hx).2.2.1.symm, (digit_ne hy).2.1.symm,
      (digit_ne hy).2.2.1.symm]

theorem hexdecode_digits {x y b : UInt8} (hx : digitValue x = some (b.toNat / 16))
    (hy : digitValue y = some (b.toNat % 16)) : hexdecode [x, y] = b := by
  have hspace : isspace x = false := not_space_of_isSome x (by simp [hx])
  have hsign : ∀ b : UInt8, (digitValue b).isSome → b ≠ PLUS ∧ b ≠ MINUS :=
    forall_byte (by decide +kernel)
  have hxsign := hsign x (by simp [hx])
  have hwithout : withoutSign [x, y] = [x, y] := by
    simp [withoutSign, hasSign, hxsign.1, hxsign.2]
  have hvalue : value 16 [x, y] = b.toNat := by
    simp only [value, List.foldl_cons, List.foldl_nil, hx, hy, Option.getD_some]
    omega
  have hlong : strtol16 [x, y] = b.toNat := by
    simp [strtol16, (digit_ne hx).2.2.2, (digit_ne hy).2.2.2, hspace, hwithout, hx, hy, hvalue,
      hxsign.2]
  have hbyte : ((b.toNat : ℤ) % 2 ^ 8).toNat = b.toNat := by
    have := b.toNat_lt
    omega
  rw [hexdecode, hlong, UInt8.ofInt, hbyte, UInt8.ofNat_toNat]

theorem urldecode_cons {b : UInt8} (hb : b ≠ PERCENT) :
    urldecode (b :: s) = if b = PLUS then 32 :: urldecode s else b :: urldecode s := by
  rw [urldecode.eq_def]
  exact if_neg hb

theorem urldecode_percentEncoded (h : PercentEncoded s t) : urldecode t = s := by
  induction h with
  | nil => rfl
  | literal b hb h ih =>
    have hpercent : b ≠ PERCENT := fun heq => hb (heq ▸ by decide)
    have hplus : b ≠ PLUS := fun heq => hb (heq ▸ by decide)
    rw [urldecode_cons hpercent, if_neg hplus, ih]
  | plus h ih => rw [urldecode_cons (by decide), if_pos rfl, ih]
  | @escape s t b x y hx hy h ih =>
    have hno : ∀ u, x :: y :: t ≠ 37 :: u := fun u heq => (digit_ne hx).1 (List.cons.inj heq).1
    rw [urldecode.eq_def]
    dsimp only
    rw [if_pos rfl]
    split
    · rename_i heq
      exact absurd heq (hno _)
    · rename_i heq
      simp only [List.cons.injEq] at heq
      obtain ⟨rfl, rfl, rfl⟩ := heq
      rw [hexdecode_digits hx hy, ih]
    · rename_i hshort
      exact absurd rfl (hshort x y t)

/-- The loop takes an entry apart at its first equals sign. -/
theorem addEntry_encoded (h : EncodedEntry pair entry) (d : Dictionary) :
    addEntry d entry = d.assign pair.1 pair.2 := by
  obtain ⟨key, v, hkey, hv, rfl⟩ := h
  have hall : ∀ b ∈ key, decide (b ≠ EQUALS) = true := by
    intro b hb
    simpa using fun heq : b = EQUALS => hkey.separate.2 (heq ▸ hb)
  rw [addEntry, List.takeWhile_append_of_pos hall, List.dropWhile_append_of_pos hall]
  simp [urldecode_percentEncoded hkey, urldecode_percentEncoded hv]

theorem EncodedEntry.separate (h : EncodedEntry pair entry) : AMPERSAND ∉ entry ∧ entry ≠ [] := by
  obtain ⟨key, v, hkey, hv, rfl⟩ := h
  have hdistinct : AMPERSAND ≠ EQUALS := by decide
  exact ⟨by simp [hkey.separate.1, hv.separate.1, hdistinct], by simp⟩

theorem formEntries_encoded {entries : List Octets} (h : List.Forall₂ EncodedEntry pairs entries)
    (hne : pairs ≠ []) : formEntries ([AMPERSAND].intercalate entries) = entries := by
  have hentry : ∀ entry ∈ entries, AMPERSAND ∉ entry ∧ entry ≠ [] := by
    clear hne
    induction h with
    | nil => simp
    | cons hentry h ih => simpa using ⟨hentry.separate, ih⟩
  have hnil : entries ≠ [] := by
    rintro rfl
    exact hne (List.forall₂_nil_right_iff.1 h)
  have hlast : entries.getLast? ≠ some [] := fun hl => (hentry _ (List.mem_of_getLast? hl)).2 rfl
  rw [formEntries, List.splitOn_intercalate AMPERSAND (fun l hl => (hentry l hl).1) hnil,
    if_neg hlast]

/-- Entries with keys of their own are kept in their order. -/
theorem foldl_addEntry {entries : List Octets} (h : List.Forall₂ EncodedEntry pairs entries)
    {d : Dictionary} (hd : (Dictionary.keys (d ++ pairs)).Nodup) :
    entries.foldl addEntry d = d ++ pairs := by
  induction h generalizing d with
  | nil => simp
  | @cons pair entry pairs entries hentry h ih =>
    have hkey : pair.1 ∉ d.keys := by
      intro hm
      rw [Dictionary.keys, List.map_append, List.nodup_append] at hd
      exact hd.2.2 _ hm _ (by simp) rfl
    have hassign : d.assign pair.1 pair.2 = d ++ [pair] := Dictionary.assign_of_not_mem hkey
    rw [List.foldl_cons, addEntry_encoded hentry, hassign, ih (by simpa using hd)]
    simp

theorem parseForm_encoded (h : EncodedForm pairs form) (hne : pairs ≠ [])
    (hd : (Dictionary.keys pairs).Nodup) : parseForm form = pairs := by
  obtain ⟨entries, hentries, rfl⟩ := h
  rw [parseForm, formEntries_encoded hentries hne]
  exact foldl_addEntry hentries hd

theorem form_ne_nil (h : EncodedForm pairs form) (hne : pairs ≠ []) : form ≠ [] := by
  obtain ⟨entries, hentries, rfl⟩ := h
  cases hentries with
  | nil => exact absurd rfl hne
  | @cons pair entry pairs entries hentry h =>
    obtain ⟨key, v, -, -, rfl⟩ := hentry
    cases h <;> simp [List.intercalate]

section
variable {fields : List (Octets × Octets)} {body : Octets}

theorem contentType_eq (h : Message s fields body) {v : Octets}
    (hv : fieldValue fields HTTP_HEADER_CONTENT_TYPE = some v) :
    (Request.read s).mHeaders.getString HTTP_HEADER_CONTENT_TYPE = ctrim (strip v) := by
  rw [(read_message h).2.1, (foldl_addField fields _).1, hv, ctrim_strip]
  rfl

end

/-- A form of less than 2³¹ bytes is read back to its pairs, whenever it is asked for. -/
theorem formDataAt_posted (hs : Posted s form) (h : EncodedForm pairs form) (hne : pairs ≠ [])
    (hd : (Dictionary.keys pairs).Nodup) (hsize : form.length < 2 ^ 31) (k : ℕ) :
    (Request.read s).formDataAt machine k = pairs := by
  obtain ⟨fields, rest, hmessage, ⟨type, htype, hurlencoded⟩, v, hv, hdecimal⟩ := hs
  have hfits : InInt form.length := ⟨by omega, by exact_mod_cast hsize⟩
  have hlength : (Request.read s).contentLength machine = form.length := by
    rw [contentLength_eq hmessage, hv]
    dsimp only
    rw [← ctrim_strip, ctrim_decimal hdecimal, toInt_decimal _ hdecimal hfits]
  have hpos : 0 < form.length := List.length_pos_iff.2 (form_ne_nil h hne)
  have hform : (Request.read s).hasFormData machine = true := by
    have htrim : ctrim (ascii "application/x-www-form-urlencoded") =
        ascii "application/x-www-form-urlencoded" := by decide
    rw [Request.hasFormData, contentType_eq hmessage htype, hurlencoded, htrim, hlength]
    simpa using hpos
  have hcontent : (Received.content machine { Request.read s with mContent := [] }).1 = form := by
    refine (contentAt_length hlength 0).trans ?_
    rw [filled, (read_message hmessage).2.2]
    simp
  have hfirst : (Request.read s).formDataAt machine 0 = pairs := by
    rw [formDataAt_zero, Received.formData]
    refine (if_pos hform).trans ?_
    rw [hcontent, parseForm_encoded h hne hd]
  rw [formDataAt_eq (by rw [hfirst]; exact hne), hfirst]

/-- A request with a form, its type and this value of its length. -/
def posting (v form : Octets) : Octets :=
  ascii "POST / HTTP/1.1\r" ++ LF :: (ascii "Content-Type" ++
    COLON :: ascii " application/x-www-form-urlencoded" ++ crlf ++
      (ascii "Content-Length" ++ COLON :: v ++ crlf ++ (crlf ++ form)))

theorem message_posting {v form : Octets} (hv : LF ∉ v) : Message (posting v form)
    [(ascii "Content-Type", ascii " application/x-www-form-urlencoded"),
      (ascii "Content-Length", v)] form := by
  have hname : LF ∉ ascii "Content-Length" := by decide
  have hcolon : LF ≠ COLON := by decide
  have hline : LF ∉ ascii "Content-Length" ++ COLON :: v := by simp [hname, hcolon, hv]
  exact ⟨_, _, rfl, ⟨by decide, by decide +kernel⟩,
    .line (by decide) (by decide) (.line (by decide) hline (.blank _))⟩

theorem posted_posting {v form : Octets} (hv : LF ∉ v) (hd : Decimal (strip v) form.length) :
    Posted (posting v form) form := by
  have hm : Message (posting v form) _ form := message_posting hv
  refine ⟨_, [], by rwa [List.append_nil], ⟨_, rfl, by decide +kernel⟩, v, rfl, hd⟩

theorem formDataAt_posted_space :
    (Request.read (posting (ascii "12") (ascii "a+b=%25%7e&="))).formDataAt (fun _ => 0) 2 =
      [(ascii "a b", ascii "%~"), ([], [])] := by
  have hkey : PercentEncoded (ascii "a b") (ascii "a+b") :=
    .literal _ (by decide) (.plus (.literal _ (by decide) .nil))
  have hvalue : PercentEncoded (ascii "%~") (ascii "%25%7e") :=
    .escape _ (by decide) (by decide) (.escape _ (by decide) (by decide) .nil)
  have hform : EncodedForm [(ascii "a b", ascii "%~"), ([], [])] (ascii "a+b=%25%7e&=") :=
    ⟨_, .cons ⟨_, _, hkey, hvalue, rfl⟩ (.cons ⟨_, _, .nil, .nil, rfl⟩ .nil), by decide⟩
  exact formDataAt_posted (posted_posting (by decide) ⟨ascii "12", by decide, by decide, by decide⟩)
    hform (by simp) (by decide) (by decide) 2

theorem percentEncoded_replicate (n : ℕ) :
    PercentEncoded (List.replicate n 97) (List.replicate n 97) := by
  induction n with
  | zero => exact .nil
  | succ n ih => exact .literal 97 (by decide) ih

/-- The length of a form of 2³¹ bytes is none that an `int` holds. -/
theorem not_formDataAt_posted_large : ∃ (machine : Option ℚ → ℤ) (s form : Octets)
    (pairs : List (Octets × Octets)), Posted s form ∧ EncodedForm pairs form ∧ pairs ≠ [] ∧
      (Dictionary.keys pairs).Nodup ∧ (Request.read s).formDataAt machine 0 ≠ pairs := by
  obtain ⟨n, hn⟩ : ∃ n, n + 1 = 2147483648 := ⟨2147483647, rfl⟩
  have hv : LF ∉ ascii "2147483648" := by decide
  have hd : Decimal (strip (ascii "2147483648")) (EQUALS :: List.replicate n 97).length := by
    rw [List.length_cons, List.length_replicate, hn]
    exact ⟨ascii "2147483648", by decide, by decide, .inl ⟨.inl (by decide), by decide +kernel⟩⟩
  have hform : EncodedForm [([], List.replicate n 97)] (EQUALS :: List.replicate n 97) :=
    ⟨_, .cons ⟨[], _, .nil, percentEncoded_replicate n, rfl⟩ .nil, by simp [List.intercalate]⟩
  refine ⟨fun _ => -2 ^ 31, posting (ascii "2147483648") (EQUALS :: List.replicate n 97), _, _,
    posted_posting hv hd, hform, by simp, by simp [Dictionary.keys], ?_⟩
  have hlength : (Request.read (posting (ascii "2147483648")
      (EQUALS :: List.replicate n 97))).contentLength (fun _ => -2 ^ 31) = -2 ^ 31 := by
    rw [contentLength_eq (message_posting hv)]
    decide +kernel
  rw [formDataAt_zero, Received.formData, if_neg]
  · simp
  · rw [Request.hasFormData, hlength]
    simp

end AirSane.Web
