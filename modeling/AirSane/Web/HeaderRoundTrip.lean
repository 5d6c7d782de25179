import AirSane.Web.Request

/-! # Requests that are written and read back

A request head written line by line, and what the constructor of the request
makes of it. Names are looked up in any letter case; of values only what is not
white space comes back.
-/

namespace AirSane.Web
open Text

/-- `Request::header`. -/
def Request.header (r : Request) (key : Octets) : Octets :=
  r.mHeaders.getString (ctolower (ctrim key))

def Solid (s : Octets) : Prop := ∀ b ∈ s, isspace b = false

/-- The head of a request: three words, and headers as pairs of name and value. -/
structure Head where
  method : Octets
  uri : Octets
  protocol : Octets
  headers : List (Octets × Octets)

namespace Head

def requestLine (h : Head) : Octets := h.method ++ 32 :: (h.uri ++ 32 :: h.protocol)

def write (h : Head) : Octets :=
  h.requestLine ++ crlf ++ (h.headers.map fun e => headerLine e ++ crlf).flatten ++ crlf

def names (h : Head) : List Octets := h.headers.map fun e => ctolower e.1

/-- Words without white space, names without white space or colon that differ
in more than letter case, and values on one line with ends that are not white
space. -/
structure WellFormed (h : Head) : Prop where
  method : Solid h.method
  uri : Solid h.uri
  protocol : Solid h.protocol
  name : ∀ e ∈ h.headers, e.1 ≠ [] ∧ Solid e.1 ∧ COLON ∉ e.1
  value : ∀ e ∈ h.headers, Inline e.2 ∧ (∀ b ∈ e.2.head?, isspace b = false) ∧
    ∀ b ∈ e.2.getLast?, isspace b = false
  distinct : h.names.Nodup

/-- The request that the head was written from: a valid one with the same words,
and the values for their names in any letter case and for no other name. -/
structure ReadBack (h : Head) (r : Request) : Prop where
  valid : r.mValid = true
  method : r.mMethod = h.method
  uri : r.mUri = h.uri
  protocol : r.mProtocol = h.protocol
  listed : ∀ e ∈ h.headers, ∀ n, ctolower n = ctolower e.1 → r.header n = e.2
  other : ∀ n, Solid n → ctolower n ∉ h.names → r.header n = []

end Head

section
variable {s t : Octets}

theorem ctrim_eq_self_iff : ctrim s = s ↔ Solid s := by
  rw [ctrim, List.filter_eq_self]
  simp [Solid]

theorem ctrim_append : ctrim (s ++ t) = ctrim s ++ ctrim t := List.filter_append ..

/-- The words of a line that begins with one. -/
theorem tokens_append {b : UInt8} (hs : Solid s) (hb : isspace b = true) :
    tokens (s ++ b :: t) = (if s = [] then [] else [s]) ++ tokens t := by
  rw [tokens, List.splitOnP_append_cons _ _ hb, List.filter_append, List.splitOnP_eq_singleton hs]
  by_cases h : s = [] <;> simp [tokens, h]

/-- A dictionary that is filled in order. -/
def assignAll (l : List (Octets × Octets)) (d : Dictionary) : Dictionary :=
  l.foldl (fun d e => d.assign e.1 e.2) d

theorem getString_assignAll {l : List (Octets × Octets)} {d : Dictionary}
    (h : (l.map Prod.fst).Nodup) (k : Octets) :
    (assignAll l d).getString k =
      if k ∈ l.map Prod.fst then Dictionary.getString l k else d.getString k := by
  induction l generalizing d with
  | nil => rfl
  | cons e l ih =>
    rw [List.map_cons, List.nodup_cons] at h
    have hfill : assignAll (e :: l) d = assignAll l (d.assign e.1 e.2) := rfl
    rw [hfill, ih h.2]
    by_cases he : k = e.1
    · subst he
      rw [if_neg h.1, if_pos (by simp), Dictionary.getString_assign_self]
      simp [Dictionary.getString]
    · have hne : e.1 ≠ k := fun heq => he heq.symm
      have htail : Dictionary.getString (e :: l) k = Dictionary.getString l k := by
        simp [Dictionary.getString, hne]
      simp only [List.map_cons, List.mem_cons, he, false_or, htail,
        Dictionary.getString_assign_ne he]

end

namespace Head
variable {h : Head} {rest : Octets}

theorem tokens_requestLine (hm : Solid h.method) (hu : Solid h.uri) (hp : Solid h.protocol) :
    tokens (h.requestLine ++ [CR]) =
      (if h.method = [] then [] else [h.method]) ++ ((if h.uri = [] then [] else [h.uri]) ++
        if h.protocol = [] then [] else [h.protocol]) := by
  have hblank : isspace 32 = true := by decide
  have hcr : isspace CR = true := by decide
  have hline : h.requestLine ++ [CR] =
      h.method ++ 32 :: (h.uri ++ 32 :: (h.protocol ++ CR :: [])) := by
    simp [requestLine]
  have hnil : tokens [] = [] := by decide
  rw [hline, tokens_append hm hblank, tokens_append hu hblank, tokens_append hp hcr, hnil,
    List.append_nil]

theorem solid_not_mem {s : Octets} {b : UInt8} (hs : Solid s) (hb : isspace b = true) : b ∉ s := by
  intro hm
  rw [hs b hm] at hb
  cases hb

theorem not_mem_requestLine (hm : Solid h.method) (hu : Solid h.uri) (hp : Solid h.protocol) :
    LF ∉ h.requestLine ++ [CR] := by
  have hlf : isspace LF = true := by decide
  have hne : LF ≠ 32 := by decide
  have hcr : LF ≠ CR := by decide
  simp [requestLine, solid_not_mem hm hlf, solid_not_mem hu hlf, solid_not_mem hp hlf, hne, hcr]

/-- A header line of a well-formed head. -/
theorem headerLine_spec {e : Octets × Octets} (hn : e.1 ≠ [] ∧ Solid e.1 ∧ COLON ∉ e.1)
    (hv : Inline e.2) : LF ∉ headerLine e ∧ COLON ∈ headerLine e ∧ ∀ d,
      Request.addHeader d (headerLine e ++ [CR]) = d.assign (ctolower e.1) (ctrim e.2) := by
  have hline : headerLine e ++ [CR] = e.1 ++ COLON :: (32 :: (e.2 ++ [CR])) := by
    have hsep : ascii ": " = [COLON, 32] := by decide
    simp [headerLine, hsep]
  have hlf : isspace LF = true := by decide
  have hp : ∀ b ∈ e.1, decide (b ≠ COLON) = true := by
    intro b hb
    simpa using fun heq : b = COLON => hn.2.2 (heq ▸ hb)
  refine ⟨?_, ?_, fun d => ?_⟩
  · have hsep : LF ∉ ascii ": " := by decide
    simp [headerLine, solid_not_mem hn.2.1 hlf, hv.2, hsep]
  · have hsep : COLON ∈ ascii ": " := by decide
    simp [headerLine, hsep]
  · have htake : (e.1 ++ COLON :: (32 :: (e.2 ++ [CR]))).takeWhile (· ≠ COLON) = e.1 := by
      rw [List.takeWhile_append_of_pos hp]
      simp
    have hdrop : (e.1 ++ COLON :: (32 :: (e.2 ++ [CR]))).dropWhile (· ≠ COLON) =
        COLON :: (32 :: (e.2 ++ [CR])) := by
      rw [List.dropWhile_append_of_pos hp]
      simp
    have hvalue : ctrim (32 :: (e.2 ++ [CR])) = ctrim e.2 := by
      have hcr : ctrim [CR] = [] := by decide
      have hblank : ctrim (32 :: (e.2 ++ [CR])) = ctrim (e.2 ++ [CR]) := rfl
      rw [hblank, ctrim_append, hcr, List.append_nil]
    rw [hline, Request.addHeader, htake, hdrop, ctrim_eq_self_iff.2 hn.2.1, List.drop_succ_cons,
      List.drop_zero, hvalue]

/-- The loop over the header lines of a well-formed head. -/
theorem readHeaders_lines {l : List (Octets × Octets)} {fuel : ℕ} {r : Request}
    (hn : ∀ e ∈ l, e.1 ≠ [] ∧ Solid e.1 ∧ COLON ∉ e.1) (hv : ∀ e ∈ l, Inline e.2)
    (hr : r.rest = (l.map fun e => headerLine e ++ crlf).flatten ++ crlf ++ rest)
    (hf : l.length < fuel) : Request.readHeaders fuel r =
      { r with
        mHeaders := l.foldl (fun d e => d.assign (ctolower e.1) (ctrim e.2)) r.mHeaders
        rest := rest } := by
  induction l generalizing fuel r with
  | nil =>
    obtain ⟨fuel, rfl⟩ : ∃ k, fuel = k + 1 := ⟨fuel - 1, by simp at hf; omega⟩
    exact Request.readHeaders_blank (by simpa using hr)
  | cons e l ih =>
    obtain ⟨fuel, rfl⟩ : ∃ k, fuel = k + 1 := ⟨fuel - 1, by simp at hf; omega⟩
    rw [List.forall_mem_cons] at hn hv
    obtain ⟨hlf, hcolon, hadd⟩ := headerLine_spec hn.1 hv.1
    have hsplit : r.rest = headerLine e ++ crlf ++
        ((l.map fun e => headerLine e ++ crlf).flatten ++ crlf ++ rest) := by
      rw [hr]
      simp
    rw [Request.readHeaders_line hlf hcolon hsplit, hadd, ih hn.2 hv.2 rfl (by simpa using hf)]
    rfl

theorem length_le_flatten {l : List (Octets × Octets)} :
    l.length ≤ (l.map fun e => headerLine e ++ crlf).flatten.length := by
  induction l with
  | nil => simp
  | cons e l ih =>
    have hcrlf : crlf.length = 2 := rfl
    simp only [List.length_cons, List.map_cons, List.flatten_cons, List.length_append, hcrlf]
    omega

/-- What is stored of the headers. -/
def stored (h : Head) : Dictionary := h.headers.map fun e => (ctolower e.1, ctrim e.2)

theorem map_stored : h.stored.map Prod.fst = h.names := by simp [stored, names]

variable (rest) in
/-- The request that is read from a well-formed head of three words. -/
theorem read_write (hw : h.WellFormed) (hm : h.method ≠ []) (hu : h.uri ≠ []) (hp : h.protocol ≠ []) :
    Request.read (h.write ++ rest) = ⟨true, h.method, h.uri, h.protocol,
      assignAll h.stored [], rest⟩ := by
  have hline := getline_line (t := (h.headers.map fun e => headerLine e ++ crlf).flatten ++ crlf ++ rest)
    (not_mem_requestLine hw.method hw.uri hw.protocol)
  have hwords : tokens (h.requestLine ++ [CR]) = [h.method, h.uri, h.protocol] := by
    rw [tokens_requestLine hw.method hw.uri hw.protocol, if_neg hm, if_neg hu, if_neg hp]
    rfl
  have hwrite : h.write ++ rest = (h.requestLine ++ [CR]) ++
      LF :: ((h.headers.map fun e => headerLine e ++ crlf).flatten ++ crlf ++ rest) := by
    simp [write, crlf]
  have hfirst : Request.readRequestLine (h.write ++ rest) = ⟨true, h.method, h.uri, h.protocol, [],
      (h.headers.map fun e => headerLine e ++ crlf).flatten ++ crlf ++ rest⟩ := by
    rw [Request.readRequestLine, hwrite, hline]
    simp only [hwords]
  have hfuel := length_le_flatten (l := h.headers)
  rw [Request.read_of_valid (by rw [hfirst]), hfirst, readHeaders_lines hw.name
    (fun e he => (hw.value e he).1) rfl (by simp only [List.length_append]; omega)]
  simp [stored, assignAll, List.foldl_map]

/-- A head that lacks a word is refused. -/
theorem read_write_invalid (hw : h.WellFormed) (hn : h.method = [] ∨ h.uri = [] ∨ h.protocol = []) :
    (Request.read (h.write ++ rest)).mValid ≠ true := by
  have hwrite : h.write ++ rest = (h.requestLine ++ [CR]) ++
      LF :: ((h.headers.map fun e => headerLine e ++ crlf).flatten ++ crlf ++ rest) := by
    simp [write, crlf]
  have hline := Request.readRequestLine_of_getline (getline_line
    (t := (h.headers.map fun e => headerLine e ++ crlf).flatten ++ crlf ++ rest)
    (not_mem_requestLine hw.method hw.uri hw.protocol))
  apply Request.read_of_invalid
  rw [hwrite, ne_eq, hline.1, tokens_requestLine hw.method hw.uri hw.protocol]
  rcases hn with hn | hn | hn <;> simp only [hn, if_true] <;> split_ifs <;> simp

theorem header_listed (hw : h.WellFormed) {r : Request} {e : Octets × Octets} {n : Octets}
    (hr : r.mHeaders = assignAll h.stored []) (he : e ∈ h.headers)
    (hn : ctolower n = ctolower e.1) (hs : Solid n) : r.header n = ctrim e.2 := by
  have hmem : (ctolower e.1, ctrim e.2) ∈ h.stored := List.mem_map_of_mem he
  have hkeys : Dictionary.keys h.stored = h.names := map_stored
  rw [Request.header, hr, ctrim_eq_self_iff.2 hs, hn,
    getString_assignAll (by rw [map_stored]; exact hw.distinct), if_pos (List.mem_map_of_mem hmem)]
  exact Dictionary.getString_eq_of_mem (by rw [hkeys]; exact hw.distinct) hmem

theorem header_other (hw : h.WellFormed) {r : Request} {n : Octets}
    (hr : r.mHeaders = assignAll h.stored []) (hs : Solid n)
    (hn : ctolower n ∉ h.names) : r.header n = [] := by
  rw [Request.header, hr, ctrim_eq_self_iff.2 hs,
    getString_assignAll (by rw [map_stored]; exact hw.distinct), map_stored, if_neg hn]
  rfl

theorem solid_of_ctolower {s t : Octets} (h : ctolower s = ctolower t) (ht : Solid t) : Solid s := by
  intro b hb
  have hmem : toLower b ∈ ctolower t := h ▸ List.mem_map_of_mem hb
  obtain ⟨a, ha, hab⟩ := List.mem_map.1 hmem
  rw [← isspace_toLower, ← hab, isspace_toLower]
  exact ht a ha

/-- A well-formed head is read back as it was written exactly if it has three
words and no value has white space in it. -/
theorem readBack_iff (hw : h.WellFormed) (rest : Octets) :
    h.ReadBack (Request.read (h.write ++ rest)) ↔
      (h.method ≠ [] ∧ h.uri ≠ [] ∧ h.protocol ≠ []) ∧ ∀ e ∈ h.headers, Solid e.2 := by
  constructor
  · intro hr
    have hwords : h.method ≠ [] ∧ h.uri ≠ [] ∧ h.protocol ≠ [] := by
      by_contra hn
      exact read_write_invalid hw (by tauto) hr.valid
    refine ⟨hwords, fun e he => ?_⟩
    have hread := read_write rest hw hwords.1 hwords.2.1 hwords.2.2
    have hget := header_listed hw (r := Request.read (h.write ++ rest)) (by rw [hread]) he rfl
      (hw.name e he).2.1
    rw [hr.listed e he e.1 rfl] at hget
    exact ctrim_eq_self_iff.1 hget.symm
  · rintro ⟨⟨hm, hu, hp⟩, hsolid⟩
    have hread := read_write rest hw hm hu hp
    rw [hread]
    refine ⟨rfl, rfl, rfl, rfl, fun e he n hn => ?_, fun n hs hn => header_other hw rfl hs hn⟩
    rw [header_listed hw rfl he hn (solid_of_ctolower hn (hw.name e he).2.1)]
    exact ctrim_eq_self_iff.2 (hsolid e he)

/-- A browser that asks for the main page. -/
def mainPage (agent : Octets) : Head :=
  ⟨ascii "GET", ascii "/", ascii "HTTP/1.1", [(ascii "User-Agent", agent)]⟩

theorem wellFormed_mainPage {agent : Octets} (hi : Inline agent)
    (hh : agent.head?.all (!isspace ·) = true) (hl : agent.getLast?.all (!isspace ·) = true) :
    (mainPage agent).WellFormed where
  method := forall_mem_of_all (l := ascii "GET") (by decide)
  uri := forall_mem_of_all (l := ascii "/") (by decide)
  protocol := forall_mem_of_all (l := ascii "HTTP/1.1") (by decide)
  name e he := by
    have hname : ascii "User-Agent" ≠ [] ∧ Solid (ascii "User-Agent") ∧ COLON ∉ ascii "User-Agent" :=
      ⟨by decide, forall_mem_of_all (by decide), by decide⟩
    obtain rfl := List.mem_singleton.1 he
    exact hname
  value e he := by
    obtain rfl := List.mem_singleton.1 he
    exact ⟨hi, by simpa [Option.all_eq_true] using hh, by simpa [Option.all_eq_true] using hl⟩
  distinct := by simp [Head.names, mainPage]

theorem readBack_iff_curl :
    (mainPage (ascii "curl/8")).ReadBack (Request.read ((mainPage (ascii "curl/8")).write ++ [])) ↔
      ((mainPage (ascii "curl/8")).method ≠ [] ∧ (mainPage (ascii "curl/8")).uri ≠ [] ∧
        (mainPage (ascii "curl/8")).protocol ≠ []) ∧
          ∀ e ∈ (mainPage (ascii "curl/8")).headers, Solid e.2 :=
  readBack_iff (wellFormed_mainPage ⟨by decide, by decide⟩ (by decide) (by decide)) []

/-- Blanks inside of a value are lost. -/
theorem not_readBack_blank : ¬ ∀ (h : Head), h.WellFormed → h.ReadBack (Request.read h.write) := by
  intro hall
  have hw : (mainPage (ascii "X (a b)")).WellFormed :=
    wellFormed_mainPage ⟨by decide, by decide⟩ (by decide) (by decide)
  have hlost := (hall _ hw).listed _ (List.mem_singleton.2 rfl) _ rfl
  revert hlost
  decide +kernel

end Head
end AirSane.Web
