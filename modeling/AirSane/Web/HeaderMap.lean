import AirSane.Web.Body
import AirSane.Web.Framing

/-! # Response headers as a map

What `Response::header` and `sendHeaders` make of a sequence of calls of
`setHeader`. A blank value removes the key as it was spelled in the call, which is
not always the key that is kept.
-/

namespace AirSane.Web
open Text

/-- The form of a key that is kept. -/
def normalKey (key : Octets) : Octets := ctolower (ctrim key)

/-- The value of the last call for a key, up to letter case and white space. -/
def lastValue (calls : List (Octets × Octets)) (key : Octets) : Octets :=
  ((fieldValue calls (normalKey key)).map ctrim).getD []

/-- The keys that `sendHeaders` adjusts. -/
def adjusted : List Octets :=
  [HTTP_HEADER_CONNECTION, HTTP_HEADER_CONTENT_LENGTH, HTTP_HEADER_TRANSFER_ENCODING]

/-- Headers are found and sent with the value of the last call for them. -/
structure AsMap (status : ℤ) (calls : List (Octets × Octets)) : Prop where
  header : ∀ key, (Response.prepared status calls).header key = lastValue calls key
  sent : ∀ r, (Response.prepared status calls).sendHeaders = some r → ∃ lines : Dictionary,
    r.mStream = statusLine status ++ crlf ++ (lines.map fun h => headerLine h ++ crlf).flatten ++
      crlf ∧
    ∀ key, normalKey key ∉ adjusted → lines.filter (fun h => h.1 = normalKey key) =
      if lastValue calls key = [] then [] else [(normalKey key, lastValue calls key)]

/-- A blank value for a key that is not spelled as it is kept. -/
def Ignored (c : Octets × Octets) : Prop := ctrim c.2 = [] ∧ normalKey c.1 ≠ c.1

instance (c : Octets × Octets) : Decidable (Ignored c) := inferInstanceAs (Decidable (_ ∧ _))

/-- Where the last call for a key is ignored, the last one that was not had a blank
value too, or there was none. -/
def NoneStale (calls : List (Octets × Octets)) : Prop :=
  ∀ before c later, calls = before ++ c :: later → Ignored c →
    (∀ d ∈ later, normalKey d.1 ≠ normalKey c.1) →
      ∀ v ∈ fieldValue (before.filter (¬ Ignored ·)) (normalKey c.1), ctrim v = []

variable {status : ℤ} {calls : List (Octets × Octets)} {key v : Octets} {d : Dictionary}

@[simp] theorem normalKey_normalKey : normalKey (normalKey key) = normalKey key := by
  have hspace : ctrim (normalKey key) = normalKey key :=
    List.filter_eq_self.2 fun b hb => by
      simpa using ctolower_not_space (fun b => ctrim_not_space) b hb
  have hlower : ∀ b, toLower (toLower b) = toLower b := forall_byte (by decide +kernel)
  rw [normalKey, hspace, normalKey, ctolower, ctolower, List.map_map]
  exact List.map_congr_left fun b _ => hlower b

/-- The value of a key in the dictionary after a call. -/
theorem getString_setHeader {r : Response} (hd : r.mHeaders.keys.Nodup) (c : Octets × Octets)
    (key : Octets) :
    (r.setHeader c.1 c.2).mHeaders.getString (normalKey key) =
      if Ignored c ∨ normalKey c.1 ≠ normalKey key then r.mHeaders.getString (normalKey key)
      else ctrim c.2 := by
  rw [Response.setHeader]
  by_cases hblank : ctrim c.2 = []
  · rw [if_pos hblank]
    by_cases hspelled : normalKey c.1 = c.1
    · have hno : ¬ Ignored c := fun h => h.2 hspelled
      by_cases hk : normalKey key = c.1
      · have hgone : c.1 ∉ (r.mHeaders.eraseKey c.1).keys := Dictionary.not_mem_eraseKey hd
        rw [if_neg (by simp [hno, hspelled, hk]), hblank, hk, Dictionary.getString_of_not_mem hgone]
      · have hne : normalKey c.1 ≠ normalKey key := fun h => hk (h.symm.trans hspelled)
        rw [if_pos (.inr hne)]
        exact Dictionary.getString_eraseKey_ne hk
    · have hk : normalKey key ≠ c.1 := by
        intro h
        apply hspelled
        rw [← h, normalKey_normalKey]
      rw [if_pos (.inl ⟨hblank, hspelled⟩)]
      exact Dictionary.getString_eraseKey_ne hk
  · have hno : ¬ Ignored c := fun h => hblank h.1
    rw [if_neg hblank]
    by_cases hk : normalKey c.1 = normalKey key
    · rw [if_neg (by simp [hno, hk]), ← hk]
      exact Dictionary.getString_assign_self
    · rw [if_pos (.inr hk)]
      exact Dictionary.getString_assign_ne fun h => hk h.symm

theorem prepared_append (c : Octets × Octets) :
    Response.prepared status (calls ++ [c]) = (Response.prepared status calls).setHeader c.1 c.2 := by
  rw [Response.prepared, List.foldl_append]
  rfl

/-- What is found is the value of the last call that was not ignored. -/
theorem header_prepared (key : Octets) : (Response.prepared status calls).header key =
    lastValue (calls.filter (¬ Ignored ·)) key := by
  have hkey : ctolower (ctrim key) = normalKey key := rfl
  rw [Response.header, hkey]
  induction calls using List.reverseRecOn with
  | nil => rfl
  | append_singleton calls c ih =>
    rw [prepared_append, getString_setHeader (normal_prepared status calls).nodup, ih, List.filter_append]
    by_cases hig : Ignored c
    · simp [hig]
    · rw [List.filter_cons_of_pos (by simpa using hig), List.filter_nil, lastValue, lastValue,
        fieldValue_append]
      by_cases hk : normalKey c.1 = normalKey key
      · have hk' : ctolower (ctrim c.1) = normalKey key := hk
        simp [hig, hk, hk']
      · have hk' : ¬ ctolower (ctrim c.1) = normalKey key := hk
        simp [hk, hk']

theorem fieldValue_eq_none_iff :
    fieldValue calls key = none ↔ ∀ c ∈ calls, normalKey c.1 ≠ key := by
  simp [fieldValue, normalKey]

/-- A value that is found is that of a call with no other for its key behind it. -/
theorem fieldValue_eq_some (h : fieldValue calls key = some v) : ∃ before name later,
    calls = before ++ (name, v) :: later ∧ normalKey name = key ∧
      ∀ d ∈ later, normalKey d.1 ≠ key := by
  obtain ⟨c, hc, rfl⟩ := Option.map_eq_some_iff.1 h
  obtain ⟨hkey, later, before, hsplit, hlater⟩ := List.find?_eq_some_iff_append.1 hc
  have hkey : normalKey c.1 = key := of_decide_eq_true hkey
  refine ⟨before.reverse, c.1, later.reverse, ?_, hkey, fun d hd hk => ?_⟩
  · rw [← List.reverse_reverse calls, hsplit]
    simp
  · have hk : ctolower (ctrim d.1) = key := hk
    simpa [hk] using hlater d (List.mem_reverse.1 hd)

theorem fieldValue_append_later {before later : List (Octets × Octets)}
    (hlater : ∀ d ∈ later, normalKey d.1 ≠ key) :
    fieldValue (before ++ later) key = fieldValue before key := by
  induction later using List.reverseRecOn with
  | nil => rw [List.append_nil]
  | append_singleton later d ih =>
    have hd : ¬ ctolower (ctrim d.1) = key := hlater d (by simp)
    rw [← List.append_assoc, fieldValue_append, if_neg hd, ih fun d hd => hlater d (by simp [hd])]

theorem fieldValue_last {before later : List (Octets × Octets)} {c : Octets × Octets}
    (hc : normalKey c.1 = key) (hlater : ∀ d ∈ later, normalKey d.1 ≠ key) :
    fieldValue (before ++ c :: later) key = some c.2 := by
  have hc : ctolower (ctrim c.1) = key := hc
  rw [← List.singleton_append, ← List.append_assoc, fieldValue_append_later hlater,
    fieldValue_append, if_pos hc]

/-- No value is stale if and only if the calls that are ignored make no difference. -/
theorem noneStale_iff : NoneStale calls ↔
    ∀ key, lastValue (calls.filter (¬ Ignored ·)) key = lastValue calls key := by
  have hkept {later : List (Octets × Octets)} {key : Octets}
      (hlater : ∀ d ∈ later, normalKey d.1 ≠ key) :
      ∀ d ∈ later.filter (¬ Ignored ·), normalKey d.1 ≠ key :=
    fun d hd => hlater d (List.mem_of_mem_filter hd)
  constructor
  · intro h key
    rw [lastValue, lastValue]
    cases hv : fieldValue calls (normalKey key) with
    | none => rw [fieldValue_eq_none_iff.2 (hkept (fieldValue_eq_none_iff.1 hv))]
    | some v =>
      obtain ⟨before, name, later, rfl, hname, hlater⟩ := fieldValue_eq_some hv
      rw [List.filter_append]
      by_cases hig : Ignored (name, v)
      · have hstale := h before (name, v) later rfl hig (by rwa [hname])
        rw [List.filter_cons_of_neg (by simpa using hig), fieldValue_append_later (hkept hlater),
          Option.map_some, Option.getD_some, hig.1, ← hname]
        cases hold : fieldValue (before.filter (¬ Ignored ·)) (normalKey name) with
        | none => rfl
        | some w => exact hstale w hold
      · rw [List.filter_cons_of_pos (by simpa using hig), fieldValue_last hname (hkept hlater)]
  · intro h before c later hsplit hig hlater v hv
    have heq := h c.1
    rw [hsplit, List.filter_append, List.filter_cons_of_neg (by simpa using hig), lastValue, lastValue,
      fieldValue_append_later (hkept hlater), hv, fieldValue_last rfl hlater] at heq
    exact heq.trans hig.1

/-- The keys that are not adjusted keep their values. -/
theorem getString_sendHeaders {r r' : Response} (h : r.sendHeaders = some r')
    (hkey : key ∉ adjusted) : r'.mHeaders.getString key = r.mHeaders.getString key := by
  simp only [adjusted, List.mem_cons, List.not_mem_nil, or_false, not_or] at hkey
  obtain ⟨hconnection, hlength, hencoding⟩ := hkey
  have hclose : Dictionary.getString (r.mHeaders.assign HTTP_HEADER_CONNECTION (ascii "close")) key =
      r.mHeaders.getString key := Dictionary.getString_assign_ne hconnection
  simp only [Response.sendHeaders, setHeader_close, setHeader_nil] at h
  split_ifs at h
  · rw [← Option.some.inj h, ← hclose]
    exact Dictionary.getString_eraseKey_ne hencoding
  · rw [← Option.some.inj h, ← hclose, Response.deleteChunkstream]
    split <;> exact Dictionary.getString_eraseKey_ne hlength
  · rw [← Option.some.inj h, ← hclose]
    rfl

/-- The lines of a key. -/
theorem filter_printed (hd : Normal d) : (printed d).filter (fun h => h.1 = key) =
    if d.getString key = [] then [] else [(key, d.getString key)] := by
  rw [printed_eq hd, Dictionary.filter_key hd.nodup]
  by_cases hm : key ∈ d.keys
  · have hne : d.getString key ≠ [] := hd.full _ (Dictionary.mem_getString hm)
    rw [if_pos hm, if_neg hne]
  · rw [if_neg hm, Dictionary.getString_of_not_mem hm, if_pos rfl]

theorem isSome_sendHeaders (r : Response) : r.sendHeaders.isSome ↔
    ctolower (r.header HTTP_HEADER_TRANSFER_ENCODING) ∈ [ascii "identity", ascii "chunked", []] := by
  have hencoding : (r.setHeader HTTP_HEADER_CONNECTION (ascii "close")).header
      HTTP_HEADER_TRANSFER_ENCODING = r.header HTTP_HEADER_TRANSFER_ENCODING := by
    rw [setHeader_close, Response.header, Response.header, key_transferEncoding]
    exact Dictionary.getString_assign_ne (by decide)
  rw [Response.sendHeaders, hencoding]
  dsimp only
  split_ifs with hidentity hchunked hnone
  · simp [hidentity]
  · simp [hchunked]
  · simp [hnone]
  · simp [hidentity, hchunked, hnone]

end AirSane.Web
