import AirSane.Basic.Strtonum
import AirSane.Sanecpp.Options

/-! # Setting a numeric option

`option::set_numeric_value` on an option of an open device. The backend stores what
it is given, and may refuse any call. Where the conversion to a word would have no
defined result, there is none.
-/

namespace AirSane.Sanecpp

/-- `SANE_Option_Descriptor`, with the bits of its capabilities. -/
structure ControlDescriptor extends OptionDescriptor where
  cap : BitVec 32

namespace ControlDescriptor

/-- `SANE_CAP_SOFT_SELECT`. -/
def is_settable (d : ControlDescriptor) : Bool := d.cap.getLsbD 0

/-- `SANE_CAP_INACTIVE`. -/
def is_active (d : ControlDescriptor) : Bool := !d.cap.getLsbD 5

/-- What a value is before it is cut off to a word. -/
def scaled (d : ControlDescriptor) (v : ℚ) : ℚ := if d.type = .fixed then v * 2 ^ 16 else v

def toWord (d : ControlDescriptor) (v : ℚ) : Option ℤ :=
  if InInt (truncate (d.scaled v)) then some (truncate (d.scaled v)) else none

/-- `SANE_UNFIX` of fixed-point words; a double holds the quotient. -/
def ofWord (d : ControlDescriptor) (w : ℤ) : ℚ := if d.type = .fixed then w / 2 ^ 16 else w

/-- A value as the type of the option has it. -/
def rounded (d : ControlDescriptor) (v : ℚ) : ℚ := d.ofWord (truncate (d.scaled v))

end ControlDescriptor

/-- An option of a set, whose device may not be open. -/
structure DeviceOption where
  handle : Bool
  m_desc : Option ControlDescriptor

def DeviceOption.option (o : DeviceOption) : SaneOption :=
  ⟨o.m_desc.map (·.toOptionDescriptor), none⟩

inductive ControlAction where
  | get
  | set (words : List ℤ)
  deriving DecidableEq

/-- How the backend takes a call, and what is in `info` then. -/
structure ControlAnswer where
  status : SaneStatus
  info : BitVec 32

structure OptionBackend where
  elements : List ℤ
  /-- The calls with their statuses. -/
  calls : List (ControlAction × SaneStatus)
  reloads : ℕ

namespace OptionBackend

/-- `sane_control_option`: what is set and not refused is stored. -/
def control (answers : ControlAction → ControlAnswer) (b : OptionBackend) (a : ControlAction) :
    OptionBackend where
  elements := match a with
    | .get => b.elements
    | .set words => if (answers a).status = .good then words else b.elements
  calls := b.calls ++ [(a, (answers a).status)]
  reloads := b.reloads

/-- `SANE_INFO_RELOAD_OPTIONS`. -/
def reload (b : OptionBackend) (info : BitVec 32) : OptionBackend :=
  if info.getLsbD 1 then { b with reloads := b.reloads + 1 } else b

end OptionBackend

namespace DeviceOption

/-- The part of `set_numeric_value` that calls the backend: what is in `status` and
in `info` behind it. -/
def controlNumeric (answers : ControlAction → ControlAnswer) (o : DeviceOption) (index w : ℤ)
    (b : OptionBackend) : ControlAnswer × OptionBackend :=
  if o.option.array_size = 1 ∧ index = 0 then (answers (.set [w]), b.control answers (.set [w]))
  else if 0 ≤ index ∧ index < o.option.array_size then
    let data := b.elements.set index.toNat w
    if (answers .get).status = .good then
      (answers (.set data), (b.control answers .get).control answers (.set data))
    else (answers .get, b.control answers .get)
  else (⟨.good, 0⟩, b)

def set_numeric_value (answers : ControlAction → ControlAnswer) (o : DeviceOption) (index : ℤ)
    (value : ℚ) (b : OptionBackend) : Option (Bool × OptionBackend) :=
  match o.handle, o.m_desc with
  | true, some d =>
    if !o.option.is_numeric || !d.is_settable || !d.is_active then some (false, b)
    else (d.toWord value).map fun w =>
      let r := o.controlNumeric answers index w b
      (r.1.status = .good, r.2.reload r.1.info)
  | _, _ => some (false, b)

/-- `numeric_value`, with the status of the call it makes; nothing is not a number. -/
def numeric_value (o : DeviceOption) (index : ℤ) (status : SaneStatus) (b : OptionBackend) :
    Option ℚ :=
  match o.handle, o.m_desc with
  | true, some d =>
    if !o.option.is_numeric then none
    else if index < 0 ∨ index ≥ o.option.array_size then none
    else if status ≠ .good then none
    else (b.elements[index.toNat]?).map d.ofWord
  | _, _ => none

/-- The option can be set. -/
def Open (o : DeviceOption) : Prop :=
  o.handle = true ∧ o.option.is_numeric = true ∧
    ∃ d, o.m_desc = some d ∧ d.is_settable = true ∧ d.is_active = true

/-- A result that tells whether the element has been set, and nothing else has. -/
structure Exact (o : DeviceOption) (index : ℤ) (v : ℚ) (b : OptionBackend) (result : Bool)
    (b' : OptionBackend) : Prop where
  executed : result = true ↔
    ∃ calls words, b'.calls = b.calls ++ calls ∧ (.set words, .good) ∈ calls
  length : b'.elements.length = b.elements.length
  done : result = true → ∀ d, o.m_desc = some d →
    o.numeric_value index .good b' = some (d.rounded v)
  others : ∀ j : ℕ, result = true → (j : ℤ) ≠ index → b'.elements[j]? = b.elements[j]?
  undone : result = false → b'.elements = b.elements

def SetsExactly (answers : ControlAction → ControlAnswer) (o : DeviceOption) (index : ℤ) (v : ℚ)
    (b : OptionBackend) : Prop :=
  ∃ result b', o.set_numeric_value answers index v b = some (result, b') ∧
    o.Exact index v b result b'

variable {answers : ControlAction → ControlAnswer} {o : DeviceOption} {index w : ℤ} {v : ℚ}
  {b : OptionBackend} {d : ControlDescriptor}

theorem set_of_not_open (h : ¬ o.Open) :
    o.set_numeric_value answers index v b = some (false, b) := by
  unfold set_numeric_value
  split
  · next d hhandle hdesc =>
    refine if_pos ?_
    by_contra hcheck
    simp only [Bool.or_eq_true, Bool.not_eq_true', not_or, Bool.not_eq_false] at hcheck
    exact h ⟨hhandle, hcheck.1.1, d, hdesc, hcheck.1.2, hcheck.2⟩
  · rfl

theorem set_of_open (answers : ControlAction → ControlAnswer) (index : ℤ) (b : OptionBackend)
    (h : o.Open) (hd : o.m_desc = some d) (hw : d.toWord v = some w) :
    o.set_numeric_value answers index v b =
      some (decide ((o.controlNumeric answers index w b).1.status = .good),
        (o.controlNumeric answers index w b).2.reload
          (o.controlNumeric answers index w b).1.info) := by
  obtain ⟨hhandle, hnumeric, d', hd', hsettable, hactive⟩ := h
  obtain rfl : d = d' := Option.some.inj (hd.symm.trans hd')
  unfold set_numeric_value
  simp [hhandle, hd, hnumeric, hsettable, hactive, hw]

/-- What the calls have come to: the element is set, or nothing is. -/
structure Outcome (index w : ℤ) (b : OptionBackend) (status : SaneStatus) (b' : OptionBackend) :
    Prop where
  calls : ∃ calls, b'.calls = b.calls ++ calls ∧
    (status = .good ↔ ∃ words, (.set words, .good) ∈ calls)
  elements : b'.elements = if status = .good then b.elements.set index.toNat w else b.elements

/-- An index of the value takes one of two routes to the same end. -/
theorem controlNumeric_of_valid (answers : ControlAction → ControlAnswer) (w : ℤ)
    (hlen : b.elements.length = o.option.array_size)
    (hlo : 0 ≤ index) (hhi : index < o.option.array_size) :
    Outcome index w b (o.controlNumeric answers index w b).1.status
      (o.controlNumeric answers index w b).2 := by
  unfold controlNumeric
  split_ifs with hscalar hvalid hget
  · obtain ⟨hone, rfl⟩ := hscalar
    obtain ⟨x, hx⟩ := List.length_eq_one_iff.1 (hlen.trans hone)
    refine ⟨⟨_, rfl, by simp [eq_comm]⟩, ?_⟩
    change (if _ then [w] else b.elements) = _
    rw [hx]
    rfl
  · exact ⟨⟨_, List.append_assoc .., by simp [eq_comm]⟩, rfl⟩
  · exact ⟨⟨_, rfl, by simp [hget]⟩, (if_neg hget).symm⟩
  · exact absurd ⟨hlo, hhi⟩ hvalid

/-- Any other index is answered as if it had been set. -/
theorem controlNumeric_of_invalid (h : ¬ (0 ≤ index ∧ index < o.option.array_size)) :
    o.controlNumeric answers index w b = (⟨.good, 0⟩, b) := by
  have hscalar : ¬ (o.option.array_size = 1 ∧ index = 0) := by omega
  rw [controlNumeric, if_neg hscalar, if_neg h]

theorem numeric_value_of_open (h : o.Open) (hd : o.m_desc = some d) (hlo : 0 ≤ index)
    (hhi : index < o.option.array_size) :
    o.numeric_value index .good b = (b.elements[index.toNat]?).map d.ofWord := by
  obtain ⟨hhandle, hnumeric, -⟩ := h
  unfold numeric_value
  simp only [hhandle, hd, hnumeric]
  have hvalid : ¬ (index < 0 ∨ index ≥ o.option.array_size) := by omega
  simp [hvalid]

/-- What is set and what is told of it, where the index is one of the value. -/
theorem exact_of_outcome (h : o.Open) (hd : o.m_desc = some d)
    (hlen : b.elements.length = o.option.array_size) (hlo : 0 ≤ index)
    (hhi : index < o.option.array_size) {status : SaneStatus} {b' : OptionBackend}
    (ho : Outcome index (truncate (d.scaled v)) b status b') :
    o.Exact index v b (decide (status = .good)) b' := by
  obtain ⟨⟨calls, hcalls, hset⟩, helements⟩ := ho
  have hexecuted : decide (status = .good) = true ↔
      ∃ calls words, b'.calls = b.calls ++ calls ∧ (.set words, .good) ∈ calls := by
    rw [decide_eq_true_iff, hset]
    constructor
    · rintro ⟨words, hm⟩
      exact ⟨calls, words, hcalls, hm⟩
    · rintro ⟨calls', words, hcalls', hm⟩
      obtain rfl : calls = calls' := List.append_cancel_left (hcalls.symm.trans hcalls')
      exact ⟨words, hm⟩
  by_cases hgood : status = .good
  · rw [if_pos hgood] at helements
    refine ⟨hexecuted, by rw [helements, List.length_set], fun _ d' hd' => ?_,
      fun j _ hj => ?_, fun hfalse => absurd hgood (of_decide_eq_false hfalse)⟩
    · obtain rfl : d = d' := Option.some.inj (hd.symm.trans hd')
      rw [numeric_value_of_open h hd hlo hhi, helements,
        List.getElem?_set_self (by omega)]
      rfl
    · rw [helements, List.getElem?_set_ne (by omega)]
  · rw [if_neg hgood] at helements
    have hfalse : ¬ decide (status = .good) = true := by simpa using hgood
    exact ⟨hexecuted, by rw [helements], fun ht => absurd ht hfalse, fun j ht => absurd ht hfalse,
      fun _ => helements⟩

/-- Where no call is made nothing is set. -/
theorem not_set (b : OptionBackend) :
    ¬ ∃ calls words, b.calls = b.calls ++ calls ∧ (ControlAction.set words, .good) ∈ calls := by
  rintro ⟨calls, words, hcalls, hm⟩
  have hnil : calls = [] := List.append_right_eq_self.1 hcalls.symm
  exact absurd (hnil ▸ hm) List.not_mem_nil

/-- Setting is exact unless it succeeds for an index that the value does not have. -/
theorem setsExactly_iff (answers : ControlAction → ControlAnswer)
    (hlen : b.elements.length = o.option.array_size)
    (hv : ∀ d, o.m_desc = some d → InInt (truncate (d.scaled v))) :
    SetsExactly answers o index v b ↔
      (o.Open → 0 ≤ index ∧ index < o.option.array_size) := by
  by_cases h : o.Open
  · obtain ⟨-, -, d, hd, -⟩ := id h
    have hw : d.toWord v = some (truncate (d.scaled v)) := if_pos (hv d hd)
    have hset := set_of_open answers index b h hd hw
    by_cases hvalid : 0 ≤ index ∧ index < o.option.array_size
    · refine iff_of_true ⟨_, _, hset, ?_⟩ fun _ => hvalid
      have hout := controlNumeric_of_valid answers (truncate (d.scaled v)) hlen
        hvalid.1 hvalid.2
      refine exact_of_outcome h hd hlen hvalid.1 hvalid.2 ?_
      unfold OptionBackend.reload
      split_ifs
      · exact ⟨hout.calls, hout.elements⟩
      · exact hout
    · refine iff_of_false ?_ fun hall => hvalid (hall h)
      rintro ⟨result, b', hresult, hexact⟩
      have hsame : b.reload 0 = b := if_neg (by decide)
      rw [hset, controlNumeric_of_invalid hvalid, hsame] at hresult
      obtain ⟨rfl, rfl⟩ := Prod.mk.inj (Option.some.inj hresult)
      exact not_set b (hexact.executed.1 rfl)
  · refine iff_of_true ⟨_, _, set_of_not_open h, ?_⟩ fun ho => absurd ho h
    exact ⟨iff_of_false Bool.false_ne_true (not_set b), rfl, by simp, by simp, fun _ => rfl⟩

/-- Two words that can be set, on a backend that has 1 and 2 in them. -/
def pair : DeviceOption := ⟨true, some ⟨⟨.int, .none, 8, .none⟩, 1⟩⟩
def oneTwo : OptionBackend := ⟨[1, 2], [], 0⟩

/-- A backend that refuses nothing. -/
def willing : ControlAction → ControlAnswer := fun _ => ⟨.good, 0⟩

theorem inInt_pair {v : ℤ} (hv : InInt v) :
    ∀ d, pair.m_desc = some d → InInt (truncate (d.scaled v)) := by
  rintro d hd
  obtain rfl := Option.some.inj hd
  have hscaled : ∀ x : ℚ, (⟨⟨.int, .none, 8, .none⟩, 1⟩ : ControlDescriptor).scaled x = x :=
    fun x => if_neg (by decide)
  rw [hscaled, truncate, Int.floor_intCast, Int.ceil_intCast, ite_self]
  exact hv

theorem setsExactly_iff_second : SetsExactly willing pair 1 (7 : ℤ) oneTwo :=
  (setsExactly_iff (o := pair) (v := (7 : ℤ)) (b := oneTwo) willing rfl
    (inInt_pair (by decide))).2 fun _ => by decide

/-- The third of two elements is set, as one is told. -/
theorem not_setsExactly_third :
    pair.Open ∧ oneTwo.elements.length = pair.option.array_size ∧
      pair.set_numeric_value willing 2 (7 : ℤ) oneTwo = some (true, oneTwo) ∧
      ¬ SetsExactly willing pair 2 (7 : ℤ) oneTwo := by
  have hopen : pair.Open := ⟨rfl, rfl, _, rfl, rfl, rfl⟩
  have hset : pair.set_numeric_value willing 2 (7 : ℤ) oneTwo = some (true, oneTwo) := by
    rw [set_of_open _ _ _ hopen rfl (if_pos (inInt_pair (v := 7) (by decide) _ rfl)),
      controlNumeric_of_invalid (by decide)]
    rfl
  refine ⟨hopen, rfl, hset, ?_⟩
  rintro ⟨result, b', hresult, hexact⟩
  rw [hset] at hresult
  obtain ⟨rfl, rfl⟩ := Prod.mk.inj (Option.some.inj hresult)
  exact not_set oneTwo (hexact.executed.1 rfl)

end DeviceOption

/-- A value that the type has is not changed. -/
theorem ControlDescriptor.rounded_of_eq {d : ControlDescriptor} {v : ℚ} {w : ℤ}
    (h : d.scaled v = w) : d.rounded v = v := by
  have htrunc : truncate (w : ℚ) = w := by
    rw [truncate, Int.floor_intCast, Int.ceil_intCast, ite_self]
  rw [rounded, h, htrunc, ofWord]
  unfold scaled at h
  split_ifs at h ⊢ with hfixed
  · rw [← h]
    exact mul_div_cancel_right₀ v (by norm_num)
  · exact h.symm

end AirSane.Sanecpp
