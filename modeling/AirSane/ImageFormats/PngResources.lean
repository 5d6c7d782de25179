import AirSane.ImageFormats.PngEncoder

/-! # The structs of libpng

Each part of `writeLine` adds to the calls that are made with the struct. They are
balanced if no image begins while a struct is held, none is written without one, and
none is left to the destructor, which does not know of it.
-/

namespace AirSane
open Text Web Programs OwnerCall

namespace PngEncoder

variable {p p' p'' : PngEncoder} {answers : PngAnswers} {line : Octets} {op : Op}
  {ops : List (Op × PngAnswers)} {t u : List (OwnerCall ℕ)}

/-- What is done with the structs between two states. -/
structure Does (p : PngEncoder) (t : List (OwnerCall ℕ)) (p' : PngEncoder) : Prop where
  calls : p'.calls = p.calls ++ t
  through : Through p.mpPng t
  held : p'.mpPng = held p.mpPng t
  created : ∃ n, p'.structs = p.structs + n ∧ created t = List.range' p.structs n

theorem Does.refl (p : PngEncoder) : p.Does [] p :=
  ⟨(List.append_nil _).symm, trivial, rfl, 0, rfl, rfl⟩

theorem Does.trans (h : p.Does t p') (h' : p'.Does u p'') : p.Does (t ++ u) p'' := by
  obtain ⟨n, hn, ht⟩ := h.created
  obtain ⟨m, hm, hu⟩ := h'.created
  refine ⟨?_, through_append.2 ⟨h.through, h.held ▸ h'.through⟩, ?_, n + m, by omega, ?_⟩
  · rw [h'.calls, h.calls, List.append_assoc]
  · rw [h'.held, h.held, held_append]
  · rw [OwnerCall.created, List.filterMap_append, ← OwnerCall.created, ← OwnerCall.created, ht, hu,
      hn, List.range'_append_1]

/-- Changes elsewhere do nothing to the structs. -/
theorem Does.of_eq (hc : p'.calls = p.calls) (hp : p'.mpPng = p.mpPng)
    (hs : p'.structs = p.structs) : p.Does [] p' :=
  ⟨by rw [hc, List.append_nil], trivial, hp, 0, hs, rfl⟩

/-- The log of an encoder tells what it holds, and numbers the structs. -/
structure Logged (p : PngEncoder) : Prop where
  through : Through none p.calls
  held : p.mpPng = OwnerCall.held none p.calls
  created : OwnerCall.created p.calls = List.range p.structs

theorem logged_new : Logged .new := ⟨trivial, rfl, rfl⟩

theorem Does.logged (h : p.Does t p') (hp : p.Logged) : p'.Logged := by
  obtain ⟨n, hn, ht⟩ := h.created
  refine ⟨?_, ?_, ?_⟩
  · rw [h.calls, through_append, ← hp.held]
    exact ⟨hp.through, h.through⟩
  · rw [h.calls, held_append, ← hp.held, h.held]
  · rw [h.calls, OwnerCall.created, List.filterMap_append, ← OwnerCall.created,
      ← OwnerCall.created, hp.created, ht, hn, List.range_eq_range', List.range_eq_range',
      ← List.range'_append_1, Nat.zero_add]

theorem Does.orderly (h : p.Does t p') (hp : p.Logged) :
    Orderly none p'.calls ↔ Orderly none p.calls ∧ Orderly p.mpPng t := by
  rw [h.calls, orderly_append, ← hp.held]

/-- What becomes of the pointer when an image begins. -/
def made (answers : PngAnswers) (p : PngEncoder) : Option ℕ :=
  if answers .create_write_struct then some p.structs else none

theorem createWriteStruct_does (answers : PngAnswers) (p : PngEncoder) :
    p.Does [.create (p.made answers)] (p.createWriteStruct answers) := by
  unfold createWriteStruct made
  by_cases h : answers .create_write_struct = true
  · simp only [if_pos h]
    exact ⟨rfl, trivial, rfl, 1, rfl, rfl⟩
  · simp only [if_neg h]
    exact ⟨rfl, trivial, rfl, 0, rfl, rfl⟩

theorem onWriteLine_does (answers : PngAnswers) (line : Octets) (p : PngEncoder) :
    p.Does [.use p.mpPng] (p.onWriteLine answers line).1 :=
  ⟨rfl, ⟨rfl, trivial⟩, rfl, 0, rfl, rfl⟩

/-- The struct is destroyed, or libpng has thrown. -/
theorem onImageEnd_does (answers : PngAnswers) (p : PngEncoder) :
    ∃ t, p.Does t (p.onImageEnd answers).1 ∧ (t = [] ∨ t = [.destroy p.mpPng]) := by
  unfold onImageEnd
  split_ifs
  · exact ⟨_, ⟨rfl, ⟨rfl, trivial⟩, rfl, 0, rfl, rfl⟩, .inr rfl⟩
  · exact ⟨_, .refl p, .inl rfl⟩

theorem finishLine_does (answers : PngAnswers) (p : PngEncoder) :
    ∃ t, p.Does t (p.finishLine answers).1 ∧ (t = [] ∨ t = [.destroy p.mpPng]) := by
  have hcount : p.Does [] { p with encoder := p.encoder.advance } := .of_eq rfl rfl rfl
  unfold finishLine
  dsimp only
  split_ifs
  · obtain ⟨t, hend, ht⟩ := onImageEnd_does answers { p with encoder := p.encoder.advance }
    exact ⟨_, hcount.trans hend, ht⟩
  · exact ⟨_, hcount, .inl rfl⟩

/-- The checks before the struct is made. -/
def Begins (p : PngEncoder) : Prop :=
  p.encoder.currentImage ≤ 0 ∧ p.encoder.orientationDegrees = 0 ∧
    (p.encoder.bitDepth = 16 → 0 ≤ lineWords p.encoder)

theorem resizeLineBuffer_eq_some (h : p.encoder.bitDepth = 16 → 0 ≤ lineWords p.encoder) :
    ∃ n, p.resizeLineBuffer = some { p with mLineBuffer := n } := by
  unfold resizeLineBuffer
  split_ifs with hdeep hneg
  · exact absurd (h hdeep) (not_le.2 hneg)
  · exact ⟨_, rfl⟩
  · exact ⟨_, rfl⟩

theorem resizeLineBuffer_eq_none (hdeep : p.encoder.bitDepth = 16)
    (hneg : lineWords p.encoder < 0) : p.resizeLineBuffer = none := by
  rw [resizeLineBuffer, if_pos hdeep, if_pos hneg]

theorem onImageBegin_of_not_begins (h : ¬ p.Begins) : p.onImageBegin answers = (p, false) := by
  unfold onImageBegin
  split_ifs with himage hturned
  · rfl
  · rfl
  · have hsize : ¬ (p.encoder.bitDepth = 16 → 0 ≤ lineWords p.encoder) :=
      fun hsize => h ⟨not_lt.1 himage, not_not.1 hturned, hsize⟩
    obtain ⟨hdeep, hneg⟩ := Classical.not_imp.1 hsize
    rw [resizeLineBuffer_eq_none hdeep (not_le.1 hneg)]

/-- Calls with no struct return. -/
theorem returns_of_none (h : p.mpPng = none) (c : PngCall) : p.returns answers c = true := by
  simp [returns, h]

theorem onImageBegin_of_begins (answers : PngAnswers) (h : p.Begins) :
    p.Does [.create (p.made answers)] (p.onImageBegin answers).1 ∧
      (p.onImageBegin answers).1.encoder = p.encoder ∧
      ((∀ c, (p.onImageBegin answers).1.returns answers c = true) →
        (p.onImageBegin answers).2 = true) := by
  obtain ⟨himage, hturned, hsize⟩ := h
  obtain ⟨n, hn⟩ := resizeLineBuffer_eq_some hsize
  have hbegin : p.onImageBegin answers =
      let q := { ({ p with mLineBuffer := n } : PngEncoder).createWriteStruct answers with
        mpStream := p.encoder.destination }
      (q, (headerCalls p.encoder).all (q.returns answers)) := by
    rw [onImageBegin, if_neg (by omega), if_neg (by simpa using hturned), hn]
    unfold createWriteStruct
    split_ifs <;> rfl
  have hdoes := createWriteStruct_does answers ({ p with mLineBuffer := n } : PngEncoder)
  rw [hbegin]
  refine ⟨⟨hdoes.calls, hdoes.through, hdoes.held, hdoes.created⟩, ?_, fun hreturns => ?_⟩
  · change (createWriteStruct answers _).encoder = _
    unfold createWriteStruct
    split_ifs <;> rfl
  · exact List.all_eq_true.2 fun c _ => hreturns c

@[simp] theorem andThen_true (p : PngEncoder) (f : PngEncoder → PngEncoder × Bool) :
    andThen (p, true) f = f p := rfl

@[simp] theorem andThen_false (p : PngEncoder) (f : PngEncoder → PngEncoder × Bool) :
    andThen (p, false) f = (p, false) := rfl

/-- From the line itself on. -/
def putLine (answers : PngAnswers) (line : Octets) (p : PngEncoder) : PngEncoder × Bool :=
  andThen (p.onWriteLine answers line) (finishLine answers)

theorem putLine_does (answers : PngAnswers) (line : Octets) (p : PngEncoder) :
    ∃ t, p.Does (.use p.mpPng :: t) (p.putLine answers line).1 ∧
      (t = [] ∨ t = [.destroy p.mpPng]) := by
  have hline := onWriteLine_does answers line p
  unfold putLine
  cases hback : (p.onWriteLine answers line).2 with
  | false =>
    refine ⟨[], ?_, .inl rfl⟩
    simpa [andThen, hback] using hline
  | true =>
    obtain ⟨t, hend, ht⟩ := finishLine_does answers (p.onWriteLine answers line).1
    refine ⟨t, ?_, ht⟩
    simpa [andThen, hback] using hline.trans hend

theorem onImageBegin_encoder : (p.onImageBegin answers).1.encoder = p.encoder := by
  by_cases h : p.Begins
  · exact (onImageBegin_of_begins answers h).2.1
  · rw [onImageBegin_of_not_begins h]

theorem writeLine_first (hd : p.encoder.destination = true) (hl : p.encoder.currentLine = 0) :
    p.writeLine answers line = andThen (p.onImageBegin answers) (putLine answers line) := by
  have hd' : (p.onImageBegin answers).1.encoder.destination = true := by
    rw [onImageBegin_encoder, hd]
  unfold writeLine putLine andThen
  dsimp only
  rw [if_pos (show p.encoder.currentLine = 0 ∧ p.encoder.destination = true from ⟨hl, hd⟩),
    if_pos hd']
  by_cases hback : (p.onImageBegin answers).2 = true
  · rw [if_pos hback, if_pos hback]
  · rw [if_neg hback, if_neg hback, if_neg hback]

theorem writeLine_later (hd : p.encoder.destination = true) (hl : p.encoder.currentLine ≠ 0) :
    p.writeLine answers line = p.putLine answers line := by
  simp [writeLine, putLine, hd, hl]

theorem writeLine_unsent (hd : ¬ p.encoder.destination = true) :
    p.writeLine answers line = p.finishLine answers := by
  simp [writeLine, hd]

/-- No image begins while a struct is held, or without one; no line is written
without one. -/
def Keeps (answers : PngAnswers) (p : PngEncoder) : Op → Prop
  | .writeLine _ => p.encoder.destination = true →
    if p.encoder.currentLine = 0 then
      p.Begins → p.mpPng = none ∧ answers .create_write_struct = true
    else p.mpPng ≠ none
  | _ => True

theorem orderly_end {held : Option ℕ} (h : t = [] ∨ t = [.destroy held]) : Orderly held t := by
  rcases h with rfl | rfl <;> trivial

theorem orderly_line {held : Option ℕ} (h : t = [] ∨ t = [.destroy held]) :
    Orderly held (.use held :: t) ↔ held ≠ none := and_iff_left (orderly_end h)

/-- An image begins, and unless libpng throws its first line follows. -/
theorem writeLine_first_does (answers : PngAnswers) (line : Octets)
    (hd : p.encoder.destination = true) (hl : p.encoder.currentLine = 0) (hb : p.Begins) :
    ∃ t, p.Does t (p.writeLine answers line).1 ∧
      (Orderly p.mpPng t ↔ p.mpPng = none ∧ answers .create_write_struct = true) := by
  obtain ⟨hbegin, -, hback⟩ := onImageBegin_of_begins answers hb
  have hmade : p.made answers ≠ none ↔ answers .create_write_struct = true := by
    unfold made
    split_ifs with h <;> simp [h]
  have hheld : (p.onImageBegin answers).1.mpPng = p.made answers := hbegin.held
  rw [writeLine_first hd hl, andThen]
  by_cases hreturn : (p.onImageBegin answers).2 = true
  · rw [if_pos hreturn]
    obtain ⟨t, hput, ht⟩ := putLine_does answers line (p.onImageBegin answers).1
    rw [hheld] at hput ht
    exact ⟨_, hbegin.trans hput, and_congr_right fun _ => (orderly_line ht).trans hmade⟩
  · rw [if_neg hreturn]
    have hstruct := hmade.1 fun hnone =>
      hreturn (hback (returns_of_none (hheld.trans hnone)))
    exact ⟨_, hbegin, and_congr_right fun _ => iff_of_true trivial hstruct⟩

theorem writeLine_does (answers : PngAnswers) (line : Octets) (p : PngEncoder) :
    ∃ t, p.Does t (p.writeLine answers line).1 ∧
      (Orderly p.mpPng t ↔ p.Keeps answers (.writeLine line)) := by
  unfold Keeps
  by_cases hd : p.encoder.destination = true
  · by_cases hl : p.encoder.currentLine = 0
    · by_cases hb : p.Begins
      · obtain ⟨t, hdoes, ht⟩ := writeLine_first_does answers line hd hl hb
        exact ⟨t, hdoes, by simpa [hd, hl, hb] using ht⟩
      · refine ⟨[], ?_, iff_of_true trivial fun _ => by simp [hl, hb]⟩
        rw [writeLine_first hd hl, onImageBegin_of_not_begins hb]
        exact .refl p
    · obtain ⟨t, hdoes, ht⟩ := putLine_does answers line p
      rw [writeLine_later hd hl]
      exact ⟨_, hdoes, by simpa [hd, hl] using orderly_line ht⟩
  · obtain ⟨t, hdoes, ht⟩ := finishLine_does answers p
    rw [writeLine_unsent hd]
    exact ⟨t, hdoes, iff_of_true (orderly_end ht) fun h => absurd h hd⟩

theorem change_does (e : Encoder) (p : PngEncoder) : p.Does [] (p.change e).1 := by
  unfold change
  split_ifs <;> exact .of_eq rfl rfl rfl

/-- Only lines do something to the structs. -/
theorem step_does (answers : PngAnswers) (p : PngEncoder) (op : Op) :
    ∃ t, p.Does t (p.step answers op).1 ∧ (Orderly p.mpPng t ↔ p.Keeps answers op) := by
  have hsetter : ∀ {p'}, p.Does [] p' → ∃ t, p.Does t p' ∧ (Orderly p.mpPng t ↔ True) :=
    fun h => ⟨[], h, .rfl⟩
  cases op with
  | writeLine line => exact writeLine_does answers line p
  | setOrientationDegrees d => exact hsetter (.of_eq rfl rfl rfl)
  | endDocument => exact hsetter (.refl p)
  | setWidth | setHeight | setBitDepth | setResolutionDpi | setColorspace | setDestination =>
    exact hsetter (change_does _ p)

/-- Every step of a run keeps to one struct at a time, and the run leaves none behind. -/
def Kept : PngEncoder → List (Op × PngAnswers) → Prop
  | p, [] => p.mpPng = none
  | p, (op, answers) :: ops => p.Keeps answers op ∧ Kept (p.step answers op).1 ops

theorem logged_run (h : p.Logged) : (p.run ops).Logged := by
  induction ops generalizing p with
  | nil => exact h
  | cons op ops ih =>
    obtain ⟨t, hdoes, -⟩ := step_does op.2 p op.1
    exact ih (hdoes.logged h)

theorem kept_iff (h : p.Logged) :
    (Orderly none (p.run ops).calls ∧ (p.run ops).mpPng = none) ↔
      Orderly none p.calls ∧ p.Kept ops := by
  induction ops generalizing p with
  | nil => exact .rfl
  | cons op ops ih =>
    obtain ⟨t, hdoes, ht⟩ := step_does op.2 p op.1
    refine (ih (hdoes.logged h)).trans ?_
    rw [hdoes.orderly h, ht]
    exact and_assoc

/-- What an encoder has done with libpng by its destruction is balanced. -/
def LibpngBalanced (ops : List (Op × PngAnswers)) : Prop :=
  Balanced (run new ops).destructor

theorem Logged.balanced_iff (h : p.Logged) :
    Balanced p.destructor ↔ Orderly none p.calls ∧ p.mpPng = none := by
  have hfresh : (OwnerCall.created p.calls).Nodup := by
    rw [h.created]
    exact List.nodup_range
  rw [h.held]
  exact OwnerCall.balanced_iff h.through hfresh

theorem libpngBalanced_iff (ops : List (Op × PngAnswers)) :
    LibpngBalanced ops ↔ new.Kept ops := by
  have hlog : (run new ops).Logged := logged_run logged_new
  exact hlog.balanced_iff.trans ((kept_iff logged_new).trans (and_iff_right trivial))

end PngEncoder
end AirSane
