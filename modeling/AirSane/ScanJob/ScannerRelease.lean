import AirSane.ScanJob.Calls

/-! # A finished job and its scanner

A job that is aborted, canceled or completed should have given up its session.
Three checks of `finishTransfer` abort without doing so: an unknown document
format, line lengths that disagree, and a page that stays open behind data that
does not fill whole images.
-/

namespace AirSane.ScanJob
open Programs Program

variable {E : Environment} {s : Settings}

/-- A finished job holds no scanner. -/
def World.Released (w : World) : Prop := w.state.isFinished → w.session = none

/-- The calls that abort only where they also close: a transfer has a known
format and agreeing line lengths, and a page whose session stays open ends at an
image boundary. -/
def Passage.Proper (s : Settings) (p : Passage) : Prop :=
  match p.call with
  | .finishTransfer _ _ => p.before.state = .processing →
    EncoderKind.ofDocumentFormat s.documentFormat ≠ none ∧ s.LineLengthsAgree p.before.frame ∧
      KeptAtBoundary s p.before.frame.lines (p.after.framesSince p.before)
  | _ => True

theorem Outcome.framesSince {h : ℤ} {front fs : List Frame} {count : ℕ} {w w' : World}
    (ho : Outcome s h front count fs w') (hw : frames w.log = .new :: front) :
    w'.framesSince w = fs := by
  simp [World.framesSince, ho.seen, hw]

/-- A transfer that ends releases the scanner of a finished job exactly if it
is proper. -/
theorem finishTransfer_released_iff {w w' : World} {fuel : ℕ} {good : Bool} (hw : w.Settled)
    (hp : w.state = .processing)
    (hrun : (finishTransfer s fuel good).run (exec E) w = (.ok (), w')) :
    w'.Released ↔ Passage.Proper s ⟨w, .finishTransfer fuel good, .ok true, w'⟩ := by
  obtain ⟨front, hfr⟩ := hw.fresh hp
  have ho := finishTransfer_outcome hp hfr hrun
  simp only [Passage.Proper, hp, true_implies, ← and_assoc]
  split_ifs at ho with hformat
  · obtain ⟨fs, ho⟩ := ho
    rw [ho.framesSince hfr, and_iff_right hformat, ← not_iff_not, ← ho.leak]
    have hends := ho.ended
    simp only [World.Released, State.isFinished]
    cases hs : w'.state <;> simp_all
  · simp [World.Released, State.isFinished, ho.1, ho.2, hw.session hp, hformat]

theorem released_call_iff {p : Passage} {b : Bool} (hw : p.before.Settled)
    (hrel : p.before.Released) (hp : p.Executes E s) (hr : p.result = .ok b) :
    p.after.Released ↔ p.Proper s := by
  obtain ⟨w, c, r, w'⟩ := p
  obtain rfl : r = .ok b := hr
  cases c with
  | beginTransfer fuel =>
    refine iff_of_true ?_ trivial
    cases b with
    | true =>
      obtain ⟨-, hstate, -⟩ := beginTransfer_true hp.beginTransfer
      exact fun h => by simp [hstate, State.isFinished] at h
    | false =>
      rcases beginTransfer_false hp.beginTransfer with ⟨-, h⟩ | ⟨-, hs, -⟩
      · exact h ▸ hrel
      · exact fun _ => hs
  | finishTransfer fuel good =>
    have hrun := hp.finishTransfer
    by_cases hproc : w.state = .processing
    · exact finishTransfer_released_iff hw hproc hrun
    · obtain rfl := finishTransfer_idle hproc hrun
      exact iff_of_true hrel fun h => absurd h hproc
  | cancel =>
    obtain rfl := hp.cancel
    exact iff_of_true (fun _ => rfl) trivial

/-- In a run of complete calls, no finished job ever holds a scanner exactly if
every transfer is proper. -/
theorem run_released_iff {ps : List Passage} {w : World} (h : Run E s ps w) :
    (∀ p ∈ ps, p.after.Released) ↔ ∀ p ∈ ps, p.Proper s := by
  suffices hrun : ((∀ p ∈ ps, p.after.Released) ↔ ∀ p ∈ ps, p.Proper s) ∧
      ((∀ p ∈ ps, p.Proper s) → w.Released) from hrun.1
  induction h with
  | start accepted => simp [World.Released, World.initial]
  | @call ps p b hps hp hr ih =>
    have hcall (hrel : p.before.Released) := released_call_iff hps.settled hrel hp hr
    simp only [List.forall_mem_cons]
    constructor
    · constructor
      · rintro ⟨hafter, hold⟩
        have hold' := ih.1.1 hold
        exact ⟨(hcall (ih.2 hold')).1 hafter, hold'⟩
      · rintro ⟨hproper, hold⟩
        exact ⟨(hcall (ih.2 hold)).2 hproper, ih.1.2 hold⟩
    · rintro ⟨hproper, hold⟩
      exact (hcall (ih.2 hold)).2 hproper

theorem run_released_iff_gray :
    let E := Environment.scripted .gray [.good] [(.good, [1]), (.good, [2])]
    let s := Settings.gray .single MIME_TYPE_JPEG
    (∀ p ∈ firstCalls E s, p.after.Released) ↔ ∀ p ∈ firstCalls E s, p.Proper s :=
  run_released_iff (run_firstCalls (by decide +kernel) (by decide +kernel))

/-- A sheet that ends after one of two lines aborts the job with its scanner
still held. -/
theorem not_released_short_sheet :
    let E := Environment.scripted .gray [.good] [(.good, [1])]
    let s := Settings.gray .adfSingle MIME_TYPE_JPEG
    Run E s (firstCalls E s) (firstTransfer E s).2 ∧ ¬ (firstTransfer E s).2.Released := by
  refine ⟨run_firstCalls (by decide +kernel) (by decide +kernel), fun h => ?_⟩
  have hs : (firstTransfer (.scripted .gray [.good] [(.good, [1])])
      (.gray .adfSingle MIME_TYPE_JPEG)).2.session = some 0 := by decide +kernel
  rw [h (by decide +kernel)] at hs
  simp at hs

end AirSane.ScanJob
