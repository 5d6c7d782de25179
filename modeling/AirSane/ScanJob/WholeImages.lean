import AirSane.ScanJob.Calls

/-! # Images counted and images sent

The completeness check of `finishTransfer` looks at the line counter of the
encoder, which wraps at the image height. A transfer that passes it has counted
each of its frames once, but a frame may have held no line, or lines for more
than one image.
-/

namespace AirSane.ScanJob
open Programs Program

variable {E : Environment} {s : Settings}

/-- Each image counted is one frame of exactly `h` lines, all of them written,
and the encoder has seen as many images. -/
structure WholeImages (s : Settings) (h : ℤ) (w w' : World) : Prop where
  counted : w'.imagesCompleted = w.imagesCompleted + (w'.framesSince w).length
  whole : ∀ f ∈ w'.framesSince w, (f.delivered.length : ℤ) = h ∧
    f.written = f.delivered.map s.processed
  encoder : ∃ e, w'.encoder = some e ∧ e.currentImage = (w'.framesSince w).length
  single : s.kind ≠ .adfConcat → (w'.framesSince w).length = 1

theorem Frame.AtBoundary.length_eq {h : ℤ} {f : Frame} (hh : 1 ≤ h) (hb : f.AtBoundary h)
    (hpos : 0 < f.delivered.length) (hlt : (f.delivered.length : ℤ) < 2 * h) :
    (f.delivered.length : ℤ) = h := by
  have hh' : 0 < h := by omega
  simp only [AtBoundary, Encoder.lineAt, hh', if_true] at hb
  obtain ⟨k, hk⟩ := Int.dvd_of_emod_eq_zero hb
  have hk0 : 0 < k := by
    by_contra hneg
    have : h * k ≤ 0 := Int.mul_nonpos_of_nonneg_of_nonpos hh'.le (by omega)
    omega
  have hk2 : k < 2 := by
    by_contra hge
    have : h * 2 ≤ h * k := Int.mul_le_mul_of_nonneg_left (by omega) hh'.le
    omega
  obtain rfl : k = 1 := by omega
  omega

theorem pages_eq_length {h : ℤ} (hh : 1 ≤ h) {fs : List Frame}
    (hfs : ∀ f ∈ fs, (f.delivered.length : ℤ) = h) : pages h fs = fs.length := by
  have hh' : 0 < h := by omega
  have hone : ∀ f ∈ fs, Encoder.imagesAt h f.delivered.length = 1 := fun f hf => by
    simp [Encoder.imagesAt, hh', hfs f hf, Int.ediv_self hh'.ne']
  rw [pages, List.map_congr_left hone]
  simp

/-- After a transfer that did not abort, the images counted are whole exactly if
each of its frames delivered a line, and none delivered lines for two images. -/
theorem finishTransfer_wholeImages_iff {w₀ w w' : World} {fuel₀ fuel : ℕ} {good : Bool}
    (hbegin : (beginTransfer s fuel₀).run (exec E) w₀ = (.ok true, w))
    (hheight : 1 ≤ w.frame.lines)
    (hrun : (finishTransfer s fuel good).run (exec E) w = (.ok (), w'))
    (hstate : w'.state ≠ .aborted) :
    WholeImages s w.frame.lines w w' ↔ ∀ f ∈ w'.framesSince w,
      0 < f.delivered.length ∧ (f.delivered.length : ℤ) < 2 * w.frame.lines := by
  obtain ⟨-, hp, -, hfr, -⟩ := beginTransfer_true hbegin
  have ho := finishTransfer_outcome hp hfr hrun
  split_ifs at ho
  · obtain ⟨fs, ho⟩ := ho
    obtain ⟨hcounted, hall, hsingle, e, he, himage⟩ := ho.whole hstate
    have hsince : w'.framesSince w = fs := by simp [World.framesSince, ho.seen, hfr]
    refine ⟨fun hw f hf => ?_, fun hlines => ?_⟩
    · have := (hw.whole f hf).1
      omega
    · rw [hsince] at hlines
      have hlength : ∀ f ∈ fs, (f.delivered.length : ℤ) = w.frame.lines := fun f hf =>
        (hall f hf).1.length_eq hheight (hlines f hf).1 (hlines f hf).2
      refine ⟨by rw [hsince, hcounted], ?_, ⟨e, he, ?_⟩, by rwa [hsince]⟩
      · rw [hsince]
        exact fun f hf => ⟨hlength f hf, (hall f hf).2⟩
      · rw [hsince, himage, pages_eq_length hheight hlength]
  · exact absurd ho.1 hstate

/-- A page of exactly two lines. -/
theorem finishTransfer_wholeImages_iff_gray :
    let E := Environment.scripted .gray [.good] [(.good, [1]), (.good, [2])]
    let s := Settings.gray .single MIME_TYPE_JPEG
    WholeImages s (firstPage E s).frame.lines (firstPage E s) (firstTransfer E s).2 ↔
      ∀ f ∈ (firstTransfer E s).2.framesSince (firstPage E s), 0 < f.delivered.length ∧
        (f.delivered.length : ℤ) < 2 * (firstPage E s).frame.lines :=
  finishTransfer_wholeImages_iff (run_firstPage (by decide +kernel)) (by decide +kernel)
    (run_firstTransfer (by decide +kernel)) (by decide +kernel)

/-- A page that ends before its first line completes the job: one image is
counted, and the encoder has seen none. -/
theorem not_wholeImages_empty_page :
    let E := Environment.scripted .gray [.good] []
    let s := Settings.gray .single MIME_TYPE_JPEG
    (beginTransfer s 9).run (exec E) (.initial true) = (.ok true, firstPage E s) ∧
      (firstPage E s).frame.lines = 2 ∧ (firstTransfer E s).1 = .ok () ∧
      (firstTransfer E s).2.state = .completed ∧ (firstTransfer E s).2.imagesCompleted = 1 ∧
      ¬ WholeImages s 2 (firstPage E s) (firstTransfer E s).2 := by
  refine ⟨run_firstPage (by decide +kernel), by decide +kernel, by decide +kernel,
    by decide +kernel, by decide +kernel, fun h => ?_⟩
  have hframes : (firstTransfer (.scripted .gray [.good] [])
      (.gray .single MIME_TYPE_JPEG)).2.framesSince (firstPage (.scripted .gray [.good] [])
        (.gray .single MIME_TYPE_JPEG)) = [⟨[], [], some .eof⟩] := by decide +kernel
  have := (h.whole ⟨[], [], some .eof⟩ (by rw [hframes]; simp)).1
  simp at this

end AirSane.ScanJob
