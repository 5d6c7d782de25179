import AirSane.Programs.Halting
import AirSane.ScanJob.FinishTransfer
import AirSane.ScanJob.Fragmentation

/-! # Transfers that end

Three loops and a recursion of `finishTransfer` depend on one another. A call of
`session::read` ends because pieces are not empty, the lines of an image because
its bytes are finite, the images because the backend starts finitely many.
-/

namespace AirSane.ScanJob
open Programs Program

variable {E : Environment} {s : Settings}

def Event.answersStart (st : SaneStatus) : Event → Bool
  | .saneStart _ st' => st' = st
  | _ => false

/-- How often `sane_start` has answered a status. -/
def starts (st : SaneStatus) (evs : Log) : ℕ := evs.countP (Event.answersStart st)

@[simp] theorem starts_nil (st : SaneStatus) : starts st [] = 0 := rfl

@[simp] theorem starts_append (st : SaneStatus) (evs evs' : Log) :
    starts st (evs ++ evs') = starts st evs + starts st evs' := List.countP_append

/-- A backend with finitely many images of finitely many bytes, which are handed
out in pieces that are not empty. -/
structure Environment.Exhaustible (E : Environment) : Prop where
  pieces (log : Log) (maxLength : ℕ) (hm : 0 < maxLength)
    (h : (E.saneRead log maxLength).1 = .good) : (E.saneRead log maxLength).2 ≠ []
  bytes (log : Log) : ∃ n, ∀ evs, starts .good evs = 0 → n ≤ (received evs).length →
    ∀ maxLength, (E.saneRead (log ++ evs) maxLength).1 ≠ .good
  images (log : Log) : ∃ n, ∀ evs, n ≤ starts .good evs → E.saneStart (log ++ evs) ≠ .good

/-- Events of an image that has been started. -/
def Startless (evs : Log) : Prop := ∀ st, starts st evs = 0

theorem startless_of_forall {evs : Log} (h : ∀ e ∈ evs, ∀ st, e.answersStart st = false) :
    Startless evs := by
  intro st
  rw [starts, List.countP_eq_zero]
  intro e he
  simp [h e he st]

theorem Startless.append {a b : Log} (ha : Startless a) (hb : Startless b) :
    Startless (a ++ b) := fun st => by rw [starts_append, ha, hb]

theorem Reads.startless {d : Option Handle} {evs : Log} (h : Reads d evs) : Startless evs := by
  apply startless_of_forall
  rintro e he st
  obtain ⟨st', bytes, rfl⟩ := h e he
  rfl

theorem Releases.startless {evs : Log} (h : Releases evs) : Startless evs := by
  apply startless_of_forall
  rintro e he st
  obtain ⟨d, rfl | rfl⟩ := h e he <;> rfl

theorem startless_made (calls : List Call) : Startless (made calls) := by
  apply startless_of_forall
  intro e he st
  obtain ⟨c, -, rfl⟩ := List.mem_map.1 he
  rfl

theorem Unsent.startless {e : Encoder} {calls : List Callback} {cs : List Call} {evs : Log}
    (h : Unsent e calls cs evs) : Startless evs := by
  cases h <;> exact fun st => rfl

section Read
variable {w : World} {i : SessionId} {size : ℕ}

/-- A successful piece leaves the loop of `session::read` with less to do. -/
theorem halts_readLoop (hE : E.Exhaustible) (hs : 0 < size) :
    Halts (exec E) (fun m => iterate (Session.readPass i size) m []) w fun r u =>
      ∃ evs, Reads (w.device i) evs ∧ w.Untouched u ∧ u.log = w.log ++ evs ∧
        (r.1 = .good → (E.saneRead w.log size).1 = .good ∧ received evs ≠ []) := by
  let I (buffer : List UInt8) (v : World) : Prop := ∃ evs, Reads (w.device i) evs ∧
    w.Untouched v ∧ v.log = w.log ++ evs ∧
      (buffer = [] ∧ evs = [] ∨ (E.saneRead w.log size).1 = .good ∧ received evs ≠ [])
  have hI : I [] w := ⟨[], reads_nil _, ⟨rfl, rfl, fun _ => rfl, rfl, rfl, rfl, rfl⟩,
    by simp, .inl ⟨rfl, rfl⟩⟩
  apply Halts.iterate (I := I) (fun buffer _ => size - buffer.length) _ hI
  rintro buffer v ⟨evs, hr, hv, hl, hfirst⟩
  by_cases hb : buffer.length < size
  · set max := size - buffer.length with hmax
    set e := v.pieceEvent E i max with he
    have hpass := run_readPass (E := E) i v hb
    rw [← hmax, ← he] at hpass
    have hrec : v.Untouched (v.record e) := ⟨rfl, rfl, fun _ => rfl, rfl, rfl, rfl, rfl⟩
    have hreads : Reads (w.device i) (evs ++ [e]) := by
      apply List.forall_mem_append.2 ⟨hr, ?_⟩
      simp [he, World.pieceEvent, hv.device]
    have hlog : (v.record e).log = w.log ++ (evs ++ [e]) := by simp [World.record, hl]
    by_cases hg : (v.piece E max).1 = .good
    · have hpiece : (v.piece E max).2 ≠ [] := by
        have hne := hE.pieces v.log max (by omega) hg
        simp only [World.piece, ne_eq, List.take_eq_nil_iff, not_or]
        exact ⟨by omega, hne⟩
      have hlen := List.length_pos_iff.2 hpiece
      have hone : e.received = (v.piece E max).2 := by
        rw [he, World.pieceEvent, hg]
        rfl
      have hgood : (E.saneRead w.log size).1 = .good := by
        rcases hfirst with ⟨rfl, rfl⟩ | ⟨h, -⟩
        · simpa [World.piece, hl, hmax] using hg
        · exact h
      refine .of_run (fun m => by rw [hpass, if_pos hg]) (.inl ⟨_, rfl, ⟨_, hreads, hv.trans hrec,
        hlog, .inr ⟨hgood, by simp [hone, hpiece]⟩⟩, ?_⟩)
      rw [List.length_append]
      omega
    · refine .of_run (a := .inr ((v.piece E max).1, buffer ++ (v.piece E max).2)) (fun m => by
        rw [hpass, if_neg hg]) (.inr ⟨_, rfl, _, hreads, hv.trans hrec, hlog, ?_⟩)
      exact fun h => absurd h hg
  · refine .of_run (fun m => run_readPass_full i v hb) (.inr ⟨_, rfl, evs, hr, hv, hl, fun _ => ?_⟩)
    rcases hfirst with ⟨rfl, rfl⟩ | h
    · exact absurd hs hb
    · exact h

theorem halts_read (hE : E.Exhaustible) (hs : 0 < size) :
    Halts (exec E) (fun m => Session.read m i size) w fun r u =>
      ∃ evs, Startless evs ∧ u.encoder = w.encoder ∧ u.streamGood = w.streamGood ∧
        w.Emitted evs u ∧
        (r.1 = .good → (E.saneRead w.log size).1 = .good ∧ received evs ≠ []) := by
  apply (halts_readLoop hE hs).bind
  rintro ⟨st, line⟩ u ⟨evs, hr, hu, hl, hg⟩
  set v := u.setSession i fun x => { x with status := st } with hv
  have hdev (j : SessionId) : v.device j = u.device j := by
    by_cases hj : j = i
    · subst hj
      simp [hv, World.setSession, World.device]
    · simp [hv, World.setSession, World.device, hj]
  have huv : u.Emitted [.sessionRead st line] (v.record (.sessionRead st line)) :=
    ⟨rfl, rfl, hdev, rfl, rfl, rfl⟩
  refine .of_run (a := (st, line)) (v := v.record (.sessionRead st line)) (fun m => by
      simp [run_bind, run_perform, exec, hv]) ⟨evs ++ [.sessionRead st line],
    hr.startless.append fun _ => rfl, hu.encoder, hu.streamGood, (hu.emitted hl).trans huv, ?_⟩
  intro hst
  exact ⟨(hg hst).1, by simp [Event.received, (hg hst).2]⟩

end Read

/-- The commands of a pass of the inner loop that is not left. -/
theorem run_linePass_read {w : World} {i : SessionId} (hg : w.streamGood = true)
    (hp : w.state = .processing) (hi : w.session = some i) (m size : ℕ) :
    (linePass s m size .good).run (exec E) w =
      (Session.read m i size >>= fun r => if r.1 = .good then (sendLine s r.2).tryCatch (do
        setState .aborted PWG_ERRORS_DETECTED
        closeSession) >>= fun _ => .ret (.inl r.1) else .ret (.inl r.1)).run (exec E) w := by
  simp [linePass, continues, run_bind, run_perform, exec, isProcessing, hg, hp, hi]

/-- What a pass of the inner loop adds to the log, next to what `LineStep` says. -/
theorem halts_linePass (hE : E.Exhaustible) {w : World} {i : SessionId} {e : Encoder} {size : ℕ}
    (hs : 0 < size) (hg : w.streamGood = true) (hp : w.state = .processing)
    (hi : w.session = some i) (he : w.encoder = some e) (hd : e.destination = true) :
    Halts (exec E) (fun m => linePass s m size .good) w fun r u => ∃ st evs, r = .inl st ∧
      LineStep s i w (st, u) ∧ u.log = w.log ++ evs ∧ Startless evs ∧
        (st = .good → (E.saneRead w.log size).1 = .good ∧ received evs ≠ []) := by
  have hhalts : Halts (exec E) (fun m => linePass s m size .good) w fun r u => ∃ st evs,
      r = .inl st ∧ u.log = w.log ++ evs ∧ Startless evs ∧
        (st = .good → (E.saneRead w.log size).1 = .good ∧ received evs ≠ []) := by
    refine .congr (fun m => run_linePass_read hg hp hi m size) ((halts_read hE hs).bind ?_)
    rintro ⟨st, line⟩ u ⟨evs, hn, hue, hus, hu, hgood⟩
    by_cases hst : st = .good
    · obtain ⟨cs, evs', v, e', hv, -, -, hcase⟩ :=
        run_sendLine (E := E) (s := s) line (hue.trans he) hd
      have hread (more : Log) : (E.saneRead w.log size).1 = .good ∧ received (evs ++ more) ≠ [] :=
        ⟨(hgood hst).1, by simp [(hgood hst).2]⟩
      rcases hcase with ⟨hrun, -, -, rfl, -⟩ | ⟨hrun, hcs⟩
      · refine .of_run (a := .inl st) (fun m => by simp [hst, run_bind, run_tryCatch, hrun])
          ⟨st, _, rfl, (hu.trans hv).log, ?_, fun _ => hread _⟩
        exact hn.append ((startless_made _).append fun _ => rfl)
      · set x := v.become .aborted PWG_ERRORS_DETECTED with hx
        have hrelease : Startless x.releaseEvents := x.releases_releaseEvents.startless
        refine .of_run (a := .inl st) (v := x.closed) (fun m => by
            simp [hst, run_bind, run_tryCatch, hrun, run_setState, run_closeSession, hx])
          ⟨st, evs ++ (made cs ++ evs' ++ x.releaseEvents), rfl, ?_, ?_, fun _ => hread _⟩
        · have hlog : x.log = w.log ++ (evs ++ (made cs ++ evs')) := (hu.trans hv).log
          simp [World.closed, hlog]
        · exact hn.append (((startless_made _).append hcs.startless).append hrelease)
    · refine .of_run (a := .inl st) (v := u) (fun m => by simp [hst]) ⟨st, evs, rfl, hu.log, hn, ?_⟩
      exact fun h => absurd h hst
  apply hhalts.inspect
  rintro m r u hrun ⟨st, evs, rfl, hl, hn, hgood⟩
  rcases run_linePass (E := E) (s := s) hg hp hi he hd m size with ⟨st', u', ho, hstep⟩ | ⟨_, u', ho, -⟩
  · obtain ⟨rfl, rfl⟩ : st' = st ∧ u' = u := by simpa [ho] using hrun
    exact ⟨st', evs, rfl, hstep, hl, hn, hgood⟩
  · simp [ho] at hrun

/-- The lines of an image come to an end: the bytes run out, or a line cannot be
sent and the job is given up. -/
theorem halts_lines (hE : E.Exhaustible) {w : World} {i : SessionId} {size : ℕ} (hs : 0 < size)
    (hw : w.Sending i) (hg : w.state = .processing → w.streamGood = true) :
    Halts (exec E) (fun m => iterate (linePass s m size) m .good) w fun st u =>
      ∃ evs, u.Sending i ∧ u.log = w.log ++ evs ∧ Startless evs ∧
        (u.state = .processing → st ≠ .good ∧ u.streamGood = true) := by
  obtain ⟨n, hn⟩ := hE.bytes w.log
  let I (_ : SaneStatus) (u : World) : Prop := ∃ evs, u.Sending i ∧ u.log = w.log ++ evs ∧
    Startless evs ∧ (u.state = .processing → u.streamGood = true)
  let μ (st : SaneStatus) (u : World) : ℕ :=
    if st = .good ∧ u.state = .processing then 1 + (n - (received (u.eventsSince w)).length) else 0
  have hI : I .good w := ⟨[], hw, by simp, fun _ => rfl, hg⟩
  apply Halts.iterate (I := I) μ _ hI
  rintro st u ⟨evs, hu, hl, hne, hstream⟩
  by_cases hgo : st = .good ∧ u.streamGood = true ∧ u.state = .processing
  · obtain ⟨rfl, hgood, hp⟩ := hgo
    obtain ⟨e, he, hd⟩ := hu.encoder
    apply (halts_linePass (s := s) hE hs hgood hp (hu.session hp) he hd).mono
    rintro _ v ⟨st, evs', rfl, hstep, hl', hne', hread⟩
    have hlog : v.log = w.log ++ (evs ++ evs') := by rw [hl', hl, List.append_assoc]
    refine .inl ⟨st, rfl, ⟨_, hstep.sending hp hu, hlog, hne.append hne', ?_⟩, ?_⟩
    · cases hstep with
      | ended _ _ _ _ hs => exact fun _ => hs.trans hgood
      | written _ _ _ _ hs _ => exact fun _ => hs
      | failed => exact fun h => by simp [World.become] at h
    · simp only [μ, hp, and_self, if_true, World.eventsSince_of_eq hl, World.eventsSince_of_eq hlog]
      split_ifs with hst
      · obtain ⟨hsane, hmore⟩ := hread hst.1
        have hlt : ¬ n ≤ (received evs).length := fun h => hn evs (hne _) h size (hl ▸ hsane)
        have hlen := List.length_pos_iff.2 hmore
        rw [received_append, List.length_append]
        omega
      · omega
  · refine .of_run (fun m => run_linePass_leave hgo m size) (.inr ⟨st, rfl, evs, hu, hl, hne, ?_⟩)
    exact fun hp => ⟨fun h => hgo ⟨h, hstream hp, hp⟩, hstream hp⟩

/-- What a concatenated document needs: frames that a line can be read of, and a
`sane_start` that does not answer EOF time and again. -/
structure Environment.Restartable (E : Environment) : Prop where
  frames (log : Log) (h : (E.saneGetParameters log).1 = .good) :
    0 < (E.saneGetParameters log).2.bytesPerLine
  eofs (log : Log) : ∃ n, ∀ evs, n ≤ starts .eof evs → E.saneStart (log ++ evs) ≠ .eof

/-- Bounds for what follows a log: images, and starts that are answered by EOF. -/
structure Bounded (E : Environment) (s : Settings) (base : Log) (images eofs : ℕ) : Prop where
  good (evs : Log) (h : images ≤ starts .good evs) : E.saneStart (base ++ evs) ≠ .good
  eof (hk : s.kind = .adfConcat) (evs : Log) (h : eofs ≤ starts .eof evs) :
    E.saneStart (base ++ evs) ≠ .eof
  frames (hk : s.kind = .adfConcat) (log : Log) (h : (E.saneGetParameters log).1 = .good) :
    0 < (E.saneGetParameters log).2.bytesPerLine

/-- What `updateStatus` leaves behind: a job that is processing again has
started an image, with lines that have a length. -/
def Updated (s : Settings) (i : SessionId) (base evs : Log) (images : ℕ) (st : SaneStatus)
    (w u : World) : Prop :=
  ∃ st' v evs', u = v.settle s st' ∧ ¬ s.restarts st' ∧ w.Untouched v ∧
    v.log = base ++ (evs ++ evs') ∧ (st = .good → v = w) ∧ (st ≠ .good → st' = .good →
      images - starts .good (evs ++ evs') < images - starts .good evs ∧
        0 < (v.sessions i).parameters.bytesPerLine)

section Images
variable {base evs : Log} {images eofs : ℕ} {w : World} {i : SessionId}

theorem starts_startEvents (E : Environment) (w : World) (i : SessionId) (st : SaneStatus) :
    starts st (w.startEvents E i) = if E.saneStart w.log = st then 1 else 0 := by
  by_cases hg : E.saneStart w.log = .good
  · cases st <;> simp [World.startEvents, hg, starts, Event.answersStart]
  · have hone : w.startEvents E i = [.saneStart (w.device i) (E.saneStart w.log)] := by
      simp [World.startEvents, hg]
    rw [hone]
    by_cases hst : E.saneStart w.log = st <;> simp [starts, Event.answersStart, hst]

theorem Bounded.starts_lt (hB : Bounded E s base images eofs) (hl : w.log = base ++ evs)
    (h : E.saneStart w.log = .good) : starts .good evs < images := by
  by_contra hle
  exact hB.good evs (not_lt.1 hle) (hl ▸ h)

theorem Bounded.starts_eof_lt (hB : Bounded E s base images eofs) (hk : s.kind = .adfConcat)
    (hl : w.log = base ++ evs) (h : E.saneStart w.log = .eof) : starts .eof evs < eofs := by
  by_contra hle
  exact hB.eof hk evs (not_lt.1 hle) (hl ▸ h)

/-- A start that leads to a running job has got the parameters of a frame. -/
theorem started_good (hB : Bounded E s base images eofs) (hk : s.kind = .adfConcat)
    (h : w.startStatus E i = .good) : E.saneStart w.log = .good ∧
      0 < ((w.started E i).sessions i).parameters.bytesPerLine := by
  by_cases hg : E.saneStart w.log = .good
  · refine ⟨hg, ?_⟩
    simp only [World.startStatus, hg, if_true] at h
    simpa [World.started, hg] using hB.frames hk _ h
  · simp [World.startStatus, hg] at h

/-- A start that is followed by another one was good or answered by EOF. -/
theorem started_eof (h : w.startStatus E i = .eof) :
    E.saneStart w.log = .good ∨ E.saneStart w.log = .eof := by
  by_cases hg : E.saneStart w.log = .good
  · exact .inl hg
  · exact .inr (by simpa [World.startStatus, hg] using h)

theorem halts_settle {st : SaneStatus} (h : ¬ s.restarts st) (hl : w.log = base ++ evs) :
    Halts (exec E) (fun m => updateStatus s m st) w fun _ u =>
      Updated s i base evs images st w u :=
  .succ (.of_run (fun m => run_updateStatus_settle h m w)
    ⟨st, w, [], rfl, h, ⟨rfl, rfl, fun _ => rfl, rfl, rfl, rfl, rfl⟩, by simpa using hl,
      fun _ => rfl, fun hne heq => absurd heq hne⟩)

theorem halts_updateStatus (hB : Bounded E s base images eofs) (hs : w.session = some i)
    (hl : w.log = base ++ evs) (st : SaneStatus) :
    Halts (exec E) (fun m => updateStatus s m st) w fun _ u =>
      Updated s i base evs images st w u := by
  induction hμ : (images - starts .good evs) + (eofs - starts .eof evs) using Nat.strongRecOn
    generalizing w evs st with
  | _ k ih =>
    by_cases h : s.restarts st
    · obtain ⟨hk, rfl⟩ := h
      set w₀ := w.withAdfStatus .good with hw₀
      set st₁ := w₀.startStatus E i with hst₁
      have hl₀ : w₀.log = base ++ evs := hl
      have hu := (w.untouched_withAdfStatus .good).trans (World.untouched_started E w₀ i)
      have hl₁ : (w₀.started E i).log = base ++ (evs ++ w₀.startEvents E i) := by
        simp [World.started, hl₀]
      have hcount (st : SaneStatus) : starts st (evs ++ w₀.startEvents E i) =
          starts st evs + if E.saneStart w₀.log = st then 1 else 0 := by
        rw [starts_append, starts_startEvents]
      have hnext : Halts (exec E) (fun m => updateStatus s m st₁) (w₀.started E i) fun _ u =>
          Updated s i base (evs ++ w₀.startEvents E i) images st₁ (w₀.started E i) u := by
        by_cases h₁ : s.restarts st₁
        · refine ih _ ?_ (hu.session.trans hs) hl₁ st₁ rfl
          rcases started_eof h₁.2 with hg | he
          · have := hB.starts_lt hl₀ hg
            rw [hcount, hcount, if_pos hg, if_neg (by simp [hg])]
            omega
          · have := hB.starts_eof_lt hk hl₀ he
            rw [hcount, hcount, if_pos he, if_neg (by simp [he])]
            omega
        · exact halts_settle h₁ hl₁
      apply Halts.succ
      obtain ⟨_, _, ⟨st', v, evs', rfl, hn, hv, hlv, hsame, hmore⟩, n, hrun⟩ := hnext
      refine ⟨(), v.settle s st', ⟨st', v, w₀.startEvents E i ++ evs', rfl, hn, hu.trans hv, ?_,
        by simp, fun _ hst' => ?_⟩, n, fun m hm => ?_⟩
      · rw [hlv, List.append_assoc]
      · have happend : starts .good (evs ++ (w₀.startEvents E i ++ evs')) =
            starts .good (evs ++ w₀.startEvents E i) + starts .good evs' := by
          rw [← List.append_assoc, starts_append]
        by_cases hg : st₁ = .good
        · obtain ⟨hsane, hframe⟩ := started_good hB hk hg
          have hlt := hB.starts_lt hl₀ hsane
          rw [hsame hg, happend, hcount, if_pos hsane]
          exact ⟨by omega, hframe⟩
        · obtain ⟨hlt, hframe⟩ := hmore hg hst'
          rw [starts_append, hcount] at hlt
          rw [happend, hcount]
          exact ⟨by omega, hframe⟩
      · rw [run_updateStatus_restart hk hs, hrun m hm]
        simp only [World.settle_tested]
    · exact halts_settle h hl

/-- A settled job that is still processing has started an image. -/
theorem settle_processing {st : SaneStatus} {e : Encoder} (h : ¬ s.restarts st)
    (hp : ((w.settle s st).checked e).state = .processing) :
    st = .good ∧ ((w.settle s st).checked e).sessions = w.sessions := by
  by_cases hc : e.currentLine = 0
  · simp only [World.checked, hc, if_true] at hp ⊢
    rcases w.settle_cases h with ⟨hst, hw⟩ | ⟨-, -, hw⟩ | ⟨adf, state, r, hne, -, -, -, hw⟩
    · exact ⟨hst, by rw [hw]; rfl⟩
    · simp [hw, World.become] at hp
    · exact absurd (by simpa [hw, World.become] using hp) hne
  · simp [World.checked, hc, World.become] at hp

theorem halts_finishImage (hB : Bounded E s base images eofs) (hp : w.state = .processing)
    (hs : w.session = some i) (hl : w.log = base ++ evs) {e : Encoder} (he : w.encoder = some e)
    (st : SaneStatus) : Halts (exec E) (fun m => finishImage s m st) w fun _ u =>
      ∃ v, Updated s i base evs images st w.counted v ∧ u = v.checked e := by
  have htext (m : ℕ) : (finishImage s m st).run (exec E) w =
      (updateStatus s m st >>= fun _ => access .loadEncoder >>= fun e =>
        if e.linesLeftInCurrentImage ≠ e.height then setState .aborted PWG_ERRORS_DETECTED
        else .ret ()).run (exec E) w.counted := by
    simp [finishImage, run_bind, run_perform, exec, isProcessing, hp]
  refine .congr htext ((halts_updateStatus hB (w := w.counted) hs hl st).bind ?_)
  rintro _ u hu
  have hue : u.encoder = some e := by
    obtain ⟨st', v, -, rfl, hn, hv, -⟩ := hu
    rw [(World.settle_keeps hn v).1, hv.encoder]
    exact he
  refine .of_run (a := ()) (fun m => ?_) ⟨u, hu, rfl⟩
  by_cases hc : e.currentLine = 0 <;>
    simp [run_bind, run_perform, exec, hue, World.checked, Encoder.linesLeftInCurrentImage, hc,
      run_setState]

/-- Between the images of a transfer. -/
structure World.Transferring (w : World) (i : SessionId) : Prop where
  sending : w.Sending i
  streamGood : w.streamGood = true
  frame : 0 < (w.sessions i).parameters.bytesPerLine

theorem halts_imagePass (hE : E.Exhaustible) (hB : Bounded E s base images eofs)
    (hp : w.state = .processing) (hw : w.Transferring i) (hl : w.log = base ++ evs) :
    Halts (exec E) (fun m => imagePass s m ()) w fun r u => r = .inl () ∧ ImageStep s i w u ∧
      ∃ evs', u.log = base ++ evs' ∧ (u.state = .processing → u.Transferring i ∧
        images - starts .good evs' < images - starts .good evs) := by
  have hi := hw.sending.session hp
  have hneg : ¬ (w.sessions i).parameters.bytesPerLine < 0 := by have := hw.frame; omega
  have hsize : 0 < (w.sessions i).parameters.bytesPerLine.toNat := by have := hw.frame; omega
  have hhalts : Halts (exec E) (fun m => imagePass s m ()) w fun r u => r = .inl () ∧
      ∃ evs', u.log = base ++ evs' ∧ (u.state = .processing → u.streamGood = true ∧
        0 < (u.sessions i).parameters.bytesPerLine ∧
          images - starts .good evs' < images - starts .good evs) := by
    refine .congr (run_imagePass_lines hp hi hneg) ((halts_lines hE hsize hw.sending
      fun _ => hw.streamGood).bind ?_)
    rintro st u ⟨more, hu, hlu, hne, hgo⟩
    have hlog : u.log = base ++ (evs ++ more) := by rw [hlu, hl, List.append_assoc]
    by_cases hup : u.state = .processing
    · obtain ⟨hst, hstream⟩ := hgo hup
      obtain ⟨e, he, hd⟩ := hu.encoder
      refine (halts_finishImage hB hup (hu.session hup) hlog he st).bind ?_
      rintro _ _ ⟨_, ⟨st', v, evs', rfl, hn, hv, hlv, -, hmore⟩, rfl⟩
      refine .of_run (fun m => rfl) ⟨rfl, ?_⟩
      obtain ⟨rel, hrel, hlrel⟩ := v.settle_log hn
      refine ⟨evs ++ more ++ evs' ++ rel, by simp [hlrel, hlv], fun hx => ?_⟩
      obtain ⟨rfl, hsess⟩ := settle_processing hn hx
      obtain ⟨hlt, hframe⟩ := hmore hst rfl
      refine ⟨?_, by rwa [hsess], ?_⟩
      · rw [World.checked_streamGood, (World.settle_keeps hn v).2.1, hv.streamGood]
        exact hstream
      · rw [starts_append, hrel.startless]
        rw [starts_append _ evs more, hne] at hlt
        exact hlt
    · have hidle (m : ℕ) : (finishImage s m st).run (exec E) u = (.ok (), u) := by
        simp [finishImage, run_bind, run_perform, exec, isProcessing, hup]
      refine .of_run (fun m => by rw [run_bind, hidle]; rfl) ⟨rfl, _, hlog, fun h => absurd h hup⟩
  apply hhalts.inspect
  rintro m _ u hrun ⟨rfl, evs', hlog, hgo⟩
  rcases run_imagePass (E := E) (s := s) hp hw.sending m with ⟨v, ho, hstep⟩ | ⟨e, v, ho, -⟩
  · obtain rfl : v = u := by simpa [ho] using hrun
    refine ⟨rfl, hstep, evs', hlog, fun hup => ?_⟩
    obtain ⟨hstream, hframe, hlt⟩ := hgo hup
    exact ⟨⟨hstep.sending hw.sending hup, hstream, hframe⟩, hlt⟩
  · simp [ho] at hrun

theorem halts_images (hE : E.Exhaustible) (hB : Bounded E s w.log images eofs)
    (hw : w.state = .processing → w.Transferring i) :
    Halts (exec E) (fun m => iterate (imagePass s m) m ()) w fun _ u =>
      ImageRun s i w u ∧ u.state ≠ .processing := by
  let I (_ : Unit) (u : World) : Prop := ImageRun s i w u ∧ ∃ evs, u.log = w.log ++ evs ∧
    (u.state = .processing → u.Transferring i)
  let μ (_ : Unit) (u : World) : ℕ :=
    if u.state = .processing then 1 + (images - starts .good (u.eventsSince w)) else 0
  have hI : I () w := ⟨.refl, [], by simp, hw⟩
  apply Halts.iterate (I := I) μ _ hI
  rintro _ u ⟨hrun, evs, hl, hu⟩
  by_cases hp : u.state = .processing
  · apply (halts_imagePass hE hB hp (hu hp) hl).mono
    rintro _ v ⟨rfl, hstep, evs', hl', hgo⟩
    refine .inl ⟨(), rfl, ⟨hrun.tail ⟨hp, hstep⟩, evs', hl', fun h => (hgo h).1⟩, ?_⟩
    simp only [μ, hp, if_true, World.eventsSince_of_eq hl, World.eventsSince_of_eq hl']
    split_ifs with hv
    · have := (hgo hv).2
      omega
    · omega
  · exact .of_run (run_imagePass_leave hp) (.inr ⟨(), rfl, hrun, hp⟩)

end Images

/-- `finishTransfer` returns, and the job is no longer processing. -/
def TransferEnds (E : Environment) (s : Settings) (w : World) : Prop :=
  Halts (exec E) (fun fuel => finishTransfer s fuel true) w fun _ u => u.state ≠ .processing

/-- What a transfer needs: lines that have a length, and for a concatenated
document a backend that goes on to such frames. -/
def Startable (E : Environment) (s : Settings) (w : World) : Prop :=
  w.state = .processing → 0 < w.frame.bytesPerLine ∧ (s.kind = .adfConcat → E.Restartable)

theorem Startable.bounded {w v : World} (hE : E.Exhaustible) (h : Startable E s w)
    (hp : w.state = .processing) : ∃ images eofs, Bounded E s v.log images eofs := by
  obtain ⟨images, himages⟩ := hE.images v.log
  by_cases hk : s.kind = .adfConcat
  · obtain ⟨eofs, heofs⟩ := ((h hp).2 hk).eofs v.log
    exact ⟨images, eofs, himages, fun _ => heofs, fun _ => ((h hp).2 hk).frames⟩
  · exact ⟨images, 0, himages, fun h => absurd h hk, fun h => absurd h hk⟩

theorem halts_finishTransfer (hE : E.Exhaustible) {w : World} {i : SessionId}
    (hi : w.state = .processing → w.session = some i) (h : Startable E s w) :
    TransferEnds E s w := by
  obtain ⟨v, hv, ho⟩ := run_setUp (E := E) (s := s) (fun hp _ => hi hp) true
  have hw : v.state = .processing → w.state = .processing ∧ v.Transferring i := by
    intro hp
    cases hv with
    | idle h => exact absurd hp h
    | unsupported | disagreeing => simp [World.become] at hp
    | ready hp hs _ _ =>
      have hframe : w.frame = (w.sessions i).parameters := by simp [World.frame, hs]
      exact ⟨hp, ⟨.inl hp, fun _ => hs, _, rfl, rfl⟩, rfl, hframe ▸ (h hp).1⟩
  have himages : Halts (exec E) (fun m => iterate (imagePass s m) m ()) v fun _ u =>
      ImageRun s i v u ∧ u.state ≠ .processing := by
    by_cases hp : v.state = .processing
    · obtain ⟨images, eofs, hB⟩ := h.bounded (v := v) hE (hw hp).1
      exact halts_images hE hB fun hp => (hw hp).2
    · refine .succ (.of_run (a := ()) (fun m => ?_) ⟨.refl, hp⟩)
      rw [iterate, run_bind, run_imagePass_leave hp]
      rfl
  refine .congr (run_finishTransfer_loop ho) (himages.bind ?_)
  rintro _ u ⟨hrun, hu⟩
  cases he : v.encoder with
  | none =>
    have hp : v.state ≠ .processing := fun hp => by
      obtain ⟨e, he', -⟩ := (hw hp).2.sending.encoder
      simp [he] at he'
    obtain rfl := hrun.eq_of_idle hp
    exact .of_run (a := ()) (v := u) (fun m => by simp [run_bind, run_perform, exec, he]) hu
  | some e =>
    obtain ⟨e', he', hd'⟩ := hrun.encoder (hv.sending (by simp [he]))
    refine .of_run (a := ()) (v := u.call E e' .onDocumentEnd) (fun m => ?_) hu
    simp [run_bind, run_perform, exec, he', run_endDocument he' hd']

end AirSane.ScanJob
