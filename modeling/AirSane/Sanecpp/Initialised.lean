import AirSane.Sanecpp.InitCount

/-! # libsane is initialised while it is needed

The count is that of the objects and running calls that need libsane, and every
open device belongs to one shared handle or to one running call. Both hold after
every command of any interleaving, and they say which calls to libsane can come.
-/

namespace AirSane.Sanecpp
open Programs Program Interleaving Function

/-- A call that has no reference, one that has, and one that also has a device. -/
inductive Phase where
  | rest
  | held
  | having (h : Handle)

def discipline : Discipline Command Answer Phase where
  allowed
    | .rest, .saneInitAddref | .rest, .destroyed | .rest, .dropLast _ => True
    | .held, .saneInitRelease | .held, .saneOpen | .held, .saneGetDevices => True
    | .held, .constructed => True
    | .having h, .share h' | .having h, .saneClose h' => h = h'
    | _, _ => False
  next
    | _, .saneOpen, x => if x.1 = .good then .having x.2 else .held
    | _, .dropLast h, _ => .having h
    | _, .saneInitRelease, _ | _, .constructed, _ | _, .share _, _ => .rest
    | _, _, _ => .held

theorem obeys_openDevice :
    openDevice.Obeys discipline (fun _ m => m = .rest) (fun _ => True) .rest := by
  refine ⟨trivial, fun x => ⟨trivial, fun answer => ?_⟩⟩
  rcases answer with ⟨status, h⟩
  by_cases hs : status = .good
  · subst hs
    exact ⟨rfl, fun _ => rfl⟩
  · have hnext : discipline.next (discipline.next .rest .saneInitAddref x) .saneOpen (status, h) =
        .held := if_neg hs
    have hrelease : (if status = .good then issue (.share h) else issue .saneInitRelease).Obeys
        discipline (fun _ m => m = .rest) (fun _ => True) .held := by
      rw [if_neg hs]
      exact ⟨trivial, fun _ => rfl⟩
    rw [hnext]
    exact hrelease

section
variable {T : Type} [DecidableEq T]

/-- Every call lets go of its reference, or hands it to what it returns. -/
def watch (T : Type) [DecidableEq T] (statuses : ℕ → SaneStatus) :
    (sharing T statuses).Monitor fun _ => Phase where
  discipline _ := discipline
  entry _ := .rest
  ends _ m := m = .rest
  rests _ m := m = .rest
  obeys k := by
    cases k with
    | construct | destruct | deleter | enumerateDevices =>
      simp [sharing, LibraryCall.text, construct, destruct, deleter, enumerateDevices, issue, perform,
        discipline, obeys_command]
    | openDevice =>
      exact obeys_openDevice
  rests_of_ends h := h

/-- The threads whose call has a reference. -/
def busy (m : T → Phase) : Set T := {t | m t ≠ .rest}

/-- So many calls have a reference. -/
def Count (m : T → Phase) (n : ℕ) : Prop := (busy m).Finite ∧ (busy m).ncard = n

variable {m : T → Phase} {t : T} {k : Phase} {n : ℕ}

theorem busy_update (hk : k ≠ .rest) : busy (update m t k) = insert t (busy m) := by
  ext u
  by_cases hu : u = t
  · subst hu
    simp [busy, hk]
  · simp [busy, hu]

theorem busy_update_rest : busy (update m t .rest) = busy m \ {t} := by
  ext u
  by_cases hu : u = t
  · subst hu
    simp [busy]
  · simp [busy, hu]

theorem Count.enter (h : Count m n) (ht : m t = .rest) (hk : k ≠ .rest) :
    Count (update m t k) (n + 1) := by
  have hnot : t ∉ busy m := fun hb => hb ht
  rw [Count, busy_update hk, Set.ncard_insert_of_notMem hnot h.1, h.2]
  exact ⟨h.1.insert t, rfl⟩

theorem Count.stay (h : Count m n) (ht : m t ≠ .rest) (hk : k ≠ .rest) :
    Count (update m t k) n := by
  rw [Count, busy_update hk, Set.insert_eq_of_mem ht]
  exact h

theorem Count.leave (h : Count m n) (ht : m t ≠ .rest) : Count (update m t .rest) (n - 1) := by
  rw [Count, busy_update_rest, Set.ncard_sdiff_singleton_of_mem ht, h.2]
  exact ⟨h.1.sdiff, rfl⟩

omit [DecidableEq T] in
theorem Count.pos (h : Count m n) (ht : m t ≠ .rest) : 0 < n := by
  rw [← h.2]
  exact (Set.ncard_pos h.1).2 ⟨t, ht⟩

omit [DecidableEq T] in
theorem Count.rest (h : Count m 0) (t : T) : m t = .rest := by
  by_contra ht
  exact absurd (h.pos ht) (lt_irrefl 0)

/-- Every device that is open has one owner: a shared handle or a call. -/
structure Owned (m : T → Phase) (handles opened : List Handle) (opens : ℕ) : Prop where
  owner : ∀ h, h ∈ opened ↔ h ∈ handles ∨ ∃ t, m t = .having h
  fresh : ∀ h ∈ opened, h < opens
  nodup : handles.Nodup
  apart : ∀ t h, m t = .having h → h ∉ handles
  alone : ∀ t u h, m t = .having h → m u = .having h → t = u

variable {handles opened : List Handle} {opens : ℕ}

theorem update_eq_having {u : T} {h : Handle} : update m t k u = .having h ↔
    u = t ∧ k = .having h ∨ u ≠ t ∧ m u = .having h := by
  by_cases hu : u = t
  · subst hu
    simp
  · simp [hu]

theorem Owned.move (o : Owned m handles opened opens) (ht : ∀ h, m t ≠ .having h)
    (hk : ∀ h, k ≠ .having h) : Owned (update m t k) handles opened opens := by
  have hsame (u : T) (h : Handle) : update m t k u = .having h ↔ m u = .having h := by
    rw [update_eq_having]
    by_cases hu : u = t
    · subst hu
      simp [ht h, hk h]
    · simp [hu]
  constructor
  · intro h
    simp only [hsame, o.owner h]
  · exact o.fresh
  · exact o.nodup
  · intro u h hu
    exact o.apart u h ((hsame u h).1 hu)
  · intro u v h hu hv
    exact o.alone u v h ((hsame u h).1 hu) ((hsame v h).1 hv)

/-- A call opens a device. -/
theorem Owned.take (o : Owned m handles opened opens) (ht : ∀ h, m t ≠ .having h) :
    Owned (update m t (.having opens)) handles (opens :: opened) (opens + 1) := by
  have hnew : opens ∉ opened := fun h => lt_irrefl _ (o.fresh _ h)
  have hother (u : T) (h : Handle) : update m t (.having opens) u = .having h ↔
      u = t ∧ opens = h ∨ m u = .having h := by
    rw [update_eq_having, Phase.having.injEq]
    by_cases hu : u = t
    · subst hu
      simp [ht h]
    · simp [hu]
  have hnone (u : T) : m u ≠ .having opens := fun h => hnew ((o.owner _).2 (.inr ⟨u, h⟩))
  constructor
  · intro h
    simp only [hother, List.mem_cons, o.owner h]
    constructor
    · rintro (rfl | h | ⟨u, hu⟩)
      · exact .inr ⟨t, .inl ⟨rfl, rfl⟩⟩
      · exact .inl h
      · exact .inr ⟨u, .inr hu⟩
    · rintro (h | ⟨u, ⟨-, rfl⟩ | hu⟩)
      · exact .inr (.inl h)
      · exact .inl rfl
      · exact .inr (.inr ⟨u, hu⟩)
  · intro h hh
    rcases List.mem_cons.1 hh with rfl | hh
    · exact Nat.lt_succ_self _
    · exact Nat.lt_succ_of_lt (o.fresh h hh)
  · exact o.nodup
  · intro u h hu
    rcases (hother u h).1 hu with ⟨-, rfl⟩ | hu
    · exact fun hh => hnew ((o.owner _).2 (.inl hh))
    · exact o.apart u h hu
  · intro u v h hu hv
    rcases (hother u h).1 hu with ⟨rfl, rfl⟩ | hu
    · rcases (hother v _).1 hv with ⟨rfl, -⟩ | hv
      · rfl
      · exact absurd hv (hnone v)
    · rcases (hother v h).1 hv with ⟨-, rfl⟩ | hv
      · exact absurd hu (hnone u)
      · exact o.alone u v h hu hv

omit [DecidableEq T] in
/-- An open that fails. -/
theorem Owned.skip (o : Owned m handles opened opens) : Owned m handles opened (opens + 1) :=
  { o with fresh := fun h hh => Nat.lt_succ_of_lt (o.fresh h hh) }

/-- What remains of the owners when a call gives its device away. -/
theorem Owned.others (o : Owned m handles opened opens) {h : Handle} (ht : m t = .having h)
    (hk : ∀ h, k ≠ .having h) (u : T) (h' : Handle) :
    update m t k u = .having h' ↔ m u = .having h' ∧ h' ≠ h := by
  rw [update_eq_having]
  constructor
  · rintro (⟨-, hk'⟩ | ⟨hu, hm⟩)
    · exact absurd hk' (hk h')
    · refine ⟨hm, ?_⟩
      rintro rfl
      exact hu (o.alone u t h' hm ht)
  · rintro ⟨hm, hne⟩
    refine .inr ⟨?_, hm⟩
    rintro rfl
    rw [ht] at hm
    exact hne (Phase.having.inj hm).symm

theorem Owned.share (o : Owned m handles opened opens) {h : Handle} (ht : m t = .having h) :
    Owned (update m t .rest) (h :: handles) opened opens := by
  have hothers := o.others (k := .rest) ht (by simp)
  constructor
  · intro h'
    simp only [hothers, o.owner h', List.mem_cons]
    by_cases hh : h' = h
    · subst hh
      simp [show ∃ u, m u = .having h' from ⟨t, ht⟩]
    · simp [hh]
  · exact o.fresh
  · exact List.nodup_cons.2 ⟨o.apart t h ht, o.nodup⟩
  · intro u h' hu
    rw [hothers] at hu
    rw [List.mem_cons, not_or]
    exact ⟨hu.2, o.apart u h' hu.1⟩
  · intro u v h' hu hv
    exact o.alone u v h' ((hothers u h').1 hu).1 ((hothers v h').1 hv).1

theorem Owned.close (o : Owned m handles opened opens) {h : Handle} (ht : m t = .having h) :
    Owned (update m t .held) handles (opened.filter (· ≠ h)) opens := by
  have hothers := o.others (k := .held) ht (by simp)
  constructor
  · intro h'
    simp only [hothers, List.mem_filter, o.owner h', decide_eq_true_eq]
    by_cases hh : h' = h
    · subst hh
      simp [o.apart t h' ht]
    · simp [hh]
  · exact fun h' hh => o.fresh h' (List.mem_filter.1 hh).1
  · exact o.nodup
  · intro u h' hu
    exact o.apart u h' ((hothers u h').1 hu).1
  · intro u v h' hu hv
    exact o.alone u v h' ((hothers u h').1 hu).1 ((hothers v h').1 hv).1

/-- The deleter of a handle takes the device over. -/
theorem Owned.drop (o : Owned m handles opened opens) {h : Handle} (ht : ∀ h, m t ≠ .having h)
    (hh : h ∈ handles) : Owned (update m t (.having h)) (handles.erase h) opened opens := by
  have hother (u : T) (h' : Handle) : update m t (.having h) u = .having h' ↔
      u = t ∧ h = h' ∨ m u = .having h' := by
    rw [update_eq_having, Phase.having.injEq]
    by_cases hu : u = t
    · subst hu
      simp [ht h']
    · simp [hu]
  constructor
  · intro h'
    simp only [hother, o.nodup.mem_erase_iff, o.owner h']
    by_cases heq : h' = h
    · subst heq
      simp [hh]
    · have hne : h ≠ h' := Ne.symm heq
      simp [heq, hne]
  · exact o.fresh
  · exact o.nodup.erase h
  · intro u h' hu hmem
    rw [o.nodup.mem_erase_iff] at hmem
    rcases (hother u h').1 hu with ⟨-, rfl⟩ | hu
    · exact hmem.1 rfl
    · exact o.apart u h' hu hmem.2
  · intro u v h' hu hv
    rcases (hother u h').1 hu with ⟨rfl, rfl⟩ | hu
    · rcases (hother v _).1 hv with ⟨rfl, -⟩ | hv
      · rfl
      · exact absurd hh (o.apart v _ hv)
    · rcases (hother v h').1 hv with ⟨-, rfl⟩ | hv
      · exact absurd hh (o.apart u _ hu)
      · exact o.alone u v h' hu hv

/-- What the phases of all calls say about the library. -/
structure Holds (m : T → Phase) (w : Library) (n : ℕ) (σ : Sane) : Prop where
  count : Count m n
  refcount : w.saneInitRefcount = w.inits + w.handles.length + n
  calls : Sane.calls w.calls = some σ
  initialised : σ.initialised = true ↔ 0 < w.saneInitRefcount
  owned : Owned m w.handles σ.opened w.opens

omit [DecidableEq T] in
theorem calls_concat {calls : List SaneCall} {σ σ' : Sane} {c : SaneCall}
    (h : Sane.calls calls = some σ) (hc : σ.call c = some σ') :
    Sane.calls (calls ++ [c]) = some σ' := by
  rw [Sane.calls] at h
  rw [Sane.calls, List.foldlM_append, h]
  simp [hc]

variable {w : Library} {σ : Sane}

omit [DecidableEq T] in
theorem Holds.pos (h : Holds m w n σ) (ht : m t ≠ .rest) : 0 < w.saneInitRefcount := by
  have hpos := h.count.pos ht
  have hcount := h.refcount
  omega

namespace Holds
variable (h : Holds m w n σ)
include h

theorem addref (ht : m t = .rest) : ∃ σ', Holds (update m t .held)
    { w with
      saneInitRefcount := w.saneInitRefcount + 1
      calls := if w.saneInitRefcount + 1 = 1 then w.calls ++ [.saneInit] else w.calls }
    (n + 1) σ' := by
  have hcount := h.refcount
  have howned : Owned (update m t .held) w.handles σ.opened w.opens :=
    h.owned.move (by simp [ht]) (by simp)
  by_cases hone : w.saneInitRefcount + 1 = 1
  · have hinit : σ.initialised = false := by
      rw [Bool.eq_false_iff, ne_eq, h.initialised]
      omega
    refine ⟨{ σ with initialised := true }, h.count.enter ht (by simp), ?_, ?_, ?_, howned⟩
    · push_cast
      omega
    · rw [if_pos hone]
      exact calls_concat h.calls (by simp [Sane.call, hinit])
    · simp [hone]
  · refine ⟨σ, h.count.enter ht (by simp), ?_, ?_, ?_, howned⟩
    · push_cast
      omega
    · rw [if_neg hone]
      exact h.calls
    · rw [h.initialised]
      show 0 < w.saneInitRefcount ↔ 0 < w.saneInitRefcount + 1
      omega

theorem release (ht : m t = .held) : ∃ σ', Holds (update m t .rest)
    { w with
      saneInitRefcount := w.saneInitRefcount - 1
      calls := if w.saneInitRefcount - 1 = 0 then w.calls ++ [.saneExit] else w.calls }
    (n - 1) σ' := by
  have hcount := h.refcount
  have hbusy : m t ≠ .rest := by simp [ht]
  have hn := h.count.pos hbusy
  have hpos := h.pos hbusy
  have hinit : σ.initialised = true := h.initialised.2 hpos
  have howned : Owned (update m t .rest) w.handles σ.opened w.opens :=
    h.owned.move (by simp [ht]) (by simp)
  have hleave := h.count.leave hbusy
  by_cases hzero : w.saneInitRefcount - 1 = 0
  · have hclosed : σ.opened = [] := by
      have hlast : n - 1 = 0 := by omega
      have hhandles : w.handles = [] := List.length_eq_zero_iff.1 (by omega)
      rw [List.eq_nil_iff_forall_not_mem]
      intro d hd
      rcases (howned.owner d).1 hd with hd | ⟨u, hu⟩
      · simp [hhandles] at hd
      · rw [hlast] at hleave
        simp [hleave.rest u] at hu
    refine ⟨{ σ with initialised := false }, hleave, ?_, ?_, ?_, howned⟩
    · show w.saneInitRefcount - 1 = w.inits + w.handles.length + ((n - 1 : ℕ) : ℤ)
      omega
    · rw [if_pos hzero]
      exact calls_concat h.calls (by simp [Sane.call, hinit, hclosed])
    · simp [hzero]
  · refine ⟨σ, hleave, ?_, ?_, ?_, howned⟩
    · show w.saneInitRefcount - 1 = w.inits + w.handles.length + ((n - 1 : ℕ) : ℤ)
      omega
    · rw [if_neg hzero]
      exact h.calls
    · rw [h.initialised]
      show 0 < w.saneInitRefcount ↔ 0 < w.saneInitRefcount - 1
      omega

theorem openGood (ht : m t = .held) : Holds (update m t (.having w.opens))
    { w with opens := w.opens + 1, calls := w.calls ++ [.saneOpen (some w.opens)] } n
    { σ with opened := w.opens :: σ.opened } := by
  have hbusy : m t ≠ .rest := by simp [ht]
  have hinit := h.initialised.2 (h.pos hbusy)
  exact ⟨h.count.stay hbusy (by simp), h.refcount, calls_concat h.calls (by simp [Sane.call, hinit]),
    h.initialised, h.owned.take (by simp [ht])⟩

theorem openBad (ht : m t = .held) : Holds (update m t .held)
    { w with opens := w.opens + 1, calls := w.calls ++ [.saneOpen none] } n σ := by
  have hbusy : m t ≠ .rest := by simp [ht]
  have hcall : σ.call (.saneOpen none) = some σ := if_pos (h.initialised.2 (h.pos hbusy))
  exact ⟨h.count.stay hbusy (by simp), h.refcount, calls_concat h.calls hcall, h.initialised,
    h.owned.skip.move (by simp [ht]) (by simp)⟩

theorem getDevices (ht : m t = .held) : Holds (update m t .held)
    { w with calls := w.calls ++ [.saneGetDevices] } n σ := by
  have hbusy : m t ≠ .rest := by simp [ht]
  have hinit := h.initialised.2 (h.pos hbusy)
  exact ⟨h.count.stay hbusy (by simp), h.refcount, calls_concat h.calls (by simp [Sane.call, hinit]),
    h.initialised, h.owned.move (by simp [ht]) (by simp)⟩

theorem constructed (ht : m t = .held) :
    Holds (update m t .rest) { w with inits := w.inits + 1 } (n - 1) σ := by
  have hcount := h.refcount
  have hbusy : m t ≠ .rest := by simp [ht]
  have hn := h.count.pos hbusy
  refine ⟨h.count.leave hbusy, ?_, h.calls, h.initialised, h.owned.move (by simp [ht]) (by simp)⟩
  show w.saneInitRefcount = ((w.inits + 1 : ℕ) : ℤ) + w.handles.length + ((n - 1 : ℕ) : ℤ)
  omega

theorem destroyed (ht : m t = .rest) (hi : 0 < w.inits) :
    Holds (update m t .held) { w with inits := w.inits - 1 } (n + 1) σ := by
  have hcount := h.refcount
  refine ⟨h.count.enter ht (by simp), ?_, h.calls, h.initialised,
    h.owned.move (by simp [ht]) (by simp)⟩
  show w.saneInitRefcount = ((w.inits - 1 : ℕ) : ℤ) + w.handles.length + ((n + 1 : ℕ) : ℤ)
  omega

theorem share {d : Handle} (ht : m t = .having d) :
    Holds (update m t .rest) { w with handles := d :: w.handles } (n - 1) σ := by
  have hcount := h.refcount
  have hbusy : m t ≠ .rest := by simp [ht]
  have hn := h.count.pos hbusy
  refine ⟨h.count.leave hbusy, ?_, h.calls, h.initialised, h.owned.share ht⟩
  show w.saneInitRefcount = w.inits + ((w.handles.length + 1 : ℕ) : ℤ) + ((n - 1 : ℕ) : ℤ)
  omega

theorem dropLast {d : Handle} (ht : m t = .rest) (hd : d ∈ w.handles) :
    Holds (update m t (.having d)) { w with handles := w.handles.erase d } (n + 1) σ := by
  have hcount := h.refcount
  have hlen := List.length_erase_of_mem hd
  have hpos := List.length_pos_of_mem hd
  refine ⟨h.count.enter ht (by simp), ?_, h.calls, h.initialised, h.owned.drop (by simp [ht]) hd⟩
  show w.saneInitRefcount = w.inits + ((w.handles.erase d).length : ℤ) + ((n + 1 : ℕ) : ℤ)
  omega

theorem close {d : Handle} (ht : m t = .having d) : Holds (update m t .held)
    { w with calls := w.calls ++ [.saneClose d] } n
    { σ with opened := σ.opened.filter (· ≠ d) } := by
  have hbusy : m t ≠ .rest := by simp [ht]
  have hinit := h.initialised.2 (h.pos hbusy)
  have hopen : d ∈ σ.opened := (h.owned.owner d).2 (.inr ⟨t, ht⟩)
  exact ⟨h.count.stay hbusy (by simp), h.refcount,
    calls_concat h.calls (by simp [Sane.call, hinit, hopen]), h.initialised, h.owned.close ht⟩

/-- A command that the phase of its call allows. -/
theorem perform {statuses : ℕ → SaneStatus} {c : Command} {x : Answer c} {w' : Library}
    (hc : discipline.allowed (m t) c) (hx : Sanecpp.exec statuses c w = some (x, w')) :
    ∃ n' σ', Holds (update m t (discipline.next (m t) c x)) w' n' σ' := by
  cases ht : m t with
  | rest =>
    rw [ht] at hc
    cases c with
    | saneInitAddref =>
      cases hx
      exact ⟨_, h.addref ht⟩
    | destroyed =>
      simp only [Sanecpp.exec] at hx
      split_ifs at hx with hi
      cases hx
      exact ⟨_, _, h.destroyed ht hi⟩
    | dropLast d =>
      simp only [Sanecpp.exec] at hx
      split_ifs at hx with hd
      cases hx
      exact ⟨_, _, h.dropLast ht hd⟩
    | _ => exact absurd hc id
  | held =>
    rw [ht] at hc
    cases c with
    | saneInitRelease =>
      have hpos : 0 < w.saneInitRefcount := h.pos (t := t) (by simp [ht])
      simp only [Sanecpp.exec, if_pos hpos] at hx
      cases hx
      exact ⟨_, h.release ht⟩
    | saneOpen =>
      cases hx
      by_cases hgood : statuses w.opens = .good
      · have hnext : discipline.next .held .saneOpen (statuses w.opens, w.opens) =
          .having w.opens := if_pos hgood
        rw [hnext, if_pos hgood]
        exact ⟨_, _, h.openGood ht⟩
      · have hnext : discipline.next .held .saneOpen (statuses w.opens, w.opens) = .held :=
          if_neg hgood
        rw [hnext, if_neg hgood]
        exact ⟨_, _, h.openBad ht⟩
    | saneGetDevices =>
      cases hx
      exact ⟨_, _, h.getDevices ht⟩
    | constructed =>
      cases hx
      exact ⟨_, _, h.constructed ht⟩
    | _ => exact absurd hc id
  | having d =>
    rw [ht] at hc
    cases c with
    | share d' =>
      cases hx
      obtain rfl : d = d' := hc
      exact ⟨_, _, h.share ht⟩
    | saneClose d' =>
      cases hx
      obtain rfl : d = d' := hc
      exact ⟨_, _, h.close ht⟩
    | _ => exact absurd hc id

end Holds

/-- The invariant of all interleavings. -/
def balance (T : Type) [DecidableEq T] (statuses : ℕ → SaneStatus) :
    (watch T statuses).Invariant fun _ _ _ => True where
  holds m w := ∃ n σ, Holds m w n σ
  call {m w} k hk h := by
    have hm : update m ((sharing T statuses).caller k) .rest = m := by
      rw [← show m ((sharing T statuses).caller k) = .rest from hk, update_eq_self]
    exact hm.symm ▸ h
  perform hc _ hx h := by
    rcases h with ⟨n, σ, h⟩
    exact h.perform hc hx
  leave _ _ h := h

/-- In every interleaving of any threads, libsane only gets calls that it allows,
the count is positive where it is lowered, and when nothing lives and no call is
running, libsane is not initialised. -/
theorem sane_balanced (statuses : ℕ → SaneStatus)
    {s : Threads T Command Answer Library Unit}
    (h : (sharing T statuses).Reaches (fun _ _ _ => True) .initial s) :
    ∃ σ, Sane.calls s.world.calls = some σ ∧
      (∀ t next, s.text t = some (.command .saneInitRelease next) → 0 < s.world.saneInitRefcount) ∧
      ((∀ t, s.text t = none) → s.world.inits = 0 → s.world.handles = [] →
        σ.initialised = false) := by
  have hinv : (balance T statuses).holds (fun _ => .rest) Library.initial := by
    refine ⟨0, ⟨false, []⟩, ⟨?_, rfl, rfl, by simp [Library.initial], ?_⟩⟩
    · simp [Count, busy]
    · constructor <;> simp [Library.initial]
  rcases Monitor.follows_of_reaches (fun _ => rfl) hinv h with ⟨m, hm⟩
  rcases hm.inv with ⟨n, σ, hσ⟩
  refine ⟨σ, hσ.calls, fun t next ht => ?_, fun hidle hi hh => ?_⟩
  · have hallowed := hm.admits ht
    apply hσ.pos (t := t)
    intro hrest
    rw [hrest] at hallowed
    exact hallowed
  · have hcount := hσ.refcount
    have hzero : busy m = ∅ := by
      ext t
      have hfits := hm.fits t
      rw [hidle t] at hfits
      simp [busy, show m t = .rest from hfits]
    have hn : n = 0 := by rw [← hσ.count.2, hzero, Set.ncard_empty]
    rw [Bool.eq_false_iff, ne_eq, hσ.initialised]
    simp only [hi, hh, hn] at hcount
    simp [hcount]

end

/-- One thread drops its `init` object while another has a device, which it lets
go of later. -/
def handleOutlivesInit : Option (Threads Bool Command Answer Library Unit) :=
  follow (sharing Bool fun _ => .good) (fun _ _ _ => True) (.idle .initial)
    ([.call (.construct false), .go false, .go false, .go false] ++
      [.call (.openDevice true), .go true, .go true, .go true, .go true] ++
      [.call (.destruct false), .go false, .go false, .go false] ++
      [.call (.deleter true 0), .go true, .go true, .go true, .go true])

theorem sane_balanced_run : ∃ s, handleOutlivesInit = some s ∧
    s.world.calls = [.saneInit, .saneOpen (some 0), .saneClose 0, .saneExit] ∧
    ∃ σ, Sane.calls s.world.calls = some σ ∧
      (∀ t next, s.text t = some (.command .saneInitRelease next) → 0 < s.world.saneInitRefcount) ∧
      ((∀ t, s.text t = none) → s.world.inits = 0 → s.world.handles = [] →
        σ.initialised = false) := by
  have hrun : handleOutlivesInit.map (·.world.calls) =
      some [.saneInit, .saneOpen (some 0), .saneClose 0, .saneExit] := by
    decide +kernel
  rcases Option.map_eq_some_iff.1 hrun with ⟨s, hs, hcalls⟩
  exact ⟨s, hs, hcalls, sane_balanced (fun _ => .good) (reaches_follow .start hs)⟩

end AirSane.Sanecpp
