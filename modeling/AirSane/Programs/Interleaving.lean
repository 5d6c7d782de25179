import AirSane.Programs.Discipline
import AirSane.Programs.Machine
import Mathlib.Logic.Function.Basic

/-! # Threads that interleave their commands

Every thread makes its calls one after the other, and the commands of all calls
are executed one at a time on a shared world, in any order. Disciplines of the
threads and an invariant of the world over their phases bound what is reached.
-/

namespace Programs
open Function

/-- Threads with the calls that they make, what a thread's command does, and
what the world keeps of a call that has returned. -/
structure Interleaving (T K C : Type) (Ans : C → Type) (W α : Type) where
  caller : K → T
  body : K → Program C Ans α
  exec : T → Handler C Ans W
  returned : T → W → W

/-- A world, and for every thread the rest of its call if it is in one. -/
structure Threads (T C : Type) (Ans : C → Type) (W α : Type) where
  world : W
  text : T → Option (Program C Ans α)

inductive Action (T K C : Type) where
  | call (k : K)
  | perform (t : T) (c : C)
  | leave (t : T)

variable {T K C : Type} {Ans : C → Type} {W α : Type} [DecidableEq T]

namespace Threads

/-- All threads between two calls. -/
def idle (w : W) : Threads T C Ans W α := ⟨w, fun _ => none⟩

/-- A thread goes on with another text, in another world. -/
def move (s : Threads T C Ans W α) (w : W) (t : T) (p : Option (Program C Ans α)) :
    Threads T C Ans W α := ⟨w, update s.text t p⟩

variable {s : Threads T C Ans W α} {w : W} {t u : T} {p : Option (Program C Ans α)}

@[simp] theorem move_world : (s.move w t p).world = w := rfl

@[simp] theorem move_text_self : (s.move w t p).text t = p := by simp [move]

theorem move_text_ne (h : u ≠ t) : (s.move w t p).text u = s.text u := by simp [move, h]

end Threads

namespace Interleaving
variable (S : Interleaving T K C Ans W α)

inductive Step : Threads T C Ans W α → Action T K C → Threads T C Ans W α → Prop
  | call {s : Threads T C Ans W α} {k : K} (h : s.text (S.caller k) = none) :
    Step s (.call k) (s.move s.world (S.caller k) (some (S.body k)))
  | perform {s : Threads T C Ans W α} {t : T} {c : C} {next : Ans c → Program C Ans α} {x : Ans c}
    {w : W} (h : s.text t = some (.command c next)) (hx : S.exec t c s.world = some (x, w)) :
    Step s (.perform t c) (s.move w t (some (next x)))
  | leave {s : Threads T C Ans W α} {t : T} {a : α} (h : s.text t = some (.ret a)) :
    Step s (.leave t) (s.move (S.returned t s.world) t none)

/-- A condition on the commands of threads, as one on all actions. -/
def Admits (allowed : W → T → C → Prop) (s : Threads T C Ans W α) : Action T K C → Prop
  | .perform t c => allowed s.world t c
  | _ => True

/-- States reached from idle threads by commands that meet a condition. -/
abbrev Reaches (allowed : W → T → C → Prop) (w : W) : Threads T C Ans W α → Prop :=
  Reached S.Step (Admits allowed) (.idle w)

/-- Disciplines for the threads, with the phase that each call enters, those
where calls return, and those where a thread may begin the next one. -/
structure Monitor (M : T → Type) where
  discipline : (t : T) → Discipline C Ans (M t)
  entry : (k : K) → M (S.caller k)
  ends : (t : T) → M t → Prop
  rests : (t : T) → M t → Prop
  obeys : ∀ k, (S.body k).Obeys (discipline (S.caller k)) (fun _ m => ends (S.caller k) m)
    (fun _ => True) (entry k)
  rests_of_ends : ∀ {t : T} {m : M t}, ends t m → rests t m

variable {S} {allowed : W → T → C → Prop} {M : T → Type}

namespace Monitor
variable (δ : S.Monitor M)

/-- What the phases say about the world, kept by calls and by allowed commands. -/
structure Invariant (allowed : W → T → C → Prop) where
  holds : ((t : T) → M t) → W → Prop
  call : ∀ {m : (t : T) → M t} {w : W} (k : K), δ.rests (S.caller k) (m (S.caller k)) →
    holds m w → holds (update m (S.caller k) (δ.entry k)) w
  perform : ∀ {m : (t : T) → M t} {w w' : W} {t : T} {c : C} {x : Ans c},
    (δ.discipline t).allowed (m t) c → allowed w t c → S.exec t c w = some (x, w') → holds m w →
    holds (update m t ((δ.discipline t).next (m t) c x)) w'
  leave : ∀ {m : (t : T) → M t} {w : W} (t : T), δ.ends t (m t) → holds m w →
    holds m (S.returned t w)

/-- The text of a thread agrees with its phase. -/
def Fits (t : T) (m : M t) : Option (Program C Ans α) → Prop
  | none => δ.rests t m
  | some p => p.Obeys (δ.discipline t) (fun _ m => δ.ends t m) (fun _ => True) m

variable {δ} (I : δ.Invariant allowed)

/-- Phases that explain a state. -/
structure Follows (m : (t : T) → M t) (s : Threads T C Ans W α) : Prop where
  inv : I.holds m s.world
  fits : ∀ t, δ.Fits t (m t) (s.text t)

variable {I} {m : (t : T) → M t} {s s' : Threads T C Ans W α} {w : W}

/-- One thread goes on, in step with its phase. -/
theorem Follows.move (h : Follows I m s) {t : T} {k : M t} {p : Option (Program C Ans α)}
    (hI : I.holds (update m t k) w) (hp : δ.Fits t k p) :
    Follows I (update m t k) (s.move w t p) := by
  constructor
  · exact hI
  · intro u
    by_cases hu : u = t
    · subst hu
      rwa [update_self, Threads.move_text_self]
    · rw [update_of_ne hu, Threads.move_text_ne hu]
      exact h.fits u

theorem Follows.step {a : Action T K C} (h : Follows I m s) (ha : Admits allowed s a)
    (hs : S.Step s a s') : ∃ m', Follows I m' s' := by
  cases hs with
  | @call k ht =>
    have hrest := h.fits (S.caller k)
    rw [ht] at hrest
    exact ⟨_, h.move (I.call k hrest h.inv) (δ.obeys k)⟩
  | @perform t c next x w ht hx =>
    have htext := h.fits t
    rw [ht] at htext
    exact ⟨_, h.move (I.perform htext.1 ha hx h.inv) (htext.2 x)⟩
  | @leave t b ht =>
    have htext := h.fits t
    rw [ht] at htext
    have hm := h.move (w := S.returned t s.world) (t := t) (k := m t) (p := none)
    rw [update_eq_self] at hm
    exact ⟨m, hm (I.leave t htext h.inv) (δ.rests_of_ends htext)⟩

/-- Whatever the interleaving, phases explain what is reached. -/
theorem follows_of_reaches (h₀ : ∀ t, δ.rests t (m t)) (hI : I.holds m w)
    (h : S.Reaches allowed w s) : ∃ m', Follows I m' s := by
  apply h.invariant (I := fun s => ∃ m', Follows I m' s)
  · exact ⟨m, hI, h₀⟩
  · rintro s a s' ⟨m', hm⟩ ha hs
    exact hm.step ha hs

/-- The next command of a thread is one that its phase allows. -/
theorem Follows.admits (h : Follows I m s) {t : T} {c : C} {next : Ans c → Program C Ans α}
    (ht : s.text t = some (.command c next)) : (δ.discipline t).allowed (m t) c := by
  have htext := h.fits t
  rw [ht] at htext
  exact htext.1

end Monitor

/-- A turn of a schedule: a thread's next call, or its next command or return. -/
inductive Turn (T K : Type) where
  | call (k : K)
  | go (t : T)

section
variable (S allowed) [∀ w t c, Decidable (allowed w t c)]

def turn (s : Threads T C Ans W α) : Turn T K → Option (Threads T C Ans W α)
  | .call k => match s.text (S.caller k) with
    | none => some (s.move s.world (S.caller k) (some (S.body k)))
    | some _ => none
  | .go t => match s.text t with
    | some (.command c next) => if allowed s.world t c then
        (S.exec t c s.world).map fun r => s.move r.2 t (some (next r.1))
      else none
    | some (.ret _) => some (s.move (S.returned t s.world) t none)
    | _ => none

/-- The state that a schedule leads to, if all its commands are allowed. -/
def follow (s : Threads T C Ans W α) (turns : List (Turn T K)) : Option (Threads T C Ans W α) :=
  turns.foldlM (turn S allowed) s

variable {S allowed} {w : W} {s s' : Threads T C Ans W α}

theorem reaches_turn {x : Turn T K} (h : S.Reaches allowed w s) (hx : turn S allowed s x = some s') :
    S.Reaches allowed w s' := by
  cases x with
  | call k =>
    cases ht : s.text (S.caller k) with
    | some p => simp [turn, ht] at hx
    | none =>
      simp only [turn, ht, Option.some.injEq] at hx
      exact hx ▸ h.step (a := .call k) trivial (.call ht)
  | go t =>
    rcases ht : s.text t with _ | ⟨b | ⟨c, next⟩ | _ | _ | _⟩
    · simp [turn, ht] at hx
    · simp only [turn, ht, Option.some.injEq] at hx
      exact hx ▸ h.step (a := .leave t) trivial (.leave ht)
    · by_cases hc : allowed s.world t c
      · simp only [turn, ht, if_pos hc, Option.map_eq_some_iff] at hx
        obtain ⟨r, hr, rfl⟩ := hx
        exact h.step (a := .perform t c) hc (.perform ht hr)
      · simp [turn, ht, hc] at hx
    all_goals simp [turn, ht] at hx

/-- A schedule is one of the runs. -/
theorem reaches_follow {turns : List (Turn T K)} (h : S.Reaches allowed w s)
    (hs : follow S allowed s turns = some s') : S.Reaches allowed w s' := by
  induction turns generalizing s with
  | nil =>
    obtain rfl : s = s' := Option.some.inj hs
    exact h
  | cons x turns ih =>
    rw [follow, List.foldlM_cons, Option.bind_eq_bind, Option.bind_eq_some_iff] at hs
    obtain ⟨s₁, hx, hs⟩ := hs
    exact ih (reaches_turn h hx) hs

end

end Interleaving
end Programs
