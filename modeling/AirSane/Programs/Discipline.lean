import AirSane.Programs.Execution

/-! # Programs that keep to a discipline

A discipline follows the commands of a program and their answers, and says which
command may come next. That a program obeys it is a property of the text alone,
whatever the answers are, and holds in every execution of it.
-/

namespace Programs

variable {C : Type} {Ans : C → Type} {M W α β σ : Type}

structure Discipline (C : Type) (Ans : C → Type) (M : Type) where
  allowed : M → C → Prop
  next : M → (c : C) → Ans c → M

namespace Program

/-- From `m` on only allowed commands; `Q` at a return and `X` at a raise. -/
def Obeys (δ : Discipline C Ans M) (Q : α → M → Prop) (X : M → Prop) : Program C Ans α → M → Prop
  | .ret a, m => Q a m
  | .command c next, m => δ.allowed m c ∧ ∀ x, (next x).Obeys δ Q X (δ.next m c x)
  | .raise, m => X m
  | .crash, _ => True
  | .spin, _ => True

variable {δ : Discipline C Ans M} {Q Q' : α → M → Prop} {R : β → M → Prop} {X X' : M → Prop} {m : M}

@[simp] theorem obeys_ret {a : α} : (.ret a : Program C Ans α).Obeys δ Q X m ↔ Q a m := .rfl

@[simp] theorem obeys_raise : (.raise : Program C Ans α).Obeys δ Q X m ↔ X m := .rfl

@[simp] theorem obeys_crash : (.crash : Program C Ans α).Obeys δ Q X m := trivial

@[simp] theorem obeys_spin : (.spin : Program C Ans α).Obeys δ Q X m := trivial

theorem obeys_command {c : C} {next : Ans c → Program C Ans α} :
    (Program.command c next).Obeys δ Q X m ↔
      δ.allowed m c ∧ ∀ x, (next x).Obeys δ Q X (δ.next m c x) := .rfl

@[simp] theorem obeys_ite {c : Prop} [Decidable c] {p q : Program C Ans α} :
    (if c then p else q).Obeys δ Q X m ↔ (c → p.Obeys δ Q X m) ∧ (¬ c → q.Obeys δ Q X m) := by
  by_cases hc : c <;> simp [hc]

/-- The second program begins where the first one returns. -/
@[simp] theorem obeys_bind {p : Program C Ans α} {f : α → Program C Ans β} :
    (p >>= f).Obeys δ R X m ↔ p.Obeys δ (fun a m' => (f a).Obeys δ R X m') X m := by
  induction p generalizing m with
  | ret a => exact .rfl
  | command c next ih => exact and_congr_right fun _ => forall_congr' fun x => ih x
  | raise => exact .rfl
  | crash => exact .rfl
  | spin => exact .rfl

theorem Obeys.mono {p : Program C Ans α} (h : p.Obeys δ Q X m) (hQ : ∀ a m, Q a m → Q' a m)
    (hX : ∀ m, X m → X' m) : p.Obeys δ Q' X' m := by
  induction p generalizing m with
  | ret a => exact hQ a m h
  | command c next ih => exact ⟨h.1, fun x => ih x (h.2 x)⟩
  | raise => exact hX m h
  | crash => trivial
  | spin => trivial

theorem Obeys.imp {p : Program C Ans α} (h : p.Obeys δ Q X m) (hQ : ∀ a m, Q a m → Q' a m) :
    p.Obeys δ Q' X m := h.mono hQ fun _ hm => hm

theorem Obeys.bind {p : Program C Ans α} {f : α → Program C Ans β} (h : p.Obeys δ Q X m)
    (hf : ∀ a m, Q a m → (f a).Obeys δ R X m) : (p >>= f).Obeys δ R X m :=
  obeys_bind.2 (h.imp hf)

/-- The handler goes on from where the exception was raised. -/
theorem Obeys.tryCatch {p h : Program C Ans α} (hp : p.Obeys δ Q X' m)
    (hh : ∀ m, X' m → h.Obeys δ Q X m) : (p.tryCatch h).Obeys δ Q X m := by
  induction p generalizing m with
  | ret a => exact hp
  | command c next ih => exact ⟨hp.1, fun x => ih x (hp.2 x)⟩
  | raise => exact hh m hp
  | crash => trivial
  | spin => trivial

/-- The loop rule: an invariant that connects the loop state with the phase. -/
theorem obeys_iterate_inv {body : σ → Program C Ans (σ ⊕ α)} {I : σ → M → Prop}
    (hbody : ∀ s m, I s m →
      (body s).Obeys δ (fun r m => Sum.elim (fun s => I s m) (fun a => Q a m) r) X m)
    (fuel : ℕ) (s : σ) (hm : I s m) : (iterate body fuel s).Obeys δ Q X m := by
  induction fuel generalizing s m with
  | zero => trivial
  | succ fuel ih =>
    apply (hbody s m hm).bind
    intro r m' hm'
    cases r with
    | inl s' => exact ih s' hm'
    | inr a => exact hm'

/-- What every pass keeps is kept by the loop. -/
theorem obeys_iterate {body : σ → Program C Ans (σ ⊕ α)} {I : M → Prop}
    (hbody : ∀ s m, I m → (body s).Obeys δ (fun _ m => I m) X m) (fuel : ℕ) (s : σ) (hm : I m) :
    (iterate body fuel s).Obeys δ (fun _ m => I m) X m := by
  apply obeys_iterate_inv (I := fun _ => I) _ fuel s hm
  intro s m hm
  apply (hbody s m hm).imp
  intro r m hm
  cases r with
  | inl _ => exact hm
  | inr _ => exact hm

/-- What every allowed command keeps holds at the end of a run, however it ends. -/
theorem Obeys.run {p : Program C Ans α} (h : p.Obeys δ Q X m) (exec : Handler C Ans W)
    (I : M → W → Prop)
    (hI : ∀ m c w x w', δ.allowed m c → exec c w = some (x, w') → I m w → I (δ.next m c x) w')
    {w : W} (hw : I m w) : ∃ m', I m' (p.run exec w).2 := by
  induction p generalizing m w with
  | ret a => exact ⟨m, hw⟩
  | command c next ih =>
    rw [run_command]
    cases hc : exec c w with
    | none => exact ⟨m, hw⟩
    | some r => exact ih r.1 (h.2 r.1) (hI m c w r.1 r.2 h.1 hc hw)
  | raise => exact ⟨m, hw⟩
  | crash => exact ⟨m, hw⟩
  | spin => exact ⟨m, hw⟩

end Program
end Programs
