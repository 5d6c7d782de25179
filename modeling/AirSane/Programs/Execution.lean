import AirSane.Programs.Syntax
import Mathlib.Logic.Relation

/-! # Sequential execution

A handler gives every command an answer and a successor world, or `none` where
executing it is undefined behaviour. Running a program alone folds the handler
over the tree.
-/

namespace Programs

/-- The ways a run ends without returning. -/
inductive Stop where
  | raised | crashed | spinning | faulted
  deriving DecidableEq, Repr

variable {C : Type} {Ans : C → Type} {W α β σ : Type}

abbrev Handler (C : Type) (Ans : C → Type) (W : Type) := (c : C) → W → Option (Ans c × W)

namespace Program

def run (exec : Handler C Ans W) : Program C Ans α → W → Except Stop α × W
  | .ret a, w => (.ok a, w)
  | .command c next, w => match exec c w with
    | some (x, w') => (next x).run exec w'
    | none => (.error .faulted, w)
  | .raise, w => (.error .raised, w)
  | .crash, w => (.error .crashed, w)
  | .spin, w => (.error .spinning, w)

variable (exec : Handler C Ans W)

@[simp] theorem run_ret (a : α) (w : W) :
    (.ret a : Program C Ans α).run exec w = (.ok a, w) := rfl

@[simp] theorem run_raise (w : W) :
    (.raise : Program C Ans α).run exec w = (.error .raised, w) := rfl

@[simp] theorem run_crash (w : W) :
    (.crash : Program C Ans α).run exec w = (.error .crashed, w) := rfl

@[simp] theorem run_spin (w : W) :
    (.spin : Program C Ans α).run exec w = (.error .spinning, w) := rfl

theorem run_command (c : C) (next : Ans c → Program C Ans α) (w : W) :
    (Program.command c next).run exec w = match exec c w with
      | some (x, w') => (next x).run exec w'
      | none => (.error .faulted, w) := by
  rw [run]

theorem run_perform (c : C) (w : W) :
    (perform c : Program C Ans (Ans c)).run exec w = match exec c w with
      | some (x, w') => (.ok x, w')
      | none => (.error .faulted, w) := by
  rw [perform, run_command]
  rfl

theorem run_bind (p : Program C Ans α) (f : α → Program C Ans β) (w : W) :
    (p >>= f).run exec w = match p.run exec w with
      | (.ok a, w') => (f a).run exec w'
      | (.error e, w') => (.error e, w') := by
  induction p generalizing w with
  | ret a => rfl
  | command c next ih =>
    rw [command_bind, run_command, run_command]
    cases exec c w with
    | none => rfl
    | some r => exact ih r.1 r.2
  | raise => rfl
  | crash => rfl
  | spin => rfl

theorem run_tryCatch (p h : Program C Ans α) (w : W) :
    (p.tryCatch h).run exec w = match p.run exec w with
      | (.error .raised, w') => h.run exec w'
      | r => r := by
  induction p generalizing w with
  | ret a => rfl
  | command c next ih =>
    rw [tryCatch, run_command, run_command]
    cases exec c w with
    | none => rfl
    | some r => exact ih r.1 r.2
  | raise => rfl
  | crash => rfl
  | spin => rfl

/-- A loop runs as a chain of passes that go round again, up to a pass that
leaves, a pass that stops, or the end of the fuel. -/
theorem run_iterate (body : σ → Program C Ans (σ ⊕ α)) (fuel : ℕ) (s : σ) (w : W) :
    ∃ s' w', Relation.ReflTransGen
        (fun x y : σ × W => (body x.1).run exec x.2 = (.ok (.inl y.1), y.2)) (s, w) (s', w') ∧
      ((∃ a u, (body s').run exec w' = (.ok (.inr a), u) ∧
          (iterate body fuel s).run exec w = (.ok a, u)) ∨
        (∃ e u, (body s').run exec w' = (.error e, u) ∧
          (iterate body fuel s).run exec w = (.error e, u)) ∨
        (iterate body fuel s).run exec w = (.error .spinning, w')) := by
  induction fuel generalizing s w with
  | zero => exact ⟨s, w, .refl, .inr (.inr rfl)⟩
  | succ fuel ih =>
    rcases hr : (body s).run exec w with ⟨e | s₁ | a, w₁⟩
    · exact ⟨s, w, .refl, .inr (.inl ⟨e, w₁, hr, by simp [iterate, run_bind, hr]⟩)⟩
    · obtain ⟨s', w', hchain, hend⟩ := ih s₁ w₁
      refine ⟨s', w', .head hr hchain, ?_⟩
      simpa [iterate, run_bind, hr] using hend
    · exact ⟨s, w, .refl, .inl ⟨a, w₁, hr, by simp [iterate, run_bind, hr]⟩⟩

end Program

end Programs
