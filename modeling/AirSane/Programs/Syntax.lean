import Mathlib.Data.Nat.Notation

/-! # Imperative programs over a signature of atomic commands

A program is the tree of the commands it issues, branching on their answers.
Besides returning, a program may raise an exception that an enclosing handler
catches, crash (a failed assertion, an exception nobody can catch) or run out
of the loop fuel it was given. The tree has no meaning of its own: sequential
and interleaved executions are two readings of the same text.
-/

namespace Programs

inductive Program (C : Type) (Ans : C → Type) (α : Type) where
  | ret (a : α)
  | command (c : C) (next : Ans c → Program C Ans α)
  | raise
  | crash
  | spin

namespace Program
variable {C : Type} {Ans : C → Type} {α β γ σ : Type}

def bind : Program C Ans α → (α → Program C Ans β) → Program C Ans β
  | .ret a, f => f a
  | .command c next, f => .command c (fun x => (next x).bind f)
  | .raise, _ => .raise
  | .crash, _ => .crash
  | .spin, _ => .spin

instance : Monad (Program C Ans) where
  pure := .ret
  bind := .bind

/-- A single command, returning its answer. -/
def perform (c : C) : Program C Ans (Ans c) := .command c .ret

/-- Run the handler in place of a raised exception; crashes pass through. -/
def tryCatch : Program C Ans α → Program C Ans α → Program C Ans α
  | .ret a, _ => .ret a
  | .command c next, h => .command c (fun x => (next x).tryCatch h)
  | .raise, h => h
  | .crash, _ => .crash
  | .spin, _ => .spin

/-- A loop of at most `fuel` passes. A pass answers `inl` to go round again
with a new loop state and `inr` to leave. -/
def iterate (body : σ → Program C Ans (σ ⊕ α)) : ℕ → σ → Program C Ans α
  | 0, _ => .spin
  | fuel + 1, s => body s >>= fun
    | .inl s' => iterate body fuel s'
    | .inr a => .ret a

@[simp] theorem pure_eq (a : α) : (pure a : Program C Ans α) = .ret a := rfl

@[simp] theorem ret_bind (a : α) (f : α → Program C Ans β) : (.ret a : Program C Ans α) >>= f = f a :=
  rfl

@[simp] theorem command_bind (c : C) (next : Ans c → Program C Ans α) (f : α → Program C Ans β) :
    (.command c next : Program C Ans α) >>= f = .command c (fun x => next x >>= f) := rfl

@[simp] theorem raise_bind (f : α → Program C Ans β) :
    (.raise : Program C Ans α) >>= f = .raise := rfl

@[simp] theorem crash_bind (f : α → Program C Ans β) :
    (.crash : Program C Ans α) >>= f = .crash := rfl

@[simp] theorem spin_bind (f : α → Program C Ans β) :
    (.spin : Program C Ans α) >>= f = .spin := rfl

@[simp] theorem bind_assoc (p : Program C Ans α) (f : α → Program C Ans β)
    (g : β → Program C Ans γ) : p >>= f >>= g = p >>= fun a => f a >>= g := by
  induction p with
  | ret a => rfl
  | command c next ih =>
    simp only [command_bind]
    congr 1
    funext x
    exact ih x
  | raise => rfl
  | crash => rfl
  | spin => rfl

end Program
end Programs
