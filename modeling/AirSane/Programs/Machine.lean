import Mathlib.Logic.Relation

/-! # Runs of a labelled transition system

The states that a system gets to by steps whose actions meet a condition, and
the one induction over its runs that invariants need.
-/

namespace Programs

variable {S A : Type}

/-- States reached from `s₀` by allowed steps. -/
inductive Reached (step : S → A → S → Prop) (allowed : S → A → Prop) (s₀ : S) : S → Prop where
  | start : Reached step allowed s₀ s₀
  | step {s s' : S} {a : A} (h : Reached step allowed s₀ s) (ha : allowed s a) (hs : step s a s') :
    Reached step allowed s₀ s'

namespace Reached
variable {step : S → A → S → Prop} {allowed : S → A → Prop} {s₀ s : S}

theorem invariant {I : S → Prop} (h₀ : I s₀)
    (hI : ∀ s a s', I s → allowed s a → step s a s' → I s') (h : Reached step allowed s₀ s) :
    I s := by
  induction h with
  | start => exact h₀
  | step _ ha hs ih => exact hI _ _ _ ih ha hs

end Reached
end Programs
