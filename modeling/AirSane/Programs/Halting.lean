import AirSane.Programs.Execution

/-! # Programs that come to an end

A text that takes fuel halts if every supply that is large enough leads to the
same result. The rules are those of total correctness: a loop halts if its
passes do and make a measure smaller.
-/

namespace Programs.Program

variable {C : Type} {Ans : C → Type} {W α β σ : Type} {exec : Handler C Ans W}

/-- With enough fuel the run returns, in a way that satisfies `Q`. -/
def Halts (exec : Handler C Ans W) (p : ℕ → Program C Ans α) (w : W) (Q : α → W → Prop) : Prop :=
  ∃ a w', Q a w' ∧ ∃ n, ∀ m ≥ n, (p m).run exec w = (.ok a, w')

namespace Halts
variable {p : ℕ → Program C Ans α} {f : ℕ → α → Program C Ans β} {w w' : W} {a : α}
  {Q Q' : α → W → Prop} {R : β → W → Prop}

theorem of_run {v : W} (h : ∀ m, (p m).run exec w = (.ok a, v)) (hQ : Q a v) : Halts exec p w Q :=
  ⟨a, v, hQ, 0, fun m _ => h m⟩

theorem mono (h : Halts exec p w Q) (hQ : ∀ a w', Q a w' → Q' a w') : Halts exec p w Q' := by
  obtain ⟨a, w', h, hn⟩ := h
  exact ⟨a, w', hQ a w' h, hn⟩

theorem congr {q : ℕ → Program C Ans α} (h : ∀ m, (p m).run exec w = (q m).run exec w')
    (hq : Halts exec q w' Q) : Halts exec p w Q := by
  obtain ⟨a, w', hQ, n, hn⟩ := hq
  exact ⟨a, w', hQ, n, fun m hm => (h m).trans (hn m hm)⟩

/-- What one run shows about its result holds of the result. -/
theorem inspect (h : Halts exec p w Q)
    (hQ : ∀ m a w', (p m).run exec w = (.ok a, w') → Q a w' → Q' a w') : Halts exec p w Q' := by
  obtain ⟨a, w', h, n, hn⟩ := h
  exact ⟨a, w', hQ n a w' (hn n (Nat.le_refl n)) h, n, hn⟩

theorem bind (h : Halts exec p w Q)
    (hf : ∀ a w', Q a w' → Halts exec (fun m => f m a) w' R) :
    Halts exec (fun m => p m >>= f m) w R := by
  obtain ⟨a, w', hQ, n, hn⟩ := h
  obtain ⟨b, v, hR, k, hk⟩ := hf a w' hQ
  refine ⟨b, v, hR, max n k, fun m hm => ?_⟩
  rw [run_bind, hn m (by omega)]
  exact hk m (by omega)

theorem bind_run (h : ∀ m, (p m).run exec w = (.ok a, w'))
    (hf : Halts exec (fun m => f m a) w' R) : Halts exec (fun m => p m >>= f m) w R :=
  (of_run (Q := fun x v => x = a ∧ v = w') h ⟨rfl, rfl⟩).bind fun _ _ hQ => hQ.1 ▸ hQ.2 ▸ hf

/-- A recursion that passes on one unit of fuel less. -/
theorem succ (h : Halts exec (fun m => p (m + 1)) w Q) : Halts exec p w Q := by
  obtain ⟨a, w', hQ, n, hn⟩ := h
  refine ⟨a, w', hQ, n + 1, fun m hm => ?_⟩
  obtain ⟨k, rfl⟩ := Nat.exists_eq_add_of_le' hm
  exact hn (k + n) (Nat.le_add_left n k)

/-- The loop rule of total correctness. -/
theorem iterate {body : ℕ → σ → Program C Ans (σ ⊕ α)} {I : σ → W → Prop} (μ : σ → W → ℕ)
    (hbody : ∀ s w, I s w → Halts exec (fun m => body m s) w fun r w' =>
      (∃ s', r = .inl s' ∧ I s' w' ∧ μ s' w' < μ s w) ∨ ∃ a, r = .inr a ∧ Q a w')
    {s : σ} (h : I s w) : Halts exec (fun m => iterate (body m) m s) w Q := by
  -- the fuel of the passes and the number of passes are bounded separately
  have hloop : ∃ a w', Q a w' ∧
      ∃ n, ∀ m ≥ n, ∀ k ≥ n, (Program.iterate (body m) k s).run exec w = (.ok a, w') := by
    induction hμ : μ s w using Nat.strongRecOn generalizing s w with
    | _ x ih =>
      obtain ⟨r, v, ⟨s', rfl, hI, hlt⟩ | ⟨a, rfl, hQ⟩, n, hn⟩ := hbody s w h
      · obtain ⟨a, w', hQ, n', hn'⟩ := ih (μ s' v) (hμ ▸ hlt) hI rfl
        refine ⟨a, w', hQ, max n n' + 1, fun m hm k hk => ?_⟩
        obtain ⟨k, rfl⟩ := Nat.exists_eq_succ_of_ne_zero (n := k) (by omega)
        rw [Program.iterate, run_bind, hn m (by omega)]
        exact hn' m (by omega) k (by omega)
      · refine ⟨a, v, hQ, n + 1, fun m hm k hk => ?_⟩
        obtain ⟨k, rfl⟩ := Nat.exists_eq_succ_of_ne_zero (n := k) (by omega)
        rw [Program.iterate, run_bind, hn m (by omega)]
        rfl
  obtain ⟨a, w', hQ, n, hn⟩ := hloop
  exact ⟨a, w', hQ, n, fun m hm => hn m hm m hm⟩

end Halts
end Programs.Program
