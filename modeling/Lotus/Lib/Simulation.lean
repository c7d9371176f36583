import Lotus.Lib.Run

/-!
# Forward simulation of calls that may fail or panic

A component made of calls that return an error or a new state, and that may also panic, refines
an abstract component whose calls return an error or a new state when each call from related
states fails with the same error on both sides or succeeds on both with related states, and never
panics.  `ExceptRel R` relates two such results.  A caller that keeps its state when a call fails
makes each call a total step on the abstract side and a step in `Option` on the concrete one;
`run_simulation` then carries the relation along every run, so that no run panics.
-/

namespace Simulation

variable {ε σ τ ι : Type*}

/-- Two results that fail with the same error, or succeed with states related by `R`. -/
def ExceptRel (R : σ → τ → Prop) : Except ε σ → Except ε τ → Prop
  | .ok a, .ok b => R a b
  | .error e, .error e' => e = e'
  | _, _ => False

variable {R : σ → τ → Prop}

@[simp]
lemma exceptRel_ok {a : σ} {b : τ} : ExceptRel (ε := ε) R (.ok a) (.ok b) ↔ R a b :=
  Iff.rfl

@[simp]
lemma exceptRel_error {e e' : ε} : ExceptRel (σ := σ) (τ := τ) R (.error e) (.error e') ↔ e = e' :=
  Iff.rfl

@[simp]
lemma exceptRel_ok_error {a : σ} {e : ε} : ExceptRel (τ := τ) R (.ok a) (.error e) ↔ False :=
  Iff.rfl

@[simp]
lemma exceptRel_error_ok {e : ε} {b : τ} : ExceptRel (σ := σ) R (.error e) (.ok b) ↔ False :=
  Iff.rfl

/-- A caller that keeps its state on an error keeps the relation. -/
lemma ExceptRel.toOption_getD {x : Except ε σ} {y : Except ε τ} (h : ExceptRel R x y) {s : σ}
    {t : τ} (hst : R s t) : R (x.toOption.getD s) (y.toOption.getD t) := by
  match x, y, h with
  | .ok _, .ok _, h => exact h
  | .error _, .error _, _ => exact hst

/-- **Forward simulation**: when every concrete step from related states succeeds and lands in
a state related to the abstract step's, every run of concrete steps succeeds and ends in a state
related to the abstract run's. -/
theorem run_simulation {stepC : σ → ι → Option σ} {stepA : τ → ι → τ}
    (hstep : ∀ s t i, R s t → ∃ s', stepC s i = some s' ∧ R s' (stepA t i)) :
    ∀ (ops : List ι) {s : σ} {t : τ}, R s t →
      ∃ s', ops.foldlM stepC s = some s' ∧ R s' (Run.run stepA t ops)
  | [], s, _, hst => ⟨s, rfl, hst⟩
  | i :: ops, _, _, hst => by
    obtain ⟨s', hs', hst'⟩ := hstep _ _ i hst
    obtain ⟨s'', hrun, hst''⟩ := run_simulation hstep ops hst'
    exact ⟨s'', by rw [List.foldlM_cons, hs', Option.bind_eq_bind, Option.bind_some]; exact hrun,
      hst''⟩

end Simulation
