import PipelineOperator.Lib.Machine

/-!
# Simulations between machines

A machine simulates another one if it can follow each of its steps with a run
of its own, from states that are related to states that are again.  Then it can
follow whole runs, and what holds of its own states holds of those related to
them.

## Main results

* `Steps.reach`: a run from a reachable state ends in one.
* `Simulation.reach`: a machine that follows each step follows every run.
-/

namespace PipelineOperator.Lib

namespace Machine

variable {σ α τ β : Type}

/-- A guarded run of any length from one state to another. -/
inductive Steps (M : Machine τ β) (ok : τ → β → Prop) : τ → τ → Prop where
  | refl (x : τ) : Steps M ok x x
  | step {x y z : τ} {b : β} : Steps M ok x y → ok y b → M.step y b = some z → Steps M ok x z

variable {M : Machine τ β} {ok : τ → β → Prop} {x y z : τ}

theorem Steps.single {b : β} (hok : ok x b) (hstep : M.step x b = some y) : Steps M ok x y :=
  .step (.refl x) hok hstep

theorem Steps.trans (hfirst : Steps M ok x y) (hsecond : Steps M ok y z) : Steps M ok x z := by
  induction hsecond with
  | refl => exact hfirst
  | step _ hok hstep ih => exact .step ih hok hstep

theorem Steps.reach (hreach : M.Reach ok x) (hsteps : Steps M ok x y) : M.Reach ok y := by
  induction hsteps with
  | refl => exact hreach
  | step _ hok hstep ih => exact .step ih hok hstep

/-- The second machine follows the first one, along the relation. -/
structure Simulation (C : Machine σ α) (cok : σ → α → Prop) (M : Machine τ β)
    (ok : τ → β → Prop) (R : σ → τ → Prop) : Prop where
  init : ∀ s, C.init s → ∃ x, M.init x ∧ R s x
  step : ∀ s a t x, R s x → cok s a → C.step s a = some t → ∃ y, Steps M ok x y ∧ R t y

/-- The induction is on the run that is followed. -/
theorem Simulation.reach {C : Machine σ α} {cok : σ → α → Prop} {R : σ → τ → Prop}
    (hsim : Simulation C cok M ok R) {s : σ} (hs : C.Reach cok s) :
    ∃ x, M.Reach ok x ∧ R s x := by
  induction hs with
  | init hinit =>
      obtain ⟨x, hx, hrelated⟩ := hsim.init _ hinit
      exact ⟨x, .init hx, hrelated⟩
  | step _ hok hstep ih =>
      obtain ⟨x, hx, hrelated⟩ := ih
      obtain ⟨y, hsteps, hnext⟩ := hsim.step _ _ _ x hrelated hok hstep
      exact ⟨y, hsteps.reach hx, hnext⟩

end Machine

end PipelineOperator.Lib
