/-!
# Machines that take one action at a time

A machine has initial states and a partial step function; `step s a = none`
says that the action `a` is not possible in `s`.  Its runs may be restricted
by a guard on the actions: `Reach ok` holds of the states that a run reaches
when every action is taken in a state that the guard admits.  With the
trivial guard these are all reachable states.

## Main results

* `Reach.invariant`: what holds initially and survives every guarded step
  holds of every state reached.
* `reach_of_exec`: a run that the step function executes reaches its end.
* `Reach.exists_history`: a history kept beside the state restricts no run.
-/

namespace PipelineOperator.Lib

structure Machine (σ α : Type) where
  init : σ → Prop
  step : σ → α → Option σ

namespace Machine

variable {σ α : Type} (M : Machine σ α)

/-- The states reached when every action meets the guard `ok`. -/
inductive Reach (ok : σ → α → Prop) : σ → Prop where
  | init {s : σ} : M.init s → Reach ok s
  | step {s t : σ} {a : α} : Reach ok s → ok s a → M.step s a = some t → Reach ok t

/-- The states reached by any run. -/
abbrev Reachable (s : σ) : Prop := M.Reach (fun _ _ => True) s

/-- Execute a list of actions in order, each where the guard admits it. -/
def exec (ok : σ → α → Prop) [∀ s a, Decidable (ok s a)] : σ → List α → Option σ
  | s, [] => some s
  | s, a :: as => if ok s a then (M.step s a).bind fun t => exec ok t as else none

variable {M}

/-- The invariant rule: initially true and preserved by every guarded step. -/
theorem Reach.invariant {ok : σ → α → Prop} {I : σ → Prop}
    (hinit : ∀ s, M.init s → I s)
    (hstep : ∀ s a t, I s → ok s a → M.step s a = some t → I t)
    {s : σ} (h : M.Reach ok s) : I s := by
  induction h with
  | init hs => exact hinit _ hs
  | step _ hok hs ih => exact hstep _ _ _ ih hok hs

/-- Executing actions from a reachable state stays among reachable states. -/
theorem reach_exec {ok : σ → α → Prop} [∀ s a, Decidable (ok s a)] {s t : σ} (as : List α)
    (h : M.Reach ok s) (hexec : M.exec ok s as = some t) : M.Reach ok t := by
  induction as generalizing s with
  | nil =>
      cases hexec
      exact h
  | cons a as ih =>
      rw [exec] at hexec
      split at hexec
      · next hok =>
          obtain ⟨u, hstep, hrest⟩ := Option.bind_eq_some_iff.mp hexec
          exact ih (h.step hok hstep) hrest
      · cases hexec

/-- An executed run from an initial state reaches its end. -/
theorem reach_of_exec {ok : σ → α → Prop} [∀ s a, Decidable (ok s a)] {s t : σ}
    (as : List α) (h : M.init s) (hexec : M.exec ok s as = some t) : M.Reach ok t :=
  reach_exec as (.init h) hexec

/-! ## History variables -/

variable {γ : Type}

/-- The machine with a history beside its state, to which `note` adds what a
step from one state to another is worth. -/
def withHistory (M : Machine σ α) (start : γ) (note : σ → α → σ → γ → γ) :
    Machine (σ × γ) α where
  init x := M.init x.1 ∧ x.2 = start
  step x a := (M.step x.1 a).map fun t => (t, note x.1 a t x.2)

/-- Every run has its history. -/
theorem Reach.exists_history {ok : σ → α → Prop} {s : σ} (h : M.Reach ok s) (start : γ)
    (note : σ → α → σ → γ → γ) :
    ∃ history, (M.withHistory start note).Reach (fun x a => ok x.1 a) (s, history) := by
  induction h with
  | init hinit => exact ⟨start, .init ⟨hinit, rfl⟩⟩
  | @step s t a _ hok hstep ih =>
      obtain ⟨history, hreach⟩ := ih
      have hnoted : (M.withHistory start note).step (s, history) a =
          some (t, note s a t history) := by
        simp [withHistory, hstep]
      exact ⟨_, hreach.step hok hnoted⟩

end Machine

end PipelineOperator.Lib
