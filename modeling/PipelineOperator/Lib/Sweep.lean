import Mathlib.Logic.Function.Basic
import Mathlib.Data.List.Basic
import Mathlib.Data.List.Nodup

/-!
# Sweeps: visiting cells in order, each by its own rule

A family of cells is updated in place.  Visiting a cell replaces its content
by a rule applied to all cells as they are at that moment, and a sweep visits
the cells of a list one after another.  A cell visited late in a sweep sees
the new contents of the earlier ones and the old contents of the later ones.

## Main results

* `sweep_of_notMem`: a sweep leaves the cells it does not visit alone.
* `sweep_apply`: after a sweep a visited cell holds its rule applied to a
  mixture of old and new contents, in which the cell itself is old.
* `sweep_eq_self_iff`: a sweep changes nothing exactly when no rule asks for
  a change.
* `iterate_sweep_apply`: the mixture lemma along repeated sweeps.
-/

namespace PipelineOperator.Lib

variable {ι σ : Type} [DecidableEq ι]

/-- Replace the content of cell `i` by its rule. -/
def visit (rule : ι → (ι → σ) → σ) (s : ι → σ) (i : ι) : ι → σ :=
  Function.update s i (rule i s)

/-- Visit the cells of a list in order. -/
def sweep (rule : ι → (ι → σ) → σ) (cells : List ι) (s : ι → σ) : ι → σ :=
  cells.foldl (visit rule) s

variable {rule : ι → (ι → σ) → σ}

@[simp] theorem sweep_nil (s : ι → σ) : sweep rule [] s = s := rfl

@[simp] theorem sweep_cons (i : ι) (cells : List ι) (s : ι → σ) :
    sweep rule (i :: cells) s = sweep rule cells (visit rule s i) := rfl

@[simp] theorem visit_self (s : ι → σ) (i : ι) : visit rule s i i = rule i s := by
  simp [visit]

theorem visit_of_ne (s : ι → σ) {i j : ι} (h : j ≠ i) : visit rule s i j = s j := by
  simp [visit, h]

/-- Visiting a cell whose rule asks for nothing new changes nothing. -/
theorem visit_eq_self {s : ι → σ} {i : ι} (h : rule i s = s i) : visit rule s i = s := by
  rw [visit, h, Function.update_eq_self]

theorem sweep_of_notMem (cells : List ι) (s : ι → σ) {j : ι} (h : j ∉ cells) :
    sweep rule cells s j = s j := by
  induction cells generalizing s with
  | nil => rfl
  | cons i cells ih =>
      simp only [List.mem_cons, not_or] at h
      rw [sweep_cons, ih (visit rule s i) h.2, visit_of_ne s h.1]

/-- The mixture lemma.  A cell is visited once, so what it is replaced by was
computed from contents that are each the old or the final ones. -/
theorem sweep_apply {cells : List ι} (hnodup : cells.Nodup) (s : ι → σ) {j : ι}
    (hj : j ∈ cells) :
    ∃ mix : ι → σ, mix j = s j ∧
      (∀ k, mix k = s k ∨ mix k = sweep rule cells s k) ∧
      sweep rule cells s j = rule j mix := by
  induction cells generalizing s with
  | nil => simp at hj
  | cons i cells ih =>
      obtain ⟨hi, hcells⟩ := List.nodup_cons.mp hnodup
      rw [sweep_cons]
      by_cases hji : j = i
      · subst hji
        refine ⟨s, rfl, fun k => Or.inl rfl, ?_⟩
        rw [sweep_of_notMem cells _ hi, visit_self]
      · have hmem : j ∈ cells := (List.mem_cons.mp hj).resolve_left hji
        obtain ⟨mix, hown, hmix, hfinal⟩ := ih hcells (visit rule s i) hmem
        refine ⟨mix, by rw [hown, visit_of_ne s hji], fun k => ?_, hfinal⟩
        by_cases hki : k = i
        · -- Cell `i` comes first, so from here on it holds its final content.
          subst hki
          have hsame : sweep rule cells (visit rule s k) k = visit rule s k k :=
            sweep_of_notMem cells (visit rule s k) hi
          rcases hmix k with hk | hk
          · exact Or.inr (by rw [hk, hsame])
          · exact Or.inr hk
        · rcases hmix k with hk | hk
          · exact Or.inl (by rw [hk, visit_of_ne s hki])
          · exact Or.inr hk

/-- Rules that ask for nothing new are a fixed point of the sweep. -/
theorem sweep_eq_self {cells : List ι} {s : ι → σ}
    (h : ∀ i ∈ cells, rule i s = s i) : sweep rule cells s = s := by
  induction cells with
  | nil => rfl
  | cons i cells ih =>
      rw [sweep_cons, visit_eq_self (h i (by simp))]
      exact ih fun k hk => h k (by simp [hk])

/-- A sweep over different cells is a fixed point exactly when no rule asks
for a change. -/
theorem sweep_eq_self_iff {cells : List ι} (hnodup : cells.Nodup) {s : ι → σ} :
    sweep rule cells s = s ↔ ∀ i ∈ cells, rule i s = s i := by
  constructor
  · intro hfix i hi
    obtain ⟨mix, -, hmix, hfinal⟩ : ∃ mix : ι → σ, mix i = s i ∧
        (∀ k, mix k = s k ∨ mix k = sweep rule cells s k) ∧
        sweep rule cells s i = rule i mix := sweep_apply hnodup s hi
    have hold : mix = s := by
      funext k
      rcases hmix k with hk | hk
      · exact hk
      · rw [hk, hfix]
    rw [← hold, ← hfinal, hfix, hold]
  · exact sweep_eq_self

/-- The contents after `n` sweeps. -/
def iterateSweep (rule : ι → (ι → σ) → σ) (cells : List ι) (s : ι → σ) : Nat → ι → σ
  | 0 => s
  | n + 1 => sweep rule cells (iterateSweep rule cells s n)

/-- The mixture lemma for the sweep number `n + 1` of a repetition. -/
theorem iterate_sweep_apply {cells : List ι} (hnodup : cells.Nodup) (s : ι → σ)
    (n : Nat) {j : ι} (hj : j ∈ cells) :
    ∃ mix : ι → σ, mix j = iterateSweep rule cells s n j ∧
      (∀ k, mix k = iterateSweep rule cells s n k ∨
        mix k = iterateSweep rule cells s (n + 1) k) ∧
      iterateSweep rule cells s (n + 1) j = rule j mix :=
  sweep_apply hnodup (iterateSweep rule cells s n) hj

end PipelineOperator.Lib
