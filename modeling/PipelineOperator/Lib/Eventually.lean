import Mathlib.Order.Filter.AtTopBot.Basic
import Mathlib.Order.Filter.Finite
import Mathlib.Order.OrderIsoNat
import PipelineOperator.Lib.Machine
import PipelineOperator.Lib.Rank

/-!
# What happens in the end

An endless run of a machine.  Something happens again and again if it does at
infinitely many of its moments, and holds in the end if it does from some
moment on; both are said with the filter of the natural numbers.

## Main results

* `Trace.invariant`: an invariant holds at every moment.
* `eventually_of_latch`: what is reached again and again and kept holds in the
  end.
* `eventually_still`: what grows within a bound stands still in the end.
* `eventually_of_acyclic`: what every node of an acyclic graph comes to, once
  its successors have, all of them come to.
-/

namespace PipelineOperator.Lib

open Filter

/-! ## Endless runs -/

namespace Machine

variable {σ α : Type} {M : Machine σ α} {s : Nat → σ} {a : Nat → α}

/-- The states and the actions of an endless run. -/
structure Trace (M : Machine σ α) (s : Nat → σ) (a : Nat → α) : Prop where
  init : M.init (s 0)
  step : ∀ i, M.step (s i) (a i) = some (s (i + 1))

theorem Trace.invariant {I : σ → Prop} (htrace : M.Trace s a) (hinit : ∀ s, M.init s → I s)
    (hstep : ∀ s a t, I s → M.step s a = some t → I t) (i : Nat) : I (s i) := by
  induction i with
  | zero => exact hinit _ htrace.init
  | succ i ih => exact hstep _ _ _ ih (htrace.step i)

end Machine

/-! ## Moments -/

variable {P : Nat → Prop}

/-- What is kept from a moment on holds at every later one. -/
theorem kept_from {i : Nat} (hi : P i) (hkeep : ∀ j, i ≤ j → P j → P (j + 1)) :
    ∀ j, i ≤ j → P j := by
  intro j hij
  induction j, hij using Nat.le_induction with
  | base => exact hi
  | succ j hij ih => exact hkeep j hij ih

/-- What is reached again and again, and kept in the end, holds in the end. -/
theorem eventually_of_latch (hreach : ∃ᶠ i in atTop, P (i + 1))
    (hkeep : ∀ᶠ i in atTop, P i → P (i + 1)) : ∀ᶠ i in atTop, P i := by
  obtain ⟨n, hn⟩ := eventually_atTop.mp hkeep
  obtain ⟨i, hi, hreached⟩ := frequently_atTop.mp hreach n
  refine eventually_atTop.mpr ⟨i + 1, kept_from hreached fun j hj => hn j ?_⟩
  show n ≤ j
  have hle : n ≤ i := hi
  omega

/-- So does what is reached once, and always kept. -/
theorem eventually_of_kept {i : Nat} (hi : P i) (hkeep : ∀ j, P j → P (j + 1)) :
    ∀ᶠ j in atTop, P j :=
  eventually_atTop.mpr ⟨i, kept_from hi fun j _ => hkeep j⟩

/-- A number that grows within a bound stands still in the end. -/
theorem eventually_still {f : Nat → Nat} {bound : Nat} (hgrows : ∀ i, f i ≤ f (i + 1))
    (hbound : ∀ i, f i ≤ bound) : ∀ᶠ i in atTop, f (i + 1) = f i := by
  have hfalls : Antitone fun i => bound - f i := antitone_nat_of_succ_le fun i =>
    Nat.sub_le_sub_left (hgrows i) bound
  obtain ⟨n, hn⟩ := WellFoundedLT.antitone_chain_condition hfalls
  refine eventually_atTop.mpr ⟨n, fun i hi => ?_⟩
  have hhere : bound - f n = bound - f i := hn i hi
  have hnext : bound - f n = bound - f (i + 1) := hn (i + 1) (Nat.le_succ_of_le hi)
  have hle := hbound i
  have hle' := hbound (i + 1)
  omega

/-! ## Graphs -/

variable {ι : Type} {nodes : Finset ι} {edge : ι → ι → Prop} {R : ι → Nat → Prop}

/-- The induction is on the rank, which every edge lowers. -/
theorem eventually_of_acyclic (hacyclic : Acyclic edge)
    (hnode : ∀ n ∈ nodes, (∀ b ∈ nodes, edge n b → ∀ᶠ i in atTop, R b i) →
      ∀ᶠ i in atTop, R n i) : ∀ᶠ i in atTop, ∀ n ∈ nodes, R n i := by
  have hall : ∀ d, ∀ n ∈ nodes, rank nodes edge n = d → ∀ᶠ i in atTop, R n i := by
    intro d
    induction d using Nat.strong_induction_on with
    | _ d ih =>
        intro n hn hrank
        apply hnode n hn
        intro b hb hedge
        have hlt : rank nodes edge b < d := hrank ▸ rank_lt_of_edge hacyclic hb hedge
        exact ih _ hlt b hb rfl
  exact (eventually_all_finset nodes).mpr fun n hn => hall _ n hn rfl

end PipelineOperator.Lib
