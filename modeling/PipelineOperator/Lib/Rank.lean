import Mathlib.Data.Finset.Card
import Mathlib.Logic.Relation

/-!
# Ranks in a finite acyclic graph

In a relation without cycles the nodes of a finite set have a rank: the
number of nodes of the set that can be reached from a node.  Every edge leads
to a smaller rank, and ranks stay below the size of the set.
-/

namespace PipelineOperator.Lib

/-- No node can be reached from itself by one or more edges. -/
def Acyclic {ι : Type} (edge : ι → ι → Prop) : Prop :=
  ∀ i, ¬ Relation.TransGen edge i i

open Classical in
/-- The number of nodes of a finite set reachable by one or more edges. -/
noncomputable def rank {ι : Type} (nodes : Finset ι) (edge : ι → ι → Prop) (i : ι) : Nat :=
  (nodes.filter fun j => Relation.TransGen edge i j).card

variable {ι : Type} {nodes : Finset ι} {edge : ι → ι → Prop}

/-- A measure that every edge lowers rules out cycles. -/
theorem acyclic_of_measure (measure : ι → Nat)
    (hlower : ∀ i j, edge i j → measure j < measure i) : Acyclic edge := by
  have hchain : ∀ {i j}, Relation.TransGen edge i j → measure j < measure i := by
    intro i j hij
    induction hij with
    | single hedge => exact hlower _ _ hedge
    | tail _ hedge ih => exact Nat.lt_trans (hlower _ _ hedge) ih
  intro i hcycle
  exact Nat.lt_irrefl _ (hchain hcycle)

/-- The end of an edge reaches less than its start: everything the end
reaches, but not the end itself. -/
theorem rank_lt_of_edge (hacyclic : Acyclic edge) {i j : ι} (hj : j ∈ nodes)
    (hedge : edge i j) : rank nodes edge j < rank nodes edge i := by
  apply Finset.card_lt_card
  rw [Finset.ssubset_iff_of_subset]
  · refine ⟨j, ?_, ?_⟩
    · simpa [hj] using Relation.TransGen.single hedge
    · simpa using fun _ => hacyclic j
  · intro k hk
    simp only [Finset.mem_filter] at hk ⊢
    exact ⟨hk.1, Relation.TransGen.head hedge hk.2⟩

/-- A node of the set does not reach itself, so its rank is below the size. -/
theorem rank_lt_card (hacyclic : Acyclic edge) {i : ι} (hi : i ∈ nodes) :
    rank nodes edge i < nodes.card := by
  classical
  apply Finset.card_lt_card
  rw [Finset.ssubset_iff_of_subset (Finset.filter_subset _ _)]
  exact ⟨i, hi, by simpa using fun _ => hacyclic i⟩

end PipelineOperator.Lib
