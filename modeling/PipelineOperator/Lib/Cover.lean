import Mathlib.Data.List.Dedup
import Mathlib.Data.List.Perm.Subperm

/-!
# Counting labels against names

A list of names is covered by a list of labels when every name is a label.
Comparing the two lengths decides this only by chance: a name may be repeated,
a label may be no name, or may come twice.  This file says when it decides it.

## Main results

* `length_eq_iff`: the lengths agree when the surplus of labels makes up for the
  repeated names and those without a label.
* `decides_iff`: when that is the same as being covered.
-/

namespace PipelineOperator.Lib

variable {α : Type} [DecidableEq α]

/-- How many different names have a label. -/
def covered (names labels : List α) : Nat :=
  (names.dedup.filter fun name => name ∈ labels).length

/-- How many different names have none. -/
def uncovered (names labels : List α) : Nat :=
  (names.dedup.filter fun name => ¬ name ∈ labels).length

/-- How many entries repeat a name. -/
def repeats (names : List α) : Nat := names.length - names.dedup.length

/-- How many labels are left when each name has taken one: those that are no
name, and those that come again. -/
def surplus (names labels : List α) : Nat := labels.length - covered names labels

theorem covered_add_uncovered (names labels : List α) :
    covered names labels + uncovered names labels = names.dedup.length := by
  rw [covered, uncovered, ← List.countP_eq_length_filter, ← List.countP_eq_length_filter,
    List.length_eq_countP_add_countP fun name => decide (name ∈ labels)]
  simp

theorem covered_le_length (names labels : List α) : covered names labels ≤ labels.length := by
  have hnodup : (names.dedup.filter fun name => name ∈ labels).Nodup :=
    (List.nodup_dedup names).filter _
  refine (List.subperm_of_subset hnodup ?_).length_le
  intro name hname
  exact of_decide_eq_true (List.mem_filter.mp hname).2

theorem length_dedup_le (names : List α) : names.dedup.length ≤ names.length :=
  (List.dedup_sublist names).length_le

/-- The names are covered exactly if none is without a label. -/
theorem subset_iff (names labels : List α) :
    (∀ name ∈ names, name ∈ labels) ↔ uncovered names labels = 0 := by
  rw [uncovered, List.length_eq_zero_iff, List.filter_eq_nil_iff]
  simp

/-- The lengths agree when the surplus makes up for what is missing. -/
theorem length_eq_iff (names labels : List α) :
    labels.length = names.length ↔
      surplus names labels = repeats names + uncovered names labels := by
  have hnames := covered_add_uncovered names labels
  have hcovered := covered_le_length names labels
  have hdedup := length_dedup_le names
  unfold surplus repeats
  omega

/-- Comparing the lengths decides whether the names are covered exactly when
the surplus is the repetitions, or some name is without a label and the surplus
does not happen to make up for it. -/
theorem decides_iff (names labels : List α) :
    (labels.length = names.length ↔ ∀ name ∈ names, name ∈ labels) ↔
      surplus names labels = repeats names ∨
        (0 < uncovered names labels ∧
          surplus names labels ≠ repeats names + uncovered names labels) := by
  rw [length_eq_iff, subset_iff]
  omega

/-- Different names and different labels that are names leave nothing over. -/
theorem surplus_eq_repeats {names labels : List α} (hnames : names.Nodup)
    (hlabels : labels.Nodup) (hsub : ∀ label ∈ labels, label ∈ names) :
    surplus names labels = repeats names := by
  have hlength : covered names labels = labels.length := by
    have hperm : (names.dedup.filter fun name => name ∈ labels).Perm labels := by
      refine (List.perm_ext_iff_of_nodup ((List.nodup_dedup names).filter _) hlabels).mpr ?_
      intro label
      simpa using hsub label
    exact hperm.length_eq
  rw [surplus, repeats, hlength, hnames.dedup, Nat.sub_self, Nat.sub_self]

end PipelineOperator.Lib
