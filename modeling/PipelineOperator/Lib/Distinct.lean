import Mathlib.Data.List.Basic

/-!
# First occurrences

A loop that keeps what it has met in a set, and lets each element through the
first time only.  The set may be any one whose operations are those of a set;
which one it is cannot be seen from what comes through.

## Main results

* `SetOps.mem_distinct`: what comes through is what was not in the set before.
* `SetOps.nodup_distinct`: it comes through once.
* `SetOps.distinct_congr`: two sets with the same elements let the same list
  through.
-/

namespace PipelineOperator.Lib

variable {σ τ α : Type}

/-- The operations of a set of which the loop makes use. -/
structure SetOps (σ α : Type) where
  empty : σ
  contains : σ → α → Bool
  add : σ → α → σ

namespace SetOps

/-- They are those of a set: the new one has no element, and adding one adds
nothing else. -/
structure Lawful (set : SetOps σ α) : Prop where
  contains_empty : ∀ a, set.contains set.empty a = false
  contains_add : ∀ s a b, set.contains (set.add s a) b = true ↔ b = a ∨ set.contains s b = true

/-- A list as a set. -/
def list (α : Type) [DecidableEq α] : SetOps (List α) α where
  empty := []
  contains s a := a ∈ s
  add s a := a :: s

theorem list_lawful [DecidableEq α] : (list α).Lawful where
  contains_empty a := by simp [list]
  contains_add s a b := by simp [list]

/-- The loop: an element that the set has is dropped, another one is kept and
added. -/
def distinct (set : SetOps σ α) (seen : σ) : List α → List α
  | [] => []
  | a :: l =>
      if ¬ set.contains seen a then a :: set.distinct (set.add seen a) l
      else set.distinct seen l

variable {set : SetOps σ α}

theorem distinct_cons_of_contains {seen : σ} {a : α} (hseen : set.contains seen a = true)
    (l : List α) : set.distinct seen (a :: l) = set.distinct seen l := by
  rw [distinct, if_neg (not_not.mpr hseen)]

theorem distinct_cons_of_not_contains {seen : σ} {a : α} (hseen : set.contains seen a = false)
    (l : List α) : set.distinct seen (a :: l) = a :: set.distinct (set.add seen a) l := by
  rw [distinct, if_pos (by simp [hseen])]

/-- An element comes through if it is met and not in the set before. -/
theorem mem_distinct (hset : set.Lawful) {seen : σ} {l : List α} {b : α} :
    b ∈ set.distinct seen l ↔ b ∈ l ∧ set.contains seen b = false := by
  induction l generalizing seen with
  | nil => simp [distinct]
  | cons a l ih =>
      cases hseen : set.contains seen a with
      | true =>
          rw [distinct_cons_of_contains hseen, ih, List.mem_cons]
          constructor
          · rintro ⟨hmem, hnot⟩
            exact ⟨Or.inr hmem, hnot⟩
          · rintro ⟨rfl | hmem, hnot⟩
            · rw [hseen] at hnot
              cases hnot
            · exact ⟨hmem, hnot⟩
      | false =>
          have hadd : set.contains (set.add seen a) b = false ↔
              b ≠ a ∧ set.contains seen b = false := by
            rw [← Bool.not_eq_true, hset.contains_add, not_or, Bool.not_eq_true]
          rw [distinct_cons_of_not_contains hseen, List.mem_cons, ih, hadd, List.mem_cons]
          constructor
          · rintro (rfl | ⟨hmem, -, hnot⟩)
            · exact ⟨Or.inl rfl, hseen⟩
            · exact ⟨Or.inr hmem, hnot⟩
          · rintro ⟨hmem, hnot⟩
            by_cases hb : b = a
            · exact Or.inl hb
            · exact Or.inr ⟨hmem.resolve_left hb, hb, hnot⟩

/-- No element comes through twice. -/
theorem nodup_distinct (hset : set.Lawful) (seen : σ) (l : List α) :
    (set.distinct seen l).Nodup := by
  induction l generalizing seen with
  | nil => exact List.nodup_nil
  | cons a l ih =>
      cases hseen : set.contains seen a with
      | true =>
          rw [distinct_cons_of_contains hseen]
          exact ih seen
      | false =>
          rw [distinct_cons_of_not_contains hseen]
          refine List.nodup_cons.mpr ⟨?_, ih _⟩
          intro hmem
          have hnot := (mem_distinct hset).mp hmem
          rw [(hset.contains_add seen a a).mpr (Or.inl rfl)] at hnot
          cases hnot.2

/-- Nothing but the elements of the set decides what comes through. -/
theorem distinct_congr {other : SetOps τ α} (hset : set.Lawful) (hother : other.Lawful)
    {seen : σ} {seen' : τ} (hsame : ∀ a, set.contains seen a = other.contains seen' a)
    (l : List α) : set.distinct seen l = other.distinct seen' l := by
  induction l generalizing seen seen' with
  | nil => rfl
  | cons a l ih =>
      cases hseen : set.contains seen a with
      | true =>
          have hseen' : other.contains seen' a = true := by rw [← hsame a, hseen]
          rw [distinct_cons_of_contains hseen, distinct_cons_of_contains hseen']
          exact ih hsame
      | false =>
          have hseen' : other.contains seen' a = false := by rw [← hsame a, hseen]
          rw [distinct_cons_of_not_contains hseen, distinct_cons_of_not_contains hseen']
          congr 1
          apply ih
          intro b
          rw [Bool.eq_iff_iff, hset.contains_add, hother.contains_add, hsame b]

/-- From the empty set on, any set lets the same list through. -/
theorem distinct_empty_congr {other : SetOps τ α} (hset : set.Lawful) (hother : other.Lawful)
    (l : List α) : set.distinct set.empty l = other.distinct other.empty l := by
  refine distinct_congr hset hother ?_ l
  intro a
  rw [hset.contains_empty, hother.contains_empty]

end SetOps

end PipelineOperator.Lib
