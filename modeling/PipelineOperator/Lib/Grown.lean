import Mathlib.Data.List.Basic

/-!
# Lists that only grow

A store that nobody deletes from keeps its objects where they are.  Each of
them may change by a relation, and new ones come behind.

## Main results

* `Grown.trans`: growing twice is growing once, if the relation is transitive.
* `Grown.map`, `Grown.append`: the two ways to grow.
-/

namespace PipelineOperator.Lib

variable {α : Type} {R : α → α → Prop} {before middle after : List α}

/-- Every entry is still in its place, up to the relation. -/
def Grown (R : α → α → Prop) (before after : List α) : Prop :=
  ∀ (i : Nat) (a : α), before[i]? = some a → ∃ b, after[i]? = some b ∧ R a b

theorem Grown.refl (hR : ∀ a ∈ before, R a a) : Grown R before before := by
  intro i a ha
  exact ⟨a, ha, hR a (List.mem_of_getElem? ha)⟩

theorem Grown.trans (hR : ∀ a b c, R a b → R b c → R a c) (hfirst : Grown R before middle)
    (hsecond : Grown R middle after) : Grown R before after := by
  intro i a ha
  obtain ⟨b, hb, hab⟩ := hfirst i a ha
  obtain ⟨c, hc, hbc⟩ := hsecond i b hb
  exact ⟨c, hc, hR a b c hab hbc⟩

/-- Every entry changes by the relation. -/
theorem Grown.map {f : α → α} (hf : ∀ a ∈ before, R a (f a)) : Grown R before (before.map f) := by
  intro i a ha
  have hi : (before.map f)[i]? = some (f a) := by rw [List.getElem?_map, ha, Option.map_some]
  exact ⟨f a, hi, hf a (List.mem_of_getElem? ha)⟩

/-- New entries come behind. -/
theorem Grown.append (hR : ∀ a ∈ before, R a a) (made : List α) :
    Grown R before (before ++ made) := by
  intro i a ha
  have hi : i < before.length := by
    by_contra hi
    rw [List.getElem?_eq_none (by omega)] at ha
    cases ha
  have hkept : (before ++ made)[i]? = some a := by rw [List.getElem?_append_left hi, ha]
  exact ⟨a, hkept, hR a (List.mem_of_getElem? ha)⟩

end PipelineOperator.Lib
