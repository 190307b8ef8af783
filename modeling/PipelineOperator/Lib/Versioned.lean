/-!
# Objects under optimistic concurrency

A stored object carries a version.  A write that changes the object raises
the version; a write of the value already there is no change and keeps it.
A reader holds the object together with the version it saw, and its own
write is accepted only while the stored version is still that one.

## Main results

* `Snapshot.write`: what was read stays an older or equal copy of the store.
* `Snapshot.eq_of_version`: an accepted writer has read the stored object.
* `version_lt_write`: a write that changes the object raises its version, so
  that every copy is stale.
-/

namespace PipelineOperator.Lib

/-- A value with the version the store gave it. -/
structure Versioned (α : Type) where
  version : Nat
  val : α
  deriving Repr, DecidableEq

namespace Versioned

variable {α : Type}

/-- Change something of the object that the value does not show. -/
def bump (x : Versioned α) : Versioned α := ⟨x.version + 1, x.val⟩

variable [DecidableEq α]

/-- Store a value; the version is raised when the value changes. -/
def write (x : Versioned α) (v : α) : Versioned α :=
  if v = x.val then x else ⟨x.version + 1, v⟩

@[simp] theorem write_val (x : Versioned α) (v : α) : (x.write v).val = v := by
  unfold write
  split
  · next h => exact h.symm
  · rfl

theorem version_lt_write {x : Versioned α} {v : α} (h : v ≠ x.val) :
    x.version < (x.write v).version := by
  rw [write, if_neg h]
  exact Nat.lt_succ_self _

omit [DecidableEq α] in
/-- A copy read at some time before: it is the stored object as long as the
version has not moved. -/
def Snapshot (s x : Versioned α) : Prop :=
  s.version ≤ x.version ∧ (s.version = x.version → s = x)

omit [DecidableEq α] in
theorem Snapshot.refl (x : Versioned α) : Snapshot x x :=
  ⟨Nat.le_refl _, fun _ => rfl⟩

omit [DecidableEq α] in
theorem Snapshot.eq_of_version {s x : Versioned α} (h : Snapshot s x)
    (hv : s.version = x.version) : s = x := h.2 hv

/-- Copies stay copies when the object is written. -/
theorem Snapshot.write {s x : Versioned α} (h : Snapshot s x) (v : α) :
    Snapshot s (x.write v) := by
  by_cases hv : v = x.val
  · rw [Versioned.write, if_pos hv]
    exact h
  · have hlt := version_lt_write hv
    refine ⟨Nat.le_trans h.1 (Nat.le_of_lt hlt), fun heq => ?_⟩
    have hle := h.1
    omega

omit [DecidableEq α] in
theorem Snapshot.bump {s x : Versioned α} (h : Snapshot s x) : Snapshot s x.bump := by
  have hle := h.1
  refine ⟨Nat.le_succ_of_le hle, fun heq => ?_⟩
  have hversion : s.version = x.version + 1 := heq
  omega

end Versioned

end PipelineOperator.Lib
