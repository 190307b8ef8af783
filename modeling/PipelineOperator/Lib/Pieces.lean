import Mathlib.Data.List.Infix
import Mathlib.Order.Monotone.Basic
import PipelineOperator.Lib.Eventually
import PipelineOperator.Lib.Simulation

/-!
# Endless runs in pieces

A machine that follows each step of another one follows an endless run of it,
too: the runs that answer the single steps are pieces of an endless run, as long
as none of them is empty.

## Main results

* `exists_sequence`: choosing one state after another.
* `exists_trace`: pieces that follow each other make up an endless run, which
  passes the ends of the pieces and takes all of their actions.
-/

namespace PipelineOperator.Lib

/-- One state after another, each fit to go on from. -/
def chosen {σ : Type} {P : Nat → σ → Prop} (start : { x // P 0 x })
    (next : (i : Nat) → { x // P i x } → { x // P (i + 1) x }) : (i : Nat) → { x // P i x }
  | 0 => start
  | i + 1 => next i (chosen start next i)

theorem exists_sequence {σ : Type} {P : Nat → σ → Prop} {Q : Nat → σ → σ → Prop}
    (hfirst : ∃ x, P 0 x) (hnext : ∀ i x, P i x → ∃ y, P (i + 1) y ∧ Q i x y) :
    ∃ x : Nat → σ, ∀ i, P i (x i) ∧ Q i (x i) (x (i + 1)) := by
  choose next hnext hfit using hnext
  obtain ⟨start, hstart⟩ := hfirst
  refine ⟨fun i => (chosen ⟨start, hstart⟩
    (fun i x => ⟨next i x.val x.property, hnext i x.val x.property⟩) i).val, fun i => ?_⟩
  exact ⟨Subtype.property _, hfit i _ _⟩

namespace Machine

variable {σ α : Type} {M : Machine σ α}

/-! ## Runs that are executed -/

theorem exec_append {ok : σ → α → Prop} [∀ s a, Decidable (ok s a)] (s : σ) (as bs : List α) :
    M.exec ok s (as ++ bs) = (M.exec ok s as).bind fun t => M.exec ok t bs := by
  induction as generalizing s with
  | nil => rfl
  | cons a as ih =>
      rw [List.cons_append, exec, exec]
      split
      · cases M.step s a with
        | none => rfl
        | some t => exact ih t
      · rfl

/-- Any run is the execution of its actions. -/
theorem Steps.exists_exec {x y : σ} (h : Steps M (fun _ _ => True) x y) :
    ∃ as, M.exec (fun _ _ => True) x as = some y := by
  induction h with
  | refl => exact ⟨[], rfl⟩
  | @step y z b _ _ hstep ih =>
      obtain ⟨as, has⟩ := ih
      refine ⟨as ++ [b], ?_⟩
      rw [exec_append, has, Option.bind_some, exec, if_pos trivial, hstep]
      rfl

/-! ## Pieces -/

section Pieces

variable {x : Nat → σ} {piece : Nat → List α} {i j n : Nat}

/-- The first pieces in a row. -/
def joined (piece : Nat → List α) : Nat → List α
  | 0 => []
  | n + 1 => joined piece n ++ piece n

theorem joined_prefix (piece : Nat → List α) (hle : i ≤ j) : joined piece i <+: joined piece j := by
  induction j, hle using Nat.le_induction with
  | base => exact List.prefix_rfl
  | succ j _ ih => exact ih.trans (List.prefix_append (joined piece j) (piece j))

theorem take_joined (hle : i ≤ j) (hn : n ≤ (joined piece i).length) :
    (joined piece j).take n = (joined piece i).take n := by
  obtain ⟨rest, hrest⟩ := joined_prefix piece hle
  rw [← hrest, List.take_append_of_le_length hn]

theorem getElem?_joined (hle : i ≤ j) (hn : n < (joined piece i).length) :
    (joined piece j)[n]? = (joined piece i)[n]? := by
  obtain ⟨rest, hrest⟩ := joined_prefix piece hle
  rw [← hrest, List.getElem?_append_left hn]

theorem le_length_joined (hne : ∀ i, piece i ≠ []) (n : Nat) : n ≤ (joined piece n).length := by
  induction n with
  | zero => exact Nat.zero_le _
  | succ n ih =>
      have hpos := List.length_pos_of_ne_nil (hne n)
      rw [joined, List.length_append]
      omega

theorem exec_joined (hpiece : ∀ i, M.exec (fun _ _ => True) (x i) (piece i) = some (x (i + 1)))
    (n : Nat) : M.exec (fun _ _ => True) (x 0) (joined piece n) = some (x n) := by
  induction n with
  | zero => rfl
  | succ n ih => rw [joined, exec_append, ih, Option.bind_some, hpiece]

/-- Every piece has its moments in the endless run: it starts at `k i`. -/
theorem exists_trace (hinit : M.init (x 0))
    (hpiece : ∀ i, M.exec (fun _ _ => True) (x i) (piece i) = some (x (i + 1)))
    (hne : ∀ i, piece i ≠ []) :
    ∃ (s : Nat → σ) (a : Nat → α) (k : Nat → Nat), M.Trace s a ∧
      (∀ i, i ≤ k i ∧ s (k i) = x i) ∧ ∀ i, ∀ b ∈ piece i, ∃ n, k i ≤ n ∧ a n = b := by
  have hlong := le_length_joined hne
  have haction : ∀ n, ∃ b, (joined piece (n + 1))[n]? = some b := fun n =>
    ⟨_, List.getElem?_eq_getElem (hlong (n + 1))⟩
  have hstate : ∀ n, ∃ t,
      M.exec (fun _ _ => True) (x 0) ((joined piece n).take n) = some t := by
    intro n
    have hwhole := exec_joined hpiece n
    rw [← List.take_append_drop n (joined piece n), exec_append] at hwhole
    obtain ⟨t, ht, -⟩ := Option.bind_eq_some_iff.mp hwhole
    exact ⟨t, ht⟩
  choose a ha using haction
  choose s hs using hstate
  refine ⟨s, a, fun i => (joined piece i).length, ⟨?_, fun n => ?_⟩, fun i => ⟨hlong i, ?_⟩, ?_⟩
  · have hzero : s 0 = x 0 := Option.some.inj (hs 0).symm
    rw [hzero]
    exact hinit
  · -- One action more has been taken.
    have hnext := hs (n + 1)
    rw [List.take_add_one, ha, take_joined (Nat.le_succ n) (hlong n), exec_append, hs,
      Option.bind_some, Option.toList_some, exec, if_pos trivial] at hnext
    obtain ⟨t, hstep, ht⟩ := Option.bind_eq_some_iff.mp hnext
    cases ht
    exact hstep
  · have hhere := hs (joined piece i).length
    rw [take_joined (hlong i) (Nat.le_refl _), List.take_length, exec_joined hpiece] at hhere
    exact (Option.some.inj hhere).symm
  · intro i b hb
    obtain ⟨j, hj, rfl⟩ := List.mem_iff_getElem.mp hb
    have hlength : (joined piece (i + 1)).length = (joined piece i).length + (piece i).length :=
      List.length_append
    refine ⟨(joined piece i).length + j, Nat.le_add_right _ j, ?_⟩
    have hle : i + 1 ≤ (joined piece i).length + j + 1 := by
      have hi := hlong i
      omega
    have hget := ha ((joined piece i).length + j)
    rw [getElem?_joined hle (by omega), joined, List.getElem?_append_right (Nat.le_add_right _ j),
      Nat.add_sub_cancel_left, List.getElem?_eq_getElem hj] at hget
    exact (Option.some.inj hget).symm

end Pieces

end Machine

end PipelineOperator.Lib
