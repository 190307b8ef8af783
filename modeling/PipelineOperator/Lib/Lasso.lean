import Mathlib.Data.List.GetD
import PipelineOperator.Lib.Pieces

/-!
# Lassos

An endless run that can be written down: the actions of a stem, and then those of
a loop over and over.  It is a run of a machine if the stem can be executed, and
the loop can be executed from where the stem ends and from wherever it ends
itself.

## Main results

* `Lasso.trace`: the states that are reached one after another make up an endless
  run.
* `Lasso.again`: every action of the loop is taken again and again.
-/

namespace PipelineOperator.Lib

open Filter

/-- A stem and a loop, which is not empty. -/
structure Lasso (α : Type) where
  stem : List α
  first : α
  rest : List α

namespace Lasso

variable {α : Type} (l : Lasso α)

def loop : List α := l.first :: l.rest

/-- The action at a moment. -/
def action (i : Nat) : α :=
  l.stem.getD i (l.loop.getD ((i - l.stem.length) % l.loop.length) l.first)

theorem loop_pos : 0 < l.loop.length := Nat.succ_pos l.rest.length

theorem action_stem {i : Nat} (hi : i < l.stem.length) : l.stem[i]? = some (l.action i) := by
  rw [action, List.getD_eq_getElem _ _ hi, List.getElem?_eq_getElem hi]

theorem action_loop (k : Nat) {j : Nat} (hj : j < l.loop.length) :
    l.loop[j]? = some (l.action (l.stem.length + k * l.loop.length + j)) := by
  have hle : l.stem.length ≤ l.stem.length + k * l.loop.length + j := by omega
  have hplace : (l.stem.length + k * l.loop.length + j - l.stem.length) % l.loop.length = j := by
    rw [Nat.add_assoc, Nat.add_sub_cancel_left, Nat.add_comm, Nat.add_mul_mod_self_right,
      Nat.mod_eq_of_lt hj]
  rw [action, List.getD_eq_default _ _ hle, hplace, List.getD_eq_getElem _ _ hj,
    List.getElem?_eq_getElem hj]

/-- Behind the stem there are actions of the loop only. -/
theorem action_mem {i : Nat} (hi : l.stem.length ≤ i) : l.action i ∈ l.loop := by
  rw [action, List.getD_eq_default _ _ hi, List.getD_eq_getElem _ _ (Nat.mod_lt _ l.loop_pos)]
  exact List.getElem_mem _

theorem again {b : α} (hb : b ∈ l.loop) : ∃ᶠ i in atTop, l.action i = b := by
  rw [frequently_atTop]
  intro n
  obtain ⟨j, hj, rfl⟩ := List.mem_iff_getElem.mp hb
  have haction := l.action_loop n hj
  rw [List.getElem?_eq_getElem hj] at haction
  refine ⟨l.stem.length + n * l.loop.length + j, ?_, (Option.some.inj haction).symm⟩
  have hle : n ≤ n * l.loop.length := Nat.le_mul_of_pos_right n l.loop_pos
  show n ≤ l.stem.length + n * l.loop.length + j
  omega

end Lasso

namespace Machine

variable {σ α : Type} {M : Machine σ α} {start s t : σ} {a : Nat → α} {i : Nat}

/-- The states that the actions lead to, where one that is not possible is
skipped. -/
def follow (M : Machine σ α) (start : σ) (a : Nat → α) : Nat → σ
  | 0 => start
  | i + 1 => (M.step (follow M start a i) (a i)).getD (follow M start a i)

/-- Actions that can be executed are not skipped. -/
theorem follow_of_exec {as : List α} (has : ∀ j < as.length, as[j]? = some (a (i + j)))
    (hexec : M.exec (fun _ _ => True) (M.follow start a i) as = some t) :
    M.follow start a (i + as.length) = t ∧ ∀ j < as.length,
      M.step (M.follow start a (i + j)) (a (i + j)) = some (M.follow start a (i + j + 1)) := by
  induction as generalizing i with
  | nil => exact ⟨Option.some.inj hexec, fun j hj => absurd hj (Nat.not_lt_zero j)⟩
  | cons b as ih =>
      have hb : b = a i := Option.some.inj (has 0 (Nat.succ_pos _))
      rw [exec, if_pos trivial, hb] at hexec
      obtain ⟨u, hstep, hrest⟩ := Option.bind_eq_some_iff.mp hexec
      have hnext : M.follow start a (i + 1) = u := by rw [follow, hstep, Option.getD_some]
      have hplace : ∀ j, i + (j + 1) = i + 1 + j := fun j => by omega
      rw [← hnext] at hrest hstep
      obtain ⟨hend, hsteps⟩ := ih (fun j hj => by
        rw [← hplace, ← has (j + 1) (Nat.succ_lt_succ hj), List.getElem?_cons_succ]) hrest
      refine ⟨by rw [List.length_cons, hplace, hend], fun j hj => ?_⟩
      cases j with
      | zero => exact hstep
      | succ j =>
          rw [hplace]
          exact hsteps j (Nat.lt_of_succ_lt_succ hj)

end Machine

namespace Lasso

variable {σ α : Type} {M : Machine σ α} {start t : σ} {l : Lasso α} {J : σ → Prop}

/-- Where the stem ends. -/
theorem follow_stem (hstem : M.exec (fun _ _ => True) start l.stem = some t) :
    M.follow start l.action l.stem.length = t ∧ ∀ i < l.stem.length,
      M.step (M.follow start l.action i) (l.action i) =
        some (M.follow start l.action (i + 1)) := by
  have hfollow := Machine.follow_of_exec (i := 0) (a := l.action)
    (fun j hj => by rw [Nat.zero_add]; exact l.action_stem hj) hstem
  simp only [Nat.zero_add] at hfollow
  exact hfollow

/-- A round of the loop. -/
theorem follow_round (hloop : ∀ s, J s → ∃ s', M.exec (fun _ _ => True) s l.loop = some s' ∧ J s')
    {k : Nat} (hk : J (M.follow start l.action (l.stem.length + k * l.loop.length))) :
    J (M.follow start l.action (l.stem.length + (k + 1) * l.loop.length)) ∧
      ∀ j < l.loop.length,
        M.step (M.follow start l.action (l.stem.length + k * l.loop.length + j))
          (l.action (l.stem.length + k * l.loop.length + j)) =
        some (M.follow start l.action (l.stem.length + k * l.loop.length + j + 1)) := by
  obtain ⟨s', hexec, hs'⟩ := hloop _ hk
  obtain ⟨hend, hsteps⟩ := Machine.follow_of_exec (fun j hj => l.action_loop k hj) hexec
  rw [Nat.add_mul, Nat.one_mul, ← Nat.add_assoc, hend]
  exact ⟨hs', hsteps⟩

/-- The lasso is an endless run, if the loop leads from states with a property to
such states. -/
theorem trace (hinit : M.init start) (hstem : M.exec (fun _ _ => True) start l.stem = some t)
    (ht : J t)
    (hloop : ∀ s, J s → ∃ s', M.exec (fun _ _ => True) s l.loop = some s' ∧ J s') :
    M.Trace (M.follow start l.action) l.action where
  init := hinit
  step := by
    obtain ⟨hend, hsteps⟩ := follow_stem hstem
    have hrounds : ∀ k, J (M.follow start l.action (l.stem.length + k * l.loop.length)) := by
      intro k
      induction k with
      | zero =>
          rw [Nat.zero_mul, Nat.add_zero, hend]
          exact ht
      | succ k ih => exact (follow_round hloop ih).1
    intro i
    by_cases hi : i < l.stem.length
    · exact hsteps i hi
    · have hround := (follow_round hloop (hrounds ((i - l.stem.length) / l.loop.length))).2
        ((i - l.stem.length) % l.loop.length) (Nat.mod_lt _ l.loop_pos)
      have hplace : l.stem.length + (i - l.stem.length) / l.loop.length * l.loop.length +
          (i - l.stem.length) % l.loop.length = i := by
        rw [Nat.add_assoc, Nat.div_add_mod']
        omega
      rw [hplace] at hround
      exact hround

end Lasso

end PipelineOperator.Lib
