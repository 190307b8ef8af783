import Mathlib.Data.List.Chain

/-!
# Times that keep their distance

A list of times, the latest first, in which each lies at least a gap after the
one before it.  So many of them take up a time of so many gaps.

## Main results

* `Spaced.cons`: a later time joins the list if it waits for a gap.
* `Spaced.pairwise`: any two of the times are a gap apart.
* `Spaced.length_mul_le`: how much time the times take up.
-/

namespace PipelineOperator.Lib

variable {gap : Int} {times : List Int}

/-- Every time lies at least the gap after the one before it; the latest comes
first. -/
def Spaced (gap : Int) (times : List Int) : Prop :=
  times.IsChain fun later earlier => earlier + gap ≤ later

theorem Spaced.nil : Spaced gap [] := List.IsChain.nil

theorem Spaced.cons (h : Spaced gap times) {now : Int}
    (hnow : ∀ latest ∈ times.head?, latest + gap ≤ now) : Spaced gap (now :: times) :=
  List.IsChain.cons h hnow

/-- Not only neighbours keep the distance. -/
theorem Spaced.pairwise (h : Spaced gap times) (hgap : 0 ≤ gap) :
    times.Pairwise fun later earlier => earlier + gap ≤ later := by
  have htrans : ∀ a b c : Int, b + gap ≤ a → c + gap ≤ b → c + gap ≤ a := by
    intro a b c hab hbc
    omega
  let _ : IsTrans Int fun later earlier => earlier + gap ≤ later := ⟨htrans⟩
  exact List.isChain_iff_pairwise.mp h

/-- From the first time to the latest there are as many gaps as times between
them.  The induction is on the list, from its latest time on. -/
theorem Spaced.length_mul_le {latest first : Int} (h : Spaced gap (latest :: times))
    (hfirst : first ∈ (latest :: times).getLast?) :
    first + times.length * gap ≤ latest := by
  induction times generalizing latest with
  | nil =>
      simp only [List.getLast?_singleton, Option.mem_def, Option.some.injEq] at hfirst
      subst hfirst
      simp
  | cons time times ih =>
      obtain ⟨hstep, hrest⟩ := List.isChain_cons_cons.mp h
      have hbound := ih hrest (by rwa [List.getLast?_cons_cons] at hfirst)
      have hlength : (((time :: times).length : Nat) : Int) * gap = times.length * gap + gap := by
        rw [List.length_cons, Int.natCast_succ, Int.add_mul, Int.one_mul]
      omega

end PipelineOperator.Lib
