import Mathlib.Data.List.Sort

/-!
# Sorting by a key

A comparison sort arranges a list so that no entry compares below one before
it.  Entries that compare equal may come in any order, so the arrangement is
unique only where the key tells the entries apart; then it does not depend on
the order in which they are listed.

## Main results

* `Sorts.eq_of_perm`: permutations of a list are sorted into the same one.
* `sublist_of_arranged`: a list that is arranged by its positions in another one
  follows the order of that one.
* `insertionSort_sorts`: insertion sort is a sort.
-/

namespace PipelineOperator.Lib

variable {α β : Type}

/-- A strict weak ordering: what a sort asks of its comparison. -/
structure StrictWeak (less : α → α → Bool) : Prop where
  irrefl : ∀ a, less a a = false
  trans : ∀ a b c, less a b = true → less b c = true → less a c = true
  incomparable : ∀ a b c, less a b = false → less b a = false → less b c = false →
    less c b = false → less a c = false

/-- A sort: it permutes the list, and no entry of the result compares below one
before it.  Nothing is said about entries that compare equal. -/
def Sorts (sort : (α → α → Bool) → List α → List α) : Prop :=
  ∀ less, StrictWeak less → ∀ l, (sort less l).Perm l ∧
    (sort less l).Pairwise fun a b => less b a = false

/-- The comparison by a key. -/
def byKey (key : α → Nat) (a b : α) : Bool := key a < key b

theorem byKey_eq_false {key : α → Nat} {a b : α} : byKey key a b = false ↔ key b ≤ key a := by
  simp [byKey]

theorem strictWeak_byKey (key : α → Nat) : StrictWeak (byKey key) where
  irrefl a := byKey_eq_false.mpr (Nat.le_refl _)
  trans a b c hab hbc := by
    simp only [byKey, decide_eq_true_eq] at *
    omega
  incomparable a b c hab hba hbc hcb := by
    rw [byKey_eq_false] at *
    omega

/-- What compares neither below nor above passes the order on. -/
theorem StrictWeak.not_less_trans {less : α → α → Bool} (hweak : StrictWeak less) {a b c : α}
    (hba : less b a = false) (hcb : less c b = false) : less c a = false := by
  cases hab : less a b with
  | true =>
      cases hca : less c a with
      | false => rfl
      | true =>
          rw [hweak.trans c a b hca hab] at hcb
          cases hcb
  | false =>
      cases hbc : less b c with
      | true =>
          cases hca : less c a with
          | false => rfl
          | true =>
              rw [hweak.trans b c a hbc hca] at hba
              cases hba
      | false => exact hweak.incomparable c b a hcb hbc hba hab

/-- The result of a sort by a key, arranged by that key. -/
theorem Sorts.byKey {sort : (α → α → Bool) → List α → List α} (hsorts : Sorts sort)
    (key : α → Nat) (l : List α) :
    (sort (byKey key) l).Perm l ∧ (sort (byKey key) l).Pairwise fun a b => key a ≤ key b := by
  obtain ⟨hperm, hpairwise⟩ := hsorts (Lib.byKey key) (strictWeak_byKey key) l
  exact ⟨hperm, hpairwise.imp byKey_eq_false.mp⟩

/-- Where the key tells the entries apart, the order in which they are listed
does not matter. -/
theorem Sorts.eq_of_perm {sort : (α → α → Bool) → List α → List α} (hsorts : Sorts sort)
    {key : α → Nat} {l l' : List α} (hperm : l'.Perm l)
    (hinj : ∀ a ∈ l, ∀ b ∈ l, key a = key b → a = b) :
    sort (Lib.byKey key) l' = sort (Lib.byKey key) l := by
  obtain ⟨hperml, harranged⟩ := hsorts.byKey key l
  obtain ⟨hperml', harranged'⟩ := hsorts.byKey key l'
  refine List.Perm.eq_of_pairwise ?_ harranged' harranged ((hperml'.trans hperm).trans hperml.symm)
  intro a b ha hb hab hba
  exact hinj a (hperm.mem_iff.mp (hperml'.mem_iff.mp ha)) b (hperml.mem_iff.mp hb)
    (Nat.le_antisymm hab hba)

/-- A list that is arranged by its positions in another one follows the order
of that one. -/
theorem sublist_of_arranged {index : β → Nat} {names l : List β}
    (hnames : names.Pairwise fun a b => index a < index b)
    (hl : l.Pairwise fun a b => index a ≤ index b) (hnodup : l.Nodup)
    (hsub : ∀ b ∈ l, b ∈ names) : l.Sublist names := by
  classical
  have hindexes : (names.map index).Nodup := List.pairwise_map.mpr (hnames.imp Nat.ne_of_lt)
  have hnamesNodup : names.Nodup := hindexes.of_map index
  have hkept : l = names.filter fun b => b ∈ l := by
    refine List.Perm.eq_of_pairwise ?_ hl ((hnames.imp Nat.le_of_lt).filter _)
      ((List.perm_ext_iff_of_nodup hnodup (hnamesNodup.filter _)).mpr ?_)
    · intro a b ha hb hab hba
      exact List.inj_on_of_nodup_map hindexes (hsub a ha) (List.mem_filter.mp hb).1
        (Nat.le_antisymm hab hba)
    · intro b
      simpa using hsub b
  rw [hkept]
  exact List.filter_sublist

theorem insertionSort_sorts :
    Sorts fun less (l : List α) => l.insertionSort fun a b => less b a = false := by
  intro less hweak l
  have htotal : Std.Total fun a b : α => less b a = false := by
    refine ⟨fun a b => ?_⟩
    by_contra hneither
    rw [not_or, Bool.not_eq_false, Bool.not_eq_false] at hneither
    have hself := hweak.trans b a b hneither.1 hneither.2
    rw [hweak.irrefl] at hself
    cases hself
  have htrans : IsTrans α fun a b => less b a = false :=
    ⟨fun a b c hba hcb => hweak.not_less_trans hba hcb⟩
  exact ⟨List.perm_insertionSort _ l, List.pairwise_insertionSort _ l⟩

end PipelineOperator.Lib
