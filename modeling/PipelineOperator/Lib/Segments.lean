import Mathlib.Data.List.DropRight

/-!
# Segments between separators

A list is cut into segments by a separator.  Trimming takes one separator off an
end, if there is one.  What several trims leave, and whether there are empty
segments in it, depends on how many separators stand at the two ends and on what
stands between them; the trims only lower these numbers.

## Main results

* `solid_append_cons`: no segment of two joined lists is empty exactly if none
  of either is.
* `Padding.pad_of`, `Padding.pad_inj`: every list is padded with separators in
  one way.
* `trimHead_pad`, `trimLast_pad`, `solid_pad`: trims and empty segments of a
  padded list.
-/

namespace PipelineOperator.Lib

variable {α : Type} [DecidableEq α] {sep : α}

/-! ## Trims -/

/-- The list without a separator that it starts with. -/
def trimHead (sep : α) (cs : List α) : List α :=
  if cs.head? = some sep then cs.tail else cs

/-- The list without a separator that it ends in. -/
def trimLast (sep : α) (cs : List α) : List α :=
  if cs.getLast? = some sep then cs.dropLast else cs

@[simp] theorem trimHead_nil : trimHead sep [] = [] := rfl

@[simp] theorem trimLast_nil : trimLast sep [] = [] := rfl

@[simp] theorem trimHead_cons_self (cs : List α) : trimHead sep (sep :: cs) = cs := by
  simp [trimHead]

theorem trimHead_of_head_ne {cs : List α} (hhead : cs.head? ≠ some sep) :
    trimHead sep cs = cs := by
  rw [trimHead, if_neg hhead]

theorem trimLast_of_last_ne {cs : List α} (hlast : cs.getLast? ≠ some sep) :
    trimLast sep cs = cs := by
  rw [trimLast, if_neg hlast]

/-- The end of a joined list is the end of its second part. -/
theorem trimLast_append (cs : List α) {ds : List α} (hne : ds ≠ []) :
    trimLast sep (cs ++ ds) = cs ++ trimLast sep ds := by
  unfold trimLast
  rw [List.getLast?_append_of_ne_nil cs hne, List.dropLast_append_of_ne_nil hne]
  split <;> rfl

theorem trimLast_cons (c : α) {cs : List α} (hne : cs ≠ []) :
    trimLast sep (c :: cs) = c :: trimLast sep cs :=
  trimLast_append [c] hne

@[simp] theorem trimHead_replicate (n : Nat) :
    trimHead sep (List.replicate n sep) = List.replicate (n - 1) sep := by
  cases n with
  | zero => rfl
  | succ n => rw [List.replicate_succ, trimHead_cons_self, Nat.add_sub_cancel]

@[simp] theorem trimLast_replicate (n : Nat) :
    trimLast sep (List.replicate n sep) = List.replicate (n - 1) sep := by
  cases n with
  | zero => rfl
  | succ n => simp [trimLast, List.replicate_succ']

/-! ## Solid lists -/

/-- Every segment has something in it. -/
def Solid (sep : α) (cs : List α) : Prop := [] ∉ cs.splitOn sep

instance (sep : α) (cs : List α) : Decidable (Solid sep cs) := by
  unfold Solid
  infer_instance

theorem solid_append_cons (cs ds : List α) :
    Solid sep (cs ++ sep :: ds) ↔ Solid sep cs ∧ Solid sep ds := by
  simp only [Solid, List.splitOn_append_cons_self, List.mem_append, not_or]

theorem not_solid_nil : ¬ Solid sep [] := by
  simp [Solid]

/-- A list that starts with a separator has an empty segment. -/
theorem not_solid_cons_self (cs : List α) : ¬ Solid sep (sep :: cs) := fun hsolid =>
  not_solid_nil ((solid_append_cons [] cs).mp hsolid).1

theorem not_solid_replicate (n : Nat) : ¬ Solid sep (List.replicate n sep) := by
  cases n with
  | zero => exact not_solid_nil
  | succ n => exact not_solid_cons_self _

/-- A single segment. -/
theorem solid_of_notMem {cs : List α} (hne : cs ≠ []) (hsep : sep ∉ cs) : Solid sep cs := by
  rw [Solid, List.splitOn_eq_singleton hsep, List.mem_singleton]
  exact hne.symm

/-! ## Padded lists -/

/-- Separators before something and after it. -/
structure Padding (α : Type) where
  before : Nat
  core : List α
  after : Nat
  deriving Repr, DecidableEq

namespace Padding

/-- The padded list. -/
def pad (sep : α) (p : Padding α) : List α :=
  List.replicate p.before sep ++ (p.core ++ List.replicate p.after sep)

/-- How a list is padded; separators alone are counted as standing before. -/
def of (sep : α) (cs : List α) : Padding α where
  before := (cs.takeWhile fun c => c = sep).length
  core := (cs.dropWhile fun c => c = sep).rdropWhile fun c => c = sep
  after := ((cs.dropWhile fun c => c = sep).rtakeWhile fun c => c = sep).length

/-- What stands between the separators starts and ends with something else, and
if there is nothing, no separator stands after it. -/
structure Tight (sep : α) (p : Padding α) : Prop where
  head : p.core.head? ≠ some sep
  last : p.core.getLast? ≠ some sep
  after : p.core = [] → p.after = 0

omit [DecidableEq α] in
/-- Separators alone, however many. -/
theorem pad_separators {p : Padding α} (htight : p.Tight sep) (hcore : p.core = []) (n : Nat) :
    ({ p with before := n } : Padding α).pad sep = List.replicate n sep := by
  rw [pad, hcore, htight.after hcore, List.nil_append, List.replicate_zero, List.append_nil]

omit [DecidableEq α] in
/-- One more separator before. -/
theorem pad_succ (p : Padding α) (n : Nat) :
    ({ p with before := n + 1 } : Padding α).pad sep =
      sep :: ({ p with before := n } : Padding α).pad sep := by
  rw [pad, pad, List.replicate_succ, List.cons_append]

/-- Every list is a padded one. -/
theorem pad_of (cs : List α) : (of sep cs).pad sep = cs := by
  have hbefore : List.replicate (of sep cs).before sep = cs.takeWhile fun c => c = sep := by
    refine (List.eq_replicate_of_mem ?_).symm
    intro c hc
    simpa using List.mem_takeWhile_imp hc
  have hafter : List.replicate (of sep cs).after sep =
      (cs.dropWhile fun c => c = sep).rtakeWhile fun c => c = sep := by
    refine (List.eq_replicate_of_mem ?_).symm
    intro c hc
    simpa using List.mem_rtakeWhile_imp hc
  rw [pad, hbefore, hafter, of, List.rdropWhile_append_rtakeWhile, List.takeWhile_append_dropWhile]

theorem tight_of (cs : List α) : (of sep cs).Tight sep := by
  have hcut : ∀ c ∈ (cs.dropWhile fun c => c = sep).head?, c ≠ sep := by
    intro c hc
    have hhead := List.head?_dropWhile_not (fun c => decide (c = sep)) cs
    rw [hc] at hhead
    simpa using hhead
  refine
    { head := ?_
      last := ?_
      after := ?_ }
  · intro hhead
    obtain ⟨rest, hrest⟩ := List.rdropWhile_prefix (fun c => decide (c = sep))
      (cs.dropWhile fun c => c = sep)
    refine hcut sep ?_ rfl
    rw [← hrest, List.head?_append]
    exact Option.or_eq_some_iff.mpr (Or.inl hhead)
  · intro hlast
    obtain ⟨hne, hsep⟩ := List.mem_getLast?_eq_getLast hlast
    have hnot := List.rdropWhile_last_not (fun c => decide (c = sep))
      (cs.dropWhile fun c => c = sep) hne
    exact hnot (decide_eq_true hsep.symm)
  · intro hcore
    have hall := List.rdropWhile_eq_nil_iff.mp hcore
    cases hdrop : cs.dropWhile fun c => c = sep with
    | nil => simp [of, hdrop]
    | cons c ds =>
        have hc := hall c (by rw [hdrop]; exact List.mem_cons_self)
        exact absurd (of_decide_eq_true hc) (hcut c (by rw [hdrop]; rfl))

/-- Separators in front of something else are what is taken and dropped there. -/
theorem takeWhile_replicate_append (n : Nat) {cs : List α} (hhead : cs.head? ≠ some sep) :
    (List.replicate n sep ++ cs).takeWhile (fun c => c = sep) = List.replicate n sep ∧
      (List.replicate n sep ++ cs).dropWhile (fun c => c = sep) = cs := by
  have hall : ∀ c ∈ List.replicate n sep, decide (c = sep) = true :=
    fun c hc => decide_eq_true (List.eq_of_mem_replicate hc)
  rw [List.takeWhile_append_of_pos hall, List.dropWhile_append_of_pos hall]
  cases cs with
  | nil => simp
  | cons c cs =>
      have hc : ¬ decide (c = sep) = true := by
        intro hc
        exact hhead (by rw [List.head?_cons, of_decide_eq_true hc])
      exact ⟨by rw [List.takeWhile_cons_of_neg (p := fun c => decide (c = sep)) hc,
          List.append_nil],
        List.dropWhile_cons_of_neg (p := fun c => decide (c = sep)) hc⟩

variable {p q : Padding α}

omit [DecidableEq α] in
/-- What follows the separators before starts with something else. -/
theorem Tight.head_append (htight : p.Tight sep) :
    (p.core ++ List.replicate p.after sep).head? ≠ some sep := by
  cases hcore : p.core with
  | nil => simp [htight.after hcore]
  | cons c cs =>
      rw [List.cons_append, List.head?_cons, ← List.head?_cons (l := cs), ← hcore]
      exact htight.head

/-- A tight padding is the one that is read off its list. -/
theorem of_pad (htight : p.Tight sep) : of sep (p.pad sep) = p := by
  have hfront := takeWhile_replicate_append p.before htight.head_append
  have hlast : p.core.reverse.head? ≠ some sep := by
    rw [List.head?_reverse]
    exact htight.last
  have hback := takeWhile_replicate_append p.after hlast
  have hreverse : (p.core ++ List.replicate p.after sep).reverse =
      List.replicate p.after sep ++ p.core.reverse := by simp
  unfold of pad
  rw [hfront.1, hfront.2, List.rdropWhile, List.rtakeWhile, hreverse, hback.1, hback.2]
  simp

/-- So a list is padded in one way. -/
theorem pad_inj (hp : p.Tight sep) (hq : q.Tight sep) : p.pad sep = q.pad sep ↔ p = q := by
  constructor
  · intro hpad
    rw [← of_pad hp, hpad, of_pad hq]
  · rintro rfl
    rfl

/-! ## Trims and segments of a padded list -/

theorem trimHead_pad (htight : p.Tight sep) :
    trimHead sep (p.pad sep) = ({ p with before := p.before - 1 } : Padding α).pad sep := by
  cases hbefore : p.before with
  | zero =>
      rw [pad, pad, hbefore]
      exact trimHead_of_head_ne htight.head_append
  | succ n =>
      rw [pad, pad, hbefore, List.replicate_succ, List.cons_append, trimHead_cons_self]
      rfl

theorem trimLast_pad (htight : p.Tight sep) (hcore : p.core ≠ []) :
    trimLast sep (p.pad sep) = ({ p with after := p.after - 1 } : Padding α).pad sep := by
  rw [pad, pad, trimLast_append _ (List.append_ne_nil_of_left_ne_nil hcore _)]
  cases hafter : p.after with
  | zero =>
      rw [List.replicate_zero, List.append_nil, trimLast_of_last_ne htight.last]
  | succ n =>
      rw [trimLast_append _ (by simp), trimLast_replicate]

omit [DecidableEq α] in
/-- Fewer separators leave the padding tight. -/
theorem Tight.fewer (htight : p.Tight sep) (before : Nat) {after : Nat} (hafter : after ≤ p.after) :
    ({ p with before := before, after := after } : Padding α).Tight sep where
  head := htight.head
  last := htight.last
  after hcore := Nat.le_zero.mp (htight.after hcore ▸ hafter)

/-- A padded list has no empty segment exactly if nothing is padded and the core
has none. -/
theorem solid_pad (p : Padding α) :
    Solid sep (p.pad sep) ↔ p.before = 0 ∧ p.after = 0 ∧ Solid sep p.core := by
  cases hbefore : p.before with
  | succ n =>
      rw [pad, hbefore, List.replicate_succ, List.cons_append]
      exact ⟨fun hsolid => absurd hsolid (not_solid_cons_self _), fun h => absurd h.1 (by omega)⟩
  | zero =>
      rw [pad, hbefore, List.replicate_zero, List.nil_append]
      cases hafter : p.after with
      | zero => simp
      | succ n =>
          rw [List.replicate_succ, solid_append_cons]
          exact ⟨fun hsolid => absurd hsolid.2 (not_solid_replicate n),
            fun h => absurd h.2.1 (by omega)⟩

end Padding

end PipelineOperator.Lib
