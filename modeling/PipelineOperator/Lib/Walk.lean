import Mathlib.Data.List.Forall2
import Mathlib.Logic.Function.Basic

/-!
# Walks over a list that may stop early

A walk visits the entries of a list in order and stops at the first error; it
maps them, or it changes a state, which keeps what had been changed before the
error.  A retry loop has a list of attempts, makes them one after another, and
stops at the first that does not end in a conflict; the state it passes on is
whatever the attempt before has left.

## Main results

* `mapM_forall₂`, `mapM_ok_iff`: a mapping walk without an error has one result
  for each entry, in the same order; and when there is none.
* `walk_invariant`, `walk_done`: what a walk keeps, and what it has done to
  every entry when it meets no error.
* `walk_progress`: when a walk meets no error.
* `walk_foldl`, `overwrite_overwrite`: a walk seen through a view, and that
  writing the same entries again changes nothing.
* `retryOnConflict_result`: what a retry loop leaves, from what one attempt
  leaves and what a conflict keeps.
* `retryOnConflict_done`: a loop with an attempt that meets no conflict ends
  well.
-/

namespace PipelineOperator.Lib

variable {α β ε σ : Type}

/-- A sequence without an error is one of two parts without an error. -/
theorem bind_ok {x : Except ε α} {f : α → Except ε β} {b : β} (hbind : (x >>= f) = .ok b) :
    ∃ a, x = .ok a ∧ f a = .ok b := by
  cases x with
  | error e => cases hbind
  | ok a => exact ⟨a, rfl, hbind⟩

/-- What has no result is an error. -/
theorem error_of_not_ok {x : Except ε α} (hnot : ¬ ∃ a, x = .ok a) : ∃ e, x = .error e := by
  cases x with
  | error e => exact ⟨e, rfl⟩
  | ok a => exact absurd ⟨a, rfl⟩ hnot

/-! ## Mapping -/

/-- A walk that meets no error maps every entry to its own result. -/
theorem mapM_forall₂ {f : α → Except ε β} {as : List α} {bs : List β}
    (hwalk : as.mapM f = .ok bs) : List.Forall₂ (fun a b => f a = .ok b) as bs := by
  induction as generalizing bs with
  | nil =>
      cases hwalk
      exact .nil
  | cons a as ih =>
      rw [List.mapM_cons] at hwalk
      obtain ⟨b, hb, hwalk⟩ := bind_ok hwalk
      obtain ⟨rest, hrest, hwalk⟩ := bind_ok hwalk
      cases hwalk
      exact .cons hb (ih hrest)

/-- The results make up such a walk. -/
theorem mapM_of_forall₂ {f : α → Except ε β} {as : List α} {bs : List β}
    (hresults : List.Forall₂ (fun a b => f a = .ok b) as bs) : as.mapM f = .ok bs := by
  induction hresults with
  | nil => rfl
  | cons hb _ ih =>
      rw [List.mapM_cons, hb, ih]
      rfl

/-- A mapping walk meets no error exactly if no entry is one. -/
theorem mapM_ok_iff {f : α → Except ε β} {as : List α} :
    (∃ bs, as.mapM f = .ok bs) ↔ ∀ a ∈ as, ∃ b, f a = .ok b := by
  constructor
  · rintro ⟨bs, hwalk⟩ a ha
    obtain ⟨i, hi, rfl⟩ := List.mem_iff_getElem.mp ha
    have hresults := mapM_forall₂ hwalk
    exact ⟨_, hresults.get hi (hresults.length_eq ▸ hi)⟩
  · intro hall
    induction as with
    | nil => exact ⟨[], rfl⟩
    | cons a as ih =>
        obtain ⟨b, hb⟩ := hall a List.mem_cons_self
        obtain ⟨bs, hbs⟩ := ih fun a' ha' => hall a' (List.mem_cons_of_mem _ ha')
        exact ⟨b :: bs, mapM_of_forall₂ (.cons hb (mapM_forall₂ hbs))⟩

/-! ## Changing a state -/

/-- Visit the entries in order, up to the first error. -/
def walk (step : α → σ → σ × Except ε Unit) : List α → σ → σ × Except ε Unit
  | [], s => (s, .ok ())
  | a :: as, s =>
      match (step a s).2 with
      | .ok () => walk step as (step a s).1
      | .error e => ((step a s).1, .error e)

section Walk

variable {step : α → σ → σ × Except ε Unit}

theorem walk_cons_of_ok {a : α} {s : σ} (hok : (step a s).2 = .ok ()) (as : List α) :
    walk step (a :: as) s = walk step as (step a s).1 := by
  rw [walk, hok]

theorem walk_cons_of_error {a : α} {s : σ} {e : ε} (herror : (step a s).2 = .error e)
    (as : List α) : walk step (a :: as) s = ((step a s).1, .error e) := by
  rw [walk, herror]

/-- What every visit keeps, the walk keeps, however it ends. -/
theorem walk_invariant {I : σ → Prop} {as : List α}
    (hstep : ∀ a ∈ as, ∀ s, I s → I (step a s).1) {s : σ} (hs : I s) :
    I (walk step as s).1 := by
  induction as generalizing s with
  | nil => exact hs
  | cons a as ih =>
      have hfirst := hstep a List.mem_cons_self s hs
      cases hverdict : (step a s).2 with
      | error e =>
          rw [walk_cons_of_error hverdict]
          exact hfirst
      | ok _ =>
          rw [walk_cons_of_ok hverdict]
          exact ih (fun b hb => hstep b (List.mem_cons_of_mem _ hb)) hfirst

/-- What every visit without an error keeps, a walk without an error keeps. -/
theorem walk_invariant_of_ok {I : σ → Prop} {as : List α}
    (hstep : ∀ a ∈ as, ∀ s, I s → (step a s).2 = .ok () → I (step a s).1) {s : σ} (hs : I s)
    (hok : (walk step as s).2 = .ok ()) : I (walk step as s).1 := by
  induction as generalizing s with
  | nil => exact hs
  | cons a as ih =>
      cases hverdict : (step a s).2 with
      | error e =>
          rw [walk_cons_of_error hverdict] at hok
          cases hok
      | ok _ =>
          rw [walk_cons_of_ok hverdict] at hok ⊢
          exact ih (fun b hb => hstep b (List.mem_cons_of_mem _ hb))
            (hstep a List.mem_cons_self s hs hverdict) hok

/-- A walk meets no error if no visit does, from what the visits before have
left. -/
theorem walk_progress {I : List α → σ → Prop}
    (hstep : ∀ a as s, I (a :: as) s → (step a s).2 = .ok () ∧ I as (step a s).1)
    {as : List α} {s : σ} (hs : I as s) :
    (walk step as s).2 = .ok () ∧ I [] (walk step as s).1 := by
  induction as generalizing s with
  | nil => exact ⟨rfl, hs⟩
  | cons a as ih =>
      obtain ⟨hverdict, hnext⟩ := hstep a as s hs
      rw [walk_cons_of_ok hverdict]
      exact ih hnext

/-- A walk without an error makes of a view what the visits make of it, one
after the other. -/
theorem walk_foldl {ν : Type} {I : σ → Prop} {view : σ → ν} {f : ν → α → ν} {as : List α}
    (hstep : ∀ a ∈ as, ∀ s, I s → I (step a s).1)
    (hview : ∀ a ∈ as, ∀ s, I s → (step a s).2 = .ok () → view (step a s).1 = f (view s) a)
    {s : σ} (hs : I s) (hok : (walk step as s).2 = .ok ()) :
    view (walk step as s).1 = as.foldl f (view s) := by
  induction as generalizing s with
  | nil => rfl
  | cons a as ih =>
      cases hverdict : (step a s).2 with
      | error e =>
          rw [walk_cons_of_error hverdict] at hok
          cases hok
      | ok _ =>
          rw [walk_cons_of_ok hverdict] at hok ⊢
          have hfirst := hview a List.mem_cons_self s hs hverdict
          rw [List.foldl_cons, ← hfirst]
          exact ih (fun b hb => hstep b (List.mem_cons_of_mem _ hb))
            (fun b hb => hview b (List.mem_cons_of_mem _ hb))
            (hstep a List.mem_cons_self s hs) hok

/-- What a visit without an error has done to its entry, and later visits
leave, holds of every entry after a walk without an error. -/
theorem walk_done {I : σ → Prop} {Q : α → σ → Prop} {as : List α}
    (hstep : ∀ a ∈ as, ∀ s, I s → I (step a s).1)
    (hown : ∀ a ∈ as, ∀ s, I s → (step a s).2 = .ok () → Q a (step a s).1)
    (hkeep : ∀ a ∈ as, ∀ b, ∀ s, I s → Q b s → Q b (step a s).1)
    {s : σ} (hs : I s) (hok : (walk step as s).2 = .ok ()) :
    ∀ a ∈ as, Q a (walk step as s).1 := by
  induction as generalizing s with
  | nil => simp
  | cons a as ih =>
      cases hverdict : (step a s).2 with
      | error e =>
          rw [walk_cons_of_error hverdict] at hok
          cases hok
      | ok _ =>
          rw [walk_cons_of_ok hverdict] at hok ⊢
          have hnext := hstep a List.mem_cons_self s hs
          intro b hb
          rcases List.mem_cons.mp hb with rfl | hb
          · have hfirst := hown b List.mem_cons_self s hs hverdict
            exact (walk_invariant (I := fun t => I t ∧ Q b t)
              (fun c hc t ht => ⟨hstep c (List.mem_cons_of_mem _ hc) t ht.1,
                hkeep c (List.mem_cons_of_mem _ hc) b t ht.1 ht.2⟩) ⟨hnext, hfirst⟩).2
          · exact ih (fun c hc => hstep c (List.mem_cons_of_mem _ hc))
              (fun c hc => hown c (List.mem_cons_of_mem _ hc))
              (fun c hc => hkeep c (List.mem_cons_of_mem _ hc)) hnext hok b hb

end Walk

/-! ## Writing entries -/

section Overwrite

variable {κ β : Type} [DecidableEq κ] {key : α → κ} {value : α → β}

/-- Write the value of each entry under its key, in order. -/
def overwrite (key : α → κ) (value : α → β) (as : List α) (f : κ → β) : κ → β :=
  as.foldl (fun f a => Function.update f (key a) (value a)) f

theorem overwrite_cons (a : α) (as : List α) (f : κ → β) :
    overwrite key value (a :: as) f =
      overwrite key value as (Function.update f (key a) (value a)) := rfl

/-- Under the other keys nothing is written. -/
theorem overwrite_of_notMem {as : List α} {k : κ} (hk : k ∉ as.map key) (f : κ → β) :
    overwrite key value as f k = f k := by
  induction as generalizing f with
  | nil => rfl
  | cons a as ih =>
      simp only [List.map_cons, List.mem_cons, not_or] at hk
      rw [overwrite_cons, ih hk.2, Function.update_of_ne hk.1]

/-- Under the keys that are written, what was there before does not matter. -/
theorem overwrite_of_mem {as : List α} {k : κ} (hk : k ∈ as.map key) (f g : κ → β) :
    overwrite key value as f k = overwrite key value as g k := by
  induction as generalizing f g with
  | nil => simp at hk
  | cons a as ih =>
      rw [overwrite_cons, overwrite_cons]
      by_cases hrest : k ∈ as.map key
      · exact ih hrest _ _
      · have hhead : k = key a := by
          rw [List.map_cons, List.mem_cons] at hk
          exact hk.resolve_right hrest
        rw [overwrite_of_notMem hrest, overwrite_of_notMem hrest, hhead, Function.update_self,
          Function.update_self]

/-- Writing the entries again changes nothing. -/
theorem overwrite_overwrite (as : List α) (f : κ → β) :
    overwrite key value as (overwrite key value as f) = overwrite key value as f := by
  funext k
  by_cases hk : k ∈ as.map key
  · exact overwrite_of_mem hk _ _
  · exact overwrite_of_notMem hk _

end Overwrite

/-- A loop that rewrites every entry of a list in its place maps the list. -/
theorem foldl_set_zipIdx (f : α → α) (as : List α) :
    as.zipIdx.foldl (fun bs entry => bs.set entry.2 (f entry.1)) as = as.map f := by
  have hfrom : ∀ done : List α, (as.zipIdx done.length).foldl
      (fun bs entry => bs.set entry.2 (f entry.1)) (done ++ as) = done ++ as.map f := by
    intro done
    induction as generalizing done with
    | nil => rfl
    | cons a as ih =>
        have hset : (done ++ a :: as).set done.length (f a) = (done ++ [f a]) ++ as := by
          rw [List.set_append_right _ _ (Nat.le_refl _), Nat.sub_self, List.set_cons_zero,
            List.append_assoc, List.singleton_append]
        have hlength : done.length + 1 = (done ++ [f a]).length := by simp
        rw [List.zipIdx_cons, List.foldl_cons, hset, hlength, ih (done ++ [f a]), List.map_cons,
          List.append_assoc, List.singleton_append]
  exact hfrom []

/-! ## Retrying -/

/-- How an attempt ends. -/
inductive AttemptVerdict where
  | done
  | conflict
  | failed
  deriving Repr, DecidableEq

/-- Attempts until one does not end in a conflict.  The last conflict is the
result when the attempts are used up. -/
def retryOnConflict (attempt : α → σ → σ × AttemptVerdict) : List α → σ → σ × AttemptVerdict
  | [], s => (s, .conflict)
  | a :: as, s =>
      match (attempt a s).2 with
      | .conflict => retryOnConflict attempt as (attempt a s).1
      | verdict => ((attempt a s).1, verdict)

variable {attempt : α → σ → σ × AttemptVerdict}

theorem retryOnConflict_cons_of_conflict {a : α} {s : σ} (hverdict : (attempt a s).2 = .conflict)
    (as : List α) :
    retryOnConflict attempt (a :: as) s = retryOnConflict attempt as (attempt a s).1 := by
  rw [retryOnConflict, hverdict]

theorem retryOnConflict_cons_of_ne {a : α} {s : σ} (hverdict : (attempt a s).2 ≠ .conflict)
    (as : List α) : retryOnConflict attempt (a :: as) s = attempt a s := by
  rw [retryOnConflict]
  split
  · next h => exact absurd h hverdict
  · next h => rfl

/-- The state after a loop: attempts start in `I`, a conflict keeps `I`, and
every attempt leaves `J`. -/
theorem retryOnConflict_result {I J : σ → Prop} (hentry : ∀ s, I s → J s) {as : List α}
    (hleave : ∀ a ∈ as, ∀ s, I s → J (attempt a s).1)
    (hkeep : ∀ a ∈ as, ∀ s, I s → (attempt a s).2 = .conflict → I (attempt a s).1)
    {s : σ} (hs : I s) : J (retryOnConflict attempt as s).1 := by
  induction as generalizing s with
  | nil => exact hentry s hs
  | cons a as ih =>
      by_cases hverdict : (attempt a s).2 = .conflict
      · rw [retryOnConflict_cons_of_conflict hverdict]
        exact ih (fun b hb => hleave b (List.mem_cons_of_mem _ hb))
          (fun b hb => hkeep b (List.mem_cons_of_mem _ hb))
          (hkeep a List.mem_cons_self s hs hverdict)
      · rw [retryOnConflict_cons_of_ne hverdict]
        exact hleave a List.mem_cons_self s hs

/-- A loop with an attempt that meets no conflict ends well: the attempts
before it keep `I`, and from `I` it is done. -/
theorem retryOnConflict_done {I Q : σ → Prop} {meets : α → Prop} {as : List α}
    (hkeep : ∀ a ∈ as, ∀ s, I s → meets a →
      (attempt a s).2 = .conflict ∧ I (attempt a s).1)
    (hdone : ∀ a ∈ as, ∀ s, I s → ¬ meets a → (attempt a s).2 = .done ∧ Q (attempt a s).1)
    (hclean : ∃ a ∈ as, ¬ meets a) {s : σ} (hs : I s) :
    (retryOnConflict attempt as s).2 = .done ∧ Q (retryOnConflict attempt as s).1 := by
  induction as generalizing s with
  | nil => simp at hclean
  | cons a as ih =>
      by_cases hmeets : meets a
      · obtain ⟨hverdict, hnext⟩ := hkeep a List.mem_cons_self s hs hmeets
        obtain ⟨b, hb, hbclean⟩ := hclean
        have hrest : b ∈ as := by
          rcases List.mem_cons.mp hb with rfl | hb
          · exact absurd hmeets hbclean
          · exact hb
        rw [retryOnConflict_cons_of_conflict hverdict]
        exact ih (fun c hc => hkeep c (List.mem_cons_of_mem _ hc))
          (fun c hc => hdone c (List.mem_cons_of_mem _ hc)) ⟨b, hrest, hbclean⟩ hnext
      · have hgood := hdone a List.mem_cons_self s hs hmeets
        have hverdict : (attempt a s).2 ≠ .conflict := by
          rw [hgood.1]
          exact fun h => nomatch h
        rw [retryOnConflict_cons_of_ne hverdict]
        exact hgood

end PipelineOperator.Lib
