import PipelineOperator.Lib.Walk

/-!
# Isolated domains

A state that falls into domains: `restrict d s` is the state without what
belongs to other domains than `d`, and `view e s` is what there is of it in the
domain `e`.  A computation on behalf of a domain is confined to it when it reads
and writes nothing outside: on the part of the domain it does what it does on
the whole, with the same result, and the views of other domains do not change.
Confined computations compose, in walks and in retry loops as well.

When every action of a system is confined to the domain that it belongs to,
the domains are isolated: each of them sees its own actions and no others,
whatever order the actions of all domains are taken in.  What they share is the
life of the system, so this is about runs in which it does not die.

## Main results

* `Confined.bind`, `Confined.zoom`, `Confined.walk`, `Confined.retryOnConflict`:
  what is put together from confined computations is confined.
* `Isolated.restrict_runAlive`: the part of a domain after a run of the whole
  system is what its own actions make of its own part.
-/

namespace PipelineOperator.Lib

variable {σ δ ν ρ τ α ε : Type}

/-! ## Parts of lists -/

/-- The entries of a list that belong to a domain, in their order. -/
def part [DecidableEq δ] (domain : α → δ) (d : δ) (l : List α) : List α :=
  l.filter fun a => domain a = d

section Part

variable [DecidableEq δ] {domain : α → δ} {d e : δ}

theorem mem_part {l : List α} {a : α} : a ∈ part domain d l ↔ a ∈ l ∧ domain a = d := by
  simp [part]

/-- Whatever is selected in the domain is selected in its part. -/
theorem filter_part {l : List α} {p : α → Bool} (hp : ∀ a ∈ l, p a = true → domain a = d) :
    (part domain d l).filter p = l.filter p := by
  rw [part, List.filter_filter]
  apply List.filter_congr
  intro a ha
  by_cases htest : p a = true
  · simp [htest, hp a ha htest]
  · simp [htest]

/-- So is whatever is looked up. -/
theorem find?_part {l : List α} {p : α → Bool} (hp : ∀ a ∈ l, p a = true → domain a = d) :
    (part domain d l).find? p = l.find? p := by
  rw [← List.head?_filter, ← List.head?_filter, filter_part hp]

/-- Changing entries without moving them to another domain. -/
theorem part_map {l : List α} {f : α → α} (hf : ∀ a ∈ l, domain (f a) = domain a) :
    part domain d (l.map f) = (part domain d l).map f := by
  rw [part, part, List.filter_map]
  congr 1
  apply List.filter_congr
  intro a ha
  simp [hf a ha]

/-- Replacing some of the entries by others of their domain. -/
theorem part_replace (l : List α) {hit : α → Prop} [DecidablePred hit] (new : α → α)
    (hhit : ∀ a ∈ l, hit a → domain (new a) = domain a) :
    part domain d (l.map fun a => if hit a then new a else a) =
      (part domain d l).map fun a => if hit a then new a else a := by
  apply part_map
  intro a ha
  split
  · next h => exact hhit a ha h
  · rfl

/-- Replacing entries of other domains. -/
theorem part_replace_other (l : List α) {hit : α → Prop} [DecidablePred hit] (new : α → α)
    (hhit : ∀ a ∈ l, hit a → domain (new a) = domain a ∧ domain a ≠ d) :
    part domain d (l.map fun a => if hit a then new a else a) = part domain d l := by
  rw [part_replace l new fun a ha h => (hhit a ha h).1]
  have hkept : ∀ a ∈ part domain d l, (if hit a then new a else a) = a := by
    intro a ha
    obtain ⟨hmem, hd⟩ := mem_part.mp ha
    exact if_neg fun h => (hhit a hmem h).2 hd
  rw [List.map_congr_left hkept, List.map_id']

theorem part_append (l l' : List α) :
    part domain d (l ++ l') = part domain d l ++ part domain d l' :=
  List.filter_append ..

theorem part_singleton_self {a : α} (ha : domain a = d) : part domain d [a] = [a] := by
  simp [part, ha]

theorem part_singleton_other {a : α} (ha : domain a ≠ d) : part domain d [a] = [] := by
  simp [part, ha]

/-- Taking an entry out. -/
theorem part_erase [DecidableEq α] (l : List α) (a : α) :
    part domain d (l.erase a) = (part domain d l).erase a :=
  List.erase_filter.symm

theorem part_part_self (l : List α) : part domain d (part domain d l) = part domain d l := by
  simp [part]

end Part

/-! ## Confined computations -/

/-- On states with `P`, which it keeps, `f` is confined to the domain `d`. -/
structure Confined (restrict : δ → σ → σ) (view : δ → σ → ν) (P : σ → Prop) (d : δ)
    (f : σ → σ × ρ) : Prop where
  keeps : ∀ s, P s → P (f s).1
  own : ∀ s, P s → f (restrict d s) = (restrict d (f s).1, (f s).2)
  other : ∀ s, P s → ∀ e, e ≠ d → view e (f s).1 = view e s

section Confined

variable {restrict : δ → σ → σ} {view : δ → σ → ν} {P : σ → Prop} {d : δ}

/-- A result that the state has no part in. -/
theorem Confined.pure (r : ρ) : Confined restrict view P d fun s => (s, r) where
  keeps := fun _ hs => hs
  own := fun _ _ => rfl
  other := fun _ _ _ _ => rfl

/-- Looking at something that shows in the part of the domain. -/
theorem Confined.read {look : σ → ρ} (hlook : ∀ s, P s → look (restrict d s) = look s) :
    Confined restrict view P d fun s => (s, look s) where
  keeps := fun _ hs => hs
  own := by
    intro s hs
    simp only [hlook s hs]
  other := fun _ _ _ _ => rfl

/-- One computation after another: the result of the first, of which `R` is
known, says how to go on, and each way of going on is confined. -/
theorem Confined.bind {f : σ → σ × ρ} {whole : σ → σ × τ} (hf : Confined restrict view P d f)
    (R : ρ → Prop) (ways : ρ → σ → σ × τ) (hR : ∀ s, P s → R (f s).2)
    (hways : ∀ r, R r → Confined restrict view P d (ways r))
    (hwhole : ∀ s, whole s = ways (f s).2 (f s).1) : Confined restrict view P d whole where
  keeps := by
    intro s hs
    rw [hwhole]
    exact (hways _ (hR s hs)).keeps _ (hf.keeps s hs)
  own := by
    intro s hs
    have hfirst := hf.own s hs
    rw [hwhole, hwhole, hfirst]
    exact (hways _ (hR s hs)).own _ (hf.keeps s hs)
  other := by
    intro s hs e he
    rw [hwhole, (hways _ (hR s hs)).other _ (hf.keeps s hs) e he, hf.other s hs e he]

/-- A computation on a state of its own, which is made up from the whole state
and put back into it. -/
theorem Confined.zoom {π μ : Type} {restrictπ : δ → π → π} {viewπ : δ → π → μ} {Q : π → Prop}
    {f : π → π × ρ} {whole : σ → σ × τ} (hf : Confined restrictπ viewπ Q d f)
    (enter : σ → π) (leave : π → σ → σ) (result : π × ρ → τ)
    (hwhole : ∀ s, whole s = (leave (f (enter s)).1 s, result (f (enter s))))
    (hQ : ∀ s, P s → Q (enter s)) (hP : ∀ s x, P s → Q x → P (leave x s))
    (henter : ∀ s, P s → enter (restrict d s) = restrictπ d (enter s))
    (hleave : ∀ s x, leave (restrictπ d x) (restrict d s) = restrict d (leave x s))
    (hresult : ∀ x r, result (restrictπ d x, r) = result (x, r))
    (hview : ∀ s x, P s → ∀ e, e ≠ d → viewπ e x = viewπ e (enter s) →
      view e (leave x s) = view e s) :
    Confined restrict view P d whole where
  keeps := by
    intro s hs
    rw [hwhole]
    exact hP s _ hs (hf.keeps _ (hQ s hs))
  own := by
    intro s hs
    rw [hwhole, hwhole, henter s hs, hf.own _ (hQ s hs), hleave, hresult]
  other := by
    intro s hs e he
    rw [hwhole]
    exact hview s _ hs e he (hf.other _ (hQ s hs) e he)

/-- How a walk goes on after a visit. -/
private def walkOn (step : α → σ → σ × Except ε Unit) (as : List α) :
    Except ε Unit → σ → σ × Except ε Unit
  | .ok (), s => walk step as s
  | .error e, s => (s, .error e)

/-- A walk whose visits are confined is confined. -/
theorem Confined.walk {step : α → σ → σ × Except ε Unit} {as : List α}
    (hstep : ∀ a ∈ as, Confined restrict view P d (step a)) :
    Confined restrict view P d (walk step as) := by
  induction as with
  | nil => exact .pure (Except.ok ())
  | cons a as ih =>
      have hrest := ih fun b hb => hstep b (List.mem_cons_of_mem _ hb)
      have hways : ∀ verdict, Confined restrict view P d (walkOn step as verdict) := by
        intro verdict
        cases verdict with
        | error e => exact .pure (Except.error e)
        | ok _ => exact hrest
      refine (hstep a List.mem_cons_self).bind (fun _ => True) (walkOn step as) (fun _ _ => trivial)
        (fun verdict _ => hways verdict) fun s => ?_
      cases hverdict : (step a s).2 with
      | error e => rw [walk_cons_of_error hverdict, walkOn]
      | ok _ => rw [walk_cons_of_ok hverdict, walkOn]

/-- How a retry loop goes on after an attempt. -/
private def retryOn (attempt : α → σ → σ × AttemptVerdict) (as : List α) :
    AttemptVerdict → σ → σ × AttemptVerdict
  | .conflict, s => retryOnConflict attempt as s
  | .done, s => (s, .done)
  | .failed, s => (s, .failed)

/-- So is a retry loop whose attempts are. -/
theorem Confined.retryOnConflict {attempt : α → σ → σ × AttemptVerdict} {as : List α}
    (hattempt : ∀ a ∈ as, Confined restrict view P d (attempt a)) :
    Confined restrict view P d (retryOnConflict attempt as) := by
  induction as with
  | nil => exact .pure AttemptVerdict.conflict
  | cons a as ih =>
      have hrest := ih fun b hb => hattempt b (List.mem_cons_of_mem _ hb)
      have hways : ∀ verdict, Confined restrict view P d (retryOn attempt as verdict) := by
        intro verdict
        cases verdict with
        | conflict => exact hrest
        | done => exact .pure AttemptVerdict.done
        | failed => exact .pure AttemptVerdict.failed
      refine (hattempt a List.mem_cons_self).bind (fun _ => True) (retryOn attempt as)
        (fun _ _ => trivial) (fun verdict _ => hways verdict) fun s => ?_
      cases hverdict : (attempt a s).2 with
      | conflict => rw [retryOnConflict_cons_of_conflict hverdict, retryOn]
      | done | failed =>
          have hne : (attempt a s).2 ≠ .conflict := by
            rw [hverdict]
            exact nofun
          rw [retryOnConflict_cons_of_ne hne]
          exact Prod.ext rfl hverdict

end Confined

/-! ## Runs of a system -/

/-- One action after another, as long as the system does not die in one. -/
def runAlive (dies : σ → α → Prop) [∀ s a, Decidable (dies s a)] (step : σ → α → σ) :
    σ → List α → Option σ
  | s, [] => some s
  | s, a :: as => if dies s a then none else runAlive dies step (step s a) as

/-- Every action that `ok` admits is confined to its domain, on states with
`I`: what it does, and whether the system dies in it. -/
structure Isolated (dies : σ → α → Prop) (step : σ → α → σ) (domain : α → δ)
    (restrict : δ → σ → σ) (ok : α → Prop) (I : σ → Prop) : Prop where
  keeps : ∀ s a, I s → ok a → I (step s a)
  own : ∀ s a, I s → ok a →
    restrict (domain a) (step s a) = step (restrict (domain a) s) a
  other : ∀ s a d, I s → ok a → domain a ≠ d → restrict d (step s a) = restrict d s
  dies_iff : ∀ s a, I s → ok a → (dies (restrict (domain a) s) a ↔ dies s a)

section Isolated

variable [DecidableEq δ] {dies : σ → α → Prop} [∀ s a, Decidable (dies s a)] {step : σ → α → σ}
  {domain : α → δ} {restrict : δ → σ → σ} {ok : α → Prop} {I : σ → Prop}

/-- The part of a domain goes through the actions of the domain and no others,
and lives through them. -/
theorem Isolated.restrict_runAlive (h : Isolated dies step domain restrict ok I) (d : δ)
    {as : List α} (hok : ∀ a ∈ as, ok a) {s t : σ} (hs : I s)
    (hrun : runAlive dies step s as = some t) :
    runAlive dies step (restrict d s) (part domain d as) = some (restrict d t) := by
  induction as generalizing s with
  | nil =>
      cases hrun
      rfl
  | cons a as ih =>
      have ha := hok a List.mem_cons_self
      rw [runAlive] at hrun
      split at hrun
      · cases hrun
      · next halive =>
          have hrest := ih (fun b hb => hok b (List.mem_cons_of_mem _ hb)) (h.keeps s a hs ha) hrun
          rw [part] at hrest ⊢
          by_cases hd : domain a = d
          · subst hd
            have hpart : ¬ dies (restrict (domain a) s) a := mt (h.dies_iff s a hs ha).mp halive
            rw [List.filter_cons_of_pos (by simp), runAlive, if_neg hpart, ← h.own s a hs ha]
            exact hrest
          · rw [List.filter_cons_of_neg (by simp [hd]), ← h.other s a d hs ha hd]
            exact hrest

end Isolated

end PipelineOperator.Lib
