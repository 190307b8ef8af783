import PipelineOperator.Controller.ScheduleMachine

/-!
# Goroutines in flight

A goroutine is in flight between the creation of its run and its status write.
This file says what the steps of the machine do to goroutines: they only move
forward, what they have read stays an older copy of the pipeline, and one in
flight stays so until its write, which is recorded or refused.

## Main results

* `ScheduleEffect.goroutines`: what a step does to the goroutines.
* `ScheduleEffect.forward`: goroutines are never forgotten and only move
  forward.
* `ScheduleEffect.inFlight_after`: how a goroutine stops being in flight.
* `ScheduleEffect.log`: what a step writes to the log.
* `ScheduleEffect.creation`: which steps create a run.
* `AllInformed.step`: goroutines act upon older copies of the pipeline that
  agreed with their own.
-/

namespace PipelineOperator.Controller

open PipelineOperator.Lib
open PipelineOperator.Api

/-! ## Phases -/

/-- The phases come in this order. -/
@[simp] def GoroutinePhase.rank : GoroutinePhase → Nat
  | .sleeping => 0
  | .checked _ => 1
  | .created _ _ => 2
  | .done => 3

/-- What a goroutine has read and still acts upon. -/
@[simp] def GoroutinePhase.read : GoroutinePhase → Option (Versioned Pipeline)
  | .sleeping => none
  | .checked read => some read
  | .created read _ => some read
  | .done => none

/-- The goroutine is between the creation of its run and its status write. -/
def InFlight (s : ScheduleWorld) (i : Nat) : Prop :=
  ∃ g ∈ s.goroutines[i]?, g.phase.rank = 2

instance (s : ScheduleWorld) (i : Nat) : Decidable (InFlight s i) := by
  unfold InFlight
  infer_instance

/-- Its status write would be refused. -/
def Refused (s : ScheduleWorld) (i : Nat) : Prop :=
  ∃ g ∈ s.goroutines[i]?, g.phase.rank = 2 ∧
    ∃ read ∈ g.phase.read, read.version ≠ s.pipeline.version

instance (s : ScheduleWorld) (i : Nat) : Decidable (Refused s i) := by
  unfold Refused
  infer_instance

/-! ## Events -/

/-- The events that set the count back to zero. -/
def ScheduleEvent.resets : ScheduleEvent → Bool
  | .armed _ _ reset => reset
  | .cleared reset => reset
  | .created _ _ => false
  | .recorded _ => false

/-- The run that is created in this event, with its goroutine. -/
def ScheduleEvent.creation : ScheduleEvent → Option (Nat × Run)
  | .armed _ _ _ => none
  | .cleared _ => none
  | .created i run => some (i, run)
  | .recorded _ => none

/-- The runs that have been created, with their goroutines. -/
def createdRuns (log : List ScheduleEvent) : List (Nat × Run) :=
  log.filterMap ScheduleEvent.creation

theorem createdRuns_cons (event : ScheduleEvent) (log : List ScheduleEvent) :
    createdRuns (event :: log) = event.creation.toList ++ createdRuns log := by
  cases hcreation : event.creation <;> simp [createdRuns, hcreation]

section Steps

variable {lib : Externals} {s t : ScheduleWorld} {a : ScheduleAction}

/-! ## What steps do to goroutines -/

theorem getElem?_setPhase {i : Nat} {g : Goroutine} (hg : s.goroutines[i]? = some g)
    (copy : Pipeline) (phase : GoroutinePhase) (j : Nat) :
    (s.setPhase i copy phase).goroutines[j]? =
      if i = j then some ⟨copy, phase⟩ else s.goroutines[j]? := by
  have hlt : i < s.goroutines.length := (List.getElem?_eq_some_iff.mp hg).1
  simp only [ScheduleWorld.setPhase, List.getElem?_set, hlt, if_true]

/-- A goroutine moves on to another phase.  Where it gets in flight the step
creates its run, and where it stops being in flight its write is recorded or
refused.  What it acts upon it has acted upon before, or it has just found it
unchanged. -/
structure Moves (s t : ScheduleWorld) (a : ScheduleAction) (i : Nat) (g : Goroutine)
    (phase : GoroutinePhase) : Prop where
  before : s.goroutines[i]? = some g
  after : t.goroutines = (s.setPhase i g.copy phase).goroutines
  forward : g.phase.rank < phase.rank
  creates : phase.rank = 2 → ∃ run, t.log = .created i run :: s.log
  records : g.phase.rank = 2 →
    (t.log = .recorded i :: s.log ∧ GuardInForce t.status) ∨ (a = .record i ∧ Refused s i)
  reads : ∀ read ∈ phase.read, read ∈ g.phase.read ∨
    (read = t.pipeline ∧ compareWith g.copy.status read.val.status = .passes)

/-- What a step does to the goroutines: nothing, or it starts one with a copy
that was armed for a first execution if its schedule does not repeat, or one
moves on. -/
inductive GoroutineEffect (s t : ScheduleWorld) (a : ScheduleAction) : Prop where
  | same (hsame : t.goroutines = s.goroutines)
  | started (copy : Pipeline)
      (hfirst : ∀ schedule ∈ copy.status.schedule, schedule.repeats = false →
        copy.status.scheduleRepeated = 0)
      (hstarted : t.goroutines = s.goroutines ++ [{ copy := copy }])
  | moved (i : Nat) (g : Goroutine) (phase : GoroutinePhase) (hmoves : Moves s t a i g phase)

/-- Every step does one of these. -/
theorem ScheduleEffect.goroutines (h : ScheduleEffect lib s t a) : GoroutineEffect s t a := by
  cases h with
  | kept _ _ _ _ hgoroutines _ => exact .same hgoroutines
  | removed _ _ ht => exact .same (by rw [ht]; rfl)
  | cleared _ ht => exact .same (by rw [ht]; rfl)
  | @armed now schedule status duration _ _ _ hrepeats _ ht =>
      subst ht
      refine .started _ ?_ rfl
      intro current hcurrent hnot
      simp only [armedStatus, Option.mem_def, Option.some.injEq] at hcurrent
      subst hcurrent
      have hzero := hrepeats hnot
      simp only [armedStatus, resetStatus]
      split
      · rfl
      · exact hzero
  | ended _ ht => exact .same (by rw [ht]; rfl)
  | @stopped _ i g hg hphase ht =>
      subst ht
      have hlt : g.phase.rank < 2 := by
        rcases hphase with hphase | ⟨read, hphase⟩
        · rw [hphase]
          decide
        · rw [hphase]
          show 1 < 2
          omega
      refine .moved i g .done ⟨hg, rfl, ?_, by simp, ?_, by simp⟩
      · show g.phase.rank < 3
        omega
      · intro hrank
        omega
  | @passed i copy hg hpasses ht =>
      subst ht
      refine .moved i _ (.checked s.pipeline) ⟨hg, rfl, by simp, by simp, by simp, ?_⟩
      intro read hread
      cases hread
      exact Or.inr ⟨rfl, hpasses⟩
  | @created i _ now copy read run hg _ _ ht =>
      subst ht
      refine .moved i _ (.created read now) ⟨hg, rfl, by simp, ?_, by simp, ?_⟩
      · intro _
        exact ⟨run, rfl⟩
      · intro other hother
        exact Or.inl hother
  | @recorded i now copy read hg _ ht =>
      subst ht
      refine .moved i _ .done ⟨hg, rfl, by simp, by simp, ?_, by simp⟩
      intro _
      exact Or.inl ⟨rfl, by simp [GuardInForce, recordedStatus]⟩
  | @refused i now copy read hg hversion ht =>
      subst ht
      refine .moved i _ .done ⟨hg, rfl, by simp, by simp, ?_, by simp⟩
      intro _
      exact Or.inr ⟨rfl, _, hg, rfl, read, rfl, hversion⟩

/-- Looking up a goroutine after one has moved. -/
theorem Moves.getElem? {i : Nat} {g : Goroutine} {phase : GoroutinePhase}
    (h : Moves s t a i g phase) (j : Nat) :
    t.goroutines[j]? = if i = j then some ⟨g.copy, phase⟩ else s.goroutines[j]? := by
  rw [h.after]
  exact getElem?_setPhase h.before g.copy phase j

/-- Goroutines are never forgotten, and they only move forward. -/
theorem ScheduleEffect.forward (h : ScheduleEffect lib s t a) {j : Nat} {before : Goroutine}
    (hbefore : s.goroutines[j]? = some before) :
    ∃ after, t.goroutines[j]? = some after ∧ before.phase.rank ≤ after.phase.rank := by
  cases h.goroutines with
  | same hsame => exact ⟨before, by rw [hsame, hbefore], Nat.le_refl _⟩
  | started copy _ hstarted =>
      have hlt : j < s.goroutines.length := (List.getElem?_eq_some_iff.mp hbefore).1
      refine ⟨before, ?_, Nat.le_refl _⟩
      rw [hstarted, List.getElem?_append_left hlt, hbefore]
  | moved i g phase hmoves =>
      have hafter := hmoves.getElem? j
      by_cases hij : i = j
      · rw [if_pos hij] at hafter
        subst hij
        rw [hmoves.before] at hbefore
        cases hbefore
        exact ⟨_, hafter, Nat.le_of_lt hmoves.forward⟩
      · rw [if_neg hij, hbefore] at hafter
        exact ⟨before, hafter, Nat.le_refl _⟩

/-- What has been read before stays an older copy. -/
theorem ScheduleEffect.snapshot (h : ScheduleEffect lib s t a) {read : Versioned Pipeline}
    (hread : read.Snapshot s.pipeline) : read.Snapshot t.pipeline := by
  cases h with
  | kept _ hsnapshot _ _ _ _ => exact hsnapshot read hread
  | removed _ _ ht => exact ht ▸ hread.write _
  | cleared _ ht => exact ht ▸ hread.write _
  | armed _ _ _ _ _ ht => exact ht ▸ hread.write _
  | ended _ ht => exact ht ▸ hread.write _
  | stopped _ _ ht => exact ht ▸ hread
  | passed _ _ ht => exact ht ▸ hread
  | created _ _ _ ht => exact ht ▸ hread
  | recorded _ _ ht => exact ht ▸ hread.write _
  | refused _ _ ht => exact ht ▸ hread

/-- What is current after a step was current before. -/
theorem ScheduleEffect.current (h : ScheduleEffect lib s t a) {read : Versioned Pipeline}
    (hread : read.Snapshot s.pipeline) (hversion : read.version = t.pipeline.version) :
    read.version = s.pipeline.version := by
  have hle := hread.1
  have hstep := (h.snapshot (Versioned.Snapshot.refl s.pipeline)).1
  omega

/-- A goroutine in flight was so before, unless it has just created its run. -/
theorem ScheduleEffect.inFlight_before (h : ScheduleEffect lib s t a) {j : Nat} {g : Goroutine}
    (hg : t.goroutines[j]? = some g) (hrank : g.phase.rank = 2) :
    s.goroutines[j]? = some g ∨ ∃ run, t.log = .created j run :: s.log := by
  cases h.goroutines with
  | same hsame =>
      rw [hsame] at hg
      exact Or.inl hg
  | started copy _ hstarted =>
      rw [hstarted, List.getElem?_append] at hg
      split at hg
      · exact Or.inl hg
      · -- The new goroutine sleeps.
        have hmem := List.mem_of_getElem? hg
        rw [List.mem_singleton] at hmem
        subst hmem
        cases hrank
  | moved i before phase hmoves =>
      rw [hmoves.getElem? j] at hg
      by_cases hij : i = j
      · rw [if_pos hij] at hg
        cases hg
        subst hij
        exact Or.inr (hmoves.creates hrank)
      · rw [if_neg hij] at hg
        exact Or.inl hg

/-- A goroutine in flight stays so until its status write, which is recorded
or refused. -/
theorem ScheduleEffect.inFlight_after (h : ScheduleEffect lib s t a) {j : Nat}
    (hflight : InFlight s j) :
    InFlight t j ∨ (t.log = .recorded j :: s.log ∧ GuardInForce t.status) ∨
      (a = .record j ∧ Refused s j) := by
  obtain ⟨g, hmem, hrank⟩ := hflight
  have hg : s.goroutines[j]? = some g := hmem
  cases h.goroutines with
  | same hsame =>
      left
      exact ⟨g, by rw [hsame, hg]; rfl, hrank⟩
  | started copy _ hstarted =>
      have hlt : j < s.goroutines.length := (List.getElem?_eq_some_iff.mp hg).1
      left
      exact ⟨g, by rw [hstarted, List.getElem?_append_left hlt, hg]; rfl, hrank⟩
  | moved i before phase hmoves =>
      by_cases hij : i = j
      · subst hij
        rw [hmoves.before] at hg
        cases hg
        exact Or.inr (hmoves.records hrank)
      · have hafter := hmoves.getElem? j
        rw [if_neg hij, hg] at hafter
        exact Or.inl ⟨g, hafter, hrank⟩

/-- What a step writes to the log: at most one event.  A reset changes the
pipeline, and a goroutine that creates a run is in flight afterwards. -/
theorem ScheduleEffect.log (h : ScheduleEffect lib s t a) :
    t.log = s.log ∨ ∃ event, t.log = event :: s.log ∧
      (event.resets = true → s.pipeline.version < t.pipeline.version) ∧
      ∀ entry ∈ event.creation, InFlight t entry.1 := by
  cases h with
  | kept _ _ _ _ _ hlog => exact Or.inl hlog
  | removed _ hschedule ht =>
      subst ht
      refine Or.inr ⟨_, rfl, ?_, by simp [ScheduleEvent.creation]⟩
      intro _
      refine Versioned.version_lt_write ?_
      intro hsame
      have hstatus := congrArg (fun pipeline => pipeline.status.schedule) hsame
      simp only [removedStatus, ScheduleWorld.status] at hstatus hschedule
      rw [← hstatus] at hschedule
      cases hschedule
  | cleared _ ht =>
      subst ht
      refine Or.inr ⟨_, rfl, ?_, by simp [ScheduleEvent.creation]⟩
      intro hresets
      cases hresets
  | @armed now schedule status duration _ hpass _ _ _ ht =>
      subst ht
      refine Or.inr ⟨_, rfl, ?_, by simp [ScheduleEvent.creation]⟩
      intro hresets
      refine Versioned.version_lt_write ?_
      intro hsame
      -- A reset means another schedule date than the one stored.
      have hneeds : NeedsReset schedule status := by simpa [ScheduleEvent.resets] using hresets
      have hstatus := congrArg (fun pipeline => pipeline.status.schedule) hsame
      have hschedule : some schedule = s.status.schedule := hstatus
      rw [← hpass.schedule] at hschedule
      exact hneeds schedule hschedule.symm rfl
  | ended _ ht => exact Or.inl (by rw [ht]; rfl)
  | stopped _ _ ht => exact Or.inl (by rw [ht]; rfl)
  | passed _ _ ht => exact Or.inl (by rw [ht]; rfl)
  | @created i _ now copy read run hg _ _ ht =>
      subst ht
      refine Or.inr ⟨_, rfl, ?_, ?_⟩
      · intro hresets
        cases hresets
      · intro entry hentry
        cases hentry
        exact ⟨_, (getElem?_setPhase hg _ _ _).trans (if_pos rfl), rfl⟩
  | recorded _ _ ht =>
      subst ht
      refine Or.inr ⟨_, rfl, ?_, by simp [ScheduleEvent.creation]⟩
      intro hresets
      cases hresets
  | refused _ _ ht => exact Or.inl (by rw [ht]; rfl)

/-- A step that logs the creation of a run is that of a goroutine that has
passed the comparisons, and whose end date is not over. -/
theorem ScheduleEffect.creation (h : ScheduleEffect lib s t a) {i : Nat} {run : Run}
    (hlog : t.log = .created i run :: s.log) :
    ∃ address now copy read, a = .create i address now ∧
      s.goroutines[i]? = some ⟨copy, .checked read⟩ ∧
      t.goroutines = (s.setPhase i copy (.created read now)).goroutines ∧
      (¬ ∃ endDate ∈ copy.status.schedule.bind Schedule.endDate, endDate < now) ∧
      constructRunFromPipeline lib address read.val = .ok run := by
  cases h with
  | kept _ _ _ _ _ hsame => simp [hsame] at hlog
  | removed _ _ ht => subst ht; simp [ScheduleWorld.addEvent] at hlog
  | cleared _ ht => subst ht; simp [ScheduleWorld.addEvent] at hlog
  | armed _ _ _ _ _ ht =>
      subst ht
      simp [ScheduleWorld.applyOutcome, ScheduleWorld.addEvent] at hlog
  | ended _ ht => subst ht; simp [ScheduleWorld.writeStatus] at hlog
  | stopped _ _ ht => subst ht; simp [ScheduleWorld.setPhase] at hlog
  | passed _ _ ht => subst ht; simp [ScheduleWorld.setPhase] at hlog
  | @created i' address now copy read run' hg hend hrun ht =>
      subst ht
      simp only [ScheduleWorld.addEvent, List.cons.injEq, ScheduleEvent.created.injEq] at hlog
      obtain ⟨⟨rfl, rfl⟩, -⟩ := hlog
      exact ⟨address, now, copy, read, rfl, hg, rfl, hend, hrun⟩
  | recorded _ _ ht => subst ht; simp [ScheduleWorld.addEvent] at hlog
  | refused _ _ ht => subst ht; simp [ScheduleWorld.setPhase] at hlog

/-! ## What goroutines have read -/

/-- What a goroutine knows: its copy was armed for a first execution if the
schedule does not repeat, and what it has read is an older pipeline that
agreed with the copy. -/
structure Informed (s : ScheduleWorld) (g : Goroutine) : Prop where
  first : ∀ schedule ∈ g.copy.status.schedule, schedule.repeats = false →
    g.copy.status.scheduleRepeated = 0
  snapshot : ∀ read ∈ g.phase.read, read.Snapshot s.pipeline
  unchanged : ∀ read ∈ g.phase.read, Unchanged g.copy.status read.val.status

private theorem Informed.forward {g : Goroutine} (hinv : Informed s g)
    (h : ScheduleEffect lib s t a) : Informed t g :=
  ⟨hinv.first, fun read hread => h.snapshot (hinv.snapshot read hread), hinv.unchanged⟩

/-- Every goroutine is informed. -/
def AllInformed (s : ScheduleWorld) : Prop :=
  ∀ (i : Nat) (g : Goroutine), s.goroutines[i]? = some g → Informed s g

/-- A goroutine that has moved on is informed. -/
private theorem Informed.moved {i : Nat} {g : Goroutine} {phase : GoroutinePhase}
    (hinv : Informed t g) (hmoves : Moves s t a i g phase) : Informed t ⟨g.copy, phase⟩ := by
  refine
    { first := hinv.first
      snapshot := ?_
      unchanged := ?_ }
  · intro read hread
    rcases hmoves.reads read hread with hbefore | ⟨rfl, -⟩
    · exact hinv.snapshot read hbefore
    · exact Versioned.Snapshot.refl _
  · intro read hread
    rcases hmoves.reads read hread with hbefore | ⟨-, hpasses⟩
    · exact hinv.unchanged read hbefore
    · exact compareWith_passes hpasses

theorem AllInformed.step (hinv : AllInformed s) (h : ScheduleEffect lib s t a) :
    AllInformed t := by
  have hold : ∀ (i : Nat) (g : Goroutine), s.goroutines[i]? = some g → Informed t g :=
    fun i g hg => (hinv i g hg).forward h
  intro j g hg
  cases h.goroutines with
  | same hsame =>
      rw [hsame] at hg
      exact hold j g hg
  | started copy hfirst hstarted =>
      rw [hstarted, List.getElem?_append] at hg
      split at hg
      · exact hold j g hg
      · -- The new goroutine has read nothing yet.
        have hmem := List.mem_of_getElem? hg
        rw [List.mem_singleton] at hmem
        subst hmem
        exact ⟨hfirst, by simp, by simp⟩
  | moved i before phase hmoves =>
      rw [hmoves.getElem? j] at hg
      by_cases hij : i = j
      · rw [if_pos hij] at hg
        cases hg
        exact (hold i before hmoves.before).moved hmoves
      · rw [if_neg hij] at hg
        exact hold j g hg

end Steps

end PipelineOperator.Controller
