import PipelineOperator.Controller.InFlight
import PipelineOperator.Controller.RunExists

/-!
# Executions and the spec they are read from

A goroutine creates its run from the pipeline it has just read, but decides on
the schedule in the status: it compares that of its copy with that of what it
has read, and checks the end date of its copy.  The status follows the spec
only when a pass arms, and while an execution is pending no pass does.  So an
edit of the spec in between goes unseen.

## Main results

* `AllPermitted.step`: what one step preserves.
* `creations_permitted`: every execution agrees with the spec it is created
  from, as long as no unseen edit forbids it.
* `shortened_creates`: an end date that is shortened in time and not seen.
-/

namespace PipelineOperator.Controller

open PipelineOperator.Lib
open PipelineOperator.Api

/-- The spec has a schedule, and its end date is not over. -/
def Permits (spec : PipelineSpec) (now : Time) : Prop :=
  ∃ schedule, spec.schedule = some schedule ∧ ∀ endDate ∈ schedule.endDate, ¬ endDate < now

/-- The user has edited the schedule after it was armed: it is gone, or it has
another end date than in the status, and that is over. -/
def EditedAway (pipeline : Pipeline) (now : Time) : Prop :=
  pipeline.spec.schedule = none ∨
    ∃ schedule ∈ pipeline.spec.schedule,
      schedule.endDate ≠ pipeline.status.schedule.bind Schedule.endDate ∧
        ∃ endDate ∈ schedule.endDate, endDate < now

instance (pipeline : Pipeline) (now : Time) : Decidable (EditedAway pipeline now) := by
  unfold EditedAway
  infer_instance

/-- The end date of the schedule in the status is over. -/
def EndIsOver (status : PipelineStatus) (now : Time) : Prop :=
  ∃ endDate ∈ status.schedule.bind Schedule.endDate, endDate < now

instance (status : PipelineStatus) (now : Time) : Decidable (EndIsOver status now) := by
  unfold EndIsOver
  infer_instance

/-- The goroutine that creates its run, and its clock reading. -/
def ScheduleAction.creator : ScheduleAction → Option (Nat × Time)
  | .create i _ now => some (i, now)
  | _ => none

/-- No goroutine creates a run from a pipeline that has been edited away,
unless the end date of its copy stops it. -/
def NotEditedAway (s : ScheduleWorld) (a : ScheduleAction) : Prop :=
  ∀ creator ∈ a.creator, ∀ g ∈ s.goroutines[creator.1]?,
    EndIsOver g.copy.status creator.2 ∨ ∀ read ∈ g.phase.read, ¬ EditedAway read.val creator.2

instance (s : ScheduleWorld) (a : ScheduleAction) : Decidable (NotEditedAway s a) := by
  unfold NotEditedAway
  infer_instance

/-- Every goroutine that has created a run has done so from a spec that
permits it. -/
def AllPermitted (s : ScheduleWorld) : Prop :=
  ∀ (i : Nat) (g : Goroutine), s.goroutines[i]? = some g →
    ∀ (read : Versioned Pipeline) (now : Time), g.phase = .created read now →
      Permits read.val.spec now

section Agreement

variable {lib : Externals} {s t : ScheduleWorld} {a : ScheduleAction}

/-- What has passed the comparisons and the end date of the copy is permitted
by its own spec, unless that has been edited away. -/
theorem permits_of_unchanged {copied : PipelineStatus} {pipeline : Pipeline} {now : Time}
    (hsame : Unchanged copied pipeline.status) (hend : ¬ EndIsOver copied now)
    (hedited : ¬ EditedAway pipeline now) : Permits pipeline.spec now := by
  simp only [EditedAway, not_or] at hedited
  obtain ⟨schedule, hschedule⟩ := Option.ne_none_iff_exists'.mp hedited.1
  refine ⟨schedule, hschedule, ?_⟩
  intro endDate hendDate hlt
  obtain ⟨copy, current, hcopied, hcurrent, hdates, -⟩ := hsame.schedule
  by_cases hstatus : schedule.endDate = pipeline.status.schedule.bind Schedule.endDate
  · -- The end date is that of the copy, which the goroutine has checked.
    apply hend
    refine ⟨endDate, ?_, hlt⟩
    rw [hcopied, Option.bind_some, ← hdates]
    rw [hstatus, hcurrent, Option.bind_some] at hendDate
    exact hendDate
  · exact hedited.2 ⟨schedule, hschedule, hstatus, endDate, hendDate, hlt⟩

/-- One step keeps the creations permitted. -/
theorem AllPermitted.step (hinv : AllPermitted s) (hinformed : AllInformed s)
    (hok : NotEditedAway s a) (h : ScheduleEffect lib s t a) : AllPermitted t := by
  intro j g hg read now hphase
  rcases h.inFlight_before hg (by rw [hphase]; rfl) with hbefore | ⟨run, hlog⟩
  · exact hinv j g hbefore read now hphase
  · obtain ⟨address, created, copy, before, rfl, hchecked, hafter, hend, -⟩ := h.creation hlog
    rw [hafter, getElem?_setPhase hchecked, if_pos rfl] at hg
    cases hg
    cases hphase
    have hunchanged := (hinformed j _ hchecked).unchanged read rfl
    have hspec := (hok _ rfl _ hchecked).resolve_left hend
    exact permits_of_unchanged hunchanged hend (hspec read rfl)

/-- A run is created at a time that the spec it is created from permits: in
every run of the machine without an unseen edit that forbids it. -/
theorem creations_permitted {start : Pipeline → Prop}
    (h : (scheduleMachine lib start).Reach NotEditedAway s) :
    ∀ (i : Nat) (g : Goroutine), s.goroutines[i]? = some g →
      ∀ (read : Versioned Pipeline) (now : Time), g.phase = .created read now →
        Permits read.val.spec now := by
  have hinv : AllPermitted s ∧ AllInformed s := by
    apply h.invariant
    · intro s hinit
      constructor
      · intro i g hg
        simp [hinit.2.1] at hg
      · intro i g hg
        simp [hinit.2.1] at hg
    · intro s a t hinv hok hstep
      have heffect := ScheduleWorld.step_effect hstep
      exact ⟨hinv.1.step hinv.2 hok heffect, hinv.2.step heffect⟩
  exact hinv.1

end Agreement

/-! ## An end date that is shortened -/

/-- The spec of the hourly pipeline with an end date. -/
def hourlyUntil (endDate : Time) : PipelineSpec :=
  { (hourly true).spec with
    schedule := some { scheduleDate := "1h", endDate := some endDate, repeats := true } }

/-- The schedule ends after two hours, and its first execution is due after
one. -/
def executedInTime : List ScheduleAction :=
  [ .edit (hourlyUntil (7200 * Time.second))
  , .reconcile 0 true
  , .wake 0
  , .create 0 someAddress (3600 * Time.second) ]

def executedInTimeWorld : ScheduleWorld :=
  ((scheduleMachine Externals.plain (· = hourly true)).exec NotEditedAway
    (hourlyWorld true) executedInTime).getD (hourlyWorld true)

theorem creations_permitted_executedInTime :
    ∃ g read, executedInTimeWorld.goroutines[0]? = some g ∧
      g.phase = .created read (3600 * Time.second) ∧
      Permits read.val.spec (3600 * Time.second) := by
  have hinit : (scheduleMachine Externals.plain (· = hourly true)).init (hourlyWorld true) :=
    ⟨rfl, rfl, rfl⟩
  have hexec : (scheduleMachine Externals.plain (· = hourly true)).exec NotEditedAway
      (hourlyWorld true) executedInTime = some executedInTimeWorld := by
    decide +kernel
  have hread : ∃ g ∈ executedInTimeWorld.goroutines[0]?, ∃ read ∈ g.phase.read,
      g.phase = .created read (3600 * Time.second) := by
    decide +kernel
  obtain ⟨g, hg, read, -, hphase⟩ := hread
  exact ⟨g, read, hg, hphase,
    creations_permitted (Machine.reach_of_exec _ hinit hexec) 0 g hg read _ hphase⟩

/-- While it is pending, the end date is shortened to half an hour, and a
reconcile sees the pipeline before the goroutine wakes up. -/
def shortened : List ScheduleAction :=
  [ .edit (hourlyUntil (7200 * Time.second))
  , .reconcile 0 true
  , .edit (hourlyUntil (1800 * Time.second))
  , .reconcile (600 * Time.second) true
  , .wake 0
  , .create 0 someAddress (3600 * Time.second) ]

def shortenedWorld : ScheduleWorld :=
  ((scheduleMachine Externals.plain (· = hourly true)).exec (fun _ _ => True)
    (hourlyWorld true) shortened).getD (hourlyWorld true)

/-- The run is created all the same, half an hour after the end date. -/
theorem shortened_creates :
    (scheduleMachine Externals.plain (· = hourly true)).Reachable shortenedWorld ∧
      ∃ g ∈ shortenedWorld.goroutines[0]?, ∃ read ∈ g.phase.read,
        g.phase = .created read (3600 * Time.second) ∧
        ¬ Permits read.val.spec (3600 * Time.second) := by
  have hinit : (scheduleMachine Externals.plain (· = hourly true)).init (hourlyWorld true) :=
    ⟨rfl, rfl, rfl⟩
  have hexec : (scheduleMachine Externals.plain (· = hourly true)).exec (fun _ _ => True)
      (hourlyWorld true) shortened = some shortenedWorld := by
    decide +kernel
  have hread : ∃ g ∈ shortenedWorld.goroutines[0]?, ∃ read ∈ g.phase.read,
      g.phase = .created read (3600 * Time.second) ∧
        read.val.spec = hourlyUntil (1800 * Time.second) := by
    decide +kernel
  obtain ⟨g, hg, read, hmem, hphase, hspec⟩ := hread
  refine ⟨Machine.reach_of_exec _ hinit hexec, g, hg, read, hmem, hphase, ?_⟩
  rintro ⟨schedule, hschedule, hend⟩
  rw [hspec] at hschedule
  cases hschedule
  exact hend (1800 * Time.second) rfl (by decide)

end PipelineOperator.Controller
