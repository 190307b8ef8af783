import PipelineOperator.Controller.ScheduleMachine

/-!
# A changed schedule is armed anew

When the schedule date of the spec is no longer the one in the status, a pass
throws away what it has recorded of the old schedule and arms the new one.
Before it gets there it asks whether the schedule may still be executed at all,
and that question is put to the count of the old schedule.

## Main results

* `ensureScheduleExecution_of_changed`: what a pass makes of a changed schedule.
* `rearms_iff`: when two passes arm it.
* `executed_not_rearmed`: a schedule that they do not arm.
-/

namespace PipelineOperator.Controller

open PipelineOperator.Lib
open PipelineOperator.Api

/-- The state after a pass whose write is accepted. -/
def ScheduleWorld.pass (lib : Externals) (s : ScheduleWorld) (now : Time) : ScheduleWorld :=
  s.applyOutcome now (ensureScheduleExecution lib s.pipeline.val now)

/-- The spec has a schedule with another date than the status, and no
execution is in progress. -/
structure Changed (schedule : Schedule) (s : ScheduleWorld) : Prop where
  spec : s.pipeline.val.spec.schedule = some schedule
  date : schedule.scheduleDate ≠ ""
  differs : NeedsReset schedule s.status
  idle : ¬ GuardInForce s.status

/-- The next execution lies `duration` ahead, and not behind the end date. -/
structure Due (lib : Externals) (schedule : Schedule) (now : Time) (duration : Duration) :
    Prop where
  computed : scheduleDuration lib schedule.scheduleDate schedule.startDate now = .ok duration
  before_end : ∀ endDate ∈ schedule.endDate, ¬ endDate < now + duration

/-- In `t` the schedule is armed for `due`, counted from zero, and a goroutine
more than in `s` has been started. -/
structure Rearmed (schedule : Schedule) (due : Time) (s t : ScheduleWorld) : Prop where
  schedule : t.status.schedule = some schedule
  repeated : t.status.scheduleRepeated = 0
  lastStart : t.status.scheduleLastExecutionStartDate = none
  lastEnd : t.status.scheduleLastExecutionEndDate = none
  pending : t.status.schedulePendingExecuctionDate = some due.stored
  started : ∃ copy, copy.status = t.status ∧ t.goroutines = s.goroutines ++ [{ copy := copy }]

/-- One pass arms the schedule, or a second one does. -/
def RearmsWithinTwo (lib : Externals) (schedule : Schedule) (s : ScheduleWorld)
    (now : Time) (duration : Duration) (now' : Time) (duration' : Duration) : Prop :=
  Rearmed schedule (now + duration) s (s.pass lib now) ∨
    Rearmed schedule (now' + duration') s ((s.pass lib now).pass lib now')

section Changed

variable {lib : Externals} {schedule : Schedule} {s : ScheduleWorld} {now : Time}
  {duration : Duration}

/-- The old pending date lies before the new end date. -/
def PendingBeforeEnd (schedule : Schedule) (status : PipelineStatus) : Prop :=
  ∃ endDate ∈ schedule.endDate, ∃ pending ∈ status.schedulePendingExecuctionDate,
    pending < endDate

/-- A pass over a changed schedule, with the questions it asks in their order. -/
theorem ensureScheduleExecution_of_changed (h : Changed schedule s)
    (hdue : Due lib schedule now duration)
    (hstored : s.status.schedulePendingExecuctionDate.isSome → s.status.schedule.isSome) :
    (PendingBeforeEnd schedule s.status ∧
        ensureScheduleExecution lib s.pipeline.val now =
          .pendingCleared { s.status with schedulePendingExecuctionDate := none }) ∨
      (¬ PendingBeforeEnd schedule s.status ∧
        ensureScheduleExecution lib s.pipeline.val now =
          if ¬ schedule.repeats ∧ 0 < s.status.scheduleRepeated then .requeued
          else .armed (armedStatus schedule duration now s.status) true) := by
  have hpass : ensureScheduleExecution lib s.pipeline.val now =
      armSchedule lib schedule s.status now := by
    unfold ensureScheduleExecution
    simp only [h.spec]
    split
    · rfl
    · next pending hpending hnone =>
        have hsome := hstored (by rw [ScheduleWorld.status, hpending]; rfl)
        rw [ScheduleWorld.status, hnone] at hsome
        cases hsome
    · next pending current hpending hcurrent =>
        have hne : schedule.scheduleDate ≠ current.scheduleDate :=
          fun heq => h.differs current hcurrent heq.symm
        rw [if_neg hne]
        rfl
  rw [hpass, armSchedule, if_neg h.idle, if_neg h.date, hdue.computed]
  have hend : ¬ ∃ endDate ∈ schedule.endDate, endDate < now + duration := by
    rintro ⟨endDate, hendDate, hlt⟩
    exact hdue.before_end endDate hendDate hlt
  by_cases hcleared : PendingBeforeEnd schedule s.status
  · left
    exact ⟨hcleared, if_pos hcleared⟩
  · right
    refine ⟨hcleared, ?_⟩
    have hnot : ¬ ∃ endDate ∈ schedule.endDate,
        ∃ pending ∈ s.status.schedulePendingExecuctionDate, pending < endDate := hcleared
    simp only [if_neg hnot, if_neg hend, h.differs, decide_true]

/-- A pass that arms a changed schedule arms it as it should. -/
private theorem rearmed_of_armed (h : Changed schedule s)
    (harmed : ensureScheduleExecution lib s.pipeline.val now =
      .armed (armedStatus schedule duration now s.status) true) :
    Rearmed schedule (now + duration) s (s.pass lib now) := by
  have hstatus : (s.pass lib now).status = armedStatus schedule duration now s.status := by
    rw [ScheduleWorld.pass, harmed]
    simp [ScheduleWorld.applyOutcome, ScheduleWorld.status, ScheduleWorld.writeStatus,
      ScheduleWorld.addEvent]
  have hreset : armedStatus schedule duration now s.status = { s.status with
      schedule := some schedule
      scheduleStartDate := some now.stored
      schedulePendingExecuctionDate := some (Time.stored (now + duration))
      scheduleLastExecutionStartDate := none
      scheduleLastExecutionEndDate := none
      scheduleRepeated := 0 } := by
    rw [armedStatus, resetStatus, if_pos h.differs]
  exact
    { schedule := by rw [hstatus, hreset]
      repeated := by rw [hstatus, hreset]
      lastStart := by rw [hstatus, hreset]
      lastEnd := by rw [hstatus, hreset]
      pending := by rw [hstatus, hreset]
      started := ⟨{ s.pipeline.val with status := armedStatus schedule duration now s.status },
        hstatus.symm, by rw [ScheduleWorld.pass, harmed]; rfl⟩ }

/-! ## Passes that arm and passes that do not -/

/-- The count of the old schedule does not stand in the way, and the status
has no pending date without a schedule. -/
structure Ready (schedule : Schedule) (s : ScheduleWorld) : Prop where
  count : schedule.repeats = true ∨ s.status.scheduleRepeated = 0
  stored : s.status.schedulePendingExecuctionDate.isSome → s.status.schedule.isSome

/-- The state is the same up to the pending date, which may be gone. -/
structure Stays (s t : ScheduleWorld) : Prop where
  spec : t.pipeline.val.spec = s.pipeline.val.spec
  status : t.status = s.status ∨ t.status = { s.status with schedulePendingExecuctionDate := none }
  goroutines : t.goroutines = s.goroutines

theorem Changed.stays {t : ScheduleWorld} (h : Changed schedule s) (hstays : Stays s t) :
    Changed schedule t := by
  refine
    { spec := by rw [hstays.spec, h.spec]
      date := h.date
      differs := ?_
      idle := ?_ }
  · rcases hstays.status with hstatus | hstatus <;> rw [hstatus] <;> exact h.differs
  · rcases hstays.status with hstatus | hstatus <;> rw [hstatus] <;> exact h.idle

/-- As long as the schedule is a changed one, it has not been armed. -/
theorem Changed.not_rearmed {t : ScheduleWorld} (h : Changed schedule t) (due : Time) :
    ¬ Rearmed schedule due s t :=
  fun hrearmed => h.differs schedule hrearmed.schedule rfl

/-- A pass that the old count does not stop arms the schedule, unless it clears
the old pending date first. -/
private theorem Ready.pass (hready : Ready schedule s) (h : Changed schedule s)
    (hdue : Due lib schedule now duration) :
    Rearmed schedule (now + duration) s (s.pass lib now) ∨
      (PendingBeforeEnd schedule s.status ∧ Stays s (s.pass lib now) ∧
        (s.pass lib now).status = { s.status with schedulePendingExecuctionDate := none }) := by
  have hgoes : ¬ (¬ schedule.repeats ∧ 0 < s.status.scheduleRepeated) := by
    rintro ⟨hrepeats, hpositive⟩
    rcases hready.count with hcount | hcount
    · exact hrepeats hcount
    · omega
  rcases ensureScheduleExecution_of_changed h hdue hready.stored with
    ⟨hbefore, hcleared⟩ | ⟨-, houtcome⟩
  · right
    have hstatus : (s.pass lib now).status =
        { s.status with schedulePendingExecuctionDate := none } := by
      rw [ScheduleWorld.pass, hcleared]
      simp [ScheduleWorld.applyOutcome]
    refine ⟨hbefore, ⟨?_, Or.inr hstatus, ?_⟩, hstatus⟩
    · rw [ScheduleWorld.pass, hcleared]
      exact spec_writeStatus _ _
    · rw [ScheduleWorld.pass, hcleared]
      rfl
  · left
    rw [if_neg hgoes] at houtcome
    exact rearmed_of_armed h houtcome

/-- A pass that is stopped by the old count, or dereferences the schedule that
the status does not have, changes nothing that matters. -/
private theorem stays_of_not_ready (hnot : ¬ Ready schedule s) (h : Changed schedule s)
    (hdue : Due lib schedule now duration) :
    Stays s (s.pass lib now) ∧ ¬ Ready schedule (s.pass lib now) := by
  by_cases hstored : s.status.schedulePendingExecuctionDate.isSome → s.status.schedule.isSome
  · have hcount : ¬ (schedule.repeats = true ∨ s.status.scheduleRepeated = 0) :=
      fun hcount => hnot ⟨hcount, hstored⟩
    have hstops : ¬ schedule.repeats ∧ 0 < s.status.scheduleRepeated := by
      rw [not_or] at hcount
      exact ⟨hcount.1, Nat.pos_of_ne_zero hcount.2⟩
    rcases ensureScheduleExecution_of_changed h hdue hstored with ⟨-, hcleared⟩ | ⟨-, houtcome⟩
    · have hstatus : (s.pass lib now).status =
          { s.status with schedulePendingExecuctionDate := none } := by
        rw [ScheduleWorld.pass, hcleared]
        simp [ScheduleWorld.applyOutcome]
      refine ⟨⟨?_, Or.inr hstatus, ?_⟩, ?_⟩
      · rw [ScheduleWorld.pass, hcleared]
        exact spec_writeStatus _ _
      · rw [ScheduleWorld.pass, hcleared]
        rfl
      · intro hready
        have hafter := hready.count
        rw [hstatus] at hafter
        exact hcount hafter
    · have hsame : s.pass lib now = s := by
        rw [if_pos hstops] at houtcome
        rw [ScheduleWorld.pass, houtcome]
        rfl
      rw [hsame]
      exact ⟨⟨rfl, Or.inl rfl, rfl⟩, hnot⟩
  · have hsame : s.pass lib now = s := by
      have hpending : ∃ pending, s.pipeline.val.status.schedulePendingExecuctionDate =
          some pending := by
        by_contra hnone
        exact hstored fun hsome => absurd (Option.isSome_iff_exists.mp hsome) hnone
      have hschedule : s.pipeline.val.status.schedule = none := by
        by_contra hsome
        exact hstored fun _ => Option.isSome_iff_ne_none.mpr hsome
      obtain ⟨pending, hpending⟩ := hpending
      have hpanics : ensureScheduleExecution lib s.pipeline.val now = .panicked := by
        simp only [ensureScheduleExecution, h.spec, hpending, hschedule]
      rw [ScheduleWorld.pass, hpanics]
      rfl
    rw [hsame]
    exact ⟨⟨rfl, Or.inl rfl, rfl⟩, hnot⟩

/-- Two passes arm a changed schedule if and only if it repeats or the old one
has not been executed, and the status has no pending date without a schedule. -/
theorem rearms_iff {now' : Time} {duration' : Duration} (h : Changed schedule s)
    (hdue : Due lib schedule now duration) (hdue' : Due lib schedule now' duration') :
    RearmsWithinTwo lib schedule s now duration now' duration' ↔ Ready schedule s := by
  constructor
  · intro hrearms
    by_contra hnot
    obtain ⟨hstays, hnot'⟩ := stays_of_not_ready hnot h hdue
    have hfirst := h.stays hstays
    have hsecond := hfirst.stays (stays_of_not_ready hnot' hfirst hdue').1
    rcases hrearms with hrearmed | hrearmed
    · exact hfirst.not_rearmed _ hrearmed
    · exact hsecond.not_rearmed _ hrearmed
  · intro hready
    rcases hready.pass h hdue with hrearmed | ⟨-, hstays, hstatus⟩
    · exact Or.inl hrearmed
    · right
      -- The first pass has cleared the pending date, so the second does not.
      have hready' : Ready schedule (s.pass lib now) := by
        refine ⟨?_, ?_⟩
        · rw [hstatus]
          exact hready.count
        · simp [hstatus]
      rcases hready'.pass (h.stays hstays) hdue' with hrearmed | ⟨⟨_, _, pending, hpending, _⟩, _⟩
      · obtain ⟨copy, hcopy, hstarted⟩ := hrearmed.started
        rw [hstays.goroutines] at hstarted
        exact { hrearmed with started := ⟨copy, hcopy, hstarted⟩ }
      · rw [hstatus] at hpending
        cases hpending

end Changed

/-! ## A schedule that has been executed once -/

/-- The schedule of the hourly pipeline has been changed from every two hours;
`executed` is the number of its executions, the last of which has ended. -/
def changedWorld (repeats : Bool) (executed : Nat) : ScheduleWorld where
  pipeline := ⟨0, { hourly repeats with
    status :=
      { schedule := some { scheduleDate := "2h", repeats := repeats }
        scheduleStartDate := some (-7200 * Time.second)
        scheduleLastExecutionStartDate := some 0
        scheduleLastExecutionEndDate := some (60 * Time.second)
        scheduleRepeated := executed } }⟩

/-- An hourly schedule. -/
def hourlySchedule (repeats : Bool) : Schedule := { scheduleDate := "1h", repeats := repeats }

theorem changedWorld_changed (repeats : Bool) (executed : Nat) :
    Changed (hourlySchedule repeats) (changedWorld repeats executed) where
  spec := rfl
  date := by simp [hourlySchedule]
  differs := by simp [NeedsReset, changedWorld, hourlySchedule, ScheduleWorld.status]
  idle := by simp [GuardInForce, changedWorld, ScheduleWorld.status]

theorem hourlySchedule_due (repeats : Bool) :
    Due Externals.plain (hourlySchedule repeats) (120 * Time.second) (3600 * Time.second) where
  computed := by
    cases repeats <;> decide +kernel
  before_end := by simp [hourlySchedule]

/-- A schedule that repeats is armed anew. -/
theorem rearms_repeating :
    RearmsWithinTwo Externals.plain (hourlySchedule true) (changedWorld true 3)
      (120 * Time.second) (3600 * Time.second) (120 * Time.second) (3600 * Time.second) :=
  (rearms_iff (changedWorld_changed true 3) (hourlySchedule_due true)
    (hourlySchedule_due true)).mpr ⟨Or.inl rfl, fun _ => rfl⟩

/-- One that does not repeat and has been executed is not. -/
theorem executed_not_rearmed :
    ¬ ∀ (lib : Externals) (schedule : Schedule) (s : ScheduleWorld) (now now' : Time)
      (duration duration' : Duration), Changed schedule s → Due lib schedule now duration →
      Due lib schedule now' duration' →
      RearmsWithinTwo lib schedule s now duration now' duration' := by
  intro hall
  have hrearms := hall Externals.plain (hourlySchedule false) (changedWorld false 1) _ _ _ _
    (changedWorld_changed false 1) (hourlySchedule_due false) (hourlySchedule_due false)
  rcases hrearms with hrearmed | hrearmed
  · exact absurd hrearmed.repeated (by decide +kernel)
  · exact absurd hrearmed.repeated (by decide +kernel)

end PipelineOperator.Controller
