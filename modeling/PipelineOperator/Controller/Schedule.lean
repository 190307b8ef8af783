import PipelineOperator.Api.Construct
import PipelineOperator.Api.ScheduleDate

/-!
# `ensureScheduleExecution` and `scheduleExecution`

A reconcile of a scheduled pipeline arms the next execution: it writes a start
and a pending date into the status and starts a goroutine with a copy of the
pipeline.  The goroutine sleeps until the pending date, reads the pipeline
again, compares eight things of its copy with what it has read, and creates a
run only if nothing has changed.  Afterwards it records the execution.

This file has the decisions, as functions of the pipeline that was read and
of the clock; the API writes they ask for are steps of the machine.  One
reading of the clock stands for all of one pass.
-/

namespace PipelineOperator.Controller

open PipelineOperator.Api

/-! ## Arming -/

/-- How a pass of `ensureScheduleExecution` ends: with nothing, with a requeue
after a minute, with an error, with a nil dereference, or with a status to
write.  Only the last write, `armed`, is followed by a goroutine; `reset` says
whether it starts counting anew. -/
inductive ScheduleOutcome where
  | quiet
  | requeued
  | failed (error : String)
  | panicked
  | untouched
  | removed (status : PipelineStatus)
  | emptied (status : PipelineStatus)
  | pendingCleared (status : PipelineStatus)
  | armed (status : PipelineStatus) (reset : Bool)
  deriving Repr, DecidableEq

/-- The status without anything that the schedule has written. -/
def removedStatus (status : PipelineStatus) : PipelineStatus :=
  { status with
    schedule := none
    scheduleStartDate := none
    scheduleLastExecutionStartDate := none
    scheduleLastExecutionEndDate := none
    scheduleRepeated := 0
    schedulePendingExecuctionDate := none }

/-- An execution has been started and has not ended yet. -/
def GuardInForce (status : PipelineStatus) : Prop :=
  status.scheduleLastExecutionStartDate.isSome ∧ status.scheduleLastExecutionEndDate.isNone

instance (status : PipelineStatus) : Decidable (GuardInForce status) := by
  unfold GuardInForce
  infer_instance

/-- A schedule with another date is counted from zero. -/
def NeedsReset (schedule : Schedule) (status : PipelineStatus) : Prop :=
  ∀ current ∈ status.schedule, current.scheduleDate ≠ schedule.scheduleDate

instance (schedule : Schedule) (status : PipelineStatus) :
    Decidable (NeedsReset schedule status) := by
  unfold NeedsReset
  infer_instance

def resetStatus (schedule : Schedule) (status : PipelineStatus) : PipelineStatus :=
  if NeedsReset schedule status then
    { status with
      scheduleLastExecutionStartDate := none
      scheduleLastExecutionEndDate := none
      scheduleRepeated := 0 }
  else status

/-- The status of an armed execution, as the API server returns it. -/
def armedStatus (schedule : Schedule) (duration : Duration) (now : Time)
    (status : PipelineStatus) : PipelineStatus :=
  { resetStatus schedule status with
    schedule := some schedule
    scheduleStartDate := some now.stored
    schedulePendingExecuctionDate := some (Time.stored (now + duration)) }

/-- The pass behind the branch on the pending date, which may have dropped it
from the status. -/
def armSchedule (lib : Externals) (schedule : Schedule) (status : PipelineStatus) (now : Time) :
    ScheduleOutcome :=
  if GuardInForce status then .quiet
  else if schedule.scheduleDate = "" then .emptied { status with scheduleStartDate := none }
  else match scheduleDuration lib schedule.scheduleDate schedule.startDate now with
    | .error e => .failed e
    | .ok duration =>
        if ∃ endDate ∈ schedule.endDate, ∃ pending ∈ status.schedulePendingExecuctionDate,
            pending < endDate then
          .pendingCleared { status with schedulePendingExecuctionDate := none }
        else if ¬ schedule.repeats ∧ 0 < status.scheduleRepeated then .requeued
        else if ∃ endDate ∈ schedule.endDate, endDate < now + duration then .quiet
        else .armed (armedStatus schedule duration now status) (NeedsReset schedule status)

def ensureScheduleExecution (lib : Externals) (pipeline : Pipeline) (now : Time) :
    ScheduleOutcome :=
  match pipeline.spec.schedule, pipeline.status.schedule with
  | none, none => .untouched
  | none, some _ => .removed (removedStatus pipeline.status)
  | some schedule, current =>
      match pipeline.status.schedulePendingExecuctionDate, current with
      | none, _ => armSchedule lib schedule pipeline.status now
      | some _, none => .panicked
      | some pending, some current =>
          if schedule.scheduleDate = current.scheduleDate then
            if now < pending then .requeued
            else if pipeline.status.scheduleLastExecutionStartDate = none then
              armSchedule lib schedule
                { pipeline.status with schedulePendingExecuctionDate := none } now
            else armSchedule lib schedule pipeline.status now
          else armSchedule lib schedule pipeline.status now

/-! ## The comparisons of a goroutine -/

/-- How the comparisons end. -/
inductive Verdict where
  | aborts
  | panics
  | passes
  deriving Repr, DecidableEq

/-- One of the two dates is nil and the other is not. -/
def nilChanged (copied current : Option Time) : Bool := copied.isSome != current.isSome

/-- Both dates are set, to different instants. -/
def dateChanged (copied current : Option Time) : Bool :=
  match copied, current with
  | some t, some u => t != u
  | _, _ => false

/-- The comparisons of `scheduleExecution` in the order of the source, with
the early return on a copy that was not armed. -/
def compareWith (copied current : PipelineStatus) : Verdict :=
  match copied.schedule, copied.schedulePendingExecuctionDate with
  | none, _ => .aborts
  | _, none => .aborts
  | some schedule, some _ =>
      if nilChanged copied.scheduleStartDate current.scheduleStartDate then .aborts
      else if nilChanged copied.schedulePendingExecuctionDate
          current.schedulePendingExecuctionDate then .aborts
      else match current.schedule with
        | none => .panics
        | some currentSchedule =>
            if nilChanged schedule.endDate currentSchedule.endDate then .aborts
            else if dateChanged copied.scheduleStartDate current.scheduleStartDate then .aborts
            else if dateChanged copied.schedulePendingExecuctionDate
                current.schedulePendingExecuctionDate then .aborts
            else if dateChanged schedule.endDate currentSchedule.endDate then .aborts
            else if schedule.repeats ≠ currentSchedule.repeats then .aborts
            else if copied.scheduleRepeated ≠ current.scheduleRepeated then .aborts
            else .passes

/-- The status that records an execution. -/
def recordedStatus (now : Time) (status : PipelineStatus) : PipelineStatus :=
  { status with
    scheduleRepeated := status.scheduleRepeated + 1
    scheduleLastExecutionStartDate := some now.stored
    scheduleLastExecutionEndDate := none
    schedulePendingExecuctionDate := none }

/-! ## What the comparisons establish -/

/-- Two dates that are neither nil on one side nor different are the same. -/
theorem eq_of_unchanged {copied current : Option Time} (hnil : nilChanged copied current = false)
    (hdate : dateChanged copied current = false) : copied = current := by
  cases copied with
  | none =>
      cases current with
      | none => rfl
      | some u => cases hnil
  | some t =>
      cases current with
      | none => cases hnil
      | some u =>
          simp only [dateChanged, bne_eq_false_iff_eq] at hdate
          rw [hdate]

/-- What a goroutine that passes has found unchanged. -/
structure Unchanged (copied current : PipelineStatus) : Prop where
  start : current.scheduleStartDate = copied.scheduleStartDate
  pending : current.schedulePendingExecuctionDate = copied.schedulePendingExecuctionDate
  pending_isSome : copied.schedulePendingExecuctionDate.isSome
  schedule : ∃ s s', copied.schedule = some s ∧ current.schedule = some s' ∧
    s'.endDate = s.endDate ∧ s'.repeats = s.repeats
  repeated : current.scheduleRepeated = copied.scheduleRepeated

theorem compareWith_passes {copied current : PipelineStatus}
    (h : compareWith copied current = .passes) : Unchanged copied current := by
  unfold compareWith at h
  split at h
  · cases h
  · cases h
  · next schedule pending hschedule hpending =>
      repeat' split at h
      all_goals cases h
      next hstartNil hpendingNil _ currentSchedule hcurrent hendNil hstart hpend hend hrepeats
          hrepeated =>
        simp only [Bool.not_eq_true, ne_eq, not_not] at *
        refine
          { start := (eq_of_unchanged hstartNil hstart).symm
            pending := (eq_of_unchanged hpendingNil hpend).symm
            pending_isSome := by simp [hpending]
            schedule := ⟨schedule, currentSchedule, hschedule, hcurrent, ?_, hrepeats.symm⟩
            repeated := hrepeated.symm }
        exact (eq_of_unchanged hendNil hend).symm

/-! ## What a pass can do -/

/-- What the pass behind the branch on the pending date can come to.  It arms
only while no execution is running, and a schedule that does not repeat only
if it has not been executed. -/
inductive ArmResult (schedule : Schedule) (status : PipelineStatus) (now : Time) :
    ScheduleOutcome → Prop where
  | quiet : ArmResult schedule status now .quiet
  | requeued : ArmResult schedule status now .requeued
  | failed (error : String) : ArmResult schedule status now (.failed error)
  | emptied : ArmResult schedule status now
      (.emptied { status with scheduleStartDate := none })
  | pendingCleared : ArmResult schedule status now
      (.pendingCleared { status with schedulePendingExecuctionDate := none })
  | armed (hguard : ¬ GuardInForce status)
      (hrepeats : schedule.repeats = false → status.scheduleRepeated = 0)
      (duration : Duration) :
      ArmResult schedule status now
        (.armed (armedStatus schedule duration now status) (NeedsReset schedule status))

theorem armSchedule_result (lib : Externals) (schedule : Schedule) (status : PipelineStatus)
    (now : Time) :
    ArmResult schedule status now (armSchedule lib schedule status now) := by
  unfold armSchedule
  split
  · exact .quiet
  · next hguard =>
      split
      · exact .emptied
      · split
        · exact .failed _
        · split
          · exact .pendingCleared
          · split
            · exact .requeued
            · next hrepeats =>
                split
                · exact .quiet
                · refine .armed hguard ?_ _
                  intro hnot
                  by_contra hpositive
                  exact hrepeats ⟨by simp [hnot], Nat.pos_of_ne_zero hpositive⟩

/-- A pass that arms has got past the guard and past the end date, with the
duration of the schedule. -/
theorem armSchedule_armed {lib : Externals} {schedule : Schedule}
    {status armed : PipelineStatus} {now : Time} {reset : Bool}
    (h : armSchedule lib schedule status now = .armed armed reset) :
    ∃ duration, scheduleDuration lib schedule.scheduleDate schedule.startDate now = .ok duration ∧
      ¬ GuardInForce status ∧ (∀ endDate ∈ schedule.endDate, ¬ endDate < now + duration) ∧
        armed = armedStatus schedule duration now status := by
  unfold armSchedule at h
  split at h
  · cases h
  · next hguard =>
      split at h
      · cases h
      · split at h
        · cases h
        · next duration hduration =>
            refine ⟨duration, hduration, hguard, ?_⟩
            split at h
            · cases h
            · split at h
              · cases h
              · split at h
                · cases h
                · next hend =>
                    cases h
                    exact ⟨fun endDate hendDate hlt => hend ⟨endDate, hendDate, hlt⟩, rfl⟩

/-- The status that a pass works on: what was read, possibly without the
pending date. -/
structure PassStatus (read status : PipelineStatus) : Prop where
  schedule : status.schedule = read.schedule
  start : status.scheduleStartDate = read.scheduleStartDate
  lastStart : status.scheduleLastExecutionStartDate = read.scheduleLastExecutionStartDate
  lastEnd : status.scheduleLastExecutionEndDate = read.scheduleLastExecutionEndDate
  repeated : status.scheduleRepeated = read.scheduleRepeated
  pending : status.schedulePendingExecuctionDate = read.schedulePendingExecuctionDate ∨
    status.schedulePendingExecuctionDate = none

/-- Every pass over a pipeline with a schedule that gets to the end does so
on such a status. -/
theorem ensureScheduleExecution_of_schedule (lib : Externals) {pipeline : Pipeline}
    {schedule : Schedule} (hschedule : pipeline.spec.schedule = some schedule) (now : Time) :
    ensureScheduleExecution lib pipeline now = .requeued ∨
      ensureScheduleExecution lib pipeline now = .panicked ∨
      ∃ status, PassStatus pipeline.status status ∧
        ensureScheduleExecution lib pipeline now = armSchedule lib schedule status now := by
  have hread : PassStatus pipeline.status pipeline.status :=
    ⟨rfl, rfl, rfl, rfl, rfl, Or.inl rfl⟩
  have hdropped : PassStatus pipeline.status
      { pipeline.status with schedulePendingExecuctionDate := none } :=
    ⟨rfl, rfl, rfl, rfl, rfl, Or.inr rfl⟩
  unfold ensureScheduleExecution
  simp only [hschedule]
  split
  · exact Or.inr (Or.inr ⟨_, hread, rfl⟩)
  · exact Or.inr (Or.inl rfl)
  · split
    · split
      · exact Or.inl rfl
      · split
        · exact Or.inr (Or.inr ⟨_, hdropped, rfl⟩)
        · exact Or.inr (Or.inr ⟨_, hread, rfl⟩)
    · exact Or.inr (Or.inr ⟨_, hread, rfl⟩)

end PipelineOperator.Controller
