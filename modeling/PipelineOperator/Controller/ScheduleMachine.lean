import PipelineOperator.Controller.RunStatus
import PipelineOperator.Controller.Schedule
import PipelineOperator.Lib.Machine
import PipelineOperator.Lib.Versioned

/-!
# The machine of a schedule

The stored pipeline and everybody who writes its status: the reconciles of the
pipeline, the goroutines they have started, and the reconciles of its runs.
Every write is optimistic.  A pass of `ensureScheduleExecution` reads the
pipeline and writes its status; if somebody else has written in between, the
write is refused and the pass has no effect, so a pass is one step that may be
told to fail.  A goroutine does more between its read and its write: it
compares, creates a run and only then records the execution.  These are steps
of their own, with the pipeline that was read carried along.

A log of what has happened to the schedule is kept beside the state, the
latest event first; nothing in the code reads it.

## Main results

* `ScheduleWorld.step_effect`: what a step can do to the pipeline, the
  goroutines and the log.
-/

namespace PipelineOperator.Controller

open PipelineOperator.Lib
open PipelineOperator.Api

/-! ## States -/

/-- Where a goroutine stands: asleep, past its comparisons with the pipeline
it has read, past the creation of its run, or done. -/
inductive GoroutinePhase where
  | sleeping
  | checked (read : Versioned Pipeline)
  | created (read : Versioned Pipeline) (now : Time)
  | done
  deriving Repr, DecidableEq

/-- A goroutine with its copy of the pipeline. -/
structure Goroutine where
  copy : Pipeline
  phase : GoroutinePhase := .sleeping
  deriving Repr, DecidableEq

/-- What happens to a schedule: a goroutine is armed, the schedule status is
cleared, a goroutine creates a run, and it records the execution.  Goroutines
are numbered as they are started; `reset` marks the writes that set the count
of executions back to zero. -/
inductive ScheduleEvent where
  | armed (goroutine : Nat) (start : Time) (reset : Bool)
  | cleared (reset : Bool)
  | created (goroutine : Nat) (run : Run)
  | recorded (goroutine : Nat)
  deriving Repr, DecidableEq

structure ScheduleWorld where
  pipeline : Versioned Pipeline
  runs : List Run := []
  cluster : Cluster := {}
  goroutines : List Goroutine := []
  log : List ScheduleEvent := []
  deriving Repr, DecidableEq

namespace ScheduleWorld

/-- The status of the stored pipeline. -/
def status (s : ScheduleWorld) : PipelineStatus := s.pipeline.val.status

/-- A status write that is accepted. -/
def writeStatus (s : ScheduleWorld) (status : PipelineStatus) : ScheduleWorld :=
  { s with pipeline := s.pipeline.write { s.pipeline.val with status := status } }

/-- A goroutine moves on. -/
def setPhase (s : ScheduleWorld) (i : Nat) (copy : Pipeline) (phase : GoroutinePhase) :
    ScheduleWorld :=
  { s with goroutines := s.goroutines.set i { copy := copy, phase := phase } }

def addEvent (s : ScheduleWorld) (event : ScheduleEvent) : ScheduleWorld :=
  { s with log := event :: s.log }

end ScheduleWorld

/-! ## Steps -/

/-- The steps.  The user edits the spec, or somebody writes the metadata
(`touch`); the reconciles of the pipeline count its runs and arm its schedule;
a reconcile of a run sets the end date; goroutine number `i` wakes, creates
its run, breaks off on an API error, or records; and runs and kubernetes jobs
change. -/
inductive ScheduleAction where
  | edit (spec : PipelineSpec)
  | touch
  | countRuns (now : Time)
  | reconcile (now : Time) (accepted : Bool)
  | finishRun (name : String) (now : Time)
  | wake (i : Nat)
  | create (i address : Nat) (now : Time)
  | breakOff (i : Nat)
  | record (i : Nat)
  | setRuns (runs : List Run)
  | setKJobs (kjobs : List KJob)
  deriving Repr, DecidableEq

/-- The status that `updatePipelineStatus` writes. -/
def countedStatus (pipeline : Pipeline) (runs : List Run) (now : Time) : PipelineStatus :=
  { pipeline.status with
    runs := runs.countP fun run =>
      run.ns = pipeline.ns ∧ run.labels.pipelineName = pipeline.name
    createdDate := some pipeline.creationTimestamp
    lastUpdatedDate := some now.stored }

/-- The write of a pass that is accepted, with the goroutine it starts. -/
def ScheduleWorld.applyOutcome (s : ScheduleWorld) (now : Time) :
    ScheduleOutcome → ScheduleWorld
  | .quiet | .requeued | .failed _ | .panicked => s
  | .untouched => s.writeStatus s.status
  | .removed status => (s.writeStatus status).addEvent (.cleared true)
  | .emptied status => (s.writeStatus status).addEvent (.cleared false)
  | .pendingCleared status => (s.writeStatus status).addEvent (.cleared false)
  | .armed status reset =>
      { (s.writeStatus status).addEvent (.armed s.goroutines.length now.stored reset) with
        goroutines := s.goroutines ++ [{ copy := { s.pipeline.val with status := status } }] }

/-- The run exists under the name of the given one. -/
def ScheduleWorld.hasRun (s : ScheduleWorld) (run : Run) : Bool :=
  s.runs.any fun other => other.ns = run.ns ∧ other.name = run.name

/-- The run that sets the end date: one of this pipeline that has ended. -/
def ScheduleWorld.endedRun (s : ScheduleWorld) (name : String) : Bool :=
  s.runs.any fun run => run.ns = s.pipeline.val.ns ∧ run.name = name ∧
    run.labels.pipelineName = s.pipeline.val.name ∧
    EndsExecution run (s.cluster.listRunKJobs run.ns run.name)

/-- A step.  A run is created without a status, which the API server drops. -/
def ScheduleWorld.step (lib : Externals) (s : ScheduleWorld) :
    ScheduleAction → Option ScheduleWorld
  | .edit spec => some { s with pipeline := s.pipeline.write { s.pipeline.val with spec := spec } }
  | .touch => some { s with pipeline := s.pipeline.bump }
  | .countRuns now => some (s.writeStatus (countedStatus s.pipeline.val s.runs now))
  | .reconcile now accepted =>
      if accepted then
        some (s.applyOutcome now (ensureScheduleExecution lib s.pipeline.val now))
      else some s
  | .finishRun name now =>
      if s.endedRun name then
        some (s.writeStatus { s.status with scheduleLastExecutionEndDate := some now.stored })
      else none
  | .wake i =>
      match s.goroutines[i]? with
      | some ⟨copy, .sleeping⟩ =>
          match compareWith copy.status s.status with
          | .passes => some (s.setPhase i copy (.checked s.pipeline))
          | _ => some (s.setPhase i copy .done)
      | _ => none
  | .create i address now =>
      match s.goroutines[i]? with
      | some ⟨copy, .checked read⟩ =>
          if ∃ endDate ∈ copy.status.schedule.bind Schedule.endDate, endDate < now then
            some (s.setPhase i copy .done)
          else match constructRunFromPipeline lib address read.val with
            | .error _ => some (s.setPhase i copy .done)
            | .ok run =>
                if s.hasRun run then some (s.setPhase i copy .done)
                else some { (s.setPhase i copy (.created read now)).addEvent (.created i run) with
                  runs := s.runs ++ [run] }
      | _ => none
  | .breakOff i =>
      match s.goroutines[i]? with
      | some ⟨copy, .sleeping⟩ => some (s.setPhase i copy .done)
      | some ⟨copy, .checked _⟩ => some (s.setPhase i copy .done)
      | _ => none
  | .record i =>
      match s.goroutines[i]? with
      | some ⟨copy, .created read now⟩ =>
          if read.version = s.pipeline.version then
            some (((s.writeStatus (recordedStatus now read.val.status)).setPhase i copy
              .done).addEvent (.recorded i))
          else some (s.setPhase i copy .done)
      | _ => none
  | .setRuns runs => some { s with runs := runs }
  | .setKJobs kjobs => some { s with cluster := { s.cluster with kjobs := kjobs } }

/-- The machine of a schedule.  It starts without goroutines, on a pipeline
that the parameter allows. -/
def scheduleMachine (lib : Externals) (start : Pipeline → Prop) :
    Machine ScheduleWorld ScheduleAction where
  init s := start s.pipeline.val ∧ s.goroutines = [] ∧ s.log = []
  step := ScheduleWorld.step lib

/-! ## What a step can do -/

/-- The six fields of the status that belong to the schedule. -/
structure ScheduleFields where
  schedule : Option Schedule
  start : Option Time
  pending : Option Time
  lastStart : Option Time
  lastEnd : Option Time
  repeated : Nat
  deriving DecidableEq

def scheduleFields (status : PipelineStatus) : ScheduleFields where
  schedule := status.schedule
  start := status.scheduleStartDate
  pending := status.schedulePendingExecuctionDate
  lastStart := status.scheduleLastExecutionStartDate
  lastEnd := status.scheduleLastExecutionEndDate
  repeated := status.scheduleRepeated

/-- The guard reads the dates of the last execution alone. -/
theorem guardInForce_of_fields {before after : PipelineStatus}
    (hfields : scheduleFields after = scheduleFields before) :
    GuardInForce after ↔ GuardInForce before := by
  have hstart := congrArg ScheduleFields.lastStart hfields
  have hend := congrArg ScheduleFields.lastEnd hfields
  simp only [scheduleFields] at hstart hend
  rw [GuardInForce, GuardInForce, hstart, hend]

/-- What a pass leaves of the schedule when it clears a part of it. -/
structure Cleared (before after : PipelineStatus) : Prop where
  schedule : after.schedule = before.schedule
  lastStart : after.scheduleLastExecutionStartDate = before.scheduleLastExecutionStartDate
  lastEnd : after.scheduleLastExecutionEndDate = before.scheduleLastExecutionEndDate
  repeated : after.scheduleRepeated = before.scheduleRepeated
  pending : after.schedulePendingExecuctionDate = before.schedulePendingExecuctionDate ∨
    after.schedulePendingExecuctionDate = none
  dates : after.scheduleStartDate = none ∨ after.schedulePendingExecuctionDate = none

theorem Cleared.guardInForce {before after : PipelineStatus} (h : Cleared before after) :
    GuardInForce after ↔ GuardInForce before := by
  rw [GuardInForce, GuardInForce, h.lastStart, h.lastEnd]

/-- What a step does.  Most steps keep the schedule (`kept`); the others are
the passes that clear or arm it, the end date, and the steps of goroutines. -/
inductive ScheduleEffect (lib : Externals) (s t : ScheduleWorld) : ScheduleAction → Prop where
  | kept {a : ScheduleAction} (hfields : scheduleFields t.status = scheduleFields s.status)
      (hsnapshot : ∀ read : Versioned Pipeline,
        read.Snapshot s.pipeline → read.Snapshot t.pipeline)
      (hspec : (∀ spec, a ≠ .edit spec) → t.pipeline.val.spec = s.pipeline.val.spec)
      (hkjobs : (∀ kjobs, a ≠ .setKJobs kjobs) → t.cluster = s.cluster)
      (hgoroutines : t.goroutines = s.goroutines) (hlog : t.log = s.log) :
      ScheduleEffect lib s t a
  | removed {now : Time} (hspec : s.pipeline.val.spec.schedule = none)
      (hschedule : s.status.schedule.isSome)
      (ht : t = (s.writeStatus (removedStatus s.status)).addEvent (.cleared true)) :
      ScheduleEffect lib s t (.reconcile now true)
  | cleared {now : Time} {status : PipelineStatus} (hcleared : Cleared s.status status)
      (ht : t = (s.writeStatus status).addEvent (.cleared false)) :
      ScheduleEffect lib s t (.reconcile now true)
  | armed {now : Time} {schedule : Schedule} {status : PipelineStatus} {duration : Duration}
      (hspec : s.pipeline.val.spec.schedule = some schedule)
      (hpass : PassStatus s.status status) (hguard : ¬ GuardInForce status)
      (hrepeats : schedule.repeats = false → status.scheduleRepeated = 0)
      (houtcome : ensureScheduleExecution lib s.pipeline.val now =
        .armed (armedStatus schedule duration now status) (NeedsReset schedule status))
      (ht : t = s.applyOutcome now
        (.armed (armedStatus schedule duration now status) (NeedsReset schedule status))) :
      ScheduleEffect lib s t (.reconcile now true)
  | ended {name : String} {now : Time} (hended : s.endedRun name)
      (ht : t = s.writeStatus
        { s.status with scheduleLastExecutionEndDate := some now.stored }) :
      ScheduleEffect lib s t (.finishRun name now)
  | stopped {a : ScheduleAction} {i : Nat} {g : Goroutine} (hg : s.goroutines[i]? = some g)
      (hphase : g.phase = .sleeping ∨ ∃ read, g.phase = .checked read)
      (ht : t = s.setPhase i g.copy .done) : ScheduleEffect lib s t a
  | passed {i : Nat} {copy : Pipeline} (hg : s.goroutines[i]? = some ⟨copy, .sleeping⟩)
      (hpasses : compareWith copy.status s.status = .passes)
      (ht : t = s.setPhase i copy (.checked s.pipeline)) : ScheduleEffect lib s t (.wake i)
  | created {i address : Nat} {now : Time} {copy : Pipeline} {read : Versioned Pipeline}
      {run : Run} (hg : s.goroutines[i]? = some ⟨copy, .checked read⟩)
      (hend : ¬ ∃ endDate ∈ copy.status.schedule.bind Schedule.endDate, endDate < now)
      (hrun : constructRunFromPipeline lib address read.val = .ok run)
      (ht : t = { (s.setPhase i copy (.created read now)).addEvent (.created i run) with
        runs := s.runs ++ [run] }) : ScheduleEffect lib s t (.create i address now)
  | recorded {i : Nat} {now : Time} {copy : Pipeline} {read : Versioned Pipeline}
      (hg : s.goroutines[i]? = some ⟨copy, .created read now⟩)
      (hversion : read.version = s.pipeline.version)
      (ht : t = ((s.writeStatus (recordedStatus now read.val.status)).setPhase i copy
        .done).addEvent (.recorded i)) : ScheduleEffect lib s t (.record i)
  | refused {i : Nat} {now : Time} {copy : Pipeline} {read : Versioned Pipeline}
      (hg : s.goroutines[i]? = some ⟨copy, .created read now⟩)
      (hversion : read.version ≠ s.pipeline.version)
      (ht : t = s.setPhase i copy .done) : ScheduleEffect lib s t (.record i)

section Step

variable {lib : Externals} {s t : ScheduleWorld}

@[simp] theorem status_writeStatus (s : ScheduleWorld) (status : PipelineStatus) :
    (s.writeStatus status).status = status := by
  simp [ScheduleWorld.status, ScheduleWorld.writeStatus]

@[simp] theorem spec_writeStatus (s : ScheduleWorld) (status : PipelineStatus) :
    (s.writeStatus status).pipeline.val.spec = s.pipeline.val.spec := by
  simp [ScheduleWorld.writeStatus]

@[simp] theorem status_setPhase (s : ScheduleWorld) (i : Nat) (copy : Pipeline)
    (phase : GoroutinePhase) : (s.setPhase i copy phase).status = s.status := rfl

@[simp] theorem status_addEvent (s : ScheduleWorld) (event : ScheduleEvent) :
    (s.addEvent event).status = s.status := rfl

/-- A write that keeps the schedule keeps it. -/
private theorem kept_writeStatus {a : ScheduleAction} {status : PipelineStatus}
    (hfields : scheduleFields status = scheduleFields s.status) :
    ScheduleEffect lib s (s.writeStatus status) a :=
  .kept (by rw [status_writeStatus, hfields]) (fun _ hread => hread.write _)
    (fun _ => spec_writeStatus s status) (fun _ => rfl) rfl rfl

/-- A step that changes nothing keeps the schedule. -/
private theorem kept_refl {a : ScheduleAction} : ScheduleEffect lib s s a :=
  .kept rfl (fun _ hread => hread) (fun _ => rfl) (fun _ => rfl) rfl rfl

/-- What is written by a pass that has got to the end. -/
private theorem arm_effect {schedule : Schedule}
    (hspec : s.pipeline.val.spec.schedule = some schedule) {status : PipelineStatus}
    (hpass : PassStatus s.status status) {now : Time}
    (houtcome : ensureScheduleExecution lib s.pipeline.val now =
      armSchedule lib schedule status now) :
    ScheduleEffect lib s (s.applyOutcome now (armSchedule lib schedule status now))
      (.reconcile now true) := by
  have hresult := armSchedule_result lib schedule status now
  generalize armSchedule lib schedule status now = outcome at hresult houtcome ⊢
  cases hresult with
  | quiet | requeued | failed => exact kept_refl
  | emptied =>
      have hcleared : Cleared s.status { status with scheduleStartDate := none } :=
        ⟨hpass.schedule, hpass.lastStart, hpass.lastEnd, hpass.repeated, hpass.pending, Or.inl rfl⟩
      exact .cleared hcleared rfl
  | pendingCleared =>
      have hcleared : Cleared s.status { status with schedulePendingExecuctionDate := none } :=
        ⟨hpass.schedule, hpass.lastStart, hpass.lastEnd, hpass.repeated, Or.inr rfl, Or.inr rfl⟩
      exact .cleared hcleared rfl
  | armed hguard hrepeats duration => exact .armed hspec hpass hguard hrepeats houtcome rfl

/-- What an accepted pass does. -/
private theorem reconcile_effect (lib : Externals) (s : ScheduleWorld) (now : Time) :
    ScheduleEffect lib s (s.applyOutcome now (ensureScheduleExecution lib s.pipeline.val now))
      (.reconcile now true) := by
  cases hspec : s.pipeline.val.spec.schedule with
  | none =>
      cases hschedule : s.pipeline.val.status.schedule with
      | none =>
          simp only [ensureScheduleExecution, hspec, hschedule]
          exact kept_writeStatus rfl
      | some schedule =>
          simp only [ensureScheduleExecution, hspec, hschedule]
          exact .removed hspec (by simp [ScheduleWorld.status, hschedule]) rfl
  | some schedule =>
      rcases ensureScheduleExecution_of_schedule lib hspec now with
        hrequeued | hpanicked | ⟨status, hpass, hpassed⟩
      · rw [hrequeued]
        exact kept_refl
      · rw [hpanicked]
        exact kept_refl
      · rw [hpassed]
        exact arm_effect hspec hpass hpassed

/-- Every step has one of the effects. -/
theorem ScheduleWorld.step_effect {a : ScheduleAction} (hstep : s.step lib a = some t) :
    ScheduleEffect lib s t a := by
  cases a with
  | edit spec =>
      cases hstep
      exact .kept (by simp [ScheduleWorld.status]) (fun _ hread => hread.write _)
        (fun hne => absurd rfl (hne spec)) (fun _ => rfl) rfl rfl
  | touch =>
      cases hstep
      exact .kept rfl (fun _ hread => hread.bump) (fun _ => rfl) (fun _ => rfl) rfl rfl
  | countRuns now =>
      cases hstep
      exact kept_writeStatus rfl
  | reconcile now accepted =>
      simp only [ScheduleWorld.step] at hstep
      split at hstep
      · next haccepted =>
          subst haccepted
          cases hstep
          exact reconcile_effect lib s now
      · cases hstep
        exact kept_refl
  | finishRun name now =>
      simp only [ScheduleWorld.step] at hstep
      split at hstep
      · next hended =>
          cases hstep
          exact .ended hended rfl
      · cases hstep
  | wake i =>
      simp only [ScheduleWorld.step] at hstep
      split at hstep
      · next copy hg =>
          split at hstep
          · next hpasses =>
              cases hstep
              exact .passed hg hpasses rfl
          · cases hstep
            exact .stopped hg (Or.inl rfl) rfl
      · cases hstep
  | create i address now =>
      simp only [ScheduleWorld.step] at hstep
      split at hstep
      · next copy read hg =>
          have hstopped : ScheduleEffect lib s (s.setPhase i copy .done)
              (.create i address now) := .stopped hg (Or.inr ⟨read, rfl⟩) rfl
          split at hstep
          · cases hstep
            exact hstopped
          · next hend =>
              split at hstep
              · cases hstep
                exact hstopped
              · next run hrun =>
                  split at hstep
                  · cases hstep
                    exact hstopped
                  · cases hstep
                    exact .created hg hend hrun rfl
      · cases hstep
  | breakOff i =>
      simp only [ScheduleWorld.step] at hstep
      split at hstep
      · next copy hg =>
          cases hstep
          exact .stopped hg (Or.inl rfl) rfl
      · next copy read hg =>
          cases hstep
          exact .stopped hg (Or.inr ⟨read, rfl⟩) rfl
      · cases hstep
  | record i =>
      simp only [ScheduleWorld.step] at hstep
      split at hstep
      · next copy read now hg =>
          split at hstep
          · next hversion =>
              cases hstep
              exact .recorded hg hversion rfl
          · next hversion =>
              cases hstep
              exact .refused hg hversion rfl
      · cases hstep
  | setRuns runs =>
      cases hstep
      exact .kept rfl (fun _ hread => hread) (fun _ => rfl) (fun _ => rfl) rfl rfl
  | setKJobs kjobs =>
      cases hstep
      exact .kept rfl (fun _ hread => hread) (fun _ => rfl)
        (fun hne => absurd rfl (hne kjobs)) rfl rfl

/-- A step of a goroutine leaves all copies as they were. -/
theorem copy_of_setPhase {i : Nat} {g : Goroutine} (hg : s.goroutines[i]? = some g)
    {phase : GoroutinePhase} {j : Nat} {g' : Goroutine}
    (hg' : (s.setPhase i g.copy phase).goroutines[j]? = some g') :
    ∃ before, s.goroutines[j]? = some before ∧ g'.copy = before.copy := by
  simp only [ScheduleWorld.setPhase, List.getElem?_set] at hg'
  split at hg'
  · next hij =>
      subst hij
      split at hg'
      · cases hg'
        exact ⟨g, hg, rfl⟩
      · cases hg'
  · exact ⟨g', hg', rfl⟩

end Step

/-! ## A pipeline with a schedule -/

/-- A pipeline that is executed after an hour, once or again and again. -/
def hourly (repeats : Bool) : Pipeline where
  name := "hourly"
  ns := "team"
  spec :=
    { schedule := some { scheduleDate := "1h", repeats := repeats }
      tasks := [{ name := "build", image := "build" }] }

/-- The state before its first reconcile. -/
def hourlyWorld (repeats : Bool) : ScheduleWorld where
  pipeline := ⟨0, hourly repeats⟩

end PipelineOperator.Controller
