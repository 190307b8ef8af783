import PipelineOperator.Controller.InFlight
import PipelineOperator.Controller.RunExists

/-!
# Overlapping executions

The guard against overlapping executions is a pair of dates on the pipeline:
an execution has been started and has not ended yet.  The recording goroutine
sets it, and the reconcile of a run lifts it.  But that may be any run of the
pipeline: when an old run is reconciled again, the guard is lifted although
the execution started last goes on.

## Main results

* `Protected.step`: what one step preserves.
* `no_overlap`: executions do not overlap in the runs of the machine in which
  the guard is lifted only when all executions are over.
* `old_run_lifts_guard`: a run in which it is lifted before.
-/

namespace PipelineOperator.Controller

open PipelineOperator.Lib
open PipelineOperator.Api

/-! ## Executions -/

/-- Every job of the run has a kubernetes job, and all of these are recorded
in a post-run state. -/
def Finished (c : Cluster) (run : Run) : Prop :=
  (c.listRunKJobs run.ns run.name).length = run.spec.jobs.length ∧
    ∀ kjob ∈ c.listRunKJobs run.ns run.name, kjob.recorded.PostRun

instance (c : Cluster) (run : Run) : Decidable (Finished c run) := by
  unfold Finished
  infer_instance

/-- Every run that a schedule has created is finished. -/
def AllFinished (s : ScheduleWorld) : Prop :=
  ∀ entry ∈ createdRuns s.log, Finished s.cluster entry.2

instance (s : ScheduleWorld) : Decidable (AllFinished s) := by
  unfold AllFinished
  infer_instance

/-- Every run that a schedule has created is finished, or its goroutine has
still to record it. -/
def Settled (s : ScheduleWorld) : Prop :=
  ∀ entry ∈ createdRuns s.log, InFlight s entry.1 ∨ Finished s.cluster entry.2

instance (s : ScheduleWorld) : Decidable (Settled s) := by
  unfold Settled
  infer_instance

/-- Whether an execution is armed. -/
def ScheduleOutcome.arms : ScheduleOutcome → Bool
  | .armed _ _ => true
  | _ => false

/-- The pass arms an execution. -/
def Arms (lib : Externals) (s : ScheduleWorld) (now : Time) : Prop :=
  (ensureScheduleExecution lib s.pipeline.val now).arms = true

instance (lib : Externals) (s : ScheduleWorld) (now : Time) : Decidable (Arms lib s now) := by
  unfold Arms
  infer_instance

/-- The schedule of the pipeline repeats. -/
def Repeating (pipeline : Pipeline) : Prop :=
  ∃ schedule ∈ pipeline.spec.schedule, schedule.repeats = true

instance (pipeline : Pipeline) : Decidable (Repeating pipeline) := by
  unfold Repeating
  infer_instance

/-- The user leaves the spec alone. -/
def KeepsSpec (_ : ScheduleWorld) (a : ScheduleAction) : Prop :=
  match a with
  | .edit _ => False
  | _ => True

instance (s : ScheduleWorld) (a : ScheduleAction) : Decidable (KeepsSpec s a) := by
  cases a <;> (dsimp only [KeepsSpec]; infer_instance)

/-- The pass is stopped: an execution is running, the pending date lies ahead,
or the next execution would lie behind the end date. -/
def Stopped (lib : Externals) (pipeline : Pipeline) (now : Time) : Prop :=
  GuardInForce pipeline.status ∨
    (∃ schedule ∈ pipeline.spec.schedule, ∃ current ∈ pipeline.status.schedule,
      ∃ pending ∈ pipeline.status.schedulePendingExecuctionDate,
        schedule.scheduleDate = current.scheduleDate ∧ now < pending) ∨
    ∃ schedule ∈ pipeline.spec.schedule, ∃ endDate ∈ schedule.endDate,
      ∃ duration ∈ (scheduleDuration lib schedule.scheduleDate schedule.startDate now).toOption,
        endDate < now + duration

instance (lib : Externals) (pipeline : Pipeline) (now : Time) :
    Decidable (Stopped lib pipeline now) := by
  unfold Stopped
  infer_instance

/-- The steps that can leave an unfinished run without the guard do not.  No
pass gets past the guard while the unfinished run of a goroutine has still to
be recorded; the end date is set only when all other runs are finished; a
record is refused only when its run is finished; and finished runs stay
finished. -/
def KeepsGuard (lib : Externals) (s : ScheduleWorld) (a : ScheduleAction) : Prop :=
  match a with
  | .reconcile now true => ¬ Stopped lib s.pipeline.val now →
      ∀ entry ∈ createdRuns s.log, InFlight s entry.1 → Finished s.cluster entry.2
  | .finishRun _ _ => GuardInForce s.status → Settled s
  | .record i => Refused s i → ¬ GuardInForce s.status →
      ∀ entry ∈ createdRuns s.log, entry.1 = i → Finished s.cluster entry.2
  | .setKJobs kjobs => ¬ GuardInForce s.status →
      ∀ entry ∈ createdRuns s.log, ¬ InFlight s entry.1 → Finished s.cluster entry.2 →
        Finished { s.cluster with kjobs := kjobs } entry.2
  | _ => True

instance (lib : Externals) (s : ScheduleWorld) (a : ScheduleAction) :
    Decidable (KeepsGuard lib s a) := by
  cases a with
  | reconcile now accepted => cases accepted <;> (dsimp only [KeepsGuard]; infer_instance)
  | _ => dsimp only [KeepsGuard]; infer_instance

/-- The guard is in force, or there is nothing to guard. -/
def Protected (s : ScheduleWorld) : Prop := GuardInForce s.status ∨ Settled s

section Overlap

variable {lib : Externals} {s t : ScheduleWorld} {a : ScheduleAction}

/-! ## When a pass arms -/

/-- A pass before the pending date is requeued. -/
theorem requeued_of_pending {pipeline : Pipeline} {schedule current : Schedule}
    {pending now : Time} (hschedule : pipeline.spec.schedule = some schedule)
    (hcurrent : pipeline.status.schedule = some current)
    (hpending : pipeline.status.schedulePendingExecuctionDate = some pending)
    (hdate : schedule.scheduleDate = current.scheduleDate) (hlt : now < pending) :
    ensureScheduleExecution lib pipeline now = .requeued := by
  simp only [ensureScheduleExecution, hschedule, hcurrent, hpending, if_pos hdate, if_pos hlt]

/-- A pass that arms was not stopped. -/
theorem not_stopped_of_arms {now : Time} (h : Arms lib s now) :
    ¬ Stopped lib s.pipeline.val now := by
  have harmed : ∃ armed reset,
      ensureScheduleExecution lib s.pipeline.val now = .armed armed reset := by
    cases houtcome : ensureScheduleExecution lib s.pipeline.val now with
    | armed status reset => exact ⟨status, reset, rfl⟩
    | _ =>
        rw [Arms, houtcome] at h
        cases h
  obtain ⟨armed, reset, houtcome⟩ := harmed
  cases hschedule : s.pipeline.val.spec.schedule with
  | none =>
      cases hcurrent : s.pipeline.val.status.schedule <;>
        simp [ensureScheduleExecution, hschedule, hcurrent] at houtcome
  | some schedule =>
      rcases ensureScheduleExecution_of_schedule lib hschedule now with
        hrequeued | hpanicked | ⟨status, hpass, hpassed⟩
      · rw [hrequeued] at houtcome
        cases houtcome
      · rw [hpanicked] at houtcome
        cases houtcome
      · obtain ⟨computed, hcomputed, hguard, hend, -⟩ :=
          armSchedule_armed (hpassed.symm.trans houtcome)
        rintro (hforce | ⟨spec, hspec, current, hcurrent, pending, hpending, hdate, hlt⟩ |
          ⟨spec, hspec, endDate, hendDate, duration, hduration, hlt⟩)
        · rw [GuardInForce, hpass.lastStart, hpass.lastEnd] at hguard
          exact hguard hforce
        · rw [requeued_of_pending hspec hcurrent hpending hdate hlt] at houtcome
          cases houtcome
        · rw [hschedule] at hspec
          cases hspec
          rw [hcomputed] at hduration
          cases hduration
          exact hend endDate hendDate hlt

/-! ## What steps keep -/

/-- The spec changes only by an edit. -/
theorem ScheduleEffect.spec (h : ScheduleEffect lib s t a) (hkeeps : KeepsSpec s a) :
    t.pipeline.val.spec = s.pipeline.val.spec := by
  cases h with
  | kept _ _ hspec _ _ _ =>
      refine hspec ?_
      rintro spec rfl
      exact hkeeps
  | removed _ _ ht => subst ht; exact spec_writeStatus _ _
  | cleared _ ht => subst ht; exact spec_writeStatus _ _
  | armed _ _ _ _ _ ht => subst ht; exact spec_writeStatus _ _
  | ended _ ht => subst ht; exact spec_writeStatus _ _
  | stopped _ _ ht => subst ht; rfl
  | passed _ _ ht => subst ht; rfl
  | created _ _ _ ht => subst ht; rfl
  | recorded _ _ ht => subst ht; exact spec_writeStatus _ _
  | refused _ _ ht => subst ht; rfl

/-- The kubernetes jobs change only in the step that says so. -/
theorem ScheduleEffect.cluster (h : ScheduleEffect lib s t a)
    (hkjobs : ∀ kjobs, a ≠ .setKJobs kjobs) : t.cluster = s.cluster := by
  cases h with
  | kept _ _ _ hcluster _ _ => exact hcluster hkjobs
  | removed _ _ ht => subst ht; rfl
  | cleared _ ht => subst ht; rfl
  | armed _ _ _ _ _ ht => subst ht; rfl
  | ended _ ht => subst ht; rfl
  | stopped _ _ ht => subst ht; rfl
  | passed _ _ ht => subst ht; rfl
  | created _ _ _ ht => subst ht; rfl
  | recorded _ _ ht => subst ht; rfl
  | refused _ _ ht => subst ht; rfl

/-- A run that is settled for good is finished after the step. -/
private theorem finished_after (hstep : s.step lib a = some t) (hok : KeepsGuard lib s a)
    (hforce : ¬ GuardInForce s.status) {entry : Nat × Run} (hentry : entry ∈ createdRuns s.log)
    (hflight : ¬ InFlight s entry.1) (hfinished : Finished s.cluster entry.2) :
    Finished t.cluster entry.2 := by
  by_cases hkjobs : ∃ kjobs, a = .setKJobs kjobs
  · obtain ⟨kjobs, rfl⟩ := hkjobs
    cases hstep
    exact hok hforce entry hentry hflight hfinished
  · have hcluster := (ScheduleWorld.step_effect hstep).cluster fun kjobs ha => hkjobs ⟨kjobs, ha⟩
    rw [hcluster]
    exact hfinished

/-- While the guard is in force it stays so, unless the end date is set. -/
private theorem guard_step (hforce : GuardInForce s.status) (hrepeating : Repeating s.pipeline.val)
    (hok : KeepsGuard lib s a) (h : ScheduleEffect lib s t a) : Protected t := by
  cases h with
  | kept hfields _ _ _ _ _ =>
      left
      exact (guardInForce_of_fields hfields).mpr hforce
  | removed hspec _ _ =>
      obtain ⟨schedule, hschedule, -⟩ := hrepeating
      rw [hspec] at hschedule
      cases hschedule
  | cleared hcleared ht =>
      subst ht
      left
      rw [status_addEvent, status_writeStatus]
      exact hcleared.guardInForce.mpr hforce
  | armed _ hpass hguard _ _ _ =>
      rw [GuardInForce, hpass.lastStart, hpass.lastEnd] at hguard
      exact absurd hforce hguard
  | ended _ ht =>
      subst ht
      exact Or.inr (hok hforce)
  | stopped _ _ ht => subst ht; exact Or.inl hforce
  | passed _ _ ht => subst ht; exact Or.inl hforce
  | created _ _ _ ht => subst ht; exact Or.inl hforce
  | recorded _ _ ht =>
      subst ht
      left
      simp [GuardInForce, recordedStatus]
  | refused _ _ ht => subst ht; exact Or.inl hforce

/-- While it is not in force, runs stay settled until an execution is
recorded. -/
private theorem settled_step (hforce : ¬ GuardInForce s.status) (hsettled : Settled s)
    (hok : KeepsGuard lib s a) (hstep : s.step lib a = some t) : Protected t := by
  have h := ScheduleWorld.step_effect hstep
  by_cases hafter : GuardInForce t.status
  · exact Or.inl hafter
  · right
    intro entry hentry
    have hcases : entry ∈ createdRuns s.log ∨ InFlight t entry.1 := by
      rcases h.log with hlog | ⟨event, hlog, -, hcreation⟩
      · rw [hlog] at hentry
        exact Or.inl hentry
      · rw [hlog, createdRuns_cons] at hentry
        rcases List.mem_append.mp hentry with hnew | hold
        · exact Or.inr (hcreation entry (Option.mem_toList.mp hnew))
        · exact Or.inl hold
    rcases hcases with hold | hnew
    · by_cases hflight : InFlight s entry.1
      · rcases h.inFlight_after hflight with hstays | ⟨-, hrecorded⟩ | ⟨rfl, hrefused⟩
        · exact Or.inl hstays
        · exact absurd hrecorded hafter
        · right
          rw [h.cluster (by simp)]
          exact hok hrefused hforce entry hold rfl
      · right
        exact finished_after hstep hok hforce hold hflight
          ((hsettled entry hold).resolve_left hflight)
    · exact Or.inl hnew

/-- One step keeps the executions protected. -/
theorem Protected.step (hinv : Protected s) (hrepeating : Repeating s.pipeline.val)
    (hok : KeepsGuard lib s a) (hstep : s.step lib a = some t) : Protected t := by
  by_cases hforce : GuardInForce s.status
  · exact guard_step hforce hrepeating hok (ScheduleWorld.step_effect hstep)
  · exact settled_step hforce (hinv.resolve_left hforce) hok hstep

/-- Executions do not overlap in the runs in which no step leaves an
unfinished run without the guard: a pass arms only when every run that the
schedule has created is finished, and the guard is in force as long as one is
not, once its goroutine has recorded it. -/
theorem no_overlap
    (h : (scheduleMachine lib Repeating).Reach
      (fun s a => KeepsSpec s a ∧ KeepsGuard lib s a) s) :
    (∀ now, KeepsGuard lib s (.reconcile now true) → Arms lib s now → AllFinished s) ∧
      Protected s := by
  have hinv : Repeating s.pipeline.val ∧ Protected s := by
    apply h.invariant
    · intro s hinit
      refine ⟨hinit.1, Or.inr ?_⟩
      intro entry hentry
      simp [hinit.2.2, createdRuns] at hentry
    · intro s a t hinv hok hstep
      have hspec := (ScheduleWorld.step_effect hstep).spec hok.1
      refine ⟨?_, hinv.2.step hinv.1 hok.2 hstep⟩
      rw [Repeating, hspec]
      exact hinv.1
  refine ⟨?_, hinv.2⟩
  intro now hok harms entry hentry
  have hstopped := not_stopped_of_arms harms
  have hsettled := hinv.2.resolve_left fun hforce => hstopped (Or.inl hforce)
  by_cases hflight : InFlight s entry.1
  · exact hok hstopped entry hentry hflight
  · exact (hsettled entry hentry).resolve_left hflight

end Overlap

/-! ## An old run that lifts the guard -/

/-- The runs of the schedule on which examples are evaluated. -/
def hourlyRun (address : Nat) : Run :=
  (constructRunFromPipeline Externals.plain address (hourly true)).toOption.getD {}

/-- The kubernetes job of such a run, recorded as completed. -/
def completedKJob (address : Nat) : KJob where
  name := "build"
  ns := "team"
  labels := { runName := (hourlyRun address).name }
  annotations := { status := "completed" }

/-- The first execution: it is armed, created, recorded, and ends. -/
def firstExecution : List ScheduleAction :=
  [ .reconcile 0 true
  , .wake 0
  , .create 0 someAddress (3600 * Time.second)
  , .record 0
  , .setKJobs [completedKJob someAddress]
  , .finishRun (hourlyRun someAddress).name (3700 * Time.second) ]

def firstExecutionWorld : ScheduleWorld :=
  ((scheduleMachine Externals.plain Repeating).exec
    (fun s a => KeepsSpec s a ∧ KeepsGuard Externals.plain s a)
    (hourlyWorld true) firstExecution).getD (hourlyWorld true)

/-- The next pass arms the second execution. -/
theorem no_overlap_firstExecution :
    Arms Externals.plain firstExecutionWorld (3800 * Time.second) ∧
      AllFinished firstExecutionWorld := by
  have hinit : (scheduleMachine Externals.plain Repeating).init (hourlyWorld true) :=
    ⟨by decide, rfl, rfl⟩
  have hexec : (scheduleMachine Externals.plain Repeating).exec
      (fun s a => KeepsSpec s a ∧ KeepsGuard Externals.plain s a) (hourlyWorld true)
      firstExecution = some firstExecutionWorld := by
    decide +kernel
  obtain ⟨hfinished, -⟩ := no_overlap (Machine.reach_of_exec _ hinit hexec)
  have hok : KeepsGuard Externals.plain firstExecutionWorld
      (.reconcile (3800 * Time.second) true) := by
    decide +kernel
  have harms : Arms Externals.plain firstExecutionWorld (3800 * Time.second) := by decide +kernel
  constructor
  · exact harms
  · exact hfinished (3800 * Time.second) hok harms

/-- While the second execution goes on, the run of the first is reconciled
again. -/
def oldRunReconciled : List ScheduleAction :=
  firstExecution ++
    [ .reconcile (3800 * Time.second) true
    , .wake 1
    , .create 1 otherAddress (7400 * Time.second)
    , .record 1
    , .finishRun (hourlyRun someAddress).name (7500 * Time.second) ]

def oldRunReconciledWorld : ScheduleWorld :=
  ((scheduleMachine Externals.plain Repeating).exec KeepsSpec (hourlyWorld true)
    oldRunReconciled).getD (hourlyWorld true)

/-- The next pass arms a third execution before the second has ended. -/
theorem old_run_lifts_guard :
    (scheduleMachine Externals.plain Repeating).Reach KeepsSpec oldRunReconciledWorld ∧
      Arms Externals.plain oldRunReconciledWorld (7600 * Time.second) ∧
      ¬ AllFinished oldRunReconciledWorld := by
  have hinit : (scheduleMachine Externals.plain Repeating).init (hourlyWorld true) :=
    ⟨by decide, rfl, rfl⟩
  have hexec : (scheduleMachine Externals.plain Repeating).exec KeepsSpec (hourlyWorld true)
      oldRunReconciled = some oldRunReconciledWorld := by
    decide +kernel
  exact ⟨Machine.reach_of_exec _ hinit hexec, by decide +kernel, by decide +kernel⟩

end PipelineOperator.Controller
