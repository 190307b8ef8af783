import PipelineOperator.Controller.ScheduleMachine

/-!
# Accesses through nil pointers

The schedule of the spec and four fields of the status are pointers, and the
schedule code follows them mostly without a check of their own.  This file
spells `ensureScheduleExecution` and the decision of `scheduleExecution` out
with every access to these pointers, an access through a nil pointer being
`none`, and compares the result with the functions that the machine uses.

## Main results

* `ensureScheduleExecutionAccess_eq`, `scheduleExecutionAccess_isSome`: a nil
  access happens where the functions of the machine say so, and nowhere else.
* `Grounded.step`: a pending date comes with a schedule in the status.
* `no_nil_access`: hence no nil access in any run.
-/

namespace PipelineOperator.Controller

open PipelineOperator.Lib
open PipelineOperator.Api

/-! ## `ensureScheduleExecution` with its accesses -/

section Ensure

variable (lib : Externals) (spec : Option Schedule) (status : PipelineStatus)

/-- `Spec.Schedule.EndDate != nil && Status.SchedulePendingExecuctionDate != nil
&& Status.SchedulePendingExecuctionDate.Before(Spec.Schedule.EndDate)` -/
def pendingBeforeEndAccess : Option Bool := do
  let endDate := (← spec).endDate
  if endDate.isSome ∧ status.schedulePendingExecuctionDate.isSome then
    return (← status.schedulePendingExecuctionDate) < (← endDate)
  else return false

/-- `!Spec.Schedule.Repeat && Status.ScheduleRepeated > 0` -/
def alreadyExecutedAccess : Option Bool := do
  return !(← spec).repeats && 0 < status.scheduleRepeated

/-- `Status.Schedule == nil || Status.Schedule.ScheduleDate != Spec.Schedule.ScheduleDate` -/
def needsResetAccess : Option Bool := do
  if status.schedule.isNone then return true
  else return (← status.schedule).scheduleDate ≠ (← spec).scheduleDate

/-- `Spec.Schedule.EndDate != nil && pendingExecutionDate.After(Spec.Schedule.EndDate.Time)` -/
def afterEndAccess (pendingExecutionDate : Time) : Option Bool := do
  let endDate := (← spec).endDate
  if endDate.isSome then return (← endDate) < pendingExecutionDate
  else return false

/-- The end of a pass: it sets the dates, writes, and reads the pending date
back for the time to sleep. -/
def armAccess (now pendingExecutionDate : Time) : Option ScheduleOutcome := do
  let reset ← needsResetAccess spec status
  let status := if reset then { status with
      scheduleLastExecutionStartDate := none
      scheduleLastExecutionEndDate := none
      scheduleRepeated := 0 } else status
  if ← afterEndAccess spec pendingExecutionDate then return .quiet
  else
    let status := { status with
      schedule := spec
      scheduleStartDate := some now.stored
      schedulePendingExecuctionDate := some pendingExecutionDate.stored }
    let _ ← status.schedulePendingExecuctionDate
    return .armed status reset

/-- The pass behind the branch on the pending date. -/
def armScheduleAccess (now : Time) : Option ScheduleOutcome := do
  if GuardInForce status then return .quiet
  else if (← spec).scheduleDate = "" then
    return .emptied { status with scheduleStartDate := none }
  else match scheduleDuration lib (← spec).scheduleDate (← spec).startDate now with
    | .error e => return .failed e
    | .ok duration =>
        if ← pendingBeforeEndAccess spec status then
          return .pendingCleared { status with schedulePendingExecuctionDate := none }
        else if ← alreadyExecutedAccess spec status then return .requeued
        else armAccess spec status now (now + duration)

/-- `Status.SchedulePendingExecuctionDate != nil
&& Spec.Schedule.ScheduleDate == Status.Schedule.ScheduleDate` -/
def alreadyPendingAccess : Option Bool := do
  if status.schedulePendingExecuctionDate.isSome then
    return (← spec).scheduleDate = (← status.schedule).scheduleDate
  else return false

end Ensure

def ensureScheduleExecutionAccess (lib : Externals) (pipeline : Pipeline) (now : Time) :
    Option ScheduleOutcome := do
  let spec := pipeline.spec.schedule
  let status := pipeline.status
  if spec.isNone ∧ status.schedule.isNone then return .untouched
  else if spec.isNone ∧ status.schedule.isSome then return .removed (removedStatus status)
  else if ← alreadyPendingAccess spec status then
    if now < (← status.schedulePendingExecuctionDate) then return .requeued
    else if status.scheduleLastExecutionStartDate = none then
      armScheduleAccess lib spec { status with schedulePendingExecuctionDate := none } now
    else armScheduleAccess lib spec status now
  else armScheduleAccess lib spec status now

/-! ## `scheduleExecution` with its accesses -/

/-- `copied != nil && current != nil && !copied.Time.Equal(current.Time)` -/
def dateChangedAccess (copied current : Option Time) : Option Bool := do
  if copied.isSome ∧ current.isSome then return (← copied) ≠ (← current)
  else return false

/-- Comparisons one after another; the first that holds ends them. -/
def firstAccess : List (Option Bool) → Option Bool
  | [] => some false
  | comparison :: rest => do if ← comparison then return true else firstAccess rest

/-- The comparisons of a goroutine's copy with what it has read, in their order. -/
def comparisons (copied current : PipelineStatus) : List (Option Bool) :=
  [ some (nilChanged copied.scheduleStartDate current.scheduleStartDate)
  , some (nilChanged copied.schedulePendingExecuctionDate current.schedulePendingExecuctionDate)
  , do return nilChanged (← copied.schedule).endDate (← current.schedule).endDate
  , dateChangedAccess copied.scheduleStartDate current.scheduleStartDate
  , dateChangedAccess copied.schedulePendingExecuctionDate current.schedulePendingExecuctionDate
  , do dateChangedAccess (← copied.schedule).endDate (← current.schedule).endDate
  , do return (← copied.schedule).repeats ≠ (← current.schedule).repeats
  , some (copied.scheduleRepeated ≠ current.scheduleRepeated) ]

/-- The decision of a goroutine: its early returns, the comparisons, and the
check of the end date.  It goes on to create a run if the result is `true`. -/
def scheduleExecutionAccess (copied current : PipelineStatus) (now : Time) : Option Bool := do
  if copied.schedule.isNone then return false
  else if copied.schedulePendingExecuctionDate.isNone then return false
  else
    -- `time.Until(pipeline.Status.SchedulePendingExecuctionDate.Time)`
    let _ ← copied.schedulePendingExecuctionDate
    if ← firstAccess (comparisons copied current) then return false
    else return !(← afterEndAccess copied.schedule now)

/-! ## Comparison with the functions of the machine -/

/-- The outcome, unless it is a nil access. -/
def ScheduleOutcome.unlessPanicked : ScheduleOutcome → Option ScheduleOutcome
  | .panicked => none
  | outcome => some outcome

section Comparison

variable {schedule : Schedule} {status : PipelineStatus}

theorem pendingBeforeEndAccess_eq :
    pendingBeforeEndAccess (some schedule) status =
      some (decide (∃ endDate ∈ schedule.endDate,
        ∃ pending ∈ status.schedulePendingExecuctionDate, pending < endDate)) := by
  cases hend : schedule.endDate <;> cases hpending : status.schedulePendingExecuctionDate <;>
    simp [pendingBeforeEndAccess, hend, hpending]

theorem alreadyExecutedAccess_eq :
    alreadyExecutedAccess (some schedule) status =
      some (decide (¬ schedule.repeats ∧ 0 < status.scheduleRepeated)) := by
  cases hrepeats : schedule.repeats <;> simp [alreadyExecutedAccess, hrepeats]

theorem needsResetAccess_eq :
    needsResetAccess (some schedule) status = some (decide (NeedsReset schedule status)) := by
  cases hcurrent : status.schedule <;> simp [needsResetAccess, NeedsReset, hcurrent]

theorem afterEndAccess_eq (pendingExecutionDate : Time) :
    afterEndAccess (some schedule) pendingExecutionDate =
      some (decide (∃ endDate ∈ schedule.endDate, endDate < pendingExecutionDate)) := by
  cases hend : schedule.endDate <;> simp [afterEndAccess, hend]

theorem armAccess_eq (now : Time) (duration : Duration) :
    armAccess (some schedule) status now (now + duration) =
      some (if ∃ endDate ∈ schedule.endDate, endDate < now + duration then .quiet
        else .armed (armedStatus schedule duration now status) (NeedsReset schedule status)) := by
  simp only [armAccess, needsResetAccess_eq, afterEndAccess_eq, Option.bind_eq_bind,
    Option.bind_some, Option.pure_def]
  split
  · next hend => rw [if_pos (of_decide_eq_true hend)]
  · next hend =>
      rw [if_neg (fun h => hend (decide_eq_true h))]
      simp only [armedStatus, resetStatus, decide_eq_true_eq]

/-- Behind the branch on the pending date there is no nil access. -/
theorem armScheduleAccess_eq (lib : Externals) (now : Time) :
    armScheduleAccess lib (some schedule) status now =
      some (armSchedule lib schedule status now) := by
  unfold armScheduleAccess armSchedule
  split
  · rfl
  · simp only [Option.bind_eq_bind, Option.bind_some, Option.pure_def]
    split
    · rfl
    · cases hduration : scheduleDuration lib schedule.scheduleDate schedule.startDate now with
      | error e => rfl
      | ok duration =>
          simp only [pendingBeforeEndAccess_eq, alreadyExecutedAccess_eq, armAccess_eq,
            Option.bind_some, decide_eq_true_eq]
          split
          · rfl
          · split <;> rfl

theorem unlessPanicked_armSchedule (lib : Externals) (now : Time) :
    (armSchedule lib schedule status now).unlessPanicked =
      some (armSchedule lib schedule status now) := by
  have hresult := armSchedule_result lib schedule status now
  generalize armSchedule lib schedule status now = outcome at hresult ⊢
  cases hresult <;> rfl

end Comparison

/-- A pass makes a nil access exactly where the function of the machine says
that it panics. -/
theorem ensureScheduleExecutionAccess_eq (lib : Externals) (pipeline : Pipeline) (now : Time) :
    ensureScheduleExecutionAccess lib pipeline now =
      (ensureScheduleExecution lib pipeline now).unlessPanicked := by
  unfold ensureScheduleExecutionAccess ensureScheduleExecution
  cases hspec : pipeline.spec.schedule with
  | none =>
      cases hschedule : pipeline.status.schedule <;>
        simp [hschedule, ScheduleOutcome.unlessPanicked]
  | some schedule =>
      cases hpending : pipeline.status.schedulePendingExecuctionDate with
      | none => simp [alreadyPendingAccess, hpending, armScheduleAccess_eq,
          unlessPanicked_armSchedule]
      | some pending =>
          cases hschedule : pipeline.status.schedule with
          | none => simp [alreadyPendingAccess, hpending, hschedule,
              ScheduleOutcome.unlessPanicked]
          | some current =>
              simp only [alreadyPendingAccess, hpending, hschedule, armScheduleAccess_eq,
                Option.bind_eq_bind, Option.bind_some, Option.pure_def, Option.isSome_some,
                Option.isNone_some, if_true, false_and, if_false, Bool.false_eq_true,
                decide_eq_true_eq]
              split
              · split
                · rfl
                · split <;> rw [unlessPanicked_armSchedule]
              · rw [unlessPanicked_armSchedule]

/-- Where the status has a schedule, or no pending date, a pass makes no nil
access. -/
theorem ensureScheduleExecutionAccess_isSome {lib : Externals} {pipeline : Pipeline}
    (hstored : pipeline.status.schedulePendingExecuctionDate.isSome →
      pipeline.status.schedule.isSome) (now : Time) :
    (ensureScheduleExecutionAccess lib pipeline now).isSome := by
  rw [ensureScheduleExecutionAccess_eq]
  unfold ensureScheduleExecution
  split
  · rfl
  · rfl
  · split
    · rw [unlessPanicked_armSchedule]
      rfl
    · next hpending hschedule =>
        have hsome := hstored (by rw [hpending]; rfl)
        rw [hschedule] at hsome
        cases hsome
    · split
      · split
        · rfl
        · split <;> (rw [unlessPanicked_armSchedule]; rfl)
      · rw [unlessPanicked_armSchedule]
        rfl

theorem dateChangedAccess_eq (copied current : Option Time) :
    dateChangedAccess copied current = some (dateChanged copied current) := by
  cases copied with
  | none => simp [dateChangedAccess, dateChanged]
  | some t =>
      cases current with
      | none => simp [dateChangedAccess, dateChanged]
      | some u =>
          by_cases htu : t = u <;> simp [dateChangedAccess, dateChanged, htu]

/-- Comparisons without a nil access. -/
theorem firstAccess_isSome {l : List (Option Bool)} (h : ∀ comparison ∈ l, comparison.isSome) :
    (firstAccess l).isSome := by
  induction l with
  | nil => rfl
  | cons comparison rest ih =>
      have hrest := ih fun c hc => h c (List.mem_cons_of_mem _ hc)
      obtain ⟨changed, rfl⟩ := Option.isSome_iff_exists.mp (h _ List.mem_cons_self)
      cases changed
      · exact hrest
      · rfl

/-- The decision of a goroutine makes a nil access exactly where the comparisons
of the machine panic, and otherwise comes to the same. -/
theorem scheduleExecutionAccess_eq (copied current : PipelineStatus) (now : Time) :
    scheduleExecutionAccess copied current now =
      match compareWith copied current with
      | .panics => none
      | .aborts => some false
      | .passes =>
          some (!decide (∃ endDate ∈ copied.schedule.bind Schedule.endDate, endDate < now)) := by
  unfold scheduleExecutionAccess compareWith
  cases hschedule : copied.schedule with
  | none => rfl
  | some schedule =>
      cases hpending : copied.schedulePendingExecuctionDate with
      | none => rfl
      | some pending =>
          simp only [Option.isNone_some, Bool.false_eq_true, if_false, Option.bind_eq_bind,
            Option.bind_some, Option.pure_def, comparisons, firstAccess, hschedule, hpending,
            afterEndAccess_eq, dateChangedAccess_eq]
          cases hcurrent : current.schedule with
          | none =>
              simp only [Option.bind_none]
              repeat' split
              all_goals simp_all
          | some currentSchedule =>
              simp only [Option.bind_some]
              repeat' split
              all_goals simp_all

/-- Where what is read has a schedule, or has no pending date, the decision of
a goroutine makes no nil access. -/
theorem scheduleExecutionAccess_isSome {copied current : PipelineStatus}
    (hcurrent : current.schedulePendingExecuctionDate.isSome → current.schedule.isSome)
    (now : Time) : (scheduleExecutionAccess copied current now).isSome := by
  unfold scheduleExecutionAccess
  cases hschedule : copied.schedule with
  | none => rfl
  | some schedule =>
      cases hpending : copied.schedulePendingExecuctionDate with
      | none => rfl
      | some pending =>
          have hcompared : (firstAccess (comparisons copied current)).isSome := by
            cases hread : current.schedulePendingExecuctionDate with
            | none =>
                -- The second comparison sees that the pending date is gone.
                cases hstart : nilChanged copied.scheduleStartDate current.scheduleStartDate <;>
                  simp [comparisons, firstAccess, hpending, hread, nilChanged]
            | some _ =>
                obtain ⟨currentSchedule, hsome⟩ :=
                  Option.isSome_iff_exists.mp (hcurrent (by rw [hread]; rfl))
                apply firstAccess_isSome
                simp [comparisons, hschedule, hsome, dateChangedAccess_eq]
          obtain ⟨changed, hchanged⟩ := Option.isSome_iff_exists.mp hcompared
          cases changed <;>
            simp [hchanged, afterEndAccess_eq]

/-! ## Runs of the machine -/

/-- A pending date comes with a schedule in the status. -/
def Grounded (status : PipelineStatus) : Prop :=
  status.schedulePendingExecuctionDate.isSome → status.schedule.isSome

section Run

variable {lib : Externals} {s t : ScheduleWorld} {a : ScheduleAction}

/-- One step keeps the status grounded. -/
theorem Grounded.step (hinv : Grounded s.status) (hstep : s.step lib a = some t) :
    Grounded t.status := by
  cases ScheduleWorld.step_effect hstep with
  | kept hfields _ _ _ _ _ =>
      have hschedule : t.status.schedule = s.status.schedule :=
        congrArg ScheduleFields.schedule hfields
      have hpending : t.status.schedulePendingExecuctionDate =
          s.status.schedulePendingExecuctionDate := congrArg ScheduleFields.pending hfields
      rw [Grounded, hschedule, hpending]
      exact hinv
  | removed _ _ ht =>
      subst ht
      simp [Grounded, removedStatus]
  | cleared hcleared ht =>
      subst ht
      simp only [Grounded, status_addEvent, status_writeStatus, hcleared.schedule]
      rcases hcleared.pending with hpending | hpending
      · rw [hpending]
        exact hinv
      · simp [hpending]
  | armed _ _ _ _ _ ht =>
      subst ht
      simp [Grounded, ScheduleWorld.applyOutcome, armedStatus, ScheduleWorld.status,
        ScheduleWorld.writeStatus, ScheduleWorld.addEvent]
  | ended _ ht =>
      subst ht
      simpa [Grounded] using hinv
  | stopped _ _ ht => subst ht; exact hinv
  | passed _ _ ht => subst ht; exact hinv
  | created _ _ _ ht => subst ht; exact hinv
  | recorded _ _ ht =>
      subst ht
      simp [Grounded, recordedStatus]
  | refused _ _ ht => subst ht; exact hinv

/-- From a pipeline with an empty status no run makes a nil access, neither in
a pass nor in the decision of any goroutine. -/
theorem no_nil_access
    (h : (scheduleMachine lib fun pipeline => pipeline.status = {}).Reachable s) :
    (∀ now, (ensureScheduleExecutionAccess lib s.pipeline.val now).isSome) ∧
      ∀ (i : Nat) (g : Goroutine), s.goroutines[i]? = some g →
        ∀ now, (scheduleExecutionAccess g.copy.status s.status now).isSome := by
  have hinv : Grounded s.status := by
    apply h.invariant
    · intro s hinit
      simp [Grounded, ScheduleWorld.status, hinit.1]
    · intro s a t hinv _ hstep
      exact hinv.step hstep
  constructor
  · intro now
    exact ensureScheduleExecutionAccess_isSome hinv now
  · intro i g _ now
    exact scheduleExecutionAccess_isSome hinv now

end Run

/-! ## A schedule that is removed and added again -/

/-- The user removes the schedule of an armed pipeline and adds it again; the
goroutine of the arming still sleeps. -/
def removedAndAdded : List ScheduleAction :=
  [ .reconcile 0 true
  , .edit { (hourly true).spec with schedule := none }
  , .reconcile Time.second true
  , .edit (hourly true).spec ]

def removedAndAddedWorld : ScheduleWorld :=
  ((scheduleMachine Externals.plain fun pipeline => pipeline.status = {}).exec
    (fun _ _ => True) (hourlyWorld true) removedAndAdded).getD (hourlyWorld true)

theorem no_nil_access_removedAndAdded :
    (ensureScheduleExecutionAccess Externals.plain removedAndAddedWorld.pipeline.val
        (2 * Time.second)).isSome ∧
      ∀ g ∈ removedAndAddedWorld.goroutines[0]?,
        (scheduleExecutionAccess g.copy.status removedAndAddedWorld.status
          (3600 * Time.second)).isSome := by
  have hinit : (scheduleMachine Externals.plain fun pipeline => pipeline.status = {}).init
      (hourlyWorld true) := ⟨rfl, rfl, rfl⟩
  have hexec : (scheduleMachine Externals.plain fun pipeline => pipeline.status = {}).exec
      (fun _ _ => True) (hourlyWorld true) removedAndAdded = some removedAndAddedWorld := by
    decide +kernel
  obtain ⟨hpass, hgoroutine⟩ := no_nil_access (Machine.reach_of_exec _ hinit hexec)
  exact ⟨hpass _, fun g hg => hgoroutine 0 g hg _⟩

end PipelineOperator.Controller
