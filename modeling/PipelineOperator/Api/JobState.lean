import PipelineOperator.Api.Types
import PipelineOperator.Go.Strings

/-!
# States of jobs and runs

The states of a job with their categories and their order, the classifier
`DetermineJobStateFrom` that reads them off a kubernetes job, and
`DetermineJobStateFromOrder`, which aggregates them into the state of a run.
-/

namespace PipelineOperator.Api

open PipelineOperator.Go

/-! ## Texts -/

/-- The text of a state, as it stands in the status annotation. -/
def JobState.text : JobState → String
  | .initializing => "initializing"
  | .waiting => "waiting"
  | .stopping => "stopping"
  | .running => "running"
  | .deleting => "deleting"
  | .completed => "completed"
  | .deleted => "deleted"
  | .failed => "failed"
  | .unknown => "unknown"
  | .undeclared text => text

/-- The conversion `JobState(text)`. -/
def JobState.ofText (text : String) : JobState :=
  if text = "initializing" then .initializing
  else if text = "waiting" then .waiting
  else if text = "stopping" then .stopping
  else if text = "running" then .running
  else if text = "deleting" then .deleting
  else if text = "completed" then .completed
  else if text = "deleted" then .deleted
  else if text = "failed" then .failed
  else if text = "unknown" then .unknown
  else .undeclared text

/-- Converting a text loses nothing. -/
theorem JobState.text_ofText (text : String) : (JobState.ofText text).text = text := by
  unfold JobState.ofText
  repeat' split
  all_goals simp_all [JobState.text]

/-- The conversion `RunState(state)`; only `unknown` has no run state of its
own. -/
def RunState.ofJobState : JobState → RunState
  | .initializing => .initializing
  | .waiting => .waiting
  | .stopping => .stopping
  | .running => .running
  | .deleting => .deleting
  | .completed => .completed
  | .deleted => .deleted
  | .failed => .failed
  | .unknown => .undeclared "unknown"
  | .undeclared text => .undeclared text

/-- The state recorded on a kubernetes job. -/
def KJob.recorded (kjob : KJob) : JobState := JobState.ofText kjob.annotations.status

/-! ## Categories -/

inductive JobCategory where
  | preRun
  | run
  | postRun
  deriving Repr, DecidableEq

/-- A lookup in `JobCategoryMap`; `none` is the empty category of a missing
key. -/
def jobCategory : JobState → Option JobCategory
  | .initializing => some .preRun
  | .waiting => some .preRun
  | .stopping => some .preRun
  | .running => some .run
  | .deleting => some .run
  | .completed => some .postRun
  | .failed => some .postRun
  | .deleted => some .postRun
  | .unknown => none
  | .undeclared _ => none

/-- The categories of the states of a run, as they are grouped where they are
declared. -/
def runCategory : RunState → Option JobCategory
  | .initializing | .waiting | .stopping => some .preRun
  | .running | .deleting => some .run
  | .completed | .deleted | .failed => some .postRun
  | .undeclared _ => none

/-- A run has the category of the job whose state it takes. -/
theorem runCategory_ofJobState (state : JobState) :
    runCategory (RunState.ofJobState state) = jobCategory state := by
  cases state <;> rfl

/-- The state is in the post-run category. -/
def JobState.PostRun (state : JobState) : Prop := jobCategory state = some .postRun

instance (state : JobState) : Decidable state.PostRun := by
  unfold JobState.PostRun
  infer_instance

theorem JobState.postRun_iff {state : JobState} :
    state.PostRun ↔ state = .completed ∨ state = .failed ∨ state = .deleted := by
  cases state <;> simp [JobState.PostRun, jobCategory]

/-! ## The classifier -/

/-- The job is held back: it is suspended or its trigger is set. -/
def KJob.Held (kjob : KJob) : Prop :=
  kjob.suspend = true ∨ kjob.annotations.trigger = formatBool true

instance (kjob : KJob) : Decidable kjob.Held := by
  unfold KJob.Held
  infer_instance

/-- `DetermineJobStateFrom`.  The cases of the source's switch are tried in
order; an active job whose pod is neither pending nor running leaves the
switch and is called deleted. -/
def determineJobStateFrom (kjob : KJob) (pod : Pod) : JobState :=
  if kjob.Held then .waiting
  else if 0 < kjob.status.active then
    if pod.phase = .pending then .initializing
    else if pod.phase = .running then .running
    else .deleted
  else if 0 < kjob.status.succeeded then .completed
  else if 0 < kjob.status.failed then .failed
  else if ¬ Time.isZero kjob.deletionTimestamp then
    if 0 < kjob.status.active then .stopping else .deleting
  else .initializing

theorem determineJobStateFrom_of_held {kjob : KJob} (pod : Pod) (h : kjob.Held) :
    determineJobStateFrom kjob pod = .waiting := by
  rw [determineJobStateFrom, if_pos h]

theorem determineJobStateFrom_of_active {kjob : KJob} (pod : Pod) (h : ¬ kjob.Held)
    (hactive : 0 < kjob.status.active) :
    determineJobStateFrom kjob pod =
      if pod.phase = .pending then .initializing
      else if pod.phase = .running then .running
      else .deleted := by
  rw [determineJobStateFrom, if_neg h, if_pos hactive]

/-- Of an idle job that is not held back only the counters and the deletion
mark are read. -/
theorem determineJobStateFrom_of_idle {kjob : KJob} (pod : Pod) (h : ¬ kjob.Held)
    (hidle : kjob.status.active = 0) :
    determineJobStateFrom kjob pod =
      if 0 < kjob.status.succeeded then .completed
      else if 0 < kjob.status.failed then .failed
      else if Time.isZero kjob.deletionTimestamp then .initializing
      else .deleting := by
  have hactive : ¬ 0 < kjob.status.active := by omega
  rw [determineJobStateFrom, if_neg h, if_neg hactive, if_neg hactive]
  cases Time.isZero kjob.deletionTimestamp <;> simp

/-- A post-run state is recorded of a job that is not held back. -/
theorem not_held_of_postRun {kjob : KJob} (pod : Pod)
    (h : (determineJobStateFrom kjob pod).PostRun) : ¬ kjob.Held := by
  intro hheld
  rw [determineJobStateFrom_of_held pod hheld] at h
  cases h

/-- Completed is recorded of a job that has succeeded and runs no pod. -/
theorem succeeded_of_completed {kjob : KJob} {pod : Pod}
    (h : determineJobStateFrom kjob pod = .completed) : kjob.status.Succeeded := by
  have hheld : ¬ kjob.Held := not_held_of_postRun pod (by rw [h]; rfl)
  by_cases hactive : 0 < kjob.status.active
  · rw [determineJobStateFrom_of_active pod hheld hactive] at h
    split at h
    · cases h
    · split at h <;> cases h
  · have hidle : kjob.status.active = 0 := by omega
    rw [determineJobStateFrom_of_idle pod hheld hidle] at h
    split at h
    · next hsucceeded => exact ⟨hsucceeded, hidle⟩
    · split at h
      · cases h
      · split at h <;> cases h

/-- An idle job that is not held back is called post-run exactly when it has
succeeded or failed. -/
theorem postRun_iff_of_idle {kjob : KJob} (pod : Pod) (h : ¬ kjob.Held)
    (hidle : kjob.status.active = 0) :
    (determineJobStateFrom kjob pod).PostRun ↔
      0 < kjob.status.succeeded ∨ 0 < kjob.status.failed := by
  rw [determineJobStateFrom_of_idle pod h hidle]
  split
  · next hsucceeded => simp [JobState.PostRun, jobCategory, hsucceeded]
  · next hsucceeded =>
      split
      · next hfailed => simp [JobState.PostRun, jobCategory, hfailed]
      · next hfailed =>
          split <;> simp [JobState.PostRun, jobCategory, hsucceeded, hfailed]

/-- The classifier declares nothing new, so its result is read back from the
annotation unchanged. -/
theorem ofText_determineJobStateFrom (kjob : KJob) (pod : Pod) :
    JobState.ofText (determineJobStateFrom kjob pod).text = determineJobStateFrom kjob pod := by
  unfold determineJobStateFrom
  repeat' split
  all_goals decide

/-- A recorded state has a text. -/
theorem text_determineJobStateFrom_ne (kjob : KJob) (pod : Pod) :
    (determineJobStateFrom kjob pod).text ≠ "" := by
  unfold determineJobStateFrom
  repeat' split
  all_goals decide

/-! ## The order of states -/

/-- A lookup in `StateOrder`, zero for a missing key. -/
def stateOrder : JobState → Nat
  | .failed => 8
  | .running => 7
  | .initializing => 6
  | .waiting => 5
  | .completed => 4
  | .deleting => 3
  | .stopping => 2
  | .deleted => 1
  | .unknown => 0
  | .undeclared _ => 0

def determineJobStateFromOrder (prevState nextState : JobState) : JobState :=
  if stateOrder nextState < stateOrder prevState then prevState else nextState

/-- The eight states that a kubernetes job can be in. -/
def declaredStates : List JobState :=
  [.initializing, .waiting, .stopping, .running, .deleting, .completed, .deleted, .failed]

def JobState.Declared (state : JobState) : Prop := state ∈ declaredStates

instance (state : JobState) : Decidable state.Declared := by
  unfold JobState.Declared
  infer_instance

/-- Their orders differ, and are higher than the order the aggregation starts
from. -/
theorem stateOrder_inj {state other : JobState} (hstate : state.Declared) (hother : other.Declared)
    (horder : stateOrder state = stateOrder other) : state = other := by
  have hall : ∀ s ∈ declaredStates, ∀ t ∈ declaredStates, stateOrder s = stateOrder t → s = t := by
    decide
  exact hall state hstate other hother horder

theorem stateOrder_pos {state : JobState} (hstate : state.Declared) : 0 < stateOrder state := by
  have hall : ∀ s ∈ declaredStates, 0 < stateOrder s := by decide
  exact hall state hstate

/-- The counter of a state. -/
def RunStatus.counter (status : RunStatus) : JobState → Option Nat
  | .initializing => status.initializing
  | .waiting => status.waiting
  | .stopping => status.stopping
  | .running => status.running
  | .deleting => status.deleting
  | .completed => status.completed
  | .deleted => status.deleted
  | .failed => status.failed
  | .unknown => none
  | .undeclared _ => none

end PipelineOperator.Api
