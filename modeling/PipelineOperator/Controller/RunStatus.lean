import PipelineOperator.Controller.KJobList

/-!
# `updateRunStatus`

After the pass over its jobs a reconcile writes the status of the run.  It
lists the kubernetes jobs by the label with the name of the run, copies what
is recorded on each of them, counts the recorded states, and takes the one of
the highest order for the state of the run.  When every job has ended it also
sets the end date on the pipeline; that write belongs to the schedule and is
modelled with it.

## Main results

* `aggregate_recorded`: the aggregate of the recorded states is one of them.
* `stateOrder_le_aggregate`: none of them has a higher order.
-/

namespace PipelineOperator.Controller

open PipelineOperator.Api

/-- The jobs of a namespace with a given run-name label. -/
def Cluster.listRunKJobs (c : Cluster) (ns runName : String) : List KJob :=
  c.kjobs.filter fun kjob => kjob.ns = ns ∧ kjob.labels.runName = runName

def runJobStateOf (kjob : KJob) : RunJobState where
  name := kjob.name
  runJobName := kjob.labels.runJobName
  jobState := kjob.recorded
  reason := kjob.annotations.reason

/-- The aggregate, starting from the state of the lowest order. -/
def aggregate (states : List JobState) : JobState :=
  states.foldl determineJobStateFromOrder .unknown

def countState (state : JobState) (kjobs : List KJob) : Nat :=
  kjobs.countP fun kjob => kjob.recorded = state

/-- The position that the map `m` has for a job name: the last one of the
name, and zero for a name that no job has. -/
def jobIndex (run : Run) (name : String) : Nat :=
  run.spec.jobs.zipIdx.foldl (fun m entry => if entry.1.name = name then entry.2 else m) 0

/-- The status that a reconcile writes, from the jobs it has listed. -/
def runStatusFrom (lib : Externals) (run : Run) (kjobs : List KJob) (now : Time) : RunStatus :=
  { run.status with
    jobStates := lib.sortSlice
      (fun a b => jobIndex run a.runJobName < jobIndex run b.runJobName)
      (kjobs.map runJobStateOf)
    initializing := some (countState .initializing kjobs)
    waiting := some (countState .waiting kjobs)
    stopping := some (countState .stopping kjobs)
    running := some (countState .running kjobs)
    deleting := some (countState .deleting kjobs)
    completed := some (countState .completed kjobs)
    deleted := some (countState .deleted kjobs)
    failed := some (countState .failed kjobs)
    runState := RunState.ofJobState (aggregate (kjobs.map KJob.recorded))
    createdDate := some run.creationTimestamp
    lastUpdatedDate := some now }

/-- The run has as many ended kubernetes jobs as its spec has jobs; a
reconcile then sets the end date on the pipeline. -/
def EndsExecution (run : Run) (kjobs : List KJob) : Prop :=
  countState .completed kjobs + countState .deleted kjobs + countState .failed kjobs =
    run.spec.jobs.length

instance (run : Run) (kjobs : List KJob) : Decidable (EndsExecution run kjobs) := by
  unfold EndsExecution
  infer_instance

/-! ## The aggregate -/

/-- One step of the aggregation keeps one of the two states, and keeps a
highest order. -/
theorem determineJobStateFromOrder_spec (prevState nextState : JobState) :
    (determineJobStateFromOrder prevState nextState = prevState ∨
      determineJobStateFromOrder prevState nextState = nextState) ∧
    stateOrder prevState ≤ stateOrder (determineJobStateFromOrder prevState nextState) ∧
    stateOrder nextState ≤ stateOrder (determineJobStateFromOrder prevState nextState) := by
  unfold determineJobStateFromOrder
  split
  · next hlt => exact ⟨Or.inl rfl, Nat.le_refl _, Nat.le_of_lt hlt⟩
  · next hle => exact ⟨Or.inr rfl, Nat.le_of_not_lt hle, Nat.le_refl _⟩

private theorem foldl_order_spec (states : List JobState) (state : JobState) :
    (states.foldl determineJobStateFromOrder state = state ∨
      states.foldl determineJobStateFromOrder state ∈ states) ∧
    stateOrder state ≤ stateOrder (states.foldl determineJobStateFromOrder state) ∧
    ∀ other ∈ states,
      stateOrder other ≤ stateOrder (states.foldl determineJobStateFromOrder state) := by
  induction states generalizing state with
  | nil => simp
  | cons next states ih =>
      obtain ⟨hkept, hprev, hnext⟩ := determineJobStateFromOrder_spec state next
      obtain ⟨hmem, hle, hall⟩ := ih (determineJobStateFromOrder state next)
      rw [List.foldl_cons]
      refine ⟨?_, Nat.le_trans hprev hle, ?_⟩
      · rcases hmem with heq | hmem
        · rw [heq]
          rcases hkept with hkept | hkept
          · exact Or.inl hkept
          · exact Or.inr (by simp [hkept])
        · exact Or.inr (List.mem_cons_of_mem _ hmem)
      · intro other hother
        rcases List.mem_cons.mp hother with rfl | hother
        · exact Nat.le_trans hnext hle
        · exact hall other hother

/-- The aggregate is a state of the list, or the state it starts from. -/
theorem aggregate_recorded (states : List JobState) :
    aggregate states = .unknown ∨ aggregate states ∈ states :=
  (foldl_order_spec states .unknown).1

/-- No state of the list has a higher order than the aggregate. -/
theorem stateOrder_le_aggregate {states : List JobState} {state : JobState}
    (hstate : state ∈ states) : stateOrder state ≤ stateOrder (aggregate states) :=
  (foldl_order_spec states .unknown).2.2 state hstate

end PipelineOperator.Controller
