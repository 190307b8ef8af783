import PipelineOperator.Controller.Ownership
import PipelineOperator.Controller.Reconcile
import PipelineOperator.Lib.Isolation

/-!
# The operator as a whole

The reconcilers of pipelines and of runs and the goroutines that the former
start, over one store.  Other than in `reconcilePipeline` and `reconcileRun`, a
reconcile that fails leaves what it has written before, and a reconcile of a
pipeline starts its goroutine and says when it wants to be called again.  Each
reconcile, and each goroutine from its wake-up on, is taken as a whole here,
without anybody writing in between.

Everybody else is the environment of a namespace, which may put any objects in
the place of those that are there.

## Main results

* `PipelineReconciler.reconcile_ok`, `RunReconciler.reconcile_ok`: without an
  error these are `reconcilePipeline` and `reconcileRun`.
-/

namespace PipelineOperator.Controller

open PipelineOperator.Lib
open PipelineOperator.Api

/-! ## States -/

/-- How a reconcile ends: an error, or the `RequeueAfter` of its result, where
zero is not to be called again. -/
abbrev ReconcileResult := Except String Duration

/-- A result, and the namespace of the request. -/
structure Outcome where
  ns : String
  result : ReconcileResult

/-- The stored objects, the copies that goroutines are asleep with, and what
the reconciles so far have come to, the latest one first. -/
structure OperatorWorld where
  store : ObjectStore := {}
  goroutines : List Pipeline := []
  outcomes : List Outcome := []

/-! ## Pipelines -/

def minute : Duration := 60 * Time.second

/-- When the reconcile is called again after `ensureScheduleExecution`: a
minute later, or three seconds after the pending date. -/
def requeueAfter (now : Time) : ScheduleOutcome → Duration
  | .requeued => minute
  | .armed status _ => status.schedulePendingExecuctionDate.getD now - now + 3 * Time.second
  | .quiet | .failed _ | .panicked | .untouched | .removed _ | .emptied _ | .pendingCleared _ => 0

/-- The copy that the goroutine of a pass works on, if it starts one. -/
def startedBy (pipeline : Pipeline) : ScheduleOutcome → List Pipeline
  | .armed status _ => [{ pipeline with status := status }]
  | .quiet | .requeued | .failed _ | .panicked | .untouched | .removed _ | .emptied _
  | .pendingCleared _ => []

namespace PipelineReconciler

/-- `ensureScheduleExecution`, with its write and its goroutine. -/
def schedule (lib : Externals) (pipeline : Pipeline) (now : Time) (s : OperatorWorld) :
    OperatorWorld × ReconcileResult :=
  let outcome := ensureScheduleExecution lib pipeline now
  match writtenStatus pipeline.status outcome with
  | .error e => (s, .error e)
  | .ok status =>
      ({ s with
          store.pipelines :=
            updateStatusOfPipeline s.store.pipelines { pipeline with status := status }
          goroutines := s.goroutines ++ startedBy pipeline outcome },
        .ok (requeueAfter now outcome))

/-- The reconcile from the second fetch on. -/
def execute (lib : Externals) (ns name : String) (address : Nat) (now : Time)
    (s : OperatorWorld) : OperatorWorld × ReconcileResult :=
  match getPipeline s.store.pipelines ns name with
  | none => (s, .ok 0)
  | some pipeline =>
      match ensureRunExists lib address pipeline s.store.runs with
      | .error e => (s, .error e)
      | .ok runs => schedule lib pipeline now { s with store.runs := runs }

/-- `PipelineReconciler.Reconcile`, with the schedule decoded at `address`. -/
def reconcile (lib : Externals) (ns name : String) (address : Nat) (now : Time)
    (s : OperatorWorld) : OperatorWorld × ReconcileResult :=
  match getPipeline s.store.pipelines ns name with
  | none => (s, .ok 0)
  | some pipeline =>
      match updatePipelineStatus pipeline now s.store with
      | .error e => (s, .error e)
      | .ok counted =>
          match ensurePipelineMetadata pipeline counted with
          | .error e => ({ s with store := counted }, .error e)
          | .ok labelled => execute lib ns name address now { s with store := labelled }

/-- `scheduleExecution` after its sleep, on its copy of the pipeline; `now` is
the second reading of the clock. -/
def scheduleExecution (lib : Externals) (pipeline : Pipeline) (address : Nat) (now : Time)
    (s : OperatorWorld) : OperatorWorld × Except String Unit :=
  if pipeline.status.schedule = none ∨ pipeline.status.schedulePendingExecuctionDate = none then
    (s, .ok ())
  else match getPipeline s.store.pipelines pipeline.ns pipeline.name with
  | none => (s, notFound "pipelines.pipeline.1eedaegon.github.io" pipeline.name)
  | some currentPipeline =>
      match compareWith pipeline.status currentPipeline.status with
      | .aborts => (s, .ok ())
      | .panics => (s, .error nilDereference)
      | .passes =>
          if ∃ endDate ∈ pipeline.status.schedule.bind Schedule.endDate, endDate < now then
            (s, .ok ())
          else match executeSchedule lib address currentPipeline s.store.runs with
          | .error e => (s, .error e)
          | .ok runs =>
              let recorded := { currentPipeline with
                status := recordedStatus now currentPipeline.status }
              ({ s with
                  store.runs := runs
                  store.pipelines := updateStatusOfPipeline s.store.pipelines recorded },
                .ok ())

end PipelineReconciler

/-! ## Runs -/

namespace RunReconciler

/-- How the retry loop of `updateRunStatus` ends the reconcile. -/
def statusResult (run : Run) : AttemptVerdict → ReconcileResult
  | .done => .ok 0
  | .conflict => .error "the object has been modified"
  | .failed => notFound "runs.pipeline.1eedaegon.github.io" run.name

/-- `updateRunStatus`, without conflicts. -/
def writeStatus (lib : Externals) (run : Run) (now endNow : Time) (s : OperatorWorld) :
    OperatorWorld × ReconcileResult :=
  let written := updateRunStatus lib run s.store.cluster (fun _ => freeAttempt now endNow)
    { runs := s.store.runs, pipelines := s.store.pipelines }
  ({ s with
      store.runs := written.1.store.runs
      store.pipelines := written.1.store.pipelines },
    statusResult run written.2)

/-- `ensureKJobList`, and what comes behind it. -/
def deploy (lib : Externals) (run : Run) (now endNow : Time) (s : OperatorWorld) :
    OperatorWorld × ReconcileResult :=
  let deployed := ensureKJobList lib run s.store.cluster
  match deployed.2 with
  | .error e => ({ s with store.cluster := deployed.1 }, .error e)
  | .ok () => writeStatus lib run now endNow { s with store.cluster := deployed.1 }

/-- The stages on a run and a pipeline that are stored. -/
def reconcileStored (lib : Externals) (run : Run) (pipeline : Pipeline) (now endNow : Time)
    (s : OperatorWorld) : OperatorWorld × ReconcileResult :=
  let named := withRunName run
  let volumes := ensureVolumeList lib pipeline
    (volumePass named { s.store with runs := replaceRun s.store.runs named })
  let s := { s with
    store.runs := volumes.1.store.runs
    store.pvcs := volumes.1.store.pvcs }
  match volumes.2 with
  | .error e => (s, .error e)
  | .ok () => deploy lib volumes.1.run now endNow s

/-- `RunReconciler.Reconcile` -/
def reconcile (lib : Externals) (ns name : String) (now endNow : Time) (s : OperatorWorld) :
    OperatorWorld × ReconcileResult :=
  match getRun s.store.runs ns name with
  | none => (s, .ok 0)
  | some run =>
      match getPipeline s.store.pipelines ns run.labels.pipelineName with
      | none => (s, .ok 0)
      | some pipeline => reconcileStored lib run pipeline now endNow s

end RunReconciler

/-! ## Steps -/

/-- The objects that belong to a namespace. -/
def ObjectStore.restrictTo (ns : String) (s : ObjectStore) : ObjectStore where
  pipelines := part Pipeline.ns ns s.pipelines
  runs := part Run.ns ns s.runs
  cluster := { kjobs := part KJob.ns ns s.cluster.kjobs, pods := part Pod.ns ns s.cluster.pods }
  pvcs := part PersistentVolumeClaim.ns ns s.pvcs

/-- Other objects of the namespace in the place of those that are there. -/
def ObjectStore.replaceIn (ns : String) (objects s : ObjectStore) : ObjectStore where
  pipelines := s.pipelines.filter (fun pipeline => pipeline.ns ≠ ns) ++
    (objects.restrictTo ns).pipelines
  runs := s.runs.filter (fun run => run.ns ≠ ns) ++ (objects.restrictTo ns).runs
  cluster := {
    kjobs := s.cluster.kjobs.filter (fun kjob => kjob.ns ≠ ns) ++
      (objects.restrictTo ns).cluster.kjobs
    pods := s.cluster.pods.filter (fun pod => pod.ns ≠ ns) ++
      (objects.restrictTo ns).cluster.pods }
  pvcs := s.pvcs.filter (fun pvc => pvc.ns ≠ ns) ++ (objects.restrictTo ns).pvcs

/-- The steps: the reconciles of a pipeline and of a run, a goroutine with the
copy it works on, and the environment of a namespace. -/
inductive OperatorAction where
  | reconcilePipeline (ns name : String) (address : Nat) (now : Time)
  | reconcileRun (ns name : String) (now endNow : Time)
  | execute (pipeline : Pipeline) (address : Nat) (now : Time)
  | environment (ns : String) (objects : ObjectStore)
  deriving Repr, DecidableEq

/-- The namespace that an action is about. -/
def OperatorAction.ns : OperatorAction → String
  | .reconcilePipeline ns _ _ _ | .reconcileRun ns _ _ _ | .environment ns _ => ns
  | .execute pipeline _ _ => pipeline.ns

/-- The result of a reconcile is noted. -/
def OperatorWorld.note (ns : String) (after : OperatorWorld × ReconcileResult) : OperatorWorld :=
  { after.1 with outcomes := ⟨ns, after.2⟩ :: after.1.outcomes }

/-- A step.  A goroutine runs once; one that is not there does nothing. -/
def OperatorWorld.step (lib : Externals) (s : OperatorWorld) : OperatorAction → OperatorWorld
  | .reconcilePipeline ns name address now =>
      .note ns (PipelineReconciler.reconcile lib ns name address now s)
  | .reconcileRun ns name now endNow => .note ns (RunReconciler.reconcile lib ns name now endNow s)
  | .execute pipeline address now =>
      if pipeline ∈ s.goroutines then
        (PipelineReconciler.scheduleExecution lib pipeline address now
          { s with goroutines := s.goroutines.erase pipeline }).1
      else s
  | .environment ns objects => { s with store := objects.replaceIn ns s.store }

/-- The step goes through a nil pointer.  It is left with an error like any other,
but nobody recovers from that one: it ends the process, with the goroutines of all
namespaces. -/
def OperatorWorld.Panics (lib : Externals) (s : OperatorWorld) : OperatorAction → Prop
  | .reconcilePipeline ns name address now =>
      (PipelineReconciler.reconcile lib ns name address now s).2 = .error nilDereference
  | .reconcileRun ns name now endNow =>
      (RunReconciler.reconcile lib ns name now endNow s).2 = .error nilDereference
  | .execute pipeline address now =>
      pipeline ∈ s.goroutines ∧ (PipelineReconciler.scheduleExecution lib pipeline address now
        { s with goroutines := s.goroutines.erase pipeline }).2 = .error nilDereference
  | .environment _ _ => False

instance (lib : Externals) (s : OperatorWorld) : (a : OperatorAction) → Decidable (s.Panics lib a)
  | .reconcilePipeline ns name address now =>
      inferInstanceAs (Decidable
        ((PipelineReconciler.reconcile lib ns name address now s).2 = .error nilDereference))
  | .reconcileRun ns name now endNow =>
      inferInstanceAs (Decidable
        ((RunReconciler.reconcile lib ns name now endNow s).2 = .error nilDereference))
  | .execute pipeline address now =>
      inferInstanceAs (Decidable (pipeline ∈ s.goroutines ∧
        (PipelineReconciler.scheduleExecution lib pipeline address now
          { s with goroutines := s.goroutines.erase pipeline }).2 = .error nilDereference))
  | .environment _ _ => inferInstanceAs (Decidable False)

/-- The steps one after another, as long as the process lives. -/
def OperatorWorld.runAlive (lib : Externals) (s : OperatorWorld) (as : List OperatorAction) :
    Option OperatorWorld :=
  Lib.runAlive (OperatorWorld.Panics lib) (OperatorWorld.step lib) s as

/-- The steps one after another. -/
def OperatorWorld.run (lib : Externals) (s : OperatorWorld) (as : List OperatorAction) :
    OperatorWorld :=
  as.foldl (OperatorWorld.step lib) s

/-! ## Agreement with the reconciles -/

section Agreement

variable {lib : Externals} {ns name : String}

/-- A reconcile of a pipeline that ends without an error is
`reconcilePipeline`. -/
theorem PipelineReconciler.reconcile_ok (address : Nat) (now : Time) (s : OperatorWorld) :
    reconcilePipeline lib ns name address now s.store =
      (PipelineReconciler.reconcile lib ns name address now s).2.map fun _ =>
        (PipelineReconciler.reconcile lib ns name address now s).1.store := by
  unfold reconcilePipeline PipelineReconciler.reconcile
  cases hget : getPipeline s.store.pipelines ns name with
  | none => rfl
  | some pipeline =>
      simp only
      cases hcount : updatePipelineStatus pipeline now s.store with
      | error e => rfl
      | ok counted =>
          simp only [bind, Except.bind]
          cases hmeta : ensurePipelineMetadata pipeline counted with
          | error e => rfl
          | ok labelled =>
              simp only [PipelineReconciler.execute]
              cases hagain : getPipeline labelled.pipelines ns name with
              | none => rfl
              | some fetched =>
                  simp only
                  cases hruns : ensureRunExists lib address fetched labelled.runs with
                  | error e => rfl
                  | ok runs =>
                      simp only [PipelineReconciler.schedule]
                      cases hwritten : writtenStatus fetched.status
                          (ensureScheduleExecution lib fetched now) with
                      | error e => rfl
                      | ok status => rfl

/-- A reconcile of a run that ends without an error is `reconcileRun`. -/
theorem RunReconciler.reconcile_ok (now endNow : Time) (s : OperatorWorld) :
    reconcileRun lib ns name now endNow s.store =
      (RunReconciler.reconcile lib ns name now endNow s).2.map fun _ =>
        (RunReconciler.reconcile lib ns name now endNow s).1.store := by
  unfold reconcileRun RunReconciler.reconcile
  cases hrun : getRun s.store.runs ns name with
  | none => rfl
  | some run =>
      simp only
      cases hpipeline : getPipeline s.store.pipelines ns run.labels.pipelineName with
      | none => rfl
      | some pipeline =>
          simp only [Controller.reconcileStored, RunReconciler.reconcileStored]
          generalize ensureVolumeList lib pipeline (volumePass (withRunName run)
            { s.store with runs := replaceRun s.store.runs (withRunName run) }) = volumes
          obtain ⟨pass, result⟩ := volumes
          cases result with
          | error e => rfl
          | ok _ =>
              simp only [RunReconciler.deploy]
              generalize ensureKJobList lib pass.run s.store.cluster = deployed
              obtain ⟨cluster, result⟩ := deployed
              cases result with
              | error e => rfl
              | ok _ =>
                  simp only [RunReconciler.writeStatus]
                  generalize updateRunStatus lib pass.run cluster (fun _ => freeAttempt now endNow)
                    { runs := pass.store.runs, pipelines := s.store.pipelines } = written
                  obtain ⟨retried, verdict⟩ := written
                  cases verdict <;> rfl

end Agreement

end PipelineOperator.Controller
