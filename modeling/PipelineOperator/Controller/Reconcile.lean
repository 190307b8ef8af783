import PipelineOperator.Controller.Gating
import PipelineOperator.Controller.ScheduleMachine
import PipelineOperator.Controller.StatusRetry
import PipelineOperator.Controller.VolumeList

/-!
# The two reconciles as a whole

A reconcile of a pipeline counts the runs, sees to the metadata of the
pipeline, to its run and to its schedule.  A reconcile of a run sees to its
labels, its volumes and its kubernetes jobs, and writes its status.  This file
puts the stages together, for a reconcile that nobody else writes along with:
all of its writes are accepted, and each attempt of a retry loop is the first
and only one.  The result is the store that the reconcile leaves, or the error
it ends with.
-/

namespace PipelineOperator.Controller

open PipelineOperator.Lib
open PipelineOperator.Api
open PipelineOperator.Go

/-! ## The store -/

/-- The objects that the API server holds. -/
structure ObjectStore where
  pipelines : List Pipeline := []
  runs : RunStore := []
  cluster : Cluster := {}
  pvcs : List PersistentVolumeClaim := []
  deriving Repr, DecidableEq

def pipelineKey (pipeline : Pipeline) : String × String := (pipeline.ns, pipeline.name)

/-- The API server holds one object of a kind under a key, and keeps no
pipeline outside of the namespaces. -/
structure KeyedStore (s : ObjectStore) : Prop where
  namespaced : ∀ pipeline ∈ s.pipelines, pipeline.ns ≠ ""
  pipelines : Keyed pipelineKey s.pipelines
  runs : Keyed runKey s.runs
  kjobs : Keyed kjobKey s.cluster.kjobs
  pvcs : Keyed pvcKey s.pvcs

instance (s : ObjectStore) : Decidable (KeyedStore s) :=
  decidable_of_iff
    ((∀ pipeline ∈ s.pipelines, pipeline.ns ≠ "") ∧ Keyed pipelineKey s.pipelines ∧
      Keyed runKey s.runs ∧ Keyed kjobKey s.cluster.kjobs ∧ Keyed pvcKey s.pvcs)
    ⟨fun h => ⟨h.1, h.2.1, h.2.2.1, h.2.2.2.1, h.2.2.2.2⟩,
      fun h => ⟨h.namespaced, h.pipelines, h.runs, h.kjobs, h.pvcs⟩⟩

/-- The error of a call on an object that is not stored. -/
def notFound {α : Type} (resource name : String) : Except String α :=
  .error (resource ++ " \"" ++ name ++ "\" not found")

/-- An update of a pipeline: everything but its status. -/
def replacePipeline (pipelines : List Pipeline) (pipeline : Pipeline) : List Pipeline :=
  pipelines.map fun p =>
    if p.ns = pipeline.ns ∧ p.name = pipeline.name then { pipeline with status := p.status } else p

/-! ## The reconcile of a pipeline -/

/-- `updatePipelineStatus` lists the runs of the pipeline in hand and writes
the status of the pipeline that it fetches again. -/
def updatePipelineStatus (pipeline : Pipeline) (now : Time) (s : ObjectStore) :
    Except String ObjectStore :=
  match getPipeline s.pipelines pipeline.ns pipeline.name with
  | none => notFound "pipelines.pipeline.1eedaegon.github.io" pipeline.name
  | some found =>
      let counted := { found with status := countedStatus found s.runs now }
      .ok { s with pipelines := updateStatusOfPipeline s.pipelines counted }

/-- The metadata that `ensurePipelineMetadata` gives a pipeline. -/
def withMetadata (pipeline : Pipeline) : Pipeline :=
  { pipeline with
    ns := if pipeline.ns = "" then "pipeline" else pipeline.ns
    labels.pipelineName := pipeline.name
    annotations := {
      trigger := formatBool pipeline.spec.trigger
      scheduleDate :=
        match pipeline.spec.schedule with
        | none => pipeline.annotations.scheduleDate
        | some schedule =>
            if schedule.scheduleDate = "" then pipeline.annotations.scheduleDate
            else schedule.scheduleDate } }

def ensurePipelineMetadata (pipeline : Pipeline) (s : ObjectStore) : Except String ObjectStore :=
  match getPipeline s.pipelines pipeline.ns pipeline.name with
  | none => notFound "pipelines.pipeline.1eedaegon.github.io" pipeline.name
  | some found =>
      let updated := withMetadata found
      match getPipeline s.pipelines updated.ns updated.name with
      | none => notFound "pipelines.pipeline.1eedaegon.github.io" updated.name
      | some _ => .ok { s with pipelines := replacePipeline s.pipelines updated }

/-- The status that a pass of `ensureScheduleExecution` writes, if any.  A nil
dereference ends the reconcile as an error does. -/
def writtenStatus (read : PipelineStatus) : ScheduleOutcome → Except String PipelineStatus
  | .quiet | .requeued | .untouched => .ok read
  | .failed e => .error e
  | .panicked => .error nilDereference
  | .removed status | .emptied status | .pendingCleared status | .armed status _ => .ok status

/-- A reconcile of the pipeline with the given key; `address` is where it
decodes the schedule.  A pipeline that is not stored is left at that. -/
def reconcilePipeline (lib : Externals) (ns name : String) (address : Nat) (now : Time)
    (s : ObjectStore) : Except String ObjectStore :=
  match getPipeline s.pipelines ns name with
  | none => .ok s
  | some pipeline => do
      let s ← updatePipelineStatus pipeline now s
      let s ← ensurePipelineMetadata pipeline s
      match getPipeline s.pipelines ns name with
      | none => return s
      | some pipeline =>
          let runs ← ensureRunExists lib address pipeline s.runs
          let status ← writtenStatus pipeline.status (ensureScheduleExecution lib pipeline now)
          return { s with
            runs := runs
            pipelines := updateStatusOfPipeline s.pipelines { pipeline with status := status } }

/-! ## The reconcile of a run -/

/-- `ensureRunMetadata` on the run in hand. -/
def withRunName (run : Run) : Run := { run with labels.runName := run.name }

/-- An attempt to write the status that meets no conflict. -/
def freeAttempt (now endNow : Time) : StatusAttempt where
  now := now
  endNow := endNow
  pipelineConflict := false
  runConflict := false

/-- The pass over the volumes of a run; it writes at most twice for each. -/
def volumePass (run : Run) (s : ObjectStore) : VolumePass where
  run := run
  store := { runs := s.runs, pvcs := s.pvcs }
  accepted := 2 * run.spec.volumes.length

/-- The stages of a reconcile of a run and a pipeline that are stored. -/
def reconcileStored (lib : Externals) (run : Run) (pipeline : Pipeline) (now endNow : Time)
    (s : ObjectStore) : Except String ObjectStore :=
  let run := withRunName run
  match ensureVolumeList lib pipeline
      (volumePass run { s with runs := replaceRun s.runs run }) with
  | (_, .error e) => .error e
  | (volumes, .ok ()) =>
      match ensureKJobList lib volumes.run s.cluster with
      | (_, .error e) => .error e
      | (cluster, .ok ()) =>
          match updateRunStatus lib volumes.run cluster (fun _ => freeAttempt now endNow)
              { runs := volumes.store.runs, pipelines := s.pipelines } with
          | (written, .done) =>
              .ok {
                pipelines := written.store.pipelines
                runs := written.store.runs
                cluster := cluster
                pvcs := volumes.store.pvcs }
          | (_, .conflict) => .error "the object has been modified"
          | (_, .failed) => notFound "runs.pipeline.1eedaegon.github.io" volumes.run.name

/-- A reconcile of the run with the given key.  A run that is not stored, or
whose pipeline is not, is left at that. -/
def reconcileRun (lib : Externals) (ns name : String) (now endNow : Time) (s : ObjectStore) :
    Except String ObjectStore :=
  match getRun s.runs ns name with
  | none => .ok s
  | some run =>
      match getPipeline s.pipelines ns run.labels.pipelineName with
      | none => .ok s
      | some pipeline => reconcileStored lib run pipeline now endNow s

end PipelineOperator.Controller
