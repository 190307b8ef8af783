import PipelineOperator.Api.Names
import PipelineOperator.Api.Volumes
import PipelineOperator.Lib.Walk

/-!
# From pipelines to runs and from runs to kubernetes jobs

`ConstructRunFromPipeline` and `ConstructKjobListFromRun` of `run_types.go`.
The argument `address` of the former is where the decoded pipeline's schedule
lies in memory, which the name of the run depends on.
-/

namespace PipelineOperator.Api

open PipelineOperator.Lib
open PipelineOperator.Go

/-! ## Runs -/

/-- The name of the run of a pipeline. -/
def runNameOf (lib : Externals) (address : Nat) (pipeline : Pipeline) : String :=
  getShortHashPostFix lib pipeline.name
    (pipeline.ns ++ pipeline.name ++ pipeline.spec.format lib address)

def newRunMetaFromPipeline (lib : Externals) (address : Nat) (pipeline : Pipeline)
    (run : Run) : Except String Run := do
  let scheduleDate := match pipeline.spec.schedule with
    | none => ""
    | some schedule => schedule.scheduleDate
  let endDate ← match pipeline.spec.schedule.bind Schedule.endDate with
    | none => .ok ""
    | some date => lib.marshalTime date
  return { run with
    name := runNameOf lib address pipeline
    ns := pipeline.ns
    labels := { pipelineName := pipeline.name }
    annotations := {
      trigger := formatBool pipeline.spec.trigger
      scheduleDate := scheduleDate
      endDate := endDate } }

/-- The name of the job of a run built from a task. -/
def jobNameOf (lib : Externals) (run : Run) (taskName : String) : String :=
  getShortHashPostFix lib taskName (run.name ++ run.ns)

def newJobFromTask (lib : Externals) (run : Run) (task : PipelineTask) : Job where
  name := jobNameOf lib run task.name
  ns := run.ns
  image := task.image
  command := task.command
  args := task.args
  schedule := task.schedule
  resource := task.resource
  trigger := formatBool task.trigger
  runBefore := task.runBefore.map (jobNameOf lib run)
  inputs := task.inputs
  outputs := task.outputs
  env := task.env
  additionalContainerSpecs := task.additionalContainerSpecs
  additionalPodSpecs := task.additionalPodSpecs

def newRunJobFromPipeline (lib : Externals) (pipeline : Pipeline) (run : Run) : Run :=
  { run with spec.jobs := pipeline.spec.tasks.map (newJobFromTask lib run) }

def constructRunFromPipeline (lib : Externals) (address : Nat) (pipeline : Pipeline) :
    Except String Run := do
  let run ← newRunMetaFromPipeline lib address pipeline {}
  let run := { run with spec.volumes := pipeline.spec.volumes }
  let run := newRunJobFromPipeline lib pipeline run
  return { run with
    spec := { run.spec with
      inputs := pipeline.spec.inputs
      outputs := pipeline.spec.outputs
      schedule := pipeline.spec.schedule
      historyLimit := pipeline.spec.historyLimit
      runBefore := pipeline.spec.runBefore
      resource := pipeline.spec.resource
      env := pipeline.spec.env
      additionalContainerSpecs := pipeline.spec.additionalContainerSpecs
      additionalPodSpecs := pipeline.spec.additionalPodSpecs } }

/-- What a constructed run says about the pipeline it comes from. -/
theorem constructRunFromPipeline_ok {lib : Externals} {address : Nat} {pipeline : Pipeline}
    {run : Run} (h : constructRunFromPipeline lib address pipeline = .ok run) :
    run.name = runNameOf lib address pipeline ∧ run.ns = pipeline.ns ∧
      run.labels.pipelineName = pipeline.name ∧
      run.spec.jobs = pipeline.spec.tasks.map (newJobFromTask lib run) := by
  unfold constructRunFromPipeline newRunMetaFromPipeline at h
  cases hend : pipeline.spec.schedule.bind Schedule.endDate with
  | none =>
      simp only [hend, bind, Except.bind, pure, Except.pure, Except.ok.injEq] at h
      subst h
      exact ⟨rfl, rfl, rfl, rfl⟩
  | some date =>
      cases htext : lib.marshalTime date with
      | error e => simp [hend, htext, bind, Except.bind] at h
      | ok text =>
          simp only [hend, htext, bind, Except.bind, pure, Except.pure,
            Except.ok.injEq] at h
          subst h
          exact ⟨rfl, rfl, rfl, rfl⟩

/-- Without a schedule there is no end date to spell, and the construction
succeeds. -/
theorem constructRunFromPipeline_of_unscheduled (lib : Externals) (address : Nat)
    {pipeline : Pipeline} (h : pipeline.spec.schedule = none) :
    ∃ run, constructRunFromPipeline lib address pipeline = .ok run := by
  simp [constructRunFromPipeline, newRunMetaFromPipeline, h, bind, Except.bind, pure,
    Except.pure]

/-! ## Kubernetes jobs -/

/-- `TriggerString.Bool` -/
def triggerBool (trigger : String) : Bool := (parseBool trigger).getD false

/-- The name of the kubernetes job of a job. -/
def kjobNameOf (lib : Externals) (run : Run) (job : Job) : String :=
  getShortHashPostFix lib job.name (job.name ++ run.name ++ run.ns)

def constructKjobPodMetaFromJob (run : Run) (job : Job) (spec : PodSpec) : PodTemplate where
  scheduleDate := job.schedule.scheduleDate
  pipelineName := run.labels.pipelineName
  runName := run.name
  spec := spec

/-- The metadata of a kubernetes job, on top of its spec. -/
def constructKjobMetaFromJob (lib : Externals) (run : Run) (job : Job) (kjob : KJob) : KJob :=
  { kjob with
    name := kjobNameOf lib run job
    ns := job.ns
    annotations := { scheduleDate := job.schedule.scheduleDate, trigger := job.trigger }
    labels := {
      pipelineName := run.labels.pipelineName
      runName := run.name
      runJobName := job.name
      gpuType := job.resource.gpu.gpuType
      gpuAmount := toString job.resource.gpu.amount } }

/-- Merge additional specs, those of the run before those of the job. -/
def mergeAll {α : Type} (merge : α → α → Except String α) (base : α) :
    List (Option α) → Except String α
  | [] => .ok base
  | none :: rest => mergeAll merge base rest
  | some specs :: rest => do
      let merged ← merge base specs
      mergeAll merge merged rest

/-- The pod spec is built on the slice of containers that is merged later, so
it holds the merged containers; here they are merged first. -/
def constructKjobFromRunJob (lib : Externals) (run : Run) (job : Job) :
    Except String KJob := do
  let containers ← parseContainerFromJob lib run job
  let volumes ← parseVolumeWithPVCFromJob run job
  let containers ← containers.mapM fun container =>
    mergeAll lib.mergeContainer container
      [run.spec.additionalContainerSpecs, job.additionalContainerSpecs]
  let podSpec ← mergeAll lib.mergePodSpec
    { volumes := volumes, containers := containers, restartPolicy := "Never" }
    [run.spec.additionalPodSpecs, job.additionalPodSpecs]
  return constructKjobMetaFromJob lib run job {
    suspend := triggerBool job.trigger
    template := constructKjobPodMetaFromJob run job podSpec }

def constructKjobListFromRun (lib : Externals) (run : Run) : Except String (List KJob) :=
  run.spec.jobs.mapM (constructKjobFromRunJob lib run)

/-- A desired kubernetes job: what it takes from its job, before anything is
recorded on it. -/
structure Desired (lib : Externals) (run : Run) (job : Job) (kjob : KJob) : Prop where
  name : kjob.name = kjobNameOf lib run job
  ns : kjob.ns = job.ns
  runName : kjob.labels.runName = run.name
  runJobName : kjob.labels.runJobName = job.name
  trigger : kjob.annotations.trigger = job.trigger
  status : kjob.annotations.status = ""
  suspend : kjob.suspend = triggerBool job.trigger
  counts : kjob.status = {}

theorem constructKjobFromRunJob_desired {lib : Externals} {run : Run} {job : Job}
    {kjob : KJob} (h : constructKjobFromRunJob lib run job = .ok kjob) :
    Desired lib run job kjob := by
  unfold constructKjobFromRunJob at h
  simp only [bind, Except.bind] at h
  split at h
  · cases h
  · split at h
    · cases h
    · split at h
      · cases h
      · split at h
        · cases h
        · cases h
          constructor <;> rfl

/-- A constructed list holds the kubernetes job of each job, in their order. -/
theorem constructKjobListFromRun_forall {lib : Externals} {run : Run} {kjobs : List KJob}
    (h : constructKjobListFromRun lib run = .ok kjobs) :
    List.Forall₂ (fun job kjob => constructKjobFromRunJob lib run job = .ok kjob)
      run.spec.jobs kjobs :=
  mapM_forall₂ h

/-- All of them are desired jobs. -/
theorem constructKjobListFromRun_desired {lib : Externals} {run : Run} {kjobs : List KJob}
    (h : constructKjobListFromRun lib run = .ok kjobs) :
    List.Forall₂ (Desired lib run) run.spec.jobs kjobs :=
  (constructKjobListFromRun_forall h).imp fun _ _ => constructKjobFromRunJob_desired

end PipelineOperator.Api
