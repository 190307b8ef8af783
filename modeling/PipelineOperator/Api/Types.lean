import PipelineOperator.Api.Kubernetes

/-!
# Pipelines, Runs and Jobs

The custom resources of the operator, field by field after
`pipeline_types.go`, `task_types.go` and `run_types.go`.  Every default is
the Go zero value of its field.  `ns` is the namespace of an object.
-/

namespace PipelineOperator.Api

structure HistoryLimit where
  amount : Nat := 0
  date : String := ""
  deriving Repr, DecidableEq

structure GpuResource where
  gpuType : String := ""
  amount : Int := 0
  deriving Repr, DecidableEq

structure Resource where
  cpu : String := ""
  memory : String := ""
  gpu : GpuResource := {}
  deriving Repr, DecidableEq

structure VolumeResource where
  name : String := ""
  capacity : String := ""
  storage : String := ""
  lifecycle : String := ""
  accessModes : List String := []
  deriving Repr, DecidableEq

/-- The lifecycles of a volume.  The Go type is a string, with the empty one
for the default; a text that is none of the declared ones is `undeclared`. -/
inductive VolumeLifecycle where
  | persistent
  | pipelineScope
  | runScope
  | undeclared
  deriving Repr, DecidableEq

def VolumeLifecycle.ofText (text : String) : VolumeLifecycle :=
  if text = "persistent" then .persistent
  else if text = "pipeline" ∨ text = "" then .pipelineScope
  else if text = "run" then .runScope
  else .undeclared

/-- The lifecycle that a volume is listed with. -/
def VolumeResource.scope (volume : VolumeResource) : VolumeLifecycle :=
  .ofText volume.lifecycle

structure IOVolumeSpec where
  name : String := ""
  mountPathOverride : String := ""
  mountPrefix : String := ""
  useIntermediateDirectory : Bool := false
  deriving Repr, DecidableEq

/-- When a pipeline runs.  `scheduleDate` is a cron line or a date string, and
`repeats` is the field `Repeat`. -/
structure Schedule where
  startDate : Option Time := none
  scheduleDate : String := ""
  endDate : Option Time := none
  repeats : Bool := false
  deriving Repr, DecidableEq

/-- A task of a pipeline, with the fields of its inlined `TaskSpec` first. -/
structure PipelineTask where
  name : String := ""
  image : String := ""
  command : String := ""
  args : List String := []
  schedule : Schedule := {}
  resource : Resource := {}
  trigger : Bool := false
  runBefore : List String := []
  inputs : List IOVolumeSpec := []
  outputs : List IOVolumeSpec := []
  env : List (String × String) := []
  additionalContainerSpecs : Option Container := none
  additionalPodSpecs : Option PodSpec := none
  deriving Repr, DecidableEq

structure PipelineSpec where
  schedule : Option Schedule := none
  volumes : List VolumeResource := []
  trigger : Bool := false
  historyLimit : HistoryLimit := {}
  tasks : List PipelineTask := []
  runBefore : List String := []
  inputs : List IOVolumeSpec := []
  outputs : List IOVolumeSpec := []
  resource : Resource := {}
  env : List (String × String) := []
  additionalContainerSpecs : Option Container := none
  additionalPodSpecs : Option PodSpec := none
  deriving Repr, DecidableEq

/-- The observed state of a pipeline; the misspelt pending date is the
source's own. -/
structure PipelineStatus where
  runs : Nat := 0
  createdDate : Option Time := none
  lastUpdatedDate : Option Time := none
  schedule : Option Schedule := none
  scheduleStartDate : Option Time := none
  schedulePendingExecuctionDate : Option Time := none
  scheduleLastExecutionStartDate : Option Time := none
  scheduleLastExecutionEndDate : Option Time := none
  scheduleRepeated : Nat := 0
  deriving Repr, DecidableEq

structure PipelineLabels where
  pipelineName : String := ""
  deriving Repr, DecidableEq

structure PipelineAnnotations where
  trigger : String := ""
  scheduleDate : String := ""
  deriving Repr, DecidableEq

structure Pipeline where
  name : String := ""
  ns : String := ""
  labels : PipelineLabels := {}
  annotations : PipelineAnnotations := {}
  creationTimestamp : Time := 0
  spec : PipelineSpec := {}
  status : PipelineStatus := {}
  deriving Repr, DecidableEq

/-- A job of a run, built from a task of the pipeline. -/
structure Job where
  name : String := ""
  ns : String := ""
  image : String := ""
  command : String := ""
  args : List String := []
  schedule : Schedule := {}
  resource : Resource := {}
  trigger : String := ""
  runBefore : List String := []
  inputs : List IOVolumeSpec := []
  outputs : List IOVolumeSpec := []
  env : List (String × String) := []
  additionalContainerSpecs : Option Container := none
  additionalPodSpecs : Option PodSpec := none
  deriving Repr, DecidableEq

structure RunSpec where
  schedule : Option Schedule := none
  volumes : List VolumeResource := []
  trigger : String := ""
  historyLimit : HistoryLimit := {}
  jobs : List Job := []
  runBefore : List String := []
  inputs : List IOVolumeSpec := []
  outputs : List IOVolumeSpec := []
  resource : Resource := {}
  env : List (String × String) := []
  additionalContainerSpecs : Option Container := none
  additionalPodSpecs : Option PodSpec := none
  deriving Repr, DecidableEq

/-- The state of a job.  The Go type is a string, so a text that is none of
the declared states is `undeclared`. -/
inductive JobState where
  | initializing
  | waiting
  | stopping
  | running
  | deleting
  | completed
  | deleted
  | failed
  | unknown
  | undeclared (text : String)
  deriving Repr, DecidableEq

/-- The state of a run, with `undeclared` as in `JobState`. -/
inductive RunState where
  | initializing
  | waiting
  | stopping
  | running
  | deleting
  | completed
  | deleted
  | failed
  | undeclared (text : String)
  deriving Repr, DecidableEq

structure RunJobState where
  name : String := ""
  runJobName : String := ""
  jobState : JobState := .undeclared ""
  reason : String := ""
  deriving Repr, DecidableEq

structure RunStatus where
  runState : RunState := .undeclared ""
  createdDate : Option Time := none
  lastUpdatedDate : Option Time := none
  scheduleExecutedDate : Option Time := none
  jobStates : List RunJobState := []
  initializing : Option Nat := none
  waiting : Option Nat := none
  stopping : Option Nat := none
  running : Option Nat := none
  deleting : Option Nat := none
  completed : Option Nat := none
  deleted : Option Nat := none
  failed : Option Nat := none
  deriving Repr, DecidableEq

structure RunLabels where
  pipelineName : String := ""
  runName : String := ""
  deriving Repr, DecidableEq

structure RunAnnotations where
  trigger : String := ""
  scheduleDate : String := ""
  endDate : String := ""
  deriving Repr, DecidableEq

structure Run where
  name : String := ""
  ns : String := ""
  labels : RunLabels := {}
  annotations : RunAnnotations := {}
  owner : Option OwnerReference := none
  creationTimestamp : Time := 0
  spec : RunSpec := {}
  status : RunStatus := {}
  deriving Repr, DecidableEq

end PipelineOperator.Api
