/-!
# The Kubernetes objects the operator reads and writes

The controllers exchange `batch/v1` jobs, pods and persistent volume claims
with the API server.  This file keeps, of each of these objects, the fields
the operator computes, compares or stores.  Where a Go field is a map, the
keys the operator uses are the fields of a record, and an absent key is the
empty string, which is what a Go map lookup returns for it.

`Time` counts nanoseconds.  The API server stores a `metav1.Time` with whole
seconds only, so an instant that has been through a write is `Time.stored`.
-/

namespace PipelineOperator.Api

/-- Instants, in nanoseconds since the Unix epoch. -/
abbrev Time := Int

/-- Durations, in nanoseconds. -/
abbrev Duration := Int

namespace Time

/-- One second. -/
def second : Duration := 1000000000

/-- The zero `time.Time`: the first of January of year one, UTC. -/
def zero : Time := -62135596800 * second

/-- The instant as the API server keeps it: RFC 3339 with whole seconds. -/
def stored (t : Time) : Time := t / second * second

/-- `IsZero` of a possibly nil `*metav1.Time`. -/
def isZero : Option Time → Bool
  | none => true
  | some t => t == zero

end Time

/-- A `resource.Quantity`, known through its canonical spelling. -/
structure Quantity where
  canonical : String := ""
  deriving Repr, DecidableEq

/-- The quantity of a resource that no list mentions. -/
def Quantity.zero : Quantity := ⟨"0"⟩

/-- The computing resources the operator sets on a container. -/
structure ResourceList where
  cpu : Option Quantity := none
  memory : Option Quantity := none
  deriving Repr, DecidableEq

structure ResourceRequirements where
  requests : ResourceList := {}
  limits : ResourceList := {}
  deriving Repr, DecidableEq

structure EnvVar where
  name : String := ""
  value : String := ""
  deriving Repr, DecidableEq

structure VolumeMount where
  name : String := ""
  mountPath : String := ""
  subPath : String := ""
  readOnly : Bool := false
  deriving Repr, DecidableEq

/-- Where a pod volume comes from.  The operator only builds volumes backed
by a claim; the other sources come in through additional pod specs. -/
inductive VolumeSource where
  | persistentVolumeClaim (claimName : String)
  | other (text : String)
  deriving Repr, DecidableEq

structure Volume where
  name : String := ""
  source : VolumeSource := .other ""
  deriving Repr, DecidableEq

/-- A `corev1.Container`.  `rest` stands for the fields that the operator
hands on without looking at them. -/
structure Container where
  name : String := ""
  image : String := ""
  command : List String := []
  args : List String := []
  resources : ResourceRequirements := {}
  volumeMounts : List VolumeMount := []
  env : List EnvVar := []
  rest : String := ""
  deriving Repr, DecidableEq

/-- A `corev1.PodSpec`, with `rest` as in `Container`. -/
structure PodSpec where
  volumes : List Volume := []
  containers : List Container := []
  restartPolicy : String := ""
  rest : String := ""
  deriving Repr, DecidableEq

/-- The pod template of a job: its schedule-date annotation, the labels the
operator sets on it and the pod spec. -/
structure PodTemplate where
  scheduleDate : String := ""
  pipelineName : String := ""
  runName : String := ""
  spec : PodSpec := {}
  deriving Repr, DecidableEq

/-- The kinds of object that own another one. -/
inductive OwnerKind where
  | pipeline
  | run
  deriving Repr, DecidableEq

/-- The controller owner reference of an object. -/
structure OwnerReference where
  kind : OwnerKind
  name : String
  deriving Repr, DecidableEq

/-- A persistent volume claim: who owns it, and of its spec the access modes,
the storage it requests and its class. -/
structure PersistentVolumeClaim where
  name : String := ""
  ns : String := ""
  ownerReferences : List OwnerReference := []
  accessModes : List String := []
  storage : Option Quantity := none
  storageClassName : Option String := none
  deriving Repr, DecidableEq

/-- The labels the operator puts on a job. -/
structure JobLabels where
  pipelineName : String := ""
  runName : String := ""
  runJobName : String := ""
  gpuType : String := ""
  gpuAmount : String := ""
  deriving Repr, DecidableEq

/-- The annotations the operator keeps on a job. -/
structure JobAnnotations where
  scheduleDate : String := ""
  trigger : String := ""
  status : String := ""
  reason : String := ""
  deriving Repr, DecidableEq

/-- The counters of `batch/v1` `JobStatus`. -/
structure JobStatus where
  active : Nat := 0
  succeeded : Nat := 0
  failed : Nat := 0
  deriving Repr, DecidableEq

/-- The job has succeeded and runs no pod. -/
def JobStatus.Succeeded (st : JobStatus) : Prop := 0 < st.succeeded ∧ st.active = 0

instance (st : JobStatus) : Decidable st.Succeeded := by
  unfold JobStatus.Succeeded
  infer_instance

/-- The job runs no pod and has succeeded or failed. -/
def JobStatus.Terminated (st : JobStatus) : Prop :=
  st.active = 0 ∧ (0 < st.succeeded ∨ 0 < st.failed)

instance (st : JobStatus) : Decidable st.Terminated := by
  unfold JobStatus.Terminated
  infer_instance

/-- A kubernetes job, `kjob` in the source. -/
structure KJob where
  name : String := ""
  ns : String := ""
  labels : JobLabels := {}
  annotations : JobAnnotations := {}
  owner : Option OwnerReference := none
  deletionTimestamp : Option Time := none
  suspend : Bool := false
  template : PodTemplate := {}
  status : JobStatus := {}
  deriving Repr, DecidableEq

/-- The phase of a pod; `unset` is the empty phase of a pod object that no
listing filled in. -/
inductive PodPhase where
  | unset
  | pending
  | running
  | succeeded
  | failed
  | unknown
  deriving Repr, DecidableEq

/-- A pod: the job it is labelled with, its phase and its reason. -/
structure Pod where
  ns : String := ""
  jobName : String := ""
  phase : PodPhase := .unset
  reason : String := ""
  deriving Repr, DecidableEq

end PipelineOperator.Api
