import PipelineOperator.Api.Construct
import PipelineOperator.Api.Mounts

/-!
# The resource of a pipeline and those of its tasks

The resource of a pipeline is meant for the tasks that have none of their own.
It is copied into the spec of the run, and nothing reads it there: the container
of a job is built from the resource of the job, and that is the one of the task
as it stands.  So a task that declares neither cpu nor memory gets a container
without any resource.

## Main results

* `parseComputingResource_ok_iff`: a resource list has what the resource says.
* `constructKjobFromRunJob_ok_iff`: which jobs are built.
* `constructKjobs_ok_iff`: which pipelines are.
* `fallsBack_iff`: for which of them the pipeline's resource is the fallback.
-/

namespace PipelineOperator.Api

open PipelineOperator.Lib

/-! ## What a resource says -/

/-- The entry of a resource list for a text. -/
inductive EntryFor (lib : Externals) : String → Option Quantity → Prop where
  | absent : EntryFor lib "" none
  | present {text : String} {quantity : Quantity} (hne : text ≠ "")
      (hparse : lib.parseQuantity text = .ok quantity) : EntryFor lib text (some quantity)

structure ListFor (lib : Externals) (resource : Resource) (list : ResourceList) : Prop where
  cpu : EntryFor lib resource.cpu list.cpu
  memory : EntryFor lib resource.memory list.memory

/-- The container requests what the resource says, and is limited to it. -/
structure Grants (lib : Externals) (resource : Resource) (container : Container) : Prop where
  requests : ListFor lib resource container.resources.requests
  limits : ListFor lib resource container.resources.limits

def DeclaresNeither (resource : Resource) : Prop := resource.cpu = "" ∧ resource.memory = ""

instance (resource : Resource) : Decidable (DeclaresNeither resource) :=
  inferInstanceAs (Decidable (_ ∧ _))

def DeclaresBoth (resource : Resource) : Prop := resource.cpu ≠ "" ∧ resource.memory ≠ ""

/-- The quantities of a resource, as far as it has them. -/
def quantityTexts (resource : Resource) : List String :=
  [resource.cpu, resource.memory].filter fun text => text ≠ ""

theorem parseResourceEntry_ok_iff (lib : Externals) (text : String) (entry : Option Quantity) :
    parseResourceEntry lib text = .ok entry ↔ EntryFor lib text entry := by
  unfold parseResourceEntry
  constructor
  · intro h
    split at h
    · next hempty =>
        cases h
        rw [hempty]
        exact .absent
    · next hne =>
        cases hparse : lib.parseQuantity text with
        | error e =>
            rw [hparse] at h
            cases h
        | ok quantity =>
            rw [hparse] at h
            cases h
            exact .present hne hparse
  · intro h
    cases h with
    | absent => rfl
    | present hne hparse =>
        rw [if_neg hne, hparse]
        rfl

theorem entryFor_empty_iff {lib : Externals} {entry : Option Quantity} :
    EntryFor lib "" entry ↔ entry = none := by
  constructor
  · intro hentry
    cases hentry with
    | absent => rfl
    | present hne _ => exact absurd rfl hne
  · rintro rfl
    exact .absent

theorem entryFor_none_iff {lib : Externals} {text : String} :
    EntryFor lib text none ↔ text = "" := by
  constructor
  · intro hentry
    cases hentry
    rfl
  · rintro rfl
    exact .absent

/-- A resource list has what the resource says. -/
theorem parseComputingResource_ok_iff (lib : Externals) (resource : Resource)
    (list : ResourceList) :
    parseComputingResource lib resource = .ok list ↔ ListFor lib resource list := by
  unfold parseComputingResource
  constructor
  · intro h
    obtain ⟨cpu, hcpu, h⟩ := bind_ok h
    obtain ⟨memory, hmemory, h⟩ := bind_ok h
    cases h
    exact ⟨(parseResourceEntry_ok_iff _ _ _).mp hcpu, (parseResourceEntry_ok_iff _ _ _).mp hmemory⟩
  · rintro ⟨hcpu, hmemory⟩
    rw [(parseResourceEntry_ok_iff _ _ _).mpr hcpu, (parseResourceEntry_ok_iff _ _ _).mpr hmemory]
    rfl

/-- A text without a quantity has an entry, and so has one that is parsed. -/
theorem exists_entryFor_iff (lib : Externals) (text : String) :
    (∃ entry, EntryFor lib text entry) ↔
      (text ≠ "" → ∃ quantity, lib.parseQuantity text = .ok quantity) := by
  constructor
  · rintro ⟨entry, hentry⟩ hne
    cases hentry with
    | absent => exact absurd rfl hne
    | present _ hparse => exact ⟨_, hparse⟩
  · intro hparse
    by_cases hempty : text = ""
    · rw [hempty]
      exact ⟨none, .absent⟩
    · obtain ⟨quantity, hquantity⟩ := hparse hempty
      exact ⟨some quantity, .present hempty hquantity⟩

theorem exists_listFor_iff (lib : Externals) (resource : Resource) :
    (∃ list, ListFor lib resource list) ↔
      ∀ text ∈ quantityTexts resource, ∃ quantity, lib.parseQuantity text = .ok quantity := by
  have htexts : (∀ text ∈ quantityTexts resource, ∃ quantity,
      lib.parseQuantity text = .ok quantity) ↔
        (∃ cpu, EntryFor lib resource.cpu cpu) ∧ ∃ memory, EntryFor lib resource.memory memory := by
    rw [exists_entryFor_iff, exists_entryFor_iff, quantityTexts]
    simp [List.mem_filter]
  rw [htexts]
  constructor
  · rintro ⟨list, hcpu, hmemory⟩
    exact ⟨⟨_, hcpu⟩, ⟨_, hmemory⟩⟩
  · rintro ⟨⟨cpu, hcpu⟩, memory, hmemory⟩
    exact ⟨{ cpu := cpu, memory := memory }, hcpu, hmemory⟩

/-! ## Jobs without additional specs -/

theorem parseVolumeWithPVCFromJob_ok_iff (run : Run) (job : Job) :
    (∃ volumes, parseVolumeWithPVCFromJob run job = .ok volumes) ↔
      ∀ e ∈ ioVolumeSpecs run job, ∃ volumeName, volumeNameOf e = .ok volumeName := by
  rw [← parseVolumeWithPVCFromJobIn_eq SetOps.list_lawful]
  exact parseVolumeWithPVCFromJobIn_ok_iff (SetOps.list String) run job

/-- Nothing is merged into the containers and the pod spec of the job. -/
structure Unmerged (run : Run) (job : Job) : Prop where
  runContainer : run.spec.additionalContainerSpecs = none
  jobContainer : job.additionalContainerSpecs = none
  runPod : run.spec.additionalPodSpecs = none
  jobPod : job.additionalPodSpecs = none

section Unmerged

variable {lib : Externals} {run : Run} {job : Job}

/-- Such a job is its container and its volumes. -/
theorem constructKjobFromRunJob_unmerged (hplain : Unmerged run job) :
    constructKjobFromRunJob lib run job = (do
      let containers ← parseContainerFromJob lib run job
      let volumes ← parseVolumeWithPVCFromJob run job
      return constructKjobMetaFromJob lib run job {
        suspend := triggerBool job.trigger
        template := constructKjobPodMetaFromJob run job
          { volumes := volumes, containers := containers, restartPolicy := "Never" } }) := by
  have hcontainers : ∀ containers : List Container,
      (containers.mapM fun container => mergeAll lib.mergeContainer container [none, none]) =
        .ok containers := by
    intro containers
    exact mapM_of_forall₂ (List.forall₂_same.mpr fun _ _ => rfl)
  simp only [constructKjobFromRunJob, hplain.runContainer, hplain.jobContainer, hplain.runPod,
    hplain.jobPod, hcontainers]
  rfl

/-- Its one container has the resource of the job. -/
theorem grants_of_unmerged (hplain : Unmerged run job) {kjob : KJob}
    (hkjob : constructKjobFromRunJob lib run job = .ok kjob) :
    ∃ container, kjob.template.spec.containers = [container] ∧
      Grants lib job.resource container := by
  rw [constructKjobFromRunJob_unmerged hplain] at hkjob
  obtain ⟨containers, hcontainers, hkjob⟩ := bind_ok hkjob
  obtain ⟨volumes, -, hkjob⟩ := bind_ok hkjob
  obtain ⟨requests, hrequests, hcontainers⟩ := bind_ok hcontainers
  obtain ⟨limits, hlimits, hcontainers⟩ := bind_ok hcontainers
  obtain ⟨mounts, -, hcontainers⟩ := bind_ok hcontainers
  cases hkjob
  cases hcontainers
  exact ⟨_, rfl, (parseComputingResource_ok_iff _ _ _).mp hrequests,
    (parseComputingResource_ok_iff _ _ _).mp hlimits⟩

/-- Such a job is built exactly if its quantities are parsed and its volume
specs name volumes. -/
theorem constructKjobFromRunJob_ok_iff (hplain : Unmerged run job) :
    (∃ kjob, constructKjobFromRunJob lib run job = .ok kjob) ↔
      (∀ text ∈ quantityTexts job.resource,
        ∃ quantity, lib.parseQuantity text = .ok quantity) ∧
      ∀ e ∈ ioVolumeSpecs run job, ∃ volumeName, volumeNameOf e = .ok volumeName := by
  rw [← exists_listFor_iff, constructKjobFromRunJob_unmerged hplain]
  constructor
  · rintro ⟨kjob, hkjob⟩
    obtain ⟨containers, hcontainers, hkjob⟩ := bind_ok hkjob
    obtain ⟨volumes, hvolumes, -⟩ := bind_ok hkjob
    obtain ⟨requests, hrequests, -⟩ := bind_ok hcontainers
    exact ⟨⟨requests, (parseComputingResource_ok_iff _ _ _).mp hrequests⟩,
      (parseVolumeWithPVCFromJob_ok_iff run job).mp ⟨volumes, hvolumes⟩⟩
  · rintro ⟨⟨list, hlist⟩, hnames⟩
    obtain ⟨volumes, hvolumes⟩ := (parseVolumeWithPVCFromJob_ok_iff run job).mpr hnames
    obtain ⟨mounts, hmounts⟩ := (parseVolumeMountList_ok_iff run job).mpr hnames
    rw [parseContainerFromJob, (parseComputingResource_ok_iff _ _ _).mpr hlist, hmounts, hvolumes]
    exact ⟨_, rfl⟩

end Unmerged

/-! ## From a pipeline to its jobs -/

/-- `ConstructRunFromPipeline`, then `ConstructKjobListFromRun`. -/
def constructKjobs (lib : Externals) (address : Nat) (pipeline : Pipeline) :
    Except String (List KJob) := do
  let run ← constructRunFromPipeline lib address pipeline
  constructKjobListFromRun lib run

/-- Neither the pipeline nor a task has additional specs. -/
structure WithoutAdditional (pipeline : Pipeline) : Prop where
  container : pipeline.spec.additionalContainerSpecs = none
  pod : pipeline.spec.additionalPodSpecs = none
  taskContainer : ∀ task ∈ pipeline.spec.tasks, task.additionalContainerSpecs = none
  taskPod : ∀ task ∈ pipeline.spec.tasks, task.additionalPodSpecs = none

/-- The volume specs for the pod of a task. -/
def usedVolumes (pipeline : Pipeline) (task : PipelineTask) : List IOVolumeSpec :=
  pipeline.spec.inputs ++ pipeline.spec.outputs ++ task.inputs ++ task.outputs

/-- The end date, if there is one, can be written down. -/
def EndDateSpelled (lib : Externals) (pipeline : Pipeline) : Prop :=
  ∀ date ∈ pipeline.spec.schedule.bind Schedule.endDate, ∃ text, lib.marshalTime date = .ok text

/-- What has to be right about the tasks as they stand. -/
structure TaskAccepted (lib : Externals) (pipeline : Pipeline) (task : PipelineTask) : Prop where
  quantities : ∀ text ∈ quantityTexts task.resource,
    ∃ quantity, lib.parseQuantity text = .ok quantity
  volumes : ∀ e ∈ usedVolumes pipeline task, ∃ volumeName, volumeNameOf e = .ok volumeName

structure Accepted (lib : Externals) (pipeline : Pipeline) : Prop where
  endDate : EndDateSpelled lib pipeline
  tasks : ∀ task ∈ pipeline.spec.tasks, TaskAccepted lib pipeline task

/-- What the spec of a constructed run takes from the pipeline for its jobs. -/
structure RunOf (pipeline : Pipeline) (run : Run) : Prop where
  inputs : run.spec.inputs = pipeline.spec.inputs
  outputs : run.spec.outputs = pipeline.spec.outputs
  container : run.spec.additionalContainerSpecs = pipeline.spec.additionalContainerSpecs
  pod : run.spec.additionalPodSpecs = pipeline.spec.additionalPodSpecs

section Pipelines

variable {lib : Externals} {address : Nat} {pipeline : Pipeline} {run : Run}

theorem constructRunFromPipeline_runOf
    (hrun : constructRunFromPipeline lib address pipeline = .ok run) : RunOf pipeline run := by
  obtain ⟨named, -, hrun⟩ := bind_ok hrun
  cases hrun
  exact ⟨rfl, rfl, rfl, rfl⟩

/-- Nothing but the end date can keep a run from being constructed. -/
theorem constructRunFromPipeline_ok_iff (lib : Externals) (address : Nat) (pipeline : Pipeline) :
    (∃ run, constructRunFromPipeline lib address pipeline = .ok run) ↔
      EndDateSpelled lib pipeline := by
  constructor
  · rintro ⟨run, hrun⟩ date hdate
    have hend : pipeline.spec.schedule.bind Schedule.endDate = some date := hdate
    cases htext : lib.marshalTime date with
    | ok text => exact ⟨text, rfl⟩
    | error e =>
        simp [constructRunFromPipeline, newRunMetaFromPipeline, hend, htext, bind,
          Except.bind] at hrun
  · intro hspelled
    cases hend : pipeline.spec.schedule.bind Schedule.endDate with
    | none =>
        simp [constructRunFromPipeline, newRunMetaFromPipeline, hend, bind, Except.bind, pure,
          Except.pure]
    | some date =>
        obtain ⟨text, htext⟩ := hspelled date hend
        simp [constructRunFromPipeline, newRunMetaFromPipeline, hend, htext, bind, Except.bind,
          pure, Except.pure]

theorem unmerged_of_task (hplain : WithoutAdditional pipeline)
    (hrun : constructRunFromPipeline lib address pipeline = .ok run) {task : PipelineTask}
    (htask : task ∈ pipeline.spec.tasks) : Unmerged run (newJobFromTask lib run task) := by
  have hof := constructRunFromPipeline_runOf hrun
  exact
    { runContainer := hof.container.trans hplain.container
      jobContainer := hplain.taskContainer task htask
      runPod := hof.pod.trans hplain.pod
      jobPod := hplain.taskPod task htask }

/-- The jobs of a constructed run are built exactly if its tasks are accepted. -/
theorem constructKjobListFromRun_ok_iff (hplain : WithoutAdditional pipeline)
    (hrun : constructRunFromPipeline lib address pipeline = .ok run) :
    (∃ kjobs, constructKjobListFromRun lib run = .ok kjobs) ↔
      ∀ task ∈ pipeline.spec.tasks, TaskAccepted lib pipeline task := by
  obtain ⟨-, -, -, hjobs⟩ := constructRunFromPipeline_ok hrun
  have hof := constructRunFromPipeline_runOf hrun
  rw [constructKjobListFromRun, mapM_ok_iff, hjobs, List.forall_mem_map]
  refine forall₂_congr fun task htask => ?_
  have hvolumes : ioVolumeSpecs run (newJobFromTask lib run task) = usedVolumes pipeline task := by
    rw [ioVolumeSpecs, usedVolumes, hof.inputs, hof.outputs]
    rfl
  rw [constructKjobFromRunJob_ok_iff (unmerged_of_task hplain hrun htask), hvolumes]
  constructor
  · intro hboth
    exact ⟨hboth.1, hboth.2⟩
  · intro haccepted
    exact ⟨haccepted.quantities, haccepted.volumes⟩

/-- Which pipelines are turned into jobs. -/
theorem constructKjobs_ok_iff (hplain : WithoutAdditional pipeline) (address : Nat) :
    (∃ kjobs, constructKjobs lib address pipeline = .ok kjobs) ↔ Accepted lib pipeline := by
  constructor
  · rintro ⟨kjobs, hkjobs⟩
    obtain ⟨run, hrun, hkjobs⟩ := bind_ok hkjobs
    exact ⟨(constructRunFromPipeline_ok_iff lib address pipeline).mp ⟨run, hrun⟩,
      (constructKjobListFromRun_ok_iff hplain hrun).mp ⟨kjobs, hkjobs⟩⟩
  · rintro ⟨hendDate, htasks⟩
    obtain ⟨run, hrun⟩ := (constructRunFromPipeline_ok_iff lib address pipeline).mpr hendDate
    obtain ⟨kjobs, hkjobs⟩ := (constructKjobListFromRun_ok_iff hplain hrun).mpr htasks
    exact ⟨kjobs, by rw [constructKjobs, hrun]; exact hkjobs⟩

/-! ## The fallback -/

/-- The resource that a task is to have. -/
def usedResource (pipeline : Pipeline) (task : PipelineTask) : Resource :=
  if DeclaresNeither task.resource then pipeline.spec.resource else task.resource

/-- A quantity that is to be used is not parsed, or a volume spec of a pod names
no volume. -/
def Malformed (lib : Externals) (pipeline : Pipeline) : Prop :=
  ∃ task ∈ pipeline.spec.tasks,
    (∃ text ∈ quantityTexts (usedResource pipeline task), ∃ e, lib.parseQuantity text = .error e) ∨
      ∃ spec ∈ usedVolumes pipeline task, ∃ e, volumeNameOf spec = .error e

/-- The kubernetes job of a task: that of its job, with one container, which has
the resource of the pipeline if the task declares neither cpu nor memory, and
that of the task if it declares both. -/
structure TaskBuilt (lib : Externals) (pipeline : Pipeline) (run : Run) (task : PipelineTask)
    (kjob : KJob) : Prop where
  job : kjob.labels.runJobName = jobNameOf lib run task.name
  container : ∃ container, kjob.template.spec.containers = [container] ∧
    (DeclaresNeither task.resource → Grants lib pipeline.spec.resource container) ∧
      (DeclaresBoth task.resource → Grants lib task.resource container)

/-- One job for each task, in their order, and no failure but for what is
malformed. -/
structure FallsBack (lib : Externals) (address : Nat) (pipeline : Pipeline) : Prop where
  built : ∀ run kjobs, constructRunFromPipeline lib address pipeline = .ok run →
    constructKjobListFromRun lib run = .ok kjobs →
      List.Forall₂ (TaskBuilt lib pipeline run) pipeline.spec.tasks kjobs
  fails : ∀ e, constructKjobs lib address pipeline = .error e → Malformed lib pipeline

/-- No task of an accepted pipeline needs a resource that the pipeline has, and
no end date fails on its own. -/
structure FallbackUnused (lib : Externals) (pipeline : Pipeline) : Prop where
  neither : Accepted lib pipeline →
    ∀ task ∈ pipeline.spec.tasks, DeclaresNeither task.resource →
      DeclaresNeither pipeline.spec.resource
  endDate : ¬ EndDateSpelled lib pipeline → Malformed lib pipeline

/-- A task with a quantity uses its own resource. -/
theorem usedResource_of_quantity (pipeline : Pipeline) {task : PipelineTask} {text : String}
    (htext : text ∈ quantityTexts task.resource) : usedResource pipeline task = task.resource := by
  refine if_neg ?_
  rintro ⟨hcpu, hmemory⟩
  simp [quantityTexts, hcpu, hmemory] at htext

/-- A task that is not accepted has something malformed that is used. -/
theorem malformed_of_not_accepted {task : PipelineTask} (htask : task ∈ pipeline.spec.tasks)
    (hnot : ¬ TaskAccepted lib pipeline task) : Malformed lib pipeline := by
  refine ⟨task, htask, ?_⟩
  by_contra hwell
  rw [not_or] at hwell
  refine hnot ⟨fun text htext => ?_, fun e he => ?_⟩
  · by_contra herror
    refine hwell.1 ⟨text, ?_, error_of_not_ok herror⟩
    rw [usedResource_of_quantity pipeline htext]
    exact htext
  · by_contra herror
    exact hwell.2 ⟨e, he, error_of_not_ok herror⟩

/-- What is built for the tasks: one job for each of them, in their order, whose
one container has the resource of the task. -/
theorem constructed_own (hplain : WithoutAdditional pipeline)
    (hrun : constructRunFromPipeline lib address pipeline = .ok run) {kjobs : List KJob}
    (hkjobs : constructKjobListFromRun lib run = .ok kjobs) :
    List.Forall₂ (fun task kjob => kjob.labels.runJobName = jobNameOf lib run task.name ∧
      ∃ container, kjob.template.spec.containers = [container] ∧
        Grants lib task.resource container) pipeline.spec.tasks kjobs := by
  obtain ⟨-, -, -, hjobs⟩ := constructRunFromPipeline_ok hrun
  have hresults := constructKjobListFromRun_forall hkjobs
  rw [hjobs, List.forall₂_map_left_iff] at hresults
  have hunmerged : ∀ task ∈ pipeline.spec.tasks, Unmerged run (newJobFromTask lib run task) :=
    fun task htask => unmerged_of_task hplain hrun htask
  refine ((List.forall₂_and_left _ _).mpr ⟨hunmerged, hresults⟩).imp ?_
  rintro task kjob ⟨hplainJob, hkjob⟩
  exact ⟨(constructKjobFromRunJob_desired hkjob).runJobName, grants_of_unmerged hplainJob hkjob⟩

/-- A list without entries is what a resource says exactly if it declares
nothing. -/
theorem DeclaresNeither.listFor_iff {resource : Resource} (hneither : DeclaresNeither resource)
    {list : ResourceList} (hlist : ListFor lib resource list) (other : Resource) :
    ListFor lib other list ↔ DeclaresNeither other := by
  obtain ⟨cpu, memory⟩ := list
  obtain ⟨hcpu, hmemory⟩ := hlist
  rw [hneither.1] at hcpu
  rw [hneither.2] at hmemory
  have hcpuNone : cpu = none := entryFor_empty_iff.mp hcpu
  have hmemoryNone : memory = none := entryFor_empty_iff.mp hmemory
  subst hcpuNone hmemoryNone
  constructor
  · intro hother
    exact ⟨entryFor_none_iff.mp hother.cpu, entryFor_none_iff.mp hother.memory⟩
  · intro hother
    exact ⟨entryFor_none_iff.mpr hother.1, entryFor_none_iff.mpr hother.2⟩

/-- So a container of a task that declares nothing has the resource of the
pipeline exactly if that declares nothing, either. -/
theorem DeclaresNeither.grants_iff {resource : Resource} (hneither : DeclaresNeither resource)
    {container : Container} (hgrants : Grants lib resource container) (other : Resource) :
    Grants lib other container ↔ DeclaresNeither other := by
  have hrequests := hneither.listFor_iff hgrants.requests other
  have hlimits := hneither.listFor_iff hgrants.limits other
  exact ⟨fun hother => hrequests.mp hother.requests,
    fun hother => ⟨hrequests.mpr hother, hlimits.mpr hother⟩⟩

/-- An accepted pipeline whose tasks fall back on its resource has none that they
need. -/
theorem FallsBack.neither (hplain : WithoutAdditional pipeline)
    (hfalls : FallsBack lib address pipeline) (haccepted : Accepted lib pipeline)
    {task : PipelineTask} (htask : task ∈ pipeline.spec.tasks)
    (hneither : DeclaresNeither task.resource) : DeclaresNeither pipeline.spec.resource := by
  obtain ⟨kjobs, hkjobs⟩ := (constructKjobs_ok_iff hplain address).mpr haccepted
  obtain ⟨run, hrun, hlist⟩ := bind_ok hkjobs
  obtain ⟨i, hi, rfl⟩ := List.mem_iff_getElem.mp htask
  have hlength := (constructed_own hplain hrun hlist).length_eq
  obtain ⟨-, container, hcontainer, hown⟩ :=
    (constructed_own hplain hrun hlist).get hi (hlength ▸ hi)
  obtain ⟨-, other, hother, hfallback, -⟩ :=
    (hfalls.built run kjobs hrun hlist).get hi (hlength ▸ hi)
  rw [hcontainer, List.cons.injEq] at hother
  obtain ⟨rfl, -⟩ := hother
  exact (hneither.grants_iff hown _).mp (hfallback hneither)

/-- Where no task needs the resource of the pipeline, every container has what it
should. -/
theorem FallbackUnused.built (hplain : WithoutAdditional pipeline)
    (hunused : FallbackUnused lib pipeline)
    (hrun : constructRunFromPipeline lib address pipeline = .ok run) {kjobs : List KJob}
    (hkjobs : constructKjobListFromRun lib run = .ok kjobs) :
    List.Forall₂ (TaskBuilt lib pipeline run) pipeline.spec.tasks kjobs := by
  have haccepted : Accepted lib pipeline :=
    (constructKjobs_ok_iff hplain address).mp ⟨kjobs, by rw [constructKjobs, hrun]; exact hkjobs⟩
  have hneither := hunused.neither haccepted
  refine ((List.forall₂_and_left _ _).mpr ⟨hneither, constructed_own hplain hrun hkjobs⟩).imp ?_
  rintro task kjob ⟨hunneeded, hjob, container, hcontainer, hown⟩
  refine ⟨hjob, container, hcontainer, fun htask => ?_, fun _ => hown⟩
  exact (htask.grants_iff hown _).mpr (hunneeded htask)

/-- Where the end date can be written down, something malformed is behind every
failure. -/
theorem malformed_of_error (hplain : WithoutAdditional pipeline)
    (hspelled : EndDateSpelled lib pipeline) {e : String}
    (herror : constructKjobs lib address pipeline = .error e) : Malformed lib pipeline := by
  by_contra hwell
  have haccepted : Accepted lib pipeline := by
    refine ⟨hspelled, fun task htask => ?_⟩
    by_contra hnot
    exact hwell (malformed_of_not_accepted htask hnot)
  obtain ⟨kjobs, hkjobs⟩ := (constructKjobs_ok_iff hplain address).mpr haccepted
  rw [hkjobs] at herror
  cases herror

/-- **The fallback.**  The resource of a pipeline is the fallback of its tasks
exactly if they do not need it. -/
theorem fallsBack_iff (hplain : WithoutAdditional pipeline) (address : Nat) :
    FallsBack lib address pipeline ↔ FallbackUnused lib pipeline := by
  constructor
  · intro hfalls
    refine ⟨fun haccepted task htask => hfalls.neither hplain haccepted htask, ?_⟩
    intro hspelled
    obtain ⟨e, herror⟩ := error_of_not_ok fun hkjobs =>
      hspelled ((constructKjobs_ok_iff hplain address).mp hkjobs).endDate
    exact hfalls.fails e herror
  · intro hunused
    refine ⟨fun run kjobs hrun hkjobs => hunused.built hplain hrun hkjobs, ?_⟩
    intro e herror
    by_cases hspelled : EndDateSpelled lib pipeline
    · exact malformed_of_error hplain hspelled herror
    · exact hunused.endDate hspelled

end Pipelines

/-- A task with a resource of its own, in a pipeline that has one, too. -/
def ownResource : Pipeline where
  name := "train"
  spec.resource := { cpu := "500m", memory := "1Gi" }
  spec.tasks := [{ name := "fit", resource := { cpu := "4", memory := "8Gi" } }]

theorem fallsBack_ownResource : FallsBack Externals.plain 0 ownResource := by
  refine (fallsBack_iff ⟨rfl, rfl, by simp [ownResource], by simp [ownResource]⟩ 0).mpr ⟨?_, ?_⟩
  · intro _ task htask hneither
    rw [List.mem_singleton.mp htask] at hneither
    exact absurd hneither (by decide)
  · intro hspelled
    refine absurd ?_ hspelled
    intro date hdate
    cases hdate

/-- The same pipeline with a task that has none. -/
def withoutResource : Pipeline :=
  { ownResource with spec.tasks := [{ name := "fit" }] }

/-- That task gets none, either. -/
theorem resource_not_applied : ¬ FallsBack Externals.plain 0 withoutResource := by
  intro hfalls
  have haccepted : Accepted Externals.plain withoutResource := by
    constructor
    · intro date hdate
      cases hdate
    · intro task htask
      rw [List.mem_singleton.mp htask]
      exact ⟨by simp [quantityTexts], by simp [usedVolumes, withoutResource, ownResource]⟩
  have hneither := hfalls.neither ⟨rfl, rfl, by simp [withoutResource], by simp [withoutResource]⟩
    haccepted (List.mem_singleton_self _) ⟨rfl, rfl⟩
  exact absurd hneither (by decide)

end PipelineOperator.Api
