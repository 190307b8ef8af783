import PipelineOperator.Controller.VolumeList
import PipelineOperator.Lib.Machine
import Mathlib.Logic.Relation

/-!
# What a pipeline owns

The cluster collects an object when its owner has gone.  The operator creates
runs in two places, kubernetes jobs in a third and persistent volume claims in
a fourth, and each of them has to set the owner that leads, directly or by way
of a run, to the pipeline.

The machine here takes these four in any order over any pipelines and runs.  A
pass over a run may be broken off; since the runs have one worker, and the
pipelines' side only adds runs, nothing is lost by taking such a pass in one
step.  Next to the stored objects it keeps what the operator has created, and
for which pipeline; nothing in the code reads that.

## Main results

* `OwnedBy.reaches`: an object with the right owners reaches its pipeline.
* `KeptOwned.step`: the passes that meet the conditions keep the owners right.
* `ownership_closed`: everything created reaches its pipeline.
* `executed_not_owned`: the runs of scheduled executions do not.
-/

namespace PipelineOperator.Controller

open PipelineOperator.Lib
open PipelineOperator.Api

/-! ## Objects -/

/-- An object, by its kind and key. -/
inductive ObjectRef where
  | pipeline (ns name : String)
  | run (ns name : String)
  | kjob (ns name : String)
  | pvc (ns name : String)
  deriving Repr, DecidableEq

/-- What an owner reference on an object of a namespace refers to. -/
def OwnerReference.object (ns : String) (owner : OwnerReference) : ObjectRef :=
  match owner.kind with
  | .pipeline => .pipeline ns owner.name
  | .run => .run ns owner.name

/-- An object that the operator has created, and the pipeline it is for. -/
structure Creation where
  object : ObjectRef
  pipelineNs : String
  pipelineName : String
  deriving Repr, DecidableEq

structure OwnerWorld where
  pipelines : List Pipeline := []
  store : VolumeStore := {}
  cluster : Cluster := {}
  created : List Creation := []
  deriving Repr, DecidableEq

namespace OwnerWorld

/-- The owners of a stored object. -/
def owners (s : OwnerWorld) : ObjectRef → List ObjectRef
  | .pipeline _ _ => []
  | .run ns name =>
      ((getRun s.store.runs ns name).bind Run.owner).toList.map (OwnerReference.object ns)
  | .kjob ns name =>
      ((s.cluster.getKJob ns name).bind KJob.owner).toList.map (OwnerReference.object ns)
  | .pvc ns name =>
      ((pvcOwners s.store.pvcs ns name).getD []).map (OwnerReference.object ns)

/-- The object leads to the other one, from owner to owner. -/
def Reaches (s : OwnerWorld) : ObjectRef → ObjectRef → Prop :=
  Relation.ReflTransGen fun object owner => owner ∈ s.owners object

end OwnerWorld

/-- Every object created for a pipeline leads to it. -/
def OwnershipClosed (s : OwnerWorld) : Prop :=
  ∀ creation ∈ s.created,
    s.Reaches creation.object (.pipeline creation.pipelineNs creation.pipelineName)

/-! ## Steps -/

/-- The four places, and what users do: `ensureRunExists` and the creation of
`scheduleExecution`, each with the address of its decoded pipeline; a pass over
the volumes of a run, with the number of accepted writes; a pass over the jobs
of a run, with the number of jobs it gets to. -/
inductive OwnerAction where
  | ensureRun (ns name : String) (address : Nat)
  | execute (ns name : String) (address : Nat)
  | passVolumes (ns name : String) (accepted : Nat)
  | passKJobs (ns name : String) (entries : Nat)
  | setPipelines (pipelines : List Pipeline)
  | createRun (run : Run)
  deriving Repr, DecidableEq

/-- The stored run of a key, with the stored pipeline of its label. -/
def OwnerWorld.reconciled (s : OwnerWorld) (ns name : String) : Option (Run × Pipeline) := do
  let run ← getRun s.store.runs ns name
  let pipeline ← getPipeline s.pipelines ns run.labels.pipelineName
  return (run, pipeline)

/-- Runs that are stored now under keys that were free. -/
def newRuns (before after : RunStore) : List ObjectRef :=
  (after.filter fun run => (getRun before run.ns run.name).isNone).map fun run =>
    .run run.ns run.name

def newKJobs (before after : Cluster) : List ObjectRef :=
  (after.kjobs.filter fun kjob => (before.getKJob kjob.ns kjob.name).isNone).map fun kjob =>
    .kjob kjob.ns kjob.name

/-- The lifecycle that the run lists a volume with first. -/
def firstScope (run : Run) (name : String) : Option VolumeLifecycle :=
  (run.spec.volumes.find? fun volume => volume.name = name).map VolumeResource.scope

/-- Claims under keys that were free, created for a volume that is not
persistent. -/
def newPvcs (run : Run) (before after : List PersistentVolumeClaim) : List ObjectRef :=
  (after.filter fun pvc => (getPvc before pvc.ns pvc.name).isNone ∧
    firstScope run pvc.name ≠ some .persistent).map fun pvc => .pvc pvc.ns pvc.name

/-- The new objects are created for the pipeline. -/
def OwnerWorld.create (s : OwnerWorld) (pipeline : Pipeline) (objects : List ObjectRef) :
    OwnerWorld :=
  { s with created := s.created ++ objects.map fun object =>
      { object := object, pipelineNs := pipeline.ns, pipelineName := pipeline.name } }

/-- The creation of `scheduleExecution`; a name that is taken is refused. -/
def executeSchedule (lib : Externals) (address : Nat) (pipeline : Pipeline) (runs : RunStore) :
    Except String RunStore := do
  let run ← constructRunFromPipeline lib address pipeline
  match getRun runs run.ns run.name with
  | some _ => .error "already exists"
  | none => return runs ++ [run]

/-- The result of a pass over the volumes of a run. -/
def OwnerWorld.volumesPassed (lib : Externals) (s : OwnerWorld) (run : Run)
    (pipeline : Pipeline) (accepted : Nat) : VolumeStore :=
  (ensureVolumeList lib pipeline
    { run := run, store := s.store, accepted := accepted }).1.store

/-- The result of a pass over the jobs of a run that gets to some of them. -/
def OwnerWorld.kjobsPassed (lib : Externals) (s : OwnerWorld) (run : Run) (entries : Nat) :
    Cluster :=
  match constructKjobListFromRun lib run with
  | .error _ => s.cluster
  | .ok kjobList => (ensureKJobs run (kjobList.take entries) s.cluster).1

def OwnerWorld.step (lib : Externals) (s : OwnerWorld) : OwnerAction → Option OwnerWorld
  | .ensureRun ns name address => do
      let pipeline ← getPipeline s.pipelines ns name
      let runs ← (ensureRunExists lib address pipeline s.store.runs).toOption
      return { s with store.runs := runs }.create pipeline (newRuns s.store.runs runs)
  | .execute ns name address => do
      let pipeline ← getPipeline s.pipelines ns name
      let runs ← (executeSchedule lib address pipeline s.store.runs).toOption
      return { s with store.runs := runs }.create pipeline (newRuns s.store.runs runs)
  | .passVolumes ns name accepted => do
      let (run, pipeline) ← s.reconciled ns name
      let store := s.volumesPassed lib run pipeline accepted
      return { s with store := store }.create pipeline (newPvcs run s.store.pvcs store.pvcs)
  | .passKJobs ns name entries => do
      let (run, pipeline) ← s.reconciled ns name
      let cluster := s.kjobsPassed lib run entries
      return { s with cluster := cluster }.create pipeline (newKJobs s.cluster cluster)
  | .setPipelines pipelines =>
      if ∀ pipeline ∈ pipelines, pipeline.ns ≠ "" then some { s with pipelines := pipelines }
      else none
  | .createRun run =>
      if run.ns ≠ "" ∧ (getRun s.store.runs run.ns run.name).isNone then
        some { s with store.runs := s.store.runs ++ [run] }
      else none

/-- The machine of the owners: nothing has been created yet, runs have
different keys, and the namespaced objects have their namespace. -/
def ownerMachine (lib : Externals) : Machine OwnerWorld OwnerAction where
  init s := Keyed runKey s.store.runs ∧ (∀ run ∈ s.store.runs, run.ns ≠ "") ∧
    (∀ pipeline ∈ s.pipelines, pipeline.ns ≠ "") ∧ s.created = []
  step := OwnerWorld.step lib

/-! ## The conditions -/

/-- A pass over the volumes of a run gives the right owners: the run is itself
owned where it becomes an owner, it does not list a claim created for another
pipeline, and it lists no claim as persistent that it or its pipeline has
listed otherwise. -/
def OwnsVolumes (s : OwnerWorld) (run : Run) (pipeline : Pipeline) : Prop :=
  ∀ volume ∈ run.spec.volumes,
    (volume.scope ≠ .runScope ∨ run.owner = some ⟨.pipeline, pipeline.name⟩) ∧
    (∀ creation ∈ s.created, creation.object ≠ .pvc run.ns volume.name ∨
      creation.pipelineName = pipeline.name ∧ volume.scope ≠ .persistent) ∧
    (volume.scope ≠ .persistent ∨
      ∀ other ∈ run.spec.volumes, other.name ≠ volume.name ∨ other.scope = .persistent)

instance (s : OwnerWorld) (run : Run) (pipeline : Pipeline) :
    Decidable (OwnsVolumes s run pipeline) := by
  unfold OwnsVolumes
  infer_instance

/-- So does a pass over its jobs: the run is owned, or no job is missing. -/
def OwnsKJobs (lib : Externals) (s : OwnerWorld) (run : Run) (pipeline : Pipeline) : Prop :=
  run.owner = some ⟨.pipeline, pipeline.name⟩ ∨
    ∀ job ∈ run.spec.jobs, (s.cluster.getKJob job.ns (kjobNameOf lib run job)).isSome

instance (lib : Externals) (s : OwnerWorld) (run : Run) (pipeline : Pipeline) :
    Decidable (OwnsKJobs lib s run pipeline) := by
  unfold OwnsKJobs
  infer_instance

/-- The run of a pass over volumes, and that of a pass over jobs. -/
def OwnerAction.volumesOf : OwnerAction → Option (String × String)
  | .passVolumes ns name _ => some (ns, name)
  | _ => none

def OwnerAction.kjobsOf : OwnerAction → Option (String × String)
  | .passKJobs ns name _ => some (ns, name)
  | _ => none

/-- The run of a scheduled execution is created. -/
def OwnerAction.executes : OwnerAction → Bool
  | .execute _ _ _ => true
  | _ => false

/-- No scheduled execution creates a run, and the passes give the right
owners. -/
def KeepsOwners (lib : Externals) (s : OwnerWorld) (a : OwnerAction) : Prop :=
  a.executes = false ∧
    (∀ key ∈ a.volumesOf, ∀ found ∈ s.reconciled key.1 key.2, OwnsVolumes s found.1 found.2) ∧
    ∀ key ∈ a.kjobsOf, ∀ found ∈ s.reconciled key.1 key.2, OwnsKJobs lib s found.1 found.2

instance (lib : Externals) (s : OwnerWorld) (a : OwnerAction) :
    Decidable (KeepsOwners lib s a) := by
  unfold KeepsOwners
  infer_instance

/-! ## Right owners -/

/-- The stored run has the pipeline for its owner. -/
def RunOwned (s : OwnerWorld) (ns name pipelineName : String) : Prop :=
  ∃ run, getRun s.store.runs ns name = some run ∧ run.owner = some ⟨.pipeline, pipelineName⟩

/-- The object has an owner from which its pipeline is one step away at most. -/
inductive OwnedBy (s : OwnerWorld) : Creation → Prop where
  | run {ns name pipelineName : String} (hrun : RunOwned s ns name pipelineName) :
      OwnedBy s ⟨.run ns name, ns, pipelineName⟩
  | kjob {ns name pipelineName runName : String} {kjob : KJob}
      (hget : s.cluster.getKJob ns name = some kjob) (howner : kjob.owner = some ⟨.run, runName⟩)
      (hrun : RunOwned s ns runName pipelineName) :
      OwnedBy s ⟨.kjob ns name, ns, pipelineName⟩
  | pvcOfPipeline {ns name pipelineName : String}
      (howners : pvcOwners s.store.pvcs ns name = some [⟨.pipeline, pipelineName⟩]) :
      OwnedBy s ⟨.pvc ns name, ns, pipelineName⟩
  | pvcOfRun {ns name pipelineName runName : String}
      (howners : pvcOwners s.store.pvcs ns name = some [⟨.run, runName⟩])
      (hrun : RunOwned s ns runName pipelineName) :
      OwnedBy s ⟨.pvc ns name, ns, pipelineName⟩

section Reaches

variable {s : OwnerWorld}

theorem RunOwned.reaches {ns name pipelineName : String} (hrun : RunOwned s ns name pipelineName) :
    s.Reaches (.run ns name) (.pipeline ns pipelineName) := by
  obtain ⟨run, hget, howner⟩ := hrun
  refine .single ?_
  simp [OwnerWorld.owners, hget, howner, OwnerReference.object]

/-- An object with such an owner leads to its pipeline. -/
theorem OwnedBy.reaches {creation : Creation} (howned : OwnedBy s creation) :
    s.Reaches creation.object (.pipeline creation.pipelineNs creation.pipelineName) := by
  cases howned with
  | run hrun => exact hrun.reaches
  | kjob hget howner hrun =>
      refine .head ?_ hrun.reaches
      simp [OwnerWorld.owners, hget, howner, OwnerReference.object]
  | pvcOfPipeline howners =>
      refine .single ?_
      simp [OwnerWorld.owners, howners, OwnerReference.object]
  | pvcOfRun howners hrun =>
      refine .head ?_ hrun.reaches
      simp [OwnerWorld.owners, howners, OwnerReference.object]

end Reaches

/-! ## The kubernetes jobs of a pass -/

/-- A job that was stored keeps its owner, and a new one has the run for its
owner and is one of those listed. -/
structure KJobsFrom (run : Run) (listed : List KJob) (before after : Cluster) : Prop where
  kept : ∀ ns name kjob, before.getKJob ns name = some kjob →
    ∃ next, after.getKJob ns name = some next ∧ next.owner = kjob.owner
  fresh : ∀ ns name kjob, before.getKJob ns name = none → after.getKJob ns name = some kjob →
    ns = run.ns ∧ kjob.owner = some ⟨.run, run.name⟩ ∧ ∃ d ∈ listed, kjobKey d = (ns, name)

section KJobs

variable {run : Run} {listed : List KJob} {a b c : Cluster}

theorem KJobsFrom.refl (run : Run) (listed : List KJob) (c : Cluster) :
    KJobsFrom run listed c c where
  kept _ _ kjob hget := ⟨kjob, hget, rfl⟩
  fresh _ _ _ hnone hget := by
    rw [hnone] at hget
    cases hget

theorem KJobsFrom.trans (hab : KJobsFrom run listed a b) (hbc : KJobsFrom run listed b c) :
    KJobsFrom run listed a c where
  kept ns name kjob hget := by
    obtain ⟨mid, hmid, howner⟩ := hab.kept ns name kjob hget
    obtain ⟨next, hnext, howner'⟩ := hbc.kept ns name mid hmid
    exact ⟨next, hnext, howner'.trans howner⟩
  fresh ns name kjob hnone hget := by
    cases hmid : b.getKJob ns name with
    | none => exact hbc.fresh ns name kjob hmid hget
    | some mid =>
        obtain ⟨hns, howner, hlisted⟩ := hab.fresh ns name mid hnone hmid
        obtain ⟨next, hnext, howner'⟩ := hbc.kept ns name mid hmid
        rw [hget] at hnext
        cases hnext
        exact ⟨hns, howner'.trans howner, hlisted⟩

theorem ensureKJob_from {desiredkjob : KJob} {next : Cluster} (hns : run.ns ≠ "")
    (hlisted : desiredkjob ∈ listed) (hstep : ensureKJob run c desiredkjob = .ok next) :
    KJobsFrom run listed c next := by
  cases hget : c.getKJob desiredkjob.ns desiredkjob.name with
  | none =>
      have hsame := ensureKJob_ns hns hget hstep
      obtain rfl := ensureKJob_of_missing hget hstep
      refine
        { kept := ?_
          fresh := ?_ }
      · intro ns name kjob hkjob
        refine ⟨kjob, ?_, rfl⟩
        rw [Cluster.getKJob_createKJob, hkjob, Option.some_or]
      · intro ns name kjob hnone hkjob
        rw [Cluster.getKJob_createKJob, hnone, Option.none_or] at hkjob
        split at hkjob
        · next hkey =>
            cases hkjob
            exact ⟨(Prod.mk.inj hkey).1.trans hsame, rfl, desiredkjob, hlisted, hkey.symm⟩
        · cases hkjob
  | some currentKjob =>
      obtain ⟨suspending, -, rfl⟩ := ensureKJob_of_exists hget hstep
      refine
        { kept := ?_
          fresh := ?_ }
      · intro ns name kjob hkjob
        rw [Cluster.getKJob_updateKJob, hkjob, Option.map_some]
        refine ⟨_, rfl, ?_⟩
        split
        · next hkey =>
            -- The job that is looked up is the one that has been replaced.
            obtain ⟨-, hns', hname'⟩ := Cluster.mem_of_getKJob hkjob
            obtain ⟨-, hcns, hcname⟩ := Cluster.mem_of_getKJob hget
            rw [kjobKey_updatedKJob] at hkey
            have hparts := Prod.mk.inj hkey
            rw [← hns', ← hname', hparts.1, hparts.2, hcns, hcname, hget] at hkjob
            cases hkjob
            rfl
        · rfl
      · intro ns name kjob hnone hkjob
        rw [Cluster.getKJob_updateKJob, hnone] at hkjob
        cases hkjob

/-- A pass over the jobs, however far it gets. -/
theorem ensureKJobs_from (hns : run.ns ≠ "") (todo : List KJob) (hlisted : ∀ d ∈ todo, d ∈ listed)
    (c : Cluster) : KJobsFrom run listed c (ensureKJobs run todo c).1 := by
  induction todo generalizing c with
  | nil => exact KJobsFrom.refl run listed c
  | cons desiredkjob todo ih =>
      rw [ensureKJobs]
      split
      · exact KJobsFrom.refl run listed c
      · next next hnext =>
          have hfirst := ensureKJob_from hns (hlisted _ List.mem_cons_self) hnext
          exact hfirst.trans (ih (fun d hd => hlisted d (List.mem_cons_of_mem _ hd)) next)

end KJobs

/-! ## What the steps keep -/

section Frame

variable {s t : OwnerWorld}

theorem RunOwned.append {ns name pipelineName : String} {run : Run}
    (hruns : t.store.runs = s.store.runs ++ [run]) (howned : RunOwned s ns name pipelineName) :
    RunOwned t ns name pipelineName := by
  obtain ⟨found, hget, howner⟩ := howned
  refine ⟨found, ?_, howner⟩
  rw [hruns, getRun_append, hget, Option.some_or]

theorem RunOwned.views {ns name pipelineName : String}
    (hviews : t.store.runs.map runView = s.store.runs.map runView)
    (howned : RunOwned s ns name pipelineName) : RunOwned t ns name pipelineName := by
  obtain ⟨found, hget, howner⟩ := howned
  have hview : (getRun t.store.runs ns name).map runView = some (runView found) := by
    rw [map_runView_getRun, hviews, ← map_runView_getRun, hget, Option.map_some]
  obtain ⟨after, hafter, hsame⟩ := Option.map_eq_some_iff.mp hview
  have hkept : after.owner = found.owner := congrArg RunView.owner hsame
  exact ⟨after, hafter, hkept.trans howner⟩

/-- Owners stay right where the runs, the jobs and the claim keep theirs. -/
theorem OwnedBy.frame {creation : Creation} (howned : OwnedBy s creation)
    (hruns : ∀ ns name pipelineName, RunOwned s ns name pipelineName →
      RunOwned t ns name pipelineName)
    (hkjobs : ∀ ns name kjob, s.cluster.getKJob ns name = some kjob →
      ∃ next, t.cluster.getKJob ns name = some next ∧ next.owner = kjob.owner)
    (hpvcs : ∀ ns name, creation.object = .pvc ns name →
      pvcOwners t.store.pvcs ns name = pvcOwners s.store.pvcs ns name) :
    OwnedBy t creation := by
  cases howned with
  | run hrun => exact .run (hruns _ _ _ hrun)
  | kjob hget howner hrun =>
      obtain ⟨next, hnext, hsame⟩ := hkjobs _ _ _ hget
      exact .kjob hnext (hsame.trans howner) (hruns _ _ _ hrun)
  | pvcOfPipeline howners => exact .pvcOfPipeline ((hpvcs _ _ rfl).trans howners)
  | pvcOfRun howners hrun =>
      exact .pvcOfRun ((hpvcs _ _ rfl).trans howners) (hruns _ _ _ hrun)

theorem OwnedBy.pipelineNs_eq {creation : Creation} (howned : OwnedBy s creation) {ns name : String}
    (hobject : creation.object = .pvc ns name) :
    creation = ⟨.pvc ns name, ns, creation.pipelineName⟩ := by
  cases howned with
  | run hrun => cases hobject
  | kjob hget howner hrun => cases hobject
  | pvcOfPipeline howners =>
      cases hobject
      rfl
  | pvcOfRun howners hrun =>
      cases hobject
      rfl

/-- A run that has been added is the only new one. -/
theorem eq_of_newRuns {runs : RunStore} {run : Run} {object : ObjectRef}
    (hnew : object ∈ newRuns runs (runs ++ [run])) : object = .run run.ns run.name := by
  obtain ⟨other, hother, rfl⟩ := List.mem_map.mp hnew
  obtain ⟨hmem, hfree⟩ := List.mem_filter.mp hother
  rcases List.mem_append.mp hmem with hold | hlast
  · have hfound : (getRun runs other.ns other.name).isSome :=
      List.find?_isSome.mpr ⟨other, hold, by simp⟩
    rw [Option.isNone_iff_eq_none] at hfree
    rw [hfree] at hfound
    cases hfound
  · rw [List.mem_singleton.mp hlast]

theorem newRuns_self (runs : RunStore) : newRuns runs runs = [] := by
  rw [newRuns, List.map_eq_nil_iff, List.filter_eq_nil_iff]
  intro run hrun hfree
  have hfound : (getRun runs run.ns run.name).isSome :=
    List.find?_isSome.mpr ⟨run, hrun, by simp⟩
  rw [Option.isNone_iff_eq_none] at hfree
  rw [hfree] at hfound
  cases hfound

/-- A claim with the owners for a lifecycle other than persistent. -/
theorem ownedBy_of_volume {ns name : String} {run : Run} {pipeline : Pipeline}
    {scope : VolumeLifecycle} (hpersistent : scope ≠ .persistent) (hdeclared : scope ≠ .undeclared)
    (howners : pvcOwners t.store.pvcs ns name = some (ownersOf pipeline run scope))
    (hrun : scope = .runScope → RunOwned t ns run.name pipeline.name) :
    OwnedBy t ⟨.pvc ns name, ns, pipeline.name⟩ := by
  cases scope with
  | persistent => exact absurd rfl hpersistent
  | undeclared => exact absurd rfl hdeclared
  | pipelineScope => exact .pvcOfPipeline howners
  | runScope => exact .pvcOfRun howners (hrun rfl)

end Frame

/-- What every step keeps. -/
structure KeptOwned (s : OwnerWorld) : Prop where
  keys : Keyed runKey s.store.runs
  runsNs : ∀ run ∈ s.store.runs, run.ns ≠ ""
  pipelinesNs : ∀ pipeline ∈ s.pipelines, pipeline.ns ≠ ""
  owned : ∀ creation ∈ s.created, OwnedBy s creation

section Steps

variable {lib : Externals} {s t : OwnerWorld}

theorem reconciled_eq {ns name : String} {run : Run} {pipeline : Pipeline}
    (hfound : s.reconciled ns name = some (run, pipeline)) :
    getRun s.store.runs ns name = some run ∧ pipeline.ns = ns ∧
      pipeline.name = run.labels.pipelineName := by
  obtain ⟨found, hget, hfound⟩ := Option.bind_eq_some_iff.mp hfound
  obtain ⟨label, hlabel, hfound⟩ := Option.bind_eq_some_iff.mp hfound
  cases hfound
  exact ⟨hget, getPipeline_key hlabel⟩

/-- The creations after a step: those before, and the new objects. -/
theorem mem_create {pipeline : Pipeline} {objects : List ObjectRef} {creation : Creation}
    (hmem : creation ∈ (s.create pipeline objects).created) :
    creation ∈ s.created ∨ ∃ object ∈ objects, creation =
      { object := object, pipelineNs := pipeline.ns, pipelineName := pipeline.name } := by
  rcases List.mem_append.mp hmem with hold | hnew
  · exact .inl hold
  · obtain ⟨object, hobject, rfl⟩ := List.mem_map.mp hnew
    exact .inr ⟨object, hobject, rfl⟩

/-- `ensureRunExists`: the run is created with its owner. -/
theorem KeptOwned.ensureRun (hkept : KeptOwned s) {pipeline : Pipeline}
    (hpipeline : pipeline ∈ s.pipelines) {address : Nat} {runs : RunStore}
    (hstep : ensureRunExists lib address pipeline s.store.runs = .ok runs) :
    KeptOwned ({ s with store.runs := runs }.create pipeline (newRuns s.store.runs runs)) := by
  rcases ensureRunExists_ok hstep with rfl | ⟨run, hns, howner, hfree, rfl⟩
  · rw [newRuns_self]
    refine
      { hkept with owned := ?_ }
    intro creation hmem
    rcases mem_create hmem with hold | ⟨object, hobject, -⟩
    · exact (hkept.owned creation hold).frame (fun _ _ _ h => h)
        (fun _ _ kjob hget => ⟨kjob, hget, rfl⟩) fun _ _ _ => rfl
    · cases hobject
  · refine
      { keys := ?_
        runsNs := ?_
        pipelinesNs := hkept.pipelinesNs
        owned := ?_ }
    · exact hkept.keys.concat (ne_of_getRun hfree)
    · intro other hother
      rcases List.mem_append.mp hother with hold | hlast
      · exact hkept.runsNs other hold
      · rw [List.mem_singleton.mp hlast, hns]
        exact hkept.pipelinesNs pipeline hpipeline
    · intro creation hmem
      rcases mem_create hmem with hold | ⟨object, hobject, rfl⟩
      · exact (hkept.owned creation hold).frame (fun _ _ _ h => h.append rfl)
          (fun _ _ kjob hget => ⟨kjob, hget, rfl⟩) fun _ _ _ => rfl
      · rw [eq_of_newRuns hobject, ← hns]
        refine .run ⟨run, ?_, howner⟩
        show getRun (s.store.runs ++ [run]) run.ns run.name = some run
        rw [getRun_append, hfree]
        simp

/-- A new claim comes from a volume that the run does not list as persistent. -/
theorem volume_of_newPvcs {pipeline : Pipeline} {before after : VolumePass}
    {object : ObjectRef} (howners : OwnersFrom pipeline before after)
    (howns : ∀ volume ∈ before.run.spec.volumes, volume.scope ≠ .persistent ∨
      ∀ other ∈ before.run.spec.volumes, other.name ≠ volume.name ∨ other.scope = .persistent)
    (hobject : object ∈ newPvcs before.run before.store.pvcs after.store.pvcs) :
    ∃ name, object = .pvc before.run.ns name ∧ ∃ volume ∈ before.run.spec.volumes,
      volume.scope ≠ .persistent ∧ volume.scope ≠ .undeclared ∧
      pvcOwners after.store.pvcs before.run.ns name =
        some (ownersOf pipeline before.run volume.scope) := by
  obtain ⟨pvc, hpvc, rfl⟩ := List.mem_map.mp hobject
  obtain ⟨hmem, hfree⟩ := List.mem_filter.mp hpvc
  obtain ⟨hfree, hfirst⟩ : getPvc before.store.pvcs pvc.ns pvc.name = none ∧
      firstScope before.run pvc.name ≠ some .persistent := by
    simpa using hfree
  obtain ⟨found, hfound⟩ : ∃ found, getPvc after.store.pvcs pvc.ns pvc.name = some found := by
    rw [← Option.isSome_iff_exists]
    exact List.find?_isSome.mpr ⟨pvc, hmem, by simp⟩
  rcases howners pvc.ns pvc.name with hkept | ⟨hns, volume, hvolume, hname, hdeclared, hset⟩
  · rw [pvcOwners, pvcOwners, hfree, hfound] at hkept
    cases hkept
  · refine ⟨pvc.name, by rw [hns], volume, hvolume, ?_, hdeclared, hns ▸ hset⟩
    intro hpersistent
    -- All volumes of the name are then persistent, the first one as well.
    have hall := (howns volume hvolume).resolve_left (not_not.mpr hpersistent)
    cases hfind : before.run.spec.volumes.find? fun other => other.name = pvc.name with
    | none => exact absurd hname (by simpa using List.find?_eq_none.mp hfind volume hvolume)
    | some first =>
        have hfirstName : first.name = pvc.name := by simpa using List.find?_some hfind
        have hsame : first.name = volume.name := hfirstName.trans hname.symm
        have hscope := (hall first (List.mem_of_find?_eq_some hfind)).resolve_left
          (not_not.mpr hsame)
        exact hfirst (by rw [firstScope, hfind, Option.map_some, hscope])

/-- A claim with the owners for a volume that the run lists. -/
theorem ownedBy_of_listed {run : Run} {pipeline : Pipeline}
    (hviews : t.store.runs.map runView = s.store.runs.map runView)
    (hget : getRun s.store.runs run.ns run.name = some run) (howns : OwnsVolumes s run pipeline)
    {volume : VolumeResource} (hvolume : volume ∈ run.spec.volumes)
    (hpersistent : volume.scope ≠ .persistent) (hdeclared : volume.scope ≠ .undeclared)
    {name : String}
    (hset : pvcOwners t.store.pvcs run.ns name = some (ownersOf pipeline run volume.scope)) :
    OwnedBy t ⟨.pvc run.ns name, run.ns, pipeline.name⟩ := by
  refine ownedBy_of_volume hpersistent hdeclared hset ?_
  intro hscope
  have howner := (howns volume hvolume).1.resolve_left (not_not.mpr hscope)
  exact RunOwned.views hviews ⟨run, hget, howner⟩

/-- An object that was created before keeps its owners, or the run lists it and
sets them anew. -/
theorem OwnedBy.passVolumes {run : Run} {pipeline : Pipeline} {accepted : Nat}
    {passed : VolumePass} {creation : Creation} (howned : OwnedBy s creation)
    (hcreation : creation ∈ s.created)
    (hviews : t.store.runs.map runView = s.store.runs.map runView)
    (hcluster : t.cluster = s.cluster) (hpassed : passed.store = t.store)
    (hget : getRun s.store.runs run.ns run.name = some run) (howns : OwnsVolumes s run pipeline)
    (howners : OwnersFrom pipeline { run := run, store := s.store, accepted := accepted } passed) :
    OwnedBy t creation := by
  by_cases hsame : ∀ ns name, creation.object = .pvc ns name →
      pvcOwners t.store.pvcs ns name = pvcOwners s.store.pvcs ns name
  · exact howned.frame (fun _ _ _ h => h.views hviews)
      (fun _ _ kjob hkjob => ⟨kjob, hcluster ▸ hkjob, rfl⟩) hsame
  · push Not at hsame
    obtain ⟨pns, pname, hobject, hchanged⟩ := hsame
    rcases howners pns pname with heq | ⟨hns, volume, hvolume, hname, hdeclared, hset⟩
    · exact absurd (hpassed ▸ heq) hchanged
    · have hlisted := ((howns volume hvolume).2.1 creation hcreation).resolve_left
        (not_not.mpr (by rw [hobject, hname, hns]))
      rw [howned.pipelineNs_eq hobject, hlisted.1, hns]
      exact ownedBy_of_listed hviews hget howns hvolume hlisted.2 hdeclared
        (hpassed ▸ hns ▸ hset)

/-- A pass over volumes that meets its conditions. -/
theorem KeptOwned.passVolumes (hkept : KeptOwned s) {ns name : String} {run : Run}
    {pipeline : Pipeline} (hfound : s.reconciled ns name = some (run, pipeline))
    (howns : OwnsVolumes s run pipeline) (accepted : Nat) :
    KeptOwned ({ s with store := s.volumesPassed lib run pipeline accepted }.create pipeline
      (newPvcs run s.store.pvcs (s.volumesPassed lib run pipeline accepted).pvcs)) := by
  obtain ⟨hget, hpns, -⟩ := reconciled_eq hfound
  obtain ⟨hrns, hrname⟩ := getRun_key hget
  have hself : getRun s.store.runs run.ns run.name = some run := by rw [hrns, hrname, hget]
  have hagrees := agrees_of_getRun hkept.keys hget
  have hviews : (s.volumesPassed lib run pipeline accepted).runs.map runView =
      s.store.runs.map runView := (ensureVolumeList_views lib pipeline hagrees).runs
  have howners := ensureVolumeList_owners lib pipeline
    (s := { run := run, store := s.store, accepted := accepted }) hagrees
  refine
    { keys := keyed_of_views hviews hkept.keys
      runsNs := ?_
      pipelinesNs := hkept.pipelinesNs
      owned := ?_ }
  · intro other hother
    obtain ⟨old, hold, hview⟩ := exists_of_map_eq hviews.symm hother
    rw [← show old.ns = other.ns from congrArg RunView.ns hview]
    exact hkept.runsNs old hold
  · intro creation hmem
    rcases mem_create hmem with hold | ⟨object, hobject, rfl⟩
    · exact (hkept.owned creation hold).passVolumes hold hviews rfl rfl hself howns howners
    · obtain ⟨pname, rfl, volume, hvolume, hpersistent, hdeclared, hset⟩ :=
        volume_of_newPvcs howners (fun volume hvolume => (howns volume hvolume).2.2) hobject
      rw [hpns, ← hrns]
      exact ownedBy_of_listed hviews hself howns hvolume hpersistent hdeclared hset

/-- The jobs after a pass come from the desired jobs of the run. -/
theorem kjobsPassed_from (lib : Externals) (hns : ∀ run ∈ s.store.runs, run.ns ≠ "") {run : Run}
    (hrun : run ∈ s.store.runs) (entries : Nat) :
    ∃ listed, (∀ d ∈ listed, ∃ job ∈ run.spec.jobs, kjobKey d = (job.ns, kjobNameOf lib run job)) ∧
      KJobsFrom run listed s.cluster (s.kjobsPassed lib run entries) := by
  unfold OwnerWorld.kjobsPassed
  split
  · exact ⟨[], by simp, KJobsFrom.refl run [] s.cluster⟩
  · next kjobList hlist =>
      refine ⟨kjobList, ?_, ensureKJobs_from (hns run hrun) _
        (fun d hd => List.mem_of_mem_take hd) s.cluster⟩
      intro d hd
      have hdesired := constructKjobListFromRun_desired hlist
      obtain ⟨i, hi, rfl⟩ := List.mem_iff_getElem.mp hd
      have hlength := hdesired.length_eq
      have hjob := hdesired.get (show i < run.spec.jobs.length by omega) hi
      exact ⟨run.spec.jobs[i], List.getElem_mem _, Prod.ext hjob.ns hjob.name⟩

/-- A pass over jobs that meets its condition. -/
theorem KeptOwned.passKJobs (hkept : KeptOwned s) {ns name : String} {run : Run}
    {pipeline : Pipeline} (hfound : s.reconciled ns name = some (run, pipeline))
    (howns : OwnsKJobs lib s run pipeline) (entries : Nat) :
    KeptOwned ({ s with cluster := s.kjobsPassed lib run entries }.create pipeline
      (newKJobs s.cluster (s.kjobsPassed lib run entries))) := by
  obtain ⟨hget, hpns, -⟩ := reconciled_eq hfound
  obtain ⟨hrns, hrname⟩ := getRun_key hget
  obtain ⟨listed, hlisted, hfrom⟩ :=
    kjobsPassed_from lib hkept.runsNs (List.mem_of_find?_eq_some hget) entries
  generalize s.kjobsPassed lib run entries = after at hfrom ⊢
  refine
    { keys := hkept.keys
      runsNs := hkept.runsNs
      pipelinesNs := hkept.pipelinesNs
      owned := ?_ }
  intro creation hmem
  rcases mem_create hmem with hold | ⟨object, hobject, rfl⟩
  · exact (hkept.owned creation hold).frame (fun _ _ _ h => h) hfrom.kept fun _ _ _ => rfl
  · obtain ⟨kjob, hkjob, rfl⟩ := List.mem_map.mp hobject
    obtain ⟨hmem, hfree⟩ := List.mem_filter.mp hkjob
    have hnone : s.cluster.getKJob kjob.ns kjob.name = none := by simpa using hfree
    obtain ⟨found, hfoundKJob⟩ : ∃ found, after.getKJob kjob.ns kjob.name = some found := by
      rw [← Option.isSome_iff_exists]
      exact List.find?_isSome.mpr ⟨kjob, hmem, by simp⟩
    obtain ⟨hns, howner, d, hd, hkey⟩ := hfrom.fresh _ _ found hnone hfoundKJob
    rcases howns with hrunOwner | hstored
    · rw [hpns, ← hrns, ← hns]
      refine .kjob hfoundKJob howner ⟨run, ?_, hrunOwner⟩
      show getRun s.store.runs kjob.ns run.name = some run
      rw [hns, hrns, hrname, hget]
    · obtain ⟨job, hjob, hjobKey⟩ := hlisted d hd
      have hparts := Prod.mk.inj (hjobKey.symm.trans hkey)
      have hsome := hstored job hjob
      rw [hparts.1, hparts.2, hnone] at hsome
      cases hsome

end Steps

theorem KeptOwned.init {lib : Externals} {s : OwnerWorld} (h : (ownerMachine lib).init s) :
    KeptOwned s := by
  obtain ⟨hkeys, hruns, hpipelines, hcreated⟩ := h
  refine
    { keys := hkeys
      runsNs := hruns
      pipelinesNs := hpipelines
      owned := ?_ }
  rw [hcreated]
  intro creation hmem
  cases hmem

theorem KeptOwned.step {lib : Externals} {s t : OwnerWorld} (hkept : KeptOwned s)
    {a : OwnerAction} (hkeeps : KeepsOwners lib s a) (hstep : s.step lib a = some t) :
    KeptOwned t := by
  cases a with
  | ensureRun ns name address =>
      obtain ⟨pipeline, hpipeline, hstep⟩ := Option.bind_eq_some_iff.mp hstep
      obtain ⟨runs, hruns, hstep⟩ := Option.bind_eq_some_iff.mp hstep
      cases hstep
      have hok : ensureRunExists lib address pipeline s.store.runs = .ok runs := by
        cases hresult : ensureRunExists lib address pipeline s.store.runs with
        | error e =>
            rw [hresult] at hruns
            cases hruns
        | ok next =>
            rw [hresult] at hruns
            cases hruns
            rfl
      exact hkept.ensureRun (List.mem_of_find?_eq_some hpipeline) hok
  | execute ns name address => exact absurd hkeeps.1 (by simp [OwnerAction.executes])
  | passVolumes ns name accepted =>
      obtain ⟨⟨run, pipeline⟩, hfound, hstep⟩ := Option.bind_eq_some_iff.mp hstep
      cases hstep
      exact hkept.passVolumes hfound (hkeeps.2.1 _ rfl _ hfound) accepted
  | passKJobs ns name entries =>
      obtain ⟨⟨run, pipeline⟩, hfound, hstep⟩ := Option.bind_eq_some_iff.mp hstep
      cases hstep
      exact hkept.passKJobs hfound (hkeeps.2.2 _ rfl _ hfound) entries
  | setPipelines pipelines =>
      simp only [OwnerWorld.step] at hstep
      split at hstep
      · next hpipelines =>
          cases hstep
          refine
            { hkept with
              pipelinesNs := hpipelines
              owned := ?_ }
          intro creation hmem
          exact (hkept.owned creation hmem).frame (fun _ _ _ h => h)
            (fun _ _ kjob hget => ⟨kjob, hget, rfl⟩) fun _ _ _ => rfl
      · cases hstep
  | createRun run =>
      simp only [OwnerWorld.step] at hstep
      split at hstep
      · next hnew =>
          cases hstep
          have hfree : getRun s.store.runs run.ns run.name = none := by simpa using hnew.2
          refine
            { keys := hkept.keys.concat (ne_of_getRun hfree)
              runsNs := ?_
              pipelinesNs := hkept.pipelinesNs
              owned := ?_ }
          · intro other hother
            rcases List.mem_append.mp hother with hold | hlast
            · exact hkept.runsNs other hold
            · rw [List.mem_singleton.mp hlast]
              exact hnew.1
          · intro creation hmem
            exact (hkept.owned creation hmem).frame (fun _ _ _ h => h.append rfl)
              (fun _ _ kjob hget => ⟨kjob, hget, rfl⟩) fun _ _ _ => rfl
      · cases hstep

/-- **Ownership is closed under the pipeline** in every run of the machine whose
steps meet the conditions. -/
theorem ownership_closed (lib : Externals) {s : OwnerWorld}
    (h : (ownerMachine lib).Reach (KeepsOwners lib) s) : OwnershipClosed s := by
  have hkept : KeptOwned s := h.invariant (fun _ => KeptOwned.init)
    fun _ _ _ hkept hkeeps hstep => hkept.step hkeeps hstep
  exact fun creation hmem => (hkept.owned creation hmem).reaches

/-- A pipeline with one task, and one volume for each of its runs. -/
def scratchPipeline (schedule : Option Schedule) : Pipeline where
  name := "train"
  ns := "team"
  spec.tasks := [{ name := "fit", image := "python" }]
  spec.volumes := [{ name := "scratch", capacity := "1Gi", storage := "nfs", lifecycle := "run" }]
  spec.schedule := schedule

def scratchWorld (schedule : Option Schedule) : OwnerWorld where
  pipelines := [scratchPipeline schedule]

theorem scratchWorld_init (schedule : Option Schedule) :
    (ownerMachine Externals.plain).init (scratchWorld schedule) := by
  refine ⟨List.nodup_nil, by simp [scratchWorld], ?_, rfl⟩
  intro pipeline hpipeline
  rw [List.mem_singleton.mp hpipeline]
  show "team" ≠ ""
  decide

def scratchRunName (schedule : Option Schedule) : String :=
  runNameOf Externals.plain someAddress (scratchPipeline schedule)

/-- The run is created and reconciled twice. -/
def createdAndPassed : List OwnerAction :=
  [ .ensureRun "team" "train" someAddress
  , .passVolumes "team" (scratchRunName none) 4
  , .passKJobs "team" (scratchRunName none) 1
  , .passVolumes "team" (scratchRunName none) 4 ]

def createdWorld : OwnerWorld :=
  ((ownerMachine Externals.plain).exec (KeepsOwners Externals.plain) (scratchWorld none)
    createdAndPassed).getD {}

theorem ownership_closed_created :
    createdWorld.created.length = 3 ∧ OwnershipClosed createdWorld := by
  have hexec : (ownerMachine Externals.plain).exec (KeepsOwners Externals.plain)
      (scratchWorld none) createdAndPassed = some createdWorld := by
    decide +kernel
  exact ⟨by decide +kernel, ownership_closed Externals.plain
    (Machine.reach_of_exec _ (scratchWorld_init none) hexec)⟩

/-- Every hour. -/
def scratchSchedule : Schedule where
  scheduleDate := "1h"
  repeats := true

def executedWorld : OwnerWorld :=
  ((ownerMachine Externals.plain).exec (fun _ _ => True) (scratchWorld scratchSchedule)
    [.execute "team" "train" someAddress]).getD {}

/-- The run of a scheduled execution has no owner, so nothing leads from it to
its pipeline. -/
theorem executed_not_owned :
    (ownerMachine Externals.plain).Reachable executedWorld ∧
      ¬ OwnershipClosed executedWorld := by
  have hexec : (ownerMachine Externals.plain).exec (fun _ _ => True)
      (scratchWorld scratchSchedule) [.execute "team" "train" someAddress] =
        some executedWorld := by
    decide +kernel
  refine ⟨Machine.reach_of_exec _ (scratchWorld_init scratchSchedule) hexec, ?_⟩
  have hcreated : executedWorld.created =
      [⟨.run "team" (scratchRunName scratchSchedule), "team", "train"⟩] := by
    decide +kernel
  have howners : executedWorld.owners (.run "team" (scratchRunName scratchSchedule)) = [] := by
    decide +kernel
  intro hclosed
  have hreaches := hclosed _ (by rw [hcreated]; exact List.mem_cons_self)
  rcases hreaches.cases_head with heq | ⟨owner, howner, -⟩
  · cases heq
  · rw [howners] at howner
    cases howner

end PipelineOperator.Controller
