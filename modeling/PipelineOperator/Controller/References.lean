import PipelineOperator.Controller.Settling

/-!
# References between the jobs of many runs

A job refers to its predecessors by generated names, and the operator finds
them by listing the kubernetes jobs of a namespace with such a name as label.
The namespace holds the kubernetes jobs of all runs of all its pipelines, so
a reference must not be carried by a job of another run.  It is not, as long
as the runs have different names and the hash does not confuse them.

## Main results

* `references_resolve`: a reference selects the one kubernetes job it means.
* `OneNamespace.labelsSpeak`: in a store with the kubernetes jobs of all runs the
  labels of each run speak for it, so that its failures are contained.
-/

namespace PipelineOperator.Controller

open PipelineOperator.Lib
open PipelineOperator.Api

/-- A pipeline with the run and the kubernetes jobs constructed from it, and
with different names for its tasks. -/
structure Launched (lib : Externals) where
  pipeline : Pipeline
  address : Nat
  run : Run
  kjobs : List KJob
  constructed : constructRunFromPipeline lib address pipeline = .ok run
  listed : constructKjobListFromRun lib run = .ok kjobs
  tasks : Keyed PipelineTask.name pipeline.spec.tasks

/-- A set of launched pipelines in one namespace: the names of their runs are
different, and so are the hashes of what these names are hashed with. -/
structure OneNamespace (lib : Externals) (ns : String) (launches : List (Launched lib)) :
    Prop where
  ns_eq : ∀ l ∈ launches, l.pipeline.ns = ns
  runs : Keyed (fun l : Launched lib => l.run.name) launches
  hash : ∀ l ∈ launches, ∀ l' ∈ launches,
    lib.hashString (l.run.name ++ l.run.ns) = lib.hashString (l'.run.name ++ l'.run.ns) →
      l.run.name ++ l.run.ns = l'.run.name ++ l'.run.ns

/-- The kubernetes jobs of all runs. -/
def allKJobs {lib : Externals} (launches : List (Launched lib)) : List KJob :=
  launches.flatMap Launched.kjobs

section References

variable {lib : Externals} {ns : String} {launches : List (Launched lib)}

/-! ## One launched pipeline -/

theorem Launched.run_ns (l : Launched lib) : l.run.ns = l.pipeline.ns :=
  (constructRunFromPipeline_ok l.constructed).2.1

theorem Launched.jobs_eq (l : Launched lib) :
    l.run.spec.jobs = l.pipeline.spec.tasks.map (newJobFromTask lib l.run) :=
  (constructRunFromPipeline_ok l.constructed).2.2.2

theorem Launched.mem_jobs (l : Launched lib) {task : PipelineTask}
    (htask : task ∈ l.pipeline.spec.tasks) :
    newJobFromTask lib l.run task ∈ l.run.spec.jobs := by
  rw [l.jobs_eq]
  exact List.mem_map_of_mem htask

/-- The kubernetes jobs of a run are those of its tasks, in their order. -/
theorem Launched.forall_tasks (l : Launched lib) :
    List.Forall₂ (fun task kjob =>
      constructKjobFromRunJob lib l.run (newJobFromTask lib l.run task) = .ok kjob)
      l.pipeline.spec.tasks l.kjobs := by
  have hjobs := constructKjobListFromRun_forall l.listed
  rw [l.jobs_eq, List.forall₂_map_left_iff] at hjobs
  exact hjobs

/-- Every task has its kubernetes job among those of the run. -/
theorem Launched.exists_kjob (l : Launched lib) {task : PipelineTask}
    (htask : task ∈ l.pipeline.spec.tasks) :
    ∃ kjob ∈ l.kjobs,
      constructKjobFromRunJob lib l.run (newJobFromTask lib l.run task) = .ok kjob := by
  obtain ⟨i, hi, rfl⟩ := List.mem_iff_getElem.mp htask
  have hlength := l.forall_tasks.length_eq
  exact ⟨l.kjobs[i], List.getElem_mem _, l.forall_tasks.get hi (by omega)⟩

/-- Every kubernetes job of a run is that of a task. -/
theorem Launched.exists_task (l : Launched lib) {kjob : KJob} (hkjob : kjob ∈ l.kjobs) :
    ∃ task ∈ l.pipeline.spec.tasks,
      constructKjobFromRunJob lib l.run (newJobFromTask lib l.run task) = .ok kjob := by
  obtain ⟨i, hi, rfl⟩ := List.mem_iff_getElem.mp hkjob
  have hlength := l.forall_tasks.length_eq
  exact ⟨l.pipeline.spec.tasks[i], List.getElem_mem _, l.forall_tasks.get (by omega) hi⟩

/-! ## Names across runs -/

/-- Runs of one namespace with equal hashes are the same. -/
theorem OneNamespace.eq_of_hash (h : OneNamespace lib ns launches) {l l' : Launched lib}
    (hl : l ∈ launches) (hl' : l' ∈ launches)
    (hhash : lib.hashString (l.run.name ++ l.run.ns) =
      lib.hashString (l'.run.name ++ l'.run.ns)) : l = l' := by
  have htext := h.hash l hl l' hl' hhash
  rw [l.run_ns, l'.run_ns, h.ns_eq l hl, h.ns_eq l' hl'] at htext
  have hname : l.run.name = l'.run.name := by
    have hlist := congrArg String.toList htext
    simp only [String.toList_append] at hlist
    exact String.toList_inj.mp (List.append_cancel_right hlist)
  exact h.runs.eq_of_key hl hl' hname

/-- A job name says which run and which task it belongs to. -/
theorem OneNamespace.jobName_inj (h : OneNamespace lib ns launches) {l l' : Launched lib}
    (hl : l ∈ launches) (hl' : l' ∈ launches) {taskName taskName' : String}
    (hname : jobNameOf lib l.run taskName = jobNameOf lib l'.run taskName') :
    l = l' ∧ taskName = taskName' := by
  obtain ⟨htask, hhash⟩ := getShortHashPostFix_inj hname
  exact ⟨h.eq_of_hash hl hl' hhash, htask⟩

/-- A kubernetes job is determined by its run-job-name label. -/
theorem OneNamespace.eq_of_label (h : OneNamespace lib ns launches) {l : Launched lib}
    (hl : l ∈ launches) {task : PipelineTask} (htask : task ∈ l.pipeline.spec.tasks)
    {kjob other : KJob}
    (hkjob : constructKjobFromRunJob lib l.run (newJobFromTask lib l.run task) = .ok kjob)
    (hother : other ∈ allKJobs launches)
    (hlabel : other.labels.runJobName = jobNameOf lib l.run task.name) : other = kjob := by
  obtain ⟨l', hl', hmem⟩ := List.mem_flatMap.mp hother
  obtain ⟨task', htask', hother'⟩ := l'.exists_task hmem
  have hlabel' := (constructKjobFromRunJob_desired hother').runJobName
  rw [hlabel] at hlabel'
  obtain ⟨rfl, hname⟩ := h.jobName_inj hl hl' hlabel'
  have heq := l.tasks.eq_of_key htask htask' hname
  subst heq
  rw [hkjob] at hother'
  exact (Except.ok.inj hother').symm

/-- A kubernetes job is determined by its name as well: the name starts with
the name of the job it runs. -/
theorem label_of_name {run run' : Run} {job job' : Job} {kjob kjob' : KJob}
    (hkjob : Desired lib run job kjob) (hkjob' : Desired lib run' job' kjob')
    (hname : kjob.name = kjob'.name) : kjob.labels.runJobName = kjob'.labels.runJobName := by
  rw [hkjob.name, hkjob'.name] at hname
  rw [hkjob.runJobName, hkjob'.runJobName]
  exact (getShortHashPostFix_inj hname).1

/-- The names of the kubernetes jobs of a run, task by task. -/
theorem Launched.kjob_names (l : Launched lib) :
    (l.pipeline.spec.tasks.map fun task =>
      kjobNameOf lib l.run (newJobFromTask lib l.run task)) = l.kjobs.map KJob.name := by
  rw [← List.forall₂_eq_eq_eq, List.forall₂_map_left_iff, List.forall₂_map_right_iff]
  apply l.forall_tasks.imp
  intro task kjob hkjob
  exact (constructKjobFromRunJob_desired hkjob).name.symm

/-- Within one run the names differ because the tasks do. -/
theorem Launched.kjobs_keyed (l : Launched lib) : Keyed KJob.name l.kjobs := by
  rw [Keyed, ← l.kjob_names]
  apply List.Nodup.map_on _ l.tasks.nodup
  intro task htask task' htask' hname
  have hjob := (getShortHashPostFix_inj hname).1
  exact l.tasks.eq_of_key htask htask' (getShortHashPostFix_inj hjob).1

/-- The kubernetes jobs of all runs have different names: across runs, a
shared name would be the name of one job of one run. -/
theorem OneNamespace.kjobs_keyed (h : OneNamespace lib ns launches) :
    Keyed KJob.name (allKJobs launches) := by
  rw [Keyed, allKJobs, List.map_flatMap, List.nodup_flatMap]
  refine ⟨fun l _ => l.kjobs_keyed, ?_⟩
  apply h.runs.nodup.imp_of_mem
  intro l l' hl hl' hne name hname hname'
  obtain ⟨kjob, hkjob, rfl⟩ := List.mem_map.mp hname
  obtain ⟨kjob', hkjob', hsame⟩ := List.mem_map.mp hname'
  obtain ⟨task, -, hbuilt⟩ := l.exists_task hkjob
  obtain ⟨task', -, hbuilt'⟩ := l'.exists_task hkjob'
  have hlabel := label_of_name (constructKjobFromRunJob_desired hbuilt')
    (constructKjobFromRunJob_desired hbuilt) hsame
  rw [(constructKjobFromRunJob_desired hbuilt').runJobName,
    (constructKjobFromRunJob_desired hbuilt).runJobName] at hlabel
  exact hne (h.jobName_inj hl' hl hlabel).1.symm

/-! ## References -/

/-- A reference to a task selects the kubernetes job of that task. -/
theorem OneNamespace.select_task (h : OneNamespace lib ns launches) {l : Launched lib}
    (hl : l ∈ launches) {before : PipelineTask} (hbefore : before ∈ l.pipeline.spec.tasks)
    {kjob : KJob}
    (hkjob : constructKjobFromRunJob lib l.run (newJobFromTask lib l.run before) = .ok kjob) :
    (allKJobs launches).filter
      (fun other => other.labels.runJobName = jobNameOf lib l.run before.name) = [kjob] := by
  have hdesired := constructKjobFromRunJob_desired hkjob
  obtain ⟨found, hfound, hbuilt⟩ := l.exists_kjob hbefore
  have hsame : found = kjob := by
    rw [hkjob] at hbuilt
    exact (Except.ok.inj hbuilt).symm
  subst hsame
  apply h.kjobs_keyed.filter_eq_singleton (List.mem_flatMap.mpr ⟨l, hl, hfound⟩)
  · exact decide_eq_true hdesired.runJobName
  · intro other hother hlabel
    rw [h.eq_of_label hl hbefore hkjob hother (of_decide_eq_true hlabel)]

/-- A reference to no task of the pipeline selects nothing. -/
theorem OneNamespace.select_none (h : OneNamespace lib ns launches) {l : Launched lib}
    (hl : l ∈ launches) {taskName : String}
    (hnone : ∀ before ∈ l.pipeline.spec.tasks, before.name ≠ taskName) :
    (allKJobs launches).filter
      (fun other => other.labels.runJobName = jobNameOf lib l.run taskName) = [] := by
  rw [List.filter_eq_nil_iff]
  intro other hother hlabel
  obtain ⟨l', hl', hmem⟩ := List.mem_flatMap.mp hother
  obtain ⟨task', htask', hbuilt⟩ := l'.exists_task hmem
  have hname := (constructKjobFromRunJob_desired hbuilt).runJobName
  rw [of_decide_eq_true hlabel] at hname
  obtain ⟨rfl, htask⟩ := h.jobName_inj hl hl' hname
  exact hnone task' htask' htask.symm

/-- References resolve to the right kubernetes job.  Whatever task of
whatever run refers to, it selects among the kubernetes jobs of all runs the
one built for that task of the own pipeline, or none when the pipeline has no
such task; and no two kubernetes jobs share a name. -/
theorem references_resolve (h : OneNamespace lib ns launches) :
    (∀ l ∈ launches, ∀ task ∈ l.pipeline.spec.tasks, ∀ (k : Nat) (taskName : String),
      task.runBefore[k]? = some taskName →
      newJobFromTask lib l.run task ∈ l.run.spec.jobs ∧
      ∃ reference, (newJobFromTask lib l.run task).runBefore[k]? = some reference ∧
        (∀ before ∈ l.pipeline.spec.tasks, before.name = taskName →
          ∃ kjob, constructKjobFromRunJob lib l.run (newJobFromTask lib l.run before) = .ok kjob ∧
            (allKJobs launches).filter (fun other => other.labels.runJobName = reference) =
              [kjob]) ∧
        ((∀ before ∈ l.pipeline.spec.tasks, before.name ≠ taskName) →
          (allKJobs launches).filter (fun other => other.labels.runJobName = reference) = [])) ∧
    Keyed KJob.name (allKJobs launches) := by
  refine ⟨?_, h.kjobs_keyed⟩
  intro l hl task htask k taskName hk
  refine ⟨l.mem_jobs htask, jobNameOf lib l.run taskName, ?_, ?_, h.select_none hl⟩
  · simp only [newJobFromTask, List.getElem?_map, hk, Option.map_some]
  · intro before hbefore hname
    obtain ⟨kjob, -, hkjob⟩ := l.exists_kjob hbefore
    refine ⟨kjob, hkjob, ?_⟩
    rw [← hname]
    exact h.select_task hl hbefore hkjob

end References

/-! Two pipelines with the same tasks, one of which refers to a task that
neither pipeline has. -/

def twoTasks (name : String) : Pipeline where
  name := name
  ns := "team"
  spec := { tasks := [
    { name := "build", image := "build" },
    { name := "deploy", image := "deploy", runBefore := ["build", "test"] }] }

def twoTasksRun (name : String) : Run :=
  (constructRunFromPipeline Externals.plain 0 (twoTasks name)).toOption.getD {}

def twoTasksKJobs (name : String) : List KJob :=
  (constructKjobListFromRun Externals.plain (twoTasksRun name)).toOption.getD []

def nightly : Launched Externals.plain where
  pipeline := twoTasks "nightly"
  address := 0
  run := twoTasksRun "nightly"
  kjobs := twoTasksKJobs "nightly"
  constructed := by decide +kernel
  listed := by decide +kernel
  tasks := by decide

def weekly : Launched Externals.plain where
  pipeline := twoTasks "weekly"
  address := 0
  run := twoTasksRun "weekly"
  kjobs := twoTasksKJobs "weekly"
  constructed := by decide +kernel
  listed := by decide +kernel
  tasks := by decide

theorem nightly_weekly : OneNamespace Externals.plain "team" [nightly, weekly] where
  ns_eq := by decide
  runs := by decide +kernel
  hash := by decide +kernel

theorem references_resolve_nightly :
    (allKJobs [nightly, weekly]).filter (fun other =>
      other.labels.runJobName = jobNameOf Externals.plain nightly.run "test") = [] ∧
    Keyed KJob.name (allKJobs [nightly, weekly]) := by
  obtain ⟨hreferences, hkeyed⟩ := references_resolve nightly_weekly
  obtain ⟨-, reference, hreference, -, hnone⟩ := hreferences nightly (by simp)
    { name := "deploy", image := "deploy", runBefore := ["build", "test"] }
    (by decide) 1 "test" rfl
  have htest : reference = jobNameOf Externals.plain nightly.run "test" := by
    rw [newJobFromTask] at hreference
    simpa using hreference.symm
  rw [← htest]
  exact ⟨hnone (by decide), hkeyed⟩

/-! ## Stores of launched pipelines -/

section Stores

variable {lib : Externals} {ns : String} {launches : List (Launched lib)}

/-- A constructed run is in good order if its tasks refer to tasks of the
same pipeline. -/
theorem Launched.wellFormed (l : Launched lib)
    (hbefore : ∀ task ∈ l.pipeline.spec.tasks, ∀ b ∈ task.runBefore,
      ∃ before ∈ l.pipeline.spec.tasks, before.name = b) : WellFormed l.run := by
  refine
    { names := ?_
      ns_eq := ?_
      before_mem := ?_ }
  · rw [Keyed, l.jobs_eq, List.map_map]
    apply List.Nodup.map_on _ l.tasks.nodup
    intro task htask task' htask' hname
    exact l.tasks.eq_of_key htask htask' (getShortHashPostFix_inj hname).1
  · intro job hjob
    rw [l.jobs_eq] at hjob
    obtain ⟨task, -, rfl⟩ := List.mem_map.mp hjob
    rfl
  · intro job hjob b hb
    rw [l.jobs_eq] at hjob
    obtain ⟨task, htask, rfl⟩ := List.mem_map.mp hjob
    obtain ⟨taskName, htaskName, rfl⟩ := List.mem_map.mp hb
    obtain ⟨before, hmem, hname⟩ := hbefore task htask taskName htaskName
    refine ⟨newJobFromTask lib l.run before, l.mem_jobs hmem, ?_⟩
    rw [← hname]
    rfl

/-- The store has the kubernetes jobs of all runs, whatever has become of their gates
and their counters. -/
def HoldsKJobs (launches : List (Launched lib)) (c : Cluster) : Prop :=
  (c.kjobs.map fun kjob => (kjobKey kjob, kjob.labels)).Perm
    ((allKJobs launches).map fun kjob => (kjobKey kjob, kjob.labels))

variable {c : Cluster} {l : Launched lib}

theorem HoldsKJobs.keys (hc : HoldsKJobs launches c) (h : OneNamespace lib ns launches) :
    Keyed kjobKey c.kjobs := by
  have hkeys : (c.kjobs.map kjobKey).Perm ((allKJobs launches).map kjobKey) := by
    have hfst := hc.map Prod.fst
    rw [List.map_map, List.map_map] at hfst
    exact hfst
  refine hkeys.nodup_iff.mpr (List.Nodup.of_map Prod.snd ?_)
  rw [List.map_map]
  exact h.kjobs_keyed

/-- Every stored kubernetes job is one of those that have been constructed. -/
theorem HoldsKJobs.exists_built (hc : HoldsKJobs launches c) {kjob : KJob}
    (hkjob : kjob ∈ c.kjobs) :
    ∃ built ∈ allKJobs launches, kjobKey built = kjobKey kjob ∧ built.labels = kjob.labels := by
  obtain ⟨built, hbuilt, hsame⟩ := List.mem_map.mp (hc.mem_iff.mp (List.mem_map_of_mem hkjob))
  exact ⟨built, hbuilt, (Prod.mk.inj hsame).1, (Prod.mk.inj hsame).2⟩

/-- Such a store is in good order for each of the runs. -/
theorem OneNamespace.labelled (h : OneNamespace lib ns launches) (hl : l ∈ launches)
    (hc : HoldsKJobs launches c) : Labelled lib l.run c where
  keys := hc.keys h
  label_iff := by
    intro kjob hkjob job hjob _
    obtain ⟨stored, hstored, hkey, hlabels⟩ := hc.exists_built hkjob
    rw [l.jobs_eq] at hjob
    obtain ⟨task, htask, rfl⟩ := List.mem_map.mp hjob
    obtain ⟨built, hbuilt, hconstructed⟩ := l.exists_kjob htask
    have hdesired := constructKjobFromRunJob_desired hconstructed
    rw [← hlabels, ← (Prod.mk.inj hkey).2]
    constructor
    · intro hlabel
      rw [h.eq_of_label hl htask hconstructed hstored hlabel]
      exact hdesired.name
    · intro hname
      have hmem : built ∈ allKJobs launches := List.mem_flatMap.mpr ⟨l, hl, hbuilt⟩
      rw [h.kjobs_keyed.eq_of_key hstored hmem (hname.trans hdesired.name.symm)]
      exact hdesired.runJobName

theorem OneNamespace.deployed (h : OneNamespace lib ns launches) (hl : l ∈ launches)
    (hc : HoldsKJobs launches c) : Deployed lib l.run c where
  keys := hc.keys h
  present := by
    intro job hjob
    rw [l.jobs_eq] at hjob
    obtain ⟨task, htask, rfl⟩ := List.mem_map.mp hjob
    obtain ⟨built, hbuilt, hconstructed⟩ := l.exists_kjob htask
    have hdesired := constructKjobFromRunJob_desired hconstructed
    have hmem : built ∈ allKJobs launches := List.mem_flatMap.mpr ⟨l, hl, hbuilt⟩
    obtain ⟨kjob, hkjob, hsame⟩ := List.mem_map.mp
      (hc.mem_iff.mpr (List.mem_map_of_mem (f := fun kjob => (kjobKey kjob, kjob.labels)) hmem))
    obtain ⟨hkey, hlabels⟩ := Prod.mk.inj hsame
    refine ⟨kjob, hkjob, (Prod.mk.inj hkey).1.trans hdesired.ns,
      (Prod.mk.inj hkey).2.trans hdesired.name, ?_⟩
    rw [hlabels]
    exact hdesired.runJobName

/-- So the labels of each run speak for it, whatever the other runs do. -/
theorem OneNamespace.labelsSpeak (h : OneNamespace lib ns launches) (hl : l ∈ launches)
    (hc : HoldsKJobs launches c) (hrun : WellFormed l.run) : LabelsSpeak lib l.run c :=
  (h.labelled hl hc).labelsSpeak hrun (h.deployed hl hc)

end Stores

end PipelineOperator.Controller
