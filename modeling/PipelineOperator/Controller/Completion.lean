import PipelineOperator.Controller.SecondPass
import PipelineOperator.Controller.StatusRetry
import Mathlib.Data.List.Nodup

/-!
# How a run is completed

A reconcile of a run records the states of its kubernetes jobs.  When as many
of them are recorded as ended as the run has jobs, it writes the end date on the
pipeline.  This file says what a pass over the jobs can make of what is
recorded, when the count comes out, and what the write leaves of the pipeline.

## Main results

* `ensureKJobs_leaves`: where the kubernetes jobs after a pass come from, and
  what has been recorded on them.
* `StaysUnfinished.after_pass`: a job that has not ended, or that the pass does
  not get to, is not recorded as ended.
* `endsExecution_iff`: the count comes out exactly when every job is recorded as
  ended and the jobs have different names.
* `updateRunStatus_ends`: the end date is written then, unless the first write
  on the pipeline meets a conflict.
-/

namespace PipelineOperator.Controller

open PipelineOperator.Lib
open PipelineOperator.Api
open PipelineOperator.Go

/-! ## Unfinished runs -/

/-- A job of the run is not recorded as ended: no kubernetes job of the run that
is labelled with it is in a post-run state. -/
def Unfinished (c : Cluster) (run : Run) : Prop :=
  ∃ job ∈ run.spec.jobs, ∀ kjob ∈ c.listRunKJobs run.ns run.name,
    kjob.labels.runJobName ≠ job.name ∨ ¬ kjob.recorded.PostRun

instance (c : Cluster) (run : Run) : Decidable (Unfinished c run) := by
  unfold Unfinished
  infer_instance

/-- The kubernetes job without what holds it back. -/
def released (kjob : KJob) : KJob :=
  { kjob with
    suspend := false
    annotations := { kjob.annotations with trigger := formatBool false } }

/-- The kubernetes job has ended: once nothing holds it back, the classifier
calls it post-run. -/
def HasEnded (c : Cluster) (kjob : KJob) : Prop :=
  (determineJobStateFrom (released kjob) (firstPod c kjob.ns kjob.name)).PostRun

instance (c : Cluster) (kjob : KJob) : Decidable (HasEnded c kjob) := by
  unfold HasEnded
  infer_instance

/-- The keys of the kubernetes jobs that a pass over the first jobs of a run
visits. -/
def visitedKeys (lib : Externals) (run : Run) (entries : Nat) : List (String × String) :=
  (run.spec.jobs.take entries).map fun job => (job.ns, kjobNameOf lib run job)

/-- A job of the run is not recorded as ended, and stays so in a pass over the
first jobs of another run, or of the same: the pass does not visit its
kubernetes job, or this has not ended. -/
def StaysUnfinished (lib : Externals) (c : Cluster) (passing : Run) (entries : Nat)
    (run : Run) : Prop :=
  ∃ job ∈ run.spec.jobs, ∀ kjob ∈ c.listRunKJobs run.ns run.name,
    kjob.labels.runJobName ≠ job.name ∨
      (¬ kjob.recorded.PostRun ∧
        ((∀ key ∈ visitedKeys lib passing entries, key ≠ kjobKey kjob) ∨ ¬ HasEnded c kjob))

instance (lib : Externals) (c : Cluster) (passing : Run) (entries : Nat) (run : Run) :
    Decidable (StaysUnfinished lib c passing entries run) := by
  unfold StaysUnfinished
  infer_instance

/-- A kubernetes job as a pass over the run creates it: labelled with the run
and one of its jobs, and owned by it. -/
structure Belongs (lib : Externals) (run : Run) (kjob : KJob) : Prop where
  ns : kjob.ns = run.ns
  runName : kjob.labels.runName = run.name
  owner : kjob.owner = some ⟨.run, run.name⟩
  job : ∃ job ∈ run.spec.jobs,
    kjob.labels.runJobName = job.name ∧ kjob.name = kjobNameOf lib run job

/-! ## What a pass leaves -/

section Pass

variable {lib : Externals} {run : Run} {c next : Cluster}

/-- Only the counters and the pod decide whether a job that is not held back is
called post-run. -/
theorem released_postRun {kjob old : KJob} {pod : Pod} (hcounts : kjob.status = old.status)
    (hpostRun : (determineJobStateFrom kjob pod).PostRun) :
    (determineJobStateFrom (released old) pod).PostRun := by
  have hheld := not_held_of_postRun pod hpostRun
  have hreleased : ¬ (released old).Held := by simp [KJob.Held, released, formatBool]
  have hsame : (released old).status = kjob.status := hcounts.symm
  by_cases hactive : 0 < kjob.status.active
  · rw [determineJobStateFrom_of_active pod hheld hactive] at hpostRun
    rw [determineJobStateFrom_of_active pod hreleased (hsame ▸ hactive)]
    exact hpostRun
  · have hidle : kjob.status.active = 0 := by omega
    rw [postRun_iff_of_idle pod hheld hidle] at hpostRun
    rw [postRun_iff_of_idle pod hreleased (hsame ▸ hidle), hsame]
    exact hpostRun

/-- Nothing is called post-run before its counters move. -/
theorem not_postRun_of_fresh {kjob : KJob} (hcounts : kjob.status = {}) (pod : Pod) :
    ¬ (determineJobStateFrom kjob pod).PostRun := by
  intro hpostRun
  have hheld := not_held_of_postRun pod hpostRun
  have hidle : kjob.status.active = 0 := by rw [hcounts]
  rw [postRun_iff_of_idle pod hheld hidle, hcounts] at hpostRun
  simp at hpostRun

/-- Where a kubernetes job comes from that is stored after a pass, and what has
been recorded on it. -/
inductive LeftByPass (lib : Externals) (run : Run) (entries : Nat) (before : Cluster)
    (kjob : KJob) : Prop where
  | stored (old : KJob) (hold : old ∈ before.kjobs) (hkey : kjobKey kjob = kjobKey old)
      (hlabels : kjob.labels = old.labels) (howner : kjob.owner = old.owner)
      (hcounts : kjob.status = old.status)
      (hrecorded : kjob.recorded.PostRun → old.recorded.PostRun ∨
        (kjobKey old ∈ visitedKeys lib run entries ∧ HasEnded before old)) :
      LeftByPass lib run entries before kjob
  | created (hbelongs : Belongs lib run kjob) (hcounts : kjob.status = {})
      (hrecorded : ¬ kjob.recorded.PostRun) : LeftByPass lib run entries before kjob

/-- The list of a run is made for the keys of its jobs. -/
theorem map_kjobKey_listed {kjobList : List KJob}
    (hlist : constructKjobListFromRun lib run = .ok kjobList) :
    kjobList.map kjobKey = run.spec.jobs.map fun job => (job.ns, kjobNameOf lib run job) := by
  have hdesired := constructKjobListFromRun_desired hlist
  clear hlist
  generalize run.spec.jobs = jobs at hdesired ⊢
  induction hdesired with
  | nil => rfl
  | cons hfirst _ ih =>
      rw [List.map_cons, List.map_cons, ih, kjobKey, hfirst.ns, hfirst.name]

/-- An entry that a pass visits is desired by a job of the run. -/
theorem visited_of_mem_take {kjobList : List KJob}
    (hlist : constructKjobListFromRun lib run = .ok kjobList) {entries : Nat} {desiredkjob : KJob}
    (hmem : desiredkjob ∈ kjobList.take entries) :
    kjobKey desiredkjob ∈ visitedKeys lib run entries ∧
      ∃ job ∈ run.spec.jobs, Desired lib run job desiredkjob := by
  constructor
  · rw [visitedKeys, List.map_take, ← map_kjobKey_listed hlist, ← List.map_take]
    exact List.mem_map_of_mem hmem
  · exact desired_of_listed hlist desiredkjob (List.mem_of_mem_take hmem)

/-- What a visit records on a job that is stored. -/
theorem LeftByPass.updated {entries : Nat} {before : Cluster} {kjob : KJob}
    (hleft : LeftByPass lib run entries before kjob) (hpods : c.pods = before.pods)
    (hvisited : kjobKey kjob ∈ visitedKeys lib run entries) (desiredTrigger : String)
    (suspending : Bool) :
    LeftByPass lib run entries before
      (updatedKJob kjob (firstPod c kjob.ns kjob.name) desiredTrigger suspending) := by
  cases hleft with
  | stored old hold hkey hlabels howner hcounts _ =>
      refine .stored old hold hkey hlabels howner hcounts ?_
      intro hpostRun
      rw [recorded_updatedKJob, firstPod_congr hpods] at hpostRun
      obtain ⟨hns, hname⟩ := Prod.mk.inj hkey
      right
      refine ⟨hkey ▸ hvisited, ?_⟩
      rw [HasEnded, ← hns, ← hname]
      exact released_postRun hcounts hpostRun
  | created hbelongs hcounts _ =>
      refine .created ⟨hbelongs.ns, hbelongs.runName, hbelongs.owner, hbelongs.job⟩ hcounts ?_
      rw [recorded_updatedKJob]
      exact not_postRun_of_fresh hcounts _

/-- One visit. -/
theorem ensureKJob_leaves (hns : run.ns ≠ "") {kjobList : List KJob}
    (hlist : constructKjobListFromRun lib run = .ok kjobList) {entries : Nat} {before : Cluster}
    {desiredkjob : KJob} (hmem : desiredkjob ∈ kjobList.take entries)
    (hpods : c.pods = before.pods)
    (hleft : ∀ kjob ∈ c.kjobs, LeftByPass lib run entries before kjob)
    (hstep : ensureKJob run c desiredkjob = .ok next) :
    ∀ kjob ∈ next.kjobs, LeftByPass lib run entries before kjob := by
  obtain ⟨hvisited, job, hjob, hdesired⟩ := visited_of_mem_take hlist hmem
  intro kjob hkjob
  cases hget : c.getKJob desiredkjob.ns desiredkjob.name with
  | none =>
      have hsame := ensureKJob_ns hns hget hstep
      obtain rfl := ensureKJob_of_missing hget hstep
      rcases List.mem_append.mp hkjob with hold | hnew
      · exact hleft kjob hold
      · rw [List.mem_singleton] at hnew
        subst hnew
        refine .created ⟨hsame, hdesired.runName, rfl, job, hjob, hdesired.runJobName,
          hdesired.name⟩ hdesired.counts ?_
        rw [KJob.recorded, show JobState.ofText _ = JobState.ofText "" from
          congrArg JobState.ofText hdesired.status]
        decide
  | some currentKjob =>
      obtain ⟨suspending, -, rfl⟩ := ensureKJob_of_exists hget hstep
      obtain ⟨hcurrent, hcurrentNs, hcurrentName⟩ := Cluster.mem_of_getKJob hget
      obtain ⟨k, hk, rfl⟩ := List.mem_map.mp hkjob
      split
      · rw [← hcurrentNs]
        refine (hleft currentKjob hcurrent).updated hpods ?_ _ _
        rw [kjobKey, hcurrentNs, hcurrentName]
        exact hvisited
      · exact hleft k hk

/-- A pass over the first jobs of the list, however it ends. -/
theorem ensureKJobs_leaves (hns : run.ns ≠ "") (hkeys : Keyed kjobKey c.kjobs)
    {kjobList : List KJob} (hlist : constructKjobListFromRun lib run = .ok kjobList)
    (entries : Nat) :
    OnTheWay c (ensureKJobs run (kjobList.take entries) c).1 ∧
      ∀ kjob ∈ (ensureKJobs run (kjobList.take entries) c).1.kjobs,
        LeftByPass lib run entries c kjob := by
  have hstart : ∀ kjob ∈ c.kjobs, LeftByPass lib run entries c kjob := by
    intro kjob hkjob
    exact .stored kjob hkjob rfl rfl rfl rfl Or.inl
  rw [ensureKJobs_eq_walk]
  refine walk_invariant (I := fun d => OnTheWay c d ∧
    ∀ kjob ∈ d.kjobs, LeftByPass lib run entries c kjob) ?_ ⟨⟨rfl, hkeys⟩, hstart⟩
  intro desiredkjob hmem d hd
  refine ⟨hd.1.visit run desiredkjob, ?_⟩
  unfold visitKJob
  split
  · exact hd.2
  · next next hstep => exact ensureKJob_leaves hns hlist hmem hd.1.pods hd.2 hstep

/-- A job that stays unfinished in a pass is unfinished after it. -/
theorem StaysUnfinished.after_pass {passing : Run} {entries : Nat}
    (hstays : StaysUnfinished lib c passing entries run)
    (hleft : ∀ kjob ∈ next.kjobs, LeftByPass lib passing entries c kjob) :
    Unfinished next run := by
  obtain ⟨job, hjob, hopen⟩ := hstays
  refine ⟨job, hjob, ?_⟩
  intro kjob hkjob
  obtain ⟨hmem, hlisted⟩ := List.mem_filter.mp hkjob
  rw [decide_eq_true_eq] at hlisted
  by_cases hname : kjob.labels.runJobName = job.name
  · right
    intro hpostRun
    cases hleft kjob hmem with
    | stored old hold hkey hlabels _ _ hrecorded =>
        have holdListed : old ∈ c.listRunKJobs run.ns run.name := by
          refine List.mem_filter.mpr ⟨hold, ?_⟩
          have hns : kjob.ns = old.ns := (Prod.mk.inj hkey).1
          rw [decide_eq_true_eq, ← hns, ← hlabels]
          exact hlisted
        rcases hopen old holdListed with hother | ⟨hnot, hrest⟩
        · exact hother (hlabels ▸ hname)
        · rcases hrecorded hpostRun with hbefore | ⟨hvisited, hended⟩
          · exact hnot hbefore
          · rcases hrest with hunvisited | hrunning
            · exact hunvisited _ hvisited rfl
            · exact hrunning hended
    | created _ _ hrecorded => exact hrecorded hpostRun
  · exact Or.inl hname

end Pass

/-! ## When the count comes out -/

/-- The three counts together count the jobs that are recorded as ended. -/
theorem count_ended (kjobs : List KJob) :
    countState .completed kjobs + countState .deleted kjobs + countState .failed kjobs =
      kjobs.countP fun kjob => kjob.recorded.PostRun := by
  induction kjobs with
  | nil => rfl
  | cons kjob kjobs ih =>
      simp only [countState] at ih
      simp only [countState, List.countP_cons, ← ih]
      cases hstate : kjob.recorded <;> simp [JobState.PostRun, jobCategory] <;> omega

section Count

variable {lib : Externals} {run : Run} {c : Cluster}

/-- Kubernetes jobs of a run that are labelled with the same job are the same. -/
theorem eq_of_runJobName (hkeys : Keyed kjobKey c.kjobs)
    (hbelongs : ∀ kjob ∈ c.listRunKJobs run.ns run.name, Belongs lib run kjob) {kjob other : KJob}
    (hkjob : kjob ∈ c.listRunKJobs run.ns run.name)
    (hother : other ∈ c.listRunKJobs run.ns run.name)
    (hname : kjob.labels.runJobName = other.labels.runJobName) : kjob = other := by
  have hfirst := hbelongs kjob hkjob
  have hsecond := hbelongs other hother
  obtain ⟨job, -, hlabel, hkjobName⟩ := hfirst.job
  obtain ⟨job', -, hlabel', hotherName⟩ := hsecond.job
  have hjobs : job.name = job'.name := by rw [← hlabel, hname, hlabel']
  have hsame : kjob.name = other.name := by
    rw [hkjobName, hotherName, kjobNameOf, kjobNameOf, hjobs]
  exact hkeys.eq_of_key (List.mem_filter.mp hkjob).1 (List.mem_filter.mp hother).1
    (Prod.ext (hfirst.ns.trans hsecond.ns.symm) hsame)

/-- The labels of the kubernetes jobs of a run are different names of its jobs. -/
theorem runJobNames_subperm (hkeys : Keyed kjobKey c.kjobs)
    (hbelongs : ∀ kjob ∈ c.listRunKJobs run.ns run.name, Belongs lib run kjob) :
    ((c.listRunKJobs run.ns run.name).map fun kjob => kjob.labels.runJobName).Nodup ∧
      ((c.listRunKJobs run.ns run.name).map fun kjob => kjob.labels.runJobName).Subperm
        (run.spec.jobs.map Job.name) := by
  have hnodup : ((c.listRunKJobs run.ns run.name).map fun kjob =>
      kjob.labels.runJobName).Nodup := by
    refine List.Nodup.map_on ?_ (hkeys.nodup.filter _)
    intro kjob hkjob other hother hname
    exact eq_of_runJobName hkeys hbelongs hkjob hother hname
  refine ⟨hnodup, List.subperm_of_subset hnodup ?_⟩
  intro name hname
  obtain ⟨kjob, hkjob, rfl⟩ := List.mem_map.mp hname
  obtain ⟨job, hjob, hlabel, -⟩ := (hbelongs kjob hkjob).job
  exact List.mem_map.mpr ⟨job, hjob, hlabel.symm⟩

/-- Where nothing is unfinished, every job has a kubernetes job that is recorded
as ended. -/
theorem exists_ended_of_finished (hfinished : ¬ Unfinished c run) {job : Job}
    (hjob : job ∈ run.spec.jobs) :
    ∃ kjob ∈ c.listRunKJobs run.ns run.name,
      kjob.labels.runJobName = job.name ∧ kjob.recorded.PostRun := by
  by_contra hnone
  refine hfinished ⟨job, hjob, ?_⟩
  intro kjob hkjob
  by_contra hboth
  rw [not_or, not_not, not_not] at hboth
  exact hnone ⟨kjob, hkjob, hboth⟩

/-- A reconcile of a run sets the end date when all its jobs are recorded as
ended and no two of them have the same name, and only then. -/
theorem endsExecution_iff (hkeys : Keyed kjobKey c.kjobs)
    (hbelongs : ∀ kjob ∈ c.listRunKJobs run.ns run.name, Belongs lib run kjob) :
    EndsExecution run (c.listRunKJobs run.ns run.name) ↔
      Keyed Job.name run.spec.jobs ∧ ¬ Unfinished c run := by
  obtain ⟨hnodup, hsub⟩ := runJobNames_subperm hkeys hbelongs
  have hlength : ((c.listRunKJobs run.ns run.name).map fun kjob =>
      kjob.labels.runJobName).length = (c.listRunKJobs run.ns run.name).length := List.length_map _
  have hjobs : (run.spec.jobs.map Job.name).length = run.spec.jobs.length := List.length_map _
  rw [EndsExecution, count_ended]
  constructor
  · intro hcount
    have hle := List.countP_le_length (l := c.listRunKJobs run.ns run.name)
      (p := fun kjob => decide kjob.recorded.PostRun)
    have hperm := hsub.perm_of_length_le (by omega)
    have hall := List.countP_eq_length.mp (hcount.trans (by
      have hsame := hperm.length_eq
      omega))
    refine ⟨hperm.nodup_iff.mp hnodup, ?_⟩
    rintro ⟨job, hjob, hopen⟩
    obtain ⟨kjob, hkjob, hlabel⟩ :=
      List.mem_map.mp (hperm.mem_iff.mpr (List.mem_map_of_mem hjob))
    rcases hopen kjob hkjob with hother | hnot
    · exact hother hlabel
    · exact hnot (of_decide_eq_true (hall kjob hkjob))
  · rintro ⟨hnames, hfinished⟩
    have hall : ∀ kjob ∈ c.listRunKJobs run.ns run.name, kjob.recorded.PostRun := by
      intro kjob hkjob
      obtain ⟨job, hjob, hlabel, -⟩ := (hbelongs kjob hkjob).job
      obtain ⟨other, hother, hotherLabel, hpostRun⟩ := exists_ended_of_finished hfinished hjob
      rw [eq_of_runJobName hkeys hbelongs hkjob hother (hlabel.trans hotherLabel.symm)]
      exact hpostRun
    have hcover : (run.spec.jobs.map Job.name).Subperm
        ((c.listRunKJobs run.ns run.name).map fun kjob => kjob.labels.runJobName) := by
      refine List.subperm_of_subset hnames ?_
      intro name hname
      obtain ⟨job, hjob, rfl⟩ := List.mem_map.mp hname
      obtain ⟨kjob, hkjob, hlabel, -⟩ := exists_ended_of_finished hfinished hjob
      exact List.mem_map.mpr ⟨kjob, hkjob, hlabel⟩
    have hcount := List.countP_eq_length.mpr fun kjob hkjob => decide_eq_true (hall kjob hkjob)
    have hle := hsub.length_le
    have hge := hcover.length_le
    omega

end Count

/-! ## What the status update writes -/

/-- The part of a run that neither its reconciles nor the API server change, as
far as executions go. -/
structure RunCore where
  ns : String
  name : String
  pipelineName : String
  jobs : List Job
  deriving Repr, DecidableEq

def runCore (run : Run) : RunCore where
  ns := run.ns
  name := run.name
  pipelineName := run.labels.pipelineName
  jobs := run.spec.jobs

theorem map_runCore_updateStatusOfRun (runs : RunStore) (run : Run) :
    (updateStatusOfRun runs run).map runCore = runs.map runCore := by
  unfold updateStatusOfRun
  rw [List.map_map]
  apply List.map_congr_left
  intro r _
  simp only [Function.comp_apply]
  split <;> rfl

/-- The pipeline with another end date. -/
def withEndDate (pipeline : Pipeline) (endDate : Option Time) : Pipeline :=
  { pipeline with
    status := { pipeline.status with scheduleLastExecutionEndDate := endDate } }

/-- The runs are what they were but for their status, and the pipeline but for
its end date, which is set or as it was. -/
structure StatusUpdated (runs : RunStore) (pipeline : Pipeline) (store : StatusStore) : Prop where
  runs : store.runs.map runCore = runs.map runCore
  pipelines : ∃ endDate, store.pipelines = [withEndDate pipeline endDate] ∧
    (endDate = pipeline.status.scheduleLastExecutionEndDate ∨ endDate.isSome)

section StatusUpdate

variable {lib : Externals} {runs : RunStore} {pipeline : Pipeline} {s : RetryState}

theorem StatusUpdated.refl (runs : RunStore) (pipeline : Pipeline) :
    StatusUpdated runs pipeline { runs := runs, pipelines := [pipeline] } where
  runs := rfl
  pipelines := ⟨pipeline.status.scheduleLastExecutionEndDate, rfl, Or.inl rfl⟩

theorem StatusUpdated.writeRunStatus (hupdated : StatusUpdated runs pipeline s.store)
    (attempt : StatusAttempt) (run : Run) :
    StatusUpdated runs pipeline (writeRunStatus attempt run s).1.store := by
  unfold Controller.writeRunStatus
  simp only [RetryState.access]
  split
  · exact hupdated
  · exact ⟨(map_runCore_updateStatusOfRun _ _).trans hupdated.runs, hupdated.pipelines⟩

theorem StatusUpdated.endExecution (hupdated : StatusUpdated runs pipeline s.store)
    (ns pipelineName : String) (attempt : StatusAttempt) :
    StatusUpdated runs pipeline (endExecution ns pipelineName attempt s).1.store := by
  unfold Controller.endExecution
  simp only [RetryState.access]
  split
  · exact hupdated
  · next found hget =>
      split
      · exact hupdated
      · obtain ⟨endDate, hpipelines, -⟩ := hupdated.pipelines
        refine ⟨hupdated.runs, some attempt.endNow.stored, ?_, Or.inr rfl⟩
        have hfound : found = withEndDate pipeline endDate := by
          have hmem := List.mem_of_find?_eq_some hget
          rw [hpipelines] at hmem
          exact List.mem_singleton.mp hmem
        simp only [hpipelines, updateStatusOfPipeline, List.map_cons, List.map_nil, hfound]
        simp [withEndDate]

/-- One attempt. -/
theorem StatusUpdated.tryUpdate (hupdated : StatusUpdated runs pipeline s.store)
    (lib : Externals) (ns pipelineName : String) (kjobs : List KJob) (attempt : StatusAttempt) :
    StatusUpdated runs pipeline
      (tryUpdateRunStatus lib ns pipelineName kjobs attempt s).1.store := by
  unfold tryUpdateRunStatus
  split
  · exact hupdated
  · next found _ =>
      have haccess : StatusUpdated runs pipeline (s.access (.getRun ns s.keyName)).store := hupdated
      simp only
      split
      · have hended := haccess.endExecution ns pipelineName attempt
        split
        · next after hafter =>
            rw [hafter] at hended
            exact hended.writeRunStatus attempt _
        · next after verdict _ hafter =>
            rw [hafter] at hended
            exact hended
      · exact haccess.writeRunStatus attempt _

/-- Any attempts. -/
theorem StatusUpdated.retry (hupdated : StatusUpdated runs pipeline s.store) (lib : Externals)
    (ns pipelineName : String) (kjobs : List KJob) (attempts : List StatusAttempt) :
    StatusUpdated runs pipeline
      (retryOnConflict (tryUpdateRunStatus lib ns pipelineName kjobs) attempts s).1.store :=
  retryOnConflict_result (I := fun s : RetryState => StatusUpdated runs pipeline s.store)
    (fun _ h => h)
    (fun attempt _ _ h => h.tryUpdate lib ns pipelineName kjobs attempt)
    (fun attempt _ _ h _ => h.tryUpdate lib ns pipelineName kjobs attempt) hupdated

theorem pipelines_writeRunStatus (attempt : StatusAttempt) (run : Run) (s : RetryState) :
    (writeRunStatus attempt run s).1.store.pipelines = s.store.pipelines := by
  unfold writeRunStatus
  simp only [RetryState.access]
  split <;> rfl

/-- The end date, where its write meets no conflict. -/
theorem endExecution_done (hpipelines : s.store.pipelines = [pipeline]) {attempt : StatusAttempt}
    (hfree : attempt.pipelineConflict = false) :
    (endExecution pipeline.ns pipeline.name attempt s).2 = .done ∧
      (endExecution pipeline.ns pipeline.name attempt s).1.store.pipelines =
        [withEndDate pipeline (some attempt.endNow.stored)] := by
  have hget : getPipeline s.store.pipelines pipeline.ns pipeline.name = some pipeline := by
    simp [getPipeline, hpipelines]
  simp only [endExecution, hget, hfree, Bool.false_eq_true, if_false]
  refine ⟨trivial, ?_⟩
  simp [RetryState.access, hpipelines, updateStatusOfPipeline, withEndDate]

/-- The first attempt sets the end date when the count comes out, unless its
write on the pipeline meets a conflict. -/
theorem tryUpdateRunStatus_ends {run : Run} {kjobs : List KJob} {attempt : StatusAttempt}
    (hpipelines : s.store.pipelines = [pipeline])
    (hstored : getRun s.store.runs pipeline.ns s.keyName = some run)
    (hends : EndsExecution run kjobs) (hfree : attempt.pipelineConflict = false) :
    (tryUpdateRunStatus lib pipeline.ns pipeline.name kjobs attempt s).1.store.pipelines =
      [withEndDate pipeline (some attempt.endNow.stored)] := by
  have haccess : (s.access (.getRun pipeline.ns s.keyName)).store.pipelines = [pipeline] :=
    hpipelines
  obtain ⟨hdone, hwritten⟩ := endExecution_done haccess hfree
  simp only [tryUpdateRunStatus, hstored, if_pos hends]
  generalize endExecution pipeline.ns pipeline.name attempt
    (s.access (.getRun pipeline.ns s.keyName)) = result at hdone hwritten ⊢
  obtain ⟨after, verdict⟩ := result
  obtain rfl : verdict = .done := hdone
  rw [pipelines_writeRunStatus]
  exact hwritten

/-- The end date is set when the count comes out, unless the first write on the
pipeline meets a conflict: later attempts leave an end date there. -/
theorem updateRunStatus_ends {run : Run} {c : Cluster} {attempts : Nat → StatusAttempt}
    (hstored : getRun runs run.ns run.name = some run) (hns : run.ns = pipeline.ns)
    (hname : run.labels.pipelineName = pipeline.name)
    (hends : EndsExecution run (c.listRunKJobs run.ns run.name))
    (hfree : (attempts 0).pipelineConflict = false) :
    ∃ endDate : Option Time, endDate.isSome ∧
      (updateRunStatus lib run c attempts
        { runs := runs, pipelines := [pipeline] }).1.store.pipelines =
          [withEndDate pipeline endDate] := by
  rw [hns] at hstored hends
  unfold updateRunStatus
  rw [hns, hname]
  have hattempts : allowed attempts = attempts 0 :: [attempts 1, attempts 2, attempts 3,
    attempts 4] := rfl
  rw [hattempts]
  generalize [attempts 1, attempts 2, attempts 3, attempts 4] = rest
  generalize hstart : RetryState.mk run.name ⟨runs, [pipeline]⟩ [] = start
  have hfirst : (tryUpdateRunStatus lib pipeline.ns pipeline.name
      (c.listRunKJobs pipeline.ns run.name) (attempts 0) start).1.store.pipelines =
        [withEndDate pipeline (some (attempts 0).endNow.stored)] := by
    subst hstart
    exact tryUpdateRunStatus_ends rfl hstored hends hfree
  by_cases hverdict : (tryUpdateRunStatus lib pipeline.ns pipeline.name
      (c.listRunKJobs pipeline.ns run.name) (attempts 0) start).2 = .conflict
  · rw [retryOnConflict_cons_of_conflict hverdict]
    generalize (tryUpdateRunStatus lib pipeline.ns pipeline.name
      (c.listRunKJobs pipeline.ns run.name) (attempts 0) start).1 = after at hfirst ⊢
    have hupdated : StatusUpdated after.store.runs
        (withEndDate pipeline (some (attempts 0).endNow.stored)) after.store :=
      ⟨rfl, _, hfirst, Or.inl rfl⟩
    obtain ⟨endDate, hpipelines, hset⟩ := (hupdated.retry lib pipeline.ns pipeline.name
      (c.listRunKJobs pipeline.ns run.name) rest).pipelines
    refine ⟨endDate, ?_, hpipelines⟩
    rcases hset with hsame | hsome
    · rw [hsame]
      rfl
    · exact hsome
  · rw [retryOnConflict_cons_of_ne hverdict]
    exact ⟨_, rfl, hfirst⟩

end StatusUpdate

end PipelineOperator.Controller
