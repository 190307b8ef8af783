import PipelineOperator.Controller.Completion
import PipelineOperator.Lib.Cover

/-!
# When the end of an execution is noticed

`updateRunStatus` takes an execution to have ended when three of its counters
add up to the number of jobs in the spec of the run.  The counters count
kubernetes jobs, by the states recorded on them; they do not look at the jobs
these are labelled with.  A job listed twice in the spec, a kubernetes job of a
job that is no longer listed, or two of one job throw the comparison off, in
either direction.

## Main results

* `writesEndDate_iff`: the pipeline is written when the count comes out, and only
  then, whatever conflicts the attempts meet.
* `endDate_detected_iff`: when this is the same as every job having ended.
-/

namespace PipelineOperator.Controller

open PipelineOperator.Lib
open PipelineOperator.Api

/-! ## What is to be noticed -/

/-- Every job of the spec has a kubernetes job that is recorded as completed,
deleted or failed. -/
def AllEnded (run : Run) (kjobs : List KJob) : Prop :=
  ∀ job ∈ run.spec.jobs, ∃ kjob ∈ kjobs, kjob.labels.runJobName = job.name ∧
    (kjob.recorded = .completed ∨ kjob.recorded = .deleted ∨ kjob.recorded = .failed)

instance (run : Run) (kjobs : List KJob) : Decidable (AllEnded run kjobs) := by
  unfold AllEnded
  infer_instance

/-- The attempts ask for the end date to be written on the pipeline of the run. -/
def WritesEndDate (run : Run) (result : RetryState × AttemptVerdict) : Prop :=
  .updatePipelineStatus run.ns run.labels.pipelineName ∈ result.1.accesses

/-- The labels of the kubernetes jobs that are recorded as ended. -/
def endedLabels (kjobs : List KJob) : List String :=
  (kjobs.filter fun kjob => kjob.recorded.PostRun).map fun kjob => kjob.labels.runJobName

/-- The ended kubernetes jobs that are left when each job name has taken one are
as many as the entries that repeat a name; or some name is without an ended
kubernetes job, and those that are left do not make up for it. -/
def CountsAgree (run : Run) (kjobs : List KJob) : Prop :=
  surplus (jobNames run) (endedLabels kjobs) = repeats (jobNames run) ∨
    (0 < uncovered (jobNames run) (endedLabels kjobs) ∧
      surplus (jobNames run) (endedLabels kjobs) ≠
        repeats (jobNames run) + uncovered (jobNames run) (endedLabels kjobs))

instance (run : Run) (kjobs : List KJob) : Decidable (CountsAgree run kjobs) := by
  unfold CountsAgree
  infer_instance

/-- All jobs have ended if the labels of what has ended cover their names. -/
theorem allEnded_iff (run : Run) (kjobs : List KJob) :
    AllEnded run kjobs ↔ ∀ name ∈ jobNames run, name ∈ endedLabels kjobs := by
  have hended : ∀ name, name ∈ endedLabels kjobs ↔ ∃ kjob ∈ kjobs,
      kjob.labels.runJobName = name ∧
        (kjob.recorded = .completed ∨ kjob.recorded = .deleted ∨ kjob.recorded = .failed) := by
    intro name
    rw [endedLabels, List.mem_map]
    constructor
    · rintro ⟨kjob, hkjob, rfl⟩
      obtain ⟨hmem, hpostRun⟩ := List.mem_filter.mp hkjob
      have hstates := JobState.postRun_iff.mp (of_decide_eq_true hpostRun)
      exact ⟨kjob, hmem, rfl, by tauto⟩
    · rintro ⟨kjob, hmem, hlabel, hstates⟩
      have hpostRun : kjob.recorded.PostRun := JobState.postRun_iff.mpr (by tauto)
      exact ⟨kjob, List.mem_filter.mpr ⟨hmem, decide_eq_true hpostRun⟩, hlabel⟩
  unfold AllEnded jobNames
  simp only [List.forall_mem_map, hended]

/-- The comparison of the source, in terms of names and labels. -/
theorem endsExecution_iff_length (run : Run) (kjobs : List KJob) :
    EndsExecution run kjobs ↔ (endedLabels kjobs).length = (jobNames run).length := by
  rw [EndsExecution, count_ended, endedLabels, jobNames, List.length_map, List.length_map,
    List.countP_eq_length_filter]

/-- Counting decides whether all jobs have ended exactly when the counts agree. -/
theorem endsExecution_iff_allEnded (run : Run) (kjobs : List KJob) :
    (EndsExecution run kjobs ↔ AllEnded run kjobs) ↔ CountsAgree run kjobs := by
  rw [endsExecution_iff_length, allEnded_iff, CountsAgree]
  exact decides_iff (jobNames run) (endedLabels kjobs)

/-! ## What is written -/

section Writes

variable {lib : Externals} {run stored : Run} {pipeline : Pipeline} {kjobs : List KJob}
  {s : RetryState}

/-- The run is fetched with its own key, and its pipeline has not been written. -/
structure Unwritten (run stored : Run) (s : RetryState) : Prop where
  key : s.keyName = run.name
  stored : getRun s.store.runs run.ns run.name = some stored
  accesses : ∀ ns name, Access.updatePipelineStatus ns name ∉ s.accesses

/-- An attempt on a run that has not ended does not write the pipeline, and
after a conflict everything is as before. -/
theorem Unwritten.attempt (hunwritten : Unwritten run stored s)
    (hends : ¬ EndsExecution stored kjobs) (attempt : StatusAttempt) :
    (∀ ns name, Access.updatePipelineStatus ns name ∉ (tryUpdateRunStatus lib run.ns
      run.labels.pipelineName kjobs attempt s).1.accesses) ∧
    ((tryUpdateRunStatus lib run.ns run.labels.pipelineName kjobs attempt s).2 = .conflict →
      Unwritten run stored
        (tryUpdateRunStatus lib run.ns run.labels.pipelineName kjobs attempt s).1) := by
  have hfresh := hunwritten.accesses
  simp only [tryUpdateRunStatus, hunwritten.key, hunwritten.stored, if_neg hends,
    writeRunStatus]
  split
  · refine ⟨?_, fun _ => ⟨hunwritten.key, hunwritten.stored, ?_⟩⟩
    · simpa [RetryState.access] using hfresh
    · simpa [RetryState.access] using hfresh
  · refine ⟨by simpa [RetryState.access] using hfresh, ?_⟩
    intro hconflict
    cases hconflict

/-- What has been accessed stays in the log. -/
theorem mem_retry {access : Access} (hmem : access ∈ s.accesses) (ns pipelineName : String)
    (attempts : List StatusAttempt) :
    access ∈ (retryOnConflict (tryUpdateRunStatus lib ns pipelineName kjobs) attempts
      s).1.accesses := by
  refine retryOnConflict_result (I := fun t : RetryState => access ∈ t.accesses)
    (J := fun t : RetryState => access ∈ t.accesses) (fun _ ht => ht) ?_ ?_ hmem
  · intro _ _ t ht
    exact mem_tryUpdate (mem_access ht _)
  · intro _ _ t ht _
    exact mem_tryUpdate (mem_access ht _)

/-- The first attempt on a run that has ended writes its pipeline, before it can
meet a conflict. -/
theorem mem_tryUpdate_of_ends (hkey : s.keyName = run.name)
    (hstored : getRun s.store.runs run.ns run.name = some stored)
    (hpipeline : getPipeline s.store.pipelines run.ns run.labels.pipelineName = some pipeline)
    (hends : EndsExecution stored kjobs) (attempt : StatusAttempt) :
    .updatePipelineStatus run.ns run.labels.pipelineName ∈ (tryUpdateRunStatus lib run.ns
      run.labels.pipelineName kjobs attempt s).1.accesses := by
  have hpipelineKey := getPipeline_key hpipeline
  have hended : .updatePipelineStatus run.ns run.labels.pipelineName ∈ (endExecution run.ns
      run.labels.pipelineName attempt (s.access (.getRun run.ns run.name))).1.accesses := by
    have hfetched : getPipeline (s.access (.getRun run.ns run.name)).store.pipelines run.ns
        run.labels.pipelineName = some pipeline := hpipeline
    simp only [endExecution, hfetched, hpipelineKey]
    split
    · exact List.mem_append_right _ List.mem_cons_self
    · exact List.mem_append_right _ List.mem_cons_self
  simp only [tryUpdateRunStatus, hkey, hstored, if_pos hends]
  split
  · next after hafter =>
      rw [hafter] at hended
      exact mem_writeRunStatus hended _ _
  · next after verdict _ hafter =>
      rw [hafter] at hended
      exact hended

/-- The pipeline is written when the count comes out, and only then. -/
theorem writesEndDate_iff (lib : Externals) {store : StatusStore} (c : Cluster)
    (attempts : Nat → StatusAttempt)
    (hstored : getRun store.runs run.ns run.name = some stored)
    (hpipeline : getPipeline store.pipelines run.ns run.labels.pipelineName = some pipeline) :
    WritesEndDate run (updateRunStatus lib run c attempts store) ↔
      EndsExecution stored (c.listRunKJobs run.ns run.name) := by
  constructor
  · intro hwrites
    by_contra hends
    have hstart : Unwritten run stored { keyName := run.name, store := store } :=
      ⟨rfl, hstored, by simp⟩
    have hnever : ∀ ns name, Access.updatePipelineStatus ns name ∉
        (updateRunStatus lib run c attempts store).1.accesses := by
      refine retryOnConflict_result (I := Unwritten run stored)
        (J := fun t => ∀ ns name, Access.updatePipelineStatus ns name ∉ t.accesses)
        (fun t ht => ht.accesses) ?_ ?_ hstart
      · intro attempt _ t ht
        exact (ht.attempt hends attempt).1
      · intro attempt _ t ht hconflict
        exact (ht.attempt hends attempt).2 hconflict
    exact hnever _ _ hwrites
  · intro hends
    have hfirst := @mem_tryUpdate_of_ends lib run stored pipeline _
      { keyName := run.name, store := store } rfl hstored hpipeline hends (attempts 0)
    unfold WritesEndDate updateRunStatus
    rw [show allowed attempts = attempts 0 :: [attempts 1, attempts 2, attempts 3, attempts 4]
      from rfl]
    by_cases hverdict : (tryUpdateRunStatus lib run.ns run.labels.pipelineName
        (c.listRunKJobs run.ns run.name) (attempts 0)
        { keyName := run.name, store := store }).2 = .conflict
    · rw [retryOnConflict_cons_of_conflict hverdict]
      exact mem_retry hfirst run.ns run.labels.pipelineName _
    · rw [retryOnConflict_cons_of_ne hverdict]
      exact hfirst

end Writes

/-! ## Exactly when -/

/-- **When the end of an execution is noticed.**  The run and the pipeline of its
label are stored, as a reconcile has found them.  The end date is written
exactly when all jobs have ended, if and only if the counts agree. -/
theorem endDate_detected_iff (lib : Externals) {run stored : Run} {pipeline : Pipeline}
    {store : StatusStore} (c : Cluster) (attempts : Nat → StatusAttempt)
    (hstored : getRun store.runs run.ns run.name = some stored)
    (hpipeline : getPipeline store.pipelines run.ns run.labels.pipelineName = some pipeline) :
    (WritesEndDate run (updateRunStatus lib run c attempts store) ↔
        AllEnded stored (c.listRunKJobs run.ns run.name)) ↔
      CountsAgree stored (c.listRunKJobs run.ns run.name) := by
  rw [writesEndDate_iff lib c attempts hstored hpipeline]
  exact endsExecution_iff_allEnded stored (c.listRunKJobs run.ns run.name)

/-- A run whose spec has a job twice, which has one kubernetes job. -/
def twiceListedRun : Run :=
  { trainedRun with spec.jobs := [{ name := "fit" }, { name := "fit" }] }

/-- Beside it there is the kubernetes job of a job that the spec no longer has. -/
def leftOverJobs : Cluster where
  kjobs := trainedJobs.kjobs ++ [{
    name := "tune-1"
    ns := "team"
    labels := { runName := "train-1", runJobName := "tune" }
    annotations := { status := "failed" } }]

def storeOf (run : Run) : StatusStore :=
  { trainedStore with runs := [run] }

/-- The two errors make up for each other. -/
theorem endDate_detected_twiceListed :
    CountsAgree twiceListedRun (leftOverJobs.listRunKJobs "team" "train-1") ∧
      WritesEndDate twiceListedRun (updateRunStatus Externals.plain twiceListedRun leftOverJobs
        (attemptsWith true) (storeOf twiceListedRun)) := by
  have hagree : CountsAgree twiceListedRun (leftOverJobs.listRunKJobs "team" "train-1") := by
    decide +kernel
  have hdetected :
      (WritesEndDate twiceListedRun (updateRunStatus Externals.plain twiceListedRun leftOverJobs
          (attemptsWith true) (storeOf twiceListedRun)) ↔
        AllEnded twiceListedRun (leftOverJobs.listRunKJobs "team" "train-1")) ↔
      CountsAgree twiceListedRun (leftOverJobs.listRunKJobs "team" "train-1") :=
    endDate_detected_iff Externals.plain leftOverJobs (attemptsWith true) rfl rfl
  exact ⟨hagree, (hdetected.mpr hagree).mpr (by decide +kernel)⟩

/-- Kubernetes jobs that are labelled with different names of different jobs are
counted right. -/
theorem countsAgree_of_keyed {run : Run} {kjobs : List KJob}
    (hnames : Keyed Job.name run.spec.jobs)
    (hlabels : Keyed (fun kjob => kjob.labels.runJobName) kjobs)
    (hlisted : ∀ kjob ∈ kjobs, kjob.labels.runJobName ∈ jobNames run) :
    CountsAgree run kjobs := by
  have hended : ((kjobs.filter fun kjob => kjob.recorded.PostRun).map
      fun kjob => kjob.labels.runJobName).Sublist
        (kjobs.map fun kjob => kjob.labels.runJobName) :=
    List.filter_sublist.map _
  refine Or.inl (surplus_eq_repeats hnames (hended.nodup hlabels) ?_)
  intro label hlabel
  obtain ⟨kjob, hkjob, rfl⟩ := List.mem_map.mp hlabel
  exact hlisted kjob (List.mem_filter.mp hkjob).1

/-- A run with another job that is still to be run, and the kubernetes job of a
job that its spec no longer has. -/
def extendedRun : Run :=
  { trainedRun with spec.jobs := [{ name := "report" }] }

/-- The end of the first one is never noticed, and the second one is taken to
have ended before its job is done. -/
theorem end_missed_and_invented :
    ¬ (∀ (lib : Externals) (run stored : Run) (pipeline : Pipeline) (store : StatusStore)
      (c : Cluster) (attempts : Nat → StatusAttempt),
      getRun store.runs run.ns run.name = some stored →
      getPipeline store.pipelines run.ns run.labels.pipelineName = some pipeline →
      AllEnded stored (c.listRunKJobs run.ns run.name) →
      WritesEndDate run (updateRunStatus lib run c attempts store)) ∧
    ¬ (∀ (lib : Externals) (run stored : Run) (pipeline : Pipeline) (store : StatusStore)
      (c : Cluster) (attempts : Nat → StatusAttempt),
      getRun store.runs run.ns run.name = some stored →
      getPipeline store.pipelines run.ns run.labels.pipelineName = some pipeline →
      WritesEndDate run (updateRunStatus lib run c attempts store) →
      AllEnded stored (c.listRunKJobs run.ns run.name)) := by
  constructor
  · intro hall
    have hwrites := hall Externals.plain twiceListedRun twiceListedRun
      { name := "train", ns := "team" } (storeOf twiceListedRun) trainedJobs (attemptsWith false)
      rfl rfl (by decide +kernel)
    have hnot : ¬ WritesEndDate twiceListedRun (updateRunStatus Externals.plain twiceListedRun
        trainedJobs (attemptsWith false) (storeOf twiceListedRun)) := by
      unfold WritesEndDate
      decide +kernel
    exact hnot hwrites
  · intro hall
    have hended := hall Externals.plain extendedRun extendedRun
      { name := "train", ns := "team" } (storeOf extendedRun) trainedJobs (attemptsWith false)
      rfl rfl (by unfold WritesEndDate; decide +kernel)
    have hnot : ¬ AllEnded extendedRun
        (trainedJobs.listRunKJobs extendedRun.ns extendedRun.name) := by
      decide +kernel
    exact hnot hended

end PipelineOperator.Controller
