import PipelineOperator.Controller.Reconcile
import PipelineOperator.Controller.SecondPass

/-!
# Reconciles that find nothing to do

A reconcile of an object that is up to date is not silent.  Every stage of it
writes, and although all of the writes but two bring nothing new, the status
gets the date of its latest update from the clock, and a run whose jobs have
all ended sets the end date on its pipeline each time.  These dates are all
that a second reconcile changes.

A pipeline is up to date when it counts its runs.  A run is when the state and
the suspend flag of its kubernetes jobs are those that a pass would write, and
when its volumes say what their claims say; a pass that creates a job or a
claim leaves it behind, and so does one that visits a job before those it
waits for.

## Main results

* `reconcileRun_again`, `reconcilePipeline_again`: what one more reconcile of
  an object that is up to date does.
-/

namespace PipelineOperator.Controller

open PipelineOperator.Lib
open PipelineOperator.Api
open PipelineOperator.Go

/-! ## Dates -/

/-- The date that every reconcile of a run writes. -/
def redateRun (runs : RunStore) (ns name : String) (now : Time) : RunStore :=
  runs.map fun r =>
    if r.ns = ns ∧ r.name = name then { r with status.lastUpdatedDate := some now.stored } else r

/-- The date that every reconcile of a pipeline writes. -/
def redatePipeline (pipelines : List Pipeline) (ns name : String) (now : Time) : List Pipeline :=
  pipelines.map fun p =>
    if p.ns = ns ∧ p.name = name then { p with status.lastUpdatedDate := some now.stored } else p

/-- The end date that a reconcile of an ended run writes. -/
def redateExecution (pipelines : List Pipeline) (ns name : String) (now : Time) : List Pipeline :=
  pipelines.map fun p =>
    if p.ns = ns ∧ p.name = name then
      { p with status.scheduleLastExecutionEndDate := some now.stored }
    else p

/-- The store with the dates of a reconcile of a run, if it gets that far. -/
def redatedByRun (s : ObjectStore) (ns name : String) (now endNow : Time) : ObjectStore :=
  match getRun s.runs ns name with
  | none => s
  | some run =>
      match getPipeline s.pipelines ns run.labels.pipelineName with
      | none => s
      | some _ => { s with
          runs := redateRun s.runs ns name now
          pipelines :=
            if EndsExecution run (s.cluster.listRunKJobs ns name) then
              redateExecution s.pipelines ns run.labels.pipelineName endNow
            else s.pipelines }

/-- The store with the date of a reconcile of a pipeline. -/
def redatedByPipeline (s : ObjectStore) (ns name : String) (now : Time) : ObjectStore :=
  { s with pipelines := redatePipeline s.pipelines ns name now }

/-! ## Up to date -/

/-- The kubernetes jobs of the run are up to date, and its volumes are. -/
structure RunUpToDate (lib : Externals) (run : Run) (s : ObjectStore) : Prop where
  kjobs : ∀ job ∈ run.spec.jobs, ∀ kjob ∈ s.cluster.getKJob job.ns (kjobNameOf lib run job),
    KJobUpToDate run s.cluster kjob
  volumes : VolumesUpToDate run s.pvcs

instance (lib : Externals) (run : Run) (s : ObjectStore) : Decidable (RunUpToDate lib run s) :=
  decidable_of_iff
    ((∀ job ∈ run.spec.jobs, ∀ kjob ∈ s.cluster.getKJob job.ns (kjobNameOf lib run job),
      KJobUpToDate run s.cluster kjob) ∧ VolumesUpToDate run s.pvcs)
    ⟨fun h => ⟨h.1, h.2⟩, fun h => ⟨h.kjobs, h.volumes⟩⟩

/-- The pipeline has counted its runs. -/
def PipelineUpToDate (pipeline : Pipeline) (s : ObjectStore) : Prop :=
  pipeline.status.runs = s.runs.countP fun run =>
    run.ns = pipeline.ns ∧ run.labels.pipelineName = pipeline.name

instance (pipeline : Pipeline) (s : ObjectStore) : Decidable (PipelineUpToDate pipeline s) := by
  unfold PipelineUpToDate
  infer_instance

/-! ## The status of a run -/

/-- The runs and pipelines that `updateRunStatus` leaves of stored objects when
nothing conflicts. -/
def statusWritten (lib : Externals) (stored : Run) (pipeline : Pipeline) (kjobs : List KJob)
    (now endNow : Time) (store : StatusStore) : StatusStore where
  runs := updateStatusOfRun store.runs (withStatus lib stored kjobs (freeAttempt now endNow))
  pipelines :=
    if EndsExecution stored kjobs then
      updateStatusOfPipeline store.pipelines { pipeline with
        status.scheduleLastExecutionEndDate := some endNow.stored }
    else store.pipelines

/-- `updateRunStatus` without a conflict. -/
theorem updateRunStatus_free (lib : Externals) {run stored : Run} {pipeline : Pipeline}
    (store : StatusStore) (c : Cluster) (now endNow : Time)
    (hstored : getRun store.runs run.ns run.name = some stored)
    (hpipeline : getPipeline store.pipelines run.ns run.labels.pipelineName = some pipeline) :
    ∃ t, updateRunStatus lib run c (fun _ => freeAttempt now endNow) store = (t, .done) ∧
      t.store = statusWritten lib stored pipeline (c.listRunKJobs run.ns run.name) now endNow
        store := by
  have hattempts : allowed (fun _ => freeAttempt now endNow) =
      freeAttempt now endNow :: List.replicate 4 (freeAttempt now endNow) := rfl
  have hfirst : ∃ t, tryUpdateRunStatus lib run.ns run.labels.pipelineName
      (c.listRunKJobs run.ns run.name) (freeAttempt now endNow)
      { keyName := run.name, store := store } = (t, .done) ∧
      t.store = statusWritten lib stored pipeline (c.listRunKJobs run.ns run.name) now endNow
        store := by
    by_cases hends : EndsExecution stored (c.listRunKJobs run.ns run.name)
    · simp [tryUpdateRunStatus, statusWritten, hstored, hends, endExecution, RetryState.access,
        hpipeline, writeRunStatus, freeAttempt]
    · simp [tryUpdateRunStatus, statusWritten, hstored, hends, RetryState.access, writeRunStatus,
        freeAttempt]
  obtain ⟨t, htry, hstore⟩ := hfirst
  have hne : (tryUpdateRunStatus lib run.ns run.labels.pipelineName
      (c.listRunKJobs run.ns run.name) (freeAttempt now endNow)
      { keyName := run.name, store := store }).2 ≠ .conflict := by
    rw [htry]
    show AttemptVerdict.done ≠ .conflict
    decide
  refine ⟨t, ?_, hstore⟩
  rw [updateRunStatus, hattempts, retryOnConflict_cons_of_ne hne, htry]

/-- Writing the status of a run that has it already changes its date. -/
theorem updateStatusOfRun_again {lib : Externals} {runs : RunStore}
    (hkeys : Keyed runKey runs) {run : Run} (hrun : run ∈ runs) {kjobs : List KJob} {before : Time}
    (hstatus : run.status = runStatusFrom lib run kjobs before) (now endNow : Time) :
    updateStatusOfRun runs (withStatus lib run kjobs (freeAttempt now endNow)) =
      redateRun runs run.ns run.name now := by
  have hredated : runStatusFrom lib run kjobs now.stored =
      { run.status with lastUpdatedDate := some now.stored } := by
    rw [hstatus]
    unfold runStatusFrom
    rw [hstatus]
  apply List.map_congr_left
  intro r hr
  by_cases hkey : r.ns = run.ns ∧ r.name = run.name
  · have hsame := hkeys.eq_of_key hr hrun (Prod.ext hkey.1 hkey.2)
    subst hsame
    simp [withStatus, freeAttempt, hredated]
  · simp [withStatus, hkey]

/-- Writing an end date on a pipeline. -/
theorem updateStatusOfPipeline_end {pipelines : List Pipeline}
    (hkeys : Keyed pipelineKey pipelines) {pipeline : Pipeline} (hpipeline : pipeline ∈ pipelines)
    (endNow : Time) :
    updateStatusOfPipeline pipelines { pipeline with
        status.scheduleLastExecutionEndDate := some endNow.stored } =
      redateExecution pipelines pipeline.ns pipeline.name endNow := by
  apply List.map_congr_left
  intro p hp
  by_cases hkey : p.ns = pipeline.ns ∧ p.name = pipeline.name
  · have hsame := hkeys.eq_of_key hp hpipeline (Prod.ext hkey.1 hkey.2)
    subst hsame
    simp
  · simp [hkey]

/-- Writing the status of a stored run that has it already changes the two dates
of its reconcile. -/
theorem updateRunStatus_again {lib : Externals} {t : ObjectStore} (hkeys : KeyedStore t)
    {ns name : String} {run : Run} {pipeline : Pipeline} (hrun : getRun t.runs ns name = some run)
    (hpipeline : getPipeline t.pipelines ns run.labels.pipelineName = some pipeline)
    {before : Time}
    (hstatus : run.status = runStatusFrom lib run (t.cluster.listRunKJobs ns name) before)
    (now endNow : Time) :
    ∃ written, updateRunStatus lib run t.cluster (fun _ => freeAttempt now endNow)
        { runs := t.runs, pipelines := t.pipelines } = (written, .done) ∧
      written.store.runs = (redatedByRun t ns name now endNow).runs ∧
      written.store.pipelines = (redatedByRun t ns name now endNow).pipelines ∧
      redatedByRun t ns name now endNow =
        { t with
          runs := (redatedByRun t ns name now endNow).runs
          pipelines := (redatedByRun t ns name now endNow).pipelines } := by
  have hkey := getRun_key hrun
  have hstored : getRun t.runs run.ns run.name = some run := by
    rw [hkey.1, hkey.2]
    exact hrun
  have hfound : getPipeline t.pipelines run.ns run.labels.pipelineName = some pipeline := by
    rw [hkey.1]
    exact hpipeline
  obtain ⟨written, hwrote, hstore⟩ := updateRunStatus_free lib ⟨t.runs, t.pipelines⟩ t.cluster
    now endNow hstored hfound
  have hruns := updateStatusOfRun_again hkeys.runs (List.mem_of_find?_eq_some hrun) hstatus now
    endNow
  have hend : updateStatusOfPipeline t.pipelines { pipeline with
      status.scheduleLastExecutionEndDate := some endNow.stored } =
        redateExecution t.pipelines ns run.labels.pipelineName endNow := by
    rw [updateStatusOfPipeline_end hkeys.pipelines (List.mem_of_find?_eq_some hpipeline),
      (getPipeline_key hpipeline).1, (getPipeline_key hpipeline).2]
  rw [hkey.1, hkey.2] at hruns hstore
  refine ⟨written, hwrote, ?_, ?_, ?_⟩
  · simp only [hstore, statusWritten, hruns, redatedByRun, hrun, hpipeline]
  · simp only [hstore, statusWritten, hend, redatedByRun, hrun, hpipeline]
  · simp only [redatedByRun, hrun, hpipeline]

/-! ## What a reconcile of a run has done -/

/-- The pass over the volumes with which a reconcile of the run starts. -/
def startOf (run : Run) (s : ObjectStore) : VolumePass :=
  volumePass (withRunName run) { s with runs := replaceRun s.runs (withRunName run) }

/-- A reconcile of the run has gone through its stages: the pass over the
volumes, which has come to `pass`, and the pass over the jobs have met no error,
and the run that was in hand then has got its status. -/
structure RunReconciled (lib : Externals) (run : Run) (pipeline : Pipeline) (now endNow : Time)
    (s t : ObjectStore) (pass : VolumePass) : Prop where
  volumes : ensureVolumeList lib pipeline (startOf run s) = (pass, .ok ())
  views : SameViews (startOf run s) pass
  inHand : getRun pass.store.runs pass.run.ns pass.run.name = some pass.run
  kjobs : ensureKJobList lib pass.run s.cluster = (t.cluster, .ok ())
  pvcs : t.pvcs = pass.store.pvcs
  status : statusWritten lib pass.run pipeline (t.cluster.listRunKJobs pass.run.ns pass.run.name)
    now endNow { runs := pass.store.runs, pipelines := s.pipelines } =
      { runs := t.runs, pipelines := t.pipelines }

section Run

variable {lib : Externals} {run : Run} {pipeline : Pipeline} {ns name : String}
  {now endNow : Time} {s t : ObjectStore}

theorem withRunName_self (hnamed : run.labels.runName = run.name) : withRunName run = run := by
  have hlabels : { run.labels with runName := run.name } = run.labels := by
    rw [← hnamed]
  unfold withRunName
  rw [hlabels]

/-- The pass over the volumes starts with the stored run. -/
theorem getRun_withRunName (hrun : getRun s.runs ns name = some run) :
    getRun (replaceRun s.runs (withRunName run)) (withRunName run).ns (withRunName run).name =
      some (withRunName run) := by
  have hkey := getRun_key hrun
  rw [getRun_replaceRun]
  show (getRun s.runs run.ns run.name).map _ = _
  rw [hkey.1, hkey.2, hrun]
  simp [withRunName]

theorem keyed_updateStatusOfRun {runs : RunStore} (hkeys : Keyed runKey runs) (run : Run) :
    Keyed runKey (updateStatusOfRun runs run) := by
  apply hkeys.map
  intro r _
  split <;> rfl

theorem keyed_updateStatusOfPipeline {pipelines : List Pipeline}
    (hkeys : Keyed pipelineKey pipelines) (pipeline : Pipeline) :
    Keyed pipelineKey (updateStatusOfPipeline pipelines pipeline) := by
  apply hkeys.map
  intro p _
  split <;> rfl

theorem namespaced_updateStatusOfPipeline {pipelines : List Pipeline}
    (hns : ∀ p ∈ pipelines, p.ns ≠ "") (pipeline : Pipeline) :
    ∀ p ∈ updateStatusOfPipeline pipelines pipeline, p.ns ≠ "" := by
  intro p hp
  obtain ⟨old, hold, rfl⟩ := List.mem_map.mp hp
  split
  · exact hns old hold
  · exact hns old hold

/-- The jobs that a run asks for have nothing recorded. -/
theorem status_of_listed {kjobList : List KJob}
    (hlist : constructKjobListFromRun lib run = .ok kjobList) :
    ∀ desiredkjob ∈ kjobList, desiredkjob.annotations.status = "" := by
  intro desiredkjob hdesired
  obtain ⟨job, -, hjob⟩ := desired_of_listed hlist desiredkjob hdesired
  exact hjob.status

theorem keyed_replaceRun {runs : RunStore} (hkeys : Keyed runKey runs) (run : Run) :
    Keyed runKey (replaceRun runs run) := by
  apply hkeys.map
  intro r _
  split
  · next hkey => exact (Prod.ext hkey.1 hkey.2).symm
  · rfl

theorem agrees_startOf (hs : KeyedStore s) (hrun : getRun s.runs ns name = some run) :
    Agrees (startOf run s).run (startOf run s).store.runs :=
  agrees_of_getRun (keyed_replaceRun hs.runs (withRunName run)) (getRun_withRunName hrun)

/-- A reconcile without an error has gone through its stages. -/
theorem reconcileStored_ok (hs : KeyedStore s) (hrun : getRun s.runs ns name = some run)
    (hpipeline : getPipeline s.pipelines ns run.labels.pipelineName = some pipeline)
    (hok : reconcileStored lib run pipeline now endNow s = .ok t) :
    ∃ pass, RunReconciled lib run pipeline now endNow s t pass := by
  unfold reconcileStored at hok
  simp only at hok
  split at hok
  · cases hok
  · next pass hpass =>
      split at hok
      · cases hok
      · next cluster hkjobs =>
          have hviews := ensureVolumeList_views lib pipeline (agrees_startOf hs hrun)
          have hhand := ensureVolumeList_inHand (getRun_withRunName hrun)
            (congrArg Prod.snd hpass)
          rw [startOf, hpass] at hviews
          rw [hpass] at hhand
          have hns : pass.run.ns = ns :=
            (congrArg RunView.ns hviews.run).trans (getRun_key hrun).1
          have hlabels : pass.run.labels = (withRunName run).labels :=
            congrArg RunView.labels hviews.run
          have hfound : getPipeline s.pipelines pass.run.ns pass.run.labels.pipelineName =
              some pipeline := by
            rw [hns, hlabels]
            exact hpipeline
          obtain ⟨written, hwritten, hstore⟩ := updateRunStatus_free lib
            ⟨pass.store.runs, s.pipelines⟩ cluster now endNow hhand hfound
          rw [hwritten] at hok
          cases hok
          exact ⟨pass, hpass, hviews, hhand, hkjobs, rfl, hstore.symm⟩

section Reconciled

variable {pass : VolumePass} (hdone : RunReconciled lib run pipeline now endNow s t pass)
include hdone

theorem RunReconciled.runs_eq : t.runs = updateStatusOfRun pass.store.runs
    (withStatus lib pass.run (t.cluster.listRunKJobs pass.run.ns pass.run.name)
      (freeAttempt now endNow)) :=
  (congrArg StatusStore.runs hdone.status).symm

theorem RunReconciled.pipelines_eq : t.pipelines =
    if EndsExecution pass.run (t.cluster.listRunKJobs pass.run.ns pass.run.name) then
      updateStatusOfPipeline s.pipelines { pipeline with
        status.scheduleLastExecutionEndDate := some endNow.stored }
    else s.pipelines :=
  (congrArg StatusStore.pipelines hdone.status).symm

theorem RunReconciled.key (hrun : getRun s.runs ns name = some run) :
    pass.run.ns = ns ∧ pass.run.name = name := by
  have hkey := getRun_key hrun
  exact ⟨(congrArg RunView.ns hdone.views.run).trans hkey.1,
    (congrArg RunView.name hdone.views.run).trans hkey.2⟩

/-- The run that is stored then. -/
theorem RunReconciled.getRun_eq (hrun : getRun s.runs ns name = some run) :
    getRun t.runs ns name =
      some (withStatus lib pass.run (t.cluster.listRunKJobs ns name) (freeAttempt now endNow)) := by
  have hkey := hdone.key hrun
  have hhand := hdone.inHand
  rw [hkey.1, hkey.2] at hhand
  rw [hdone.runs_eq, getRun_updateStatusOfRun, hhand, Option.map_some]
  simp [withStatus, hkey.1, hkey.2]

/-- The pipeline is stored still. -/
theorem RunReconciled.getPipeline_eq
    (hpipeline : getPipeline s.pipelines ns run.labels.pipelineName = some pipeline) :
    ∃ found, getPipeline t.pipelines ns run.labels.pipelineName = some found := by
  rw [hdone.pipelines_eq]
  split
  · rw [getPipeline_updateStatusOfPipeline, hpipeline]
    exact ⟨_, rfl⟩
  · exact ⟨pipeline, hpipeline⟩

/-- A reconcile keeps the keys different. -/
theorem RunReconciled.keyed (hs : KeyedStore s) : KeyedStore t where
  namespaced := by
    rw [hdone.pipelines_eq]
    split
    · exact namespaced_updateStatusOfPipeline hs.namespaced _
    · exact hs.namespaced
  pipelines := by
    rw [hdone.pipelines_eq]
    split
    · exact keyed_updateStatusOfPipeline hs.pipelines _
    · exact hs.pipelines
  runs := by
    rw [hdone.runs_eq]
    exact keyed_updateStatusOfRun
      (keyed_of_views hdone.views.runs (keyed_replaceRun hs.runs (withRunName run))) _
  kjobs := by
    obtain ⟨kjobList, hlist⟩ := exists_kjobList hdone.kjobs
    have hpass : ensureKJobs pass.run kjobList s.cluster = (t.cluster, .ok ()) := by
      rw [← hdone.kjobs, ensureKJobList, hlist]
    exact (ensureKJobs_left hs.kjobs (status_of_listed hlist) hpass).1.keys
  pvcs := by
    rw [hdone.pvcs]
    have hkeys := keyed_ensureVolumeList lib pipeline (s := startOf run s) hs.pvcs
    rw [hdone.volumes] at hkeys
    exact hkeys

/-! ## One more reconcile of a run -/

/-- The pass over the volumes that starts from what a reconcile has left. -/
theorem RunReconciled.volumes_again (hs : KeyedStore s) (hrun : getRun s.runs ns name = some run)
    {again : Run} {found : Pipeline} (hagain : getRun t.runs ns name = some again)
    (hview : runView again = runView pass.run) (hfound : found.name = pipeline.name)
    (hns : found.ns = again.ns) (hvolumes : VolumesUpToDate again t.pvcs) :
    ∃ left, ensureVolumeList lib found (volumePass again t) =
      (⟨again, { runs := t.runs, pvcs := t.pvcs }, left⟩, .ok ()) := by
  have hkeys := hdone.keyed hs
  have hkey := getRun_key hagain
  refine ensureVolumeList_again (startOf run s) _ (agrees_startOf hs hrun)
    (congrArg Prod.snd hdone.volumes) hfound
    (hview.trans hdone.views.run) ?_ hkeys.runs hkeys.pvcs ?_ hvolumes hns le_rfl
  · rw [hdone.volumes]
    exact hdone.pvcs
  · rw [hkey.1, hkey.2]
    exact hagain

/-- The pass over the jobs that starts from there. -/
theorem RunReconciled.kjobs_again (hs : KeyedStore s) {again : Run}
    (hagain : again = withStatus lib pass.run (t.cluster.listRunKJobs ns name)
      (freeAttempt now endNow))
    (hup : RunUpToDate lib again t) :
    ensureKJobList lib again t.cluster = (t.cluster, .ok ()) := by
  obtain ⟨kjobList, hlist⟩ := exists_kjobList hdone.kjobs
  have hpass : ensureKJobs pass.run kjobList s.cluster = (t.cluster, .ok ()) := by
    rw [← hdone.kjobs, ensureKJobList, hlist]
  -- The status of a run does not enter the jobs that it asks for.
  have hagainList : constructKjobListFromRun lib again = .ok kjobList := by
    rw [← hlist, hagain]
    rfl
  have hleft := (ensureKJobs_left hs.kjobs (status_of_listed hlist) hpass).2
  have hcurrent : ensureKJobs again kjobList t.cluster = (t.cluster, .ok ()) := by
    refine ensureKJobs_again (hdone.keyed hs).kjobs ?_
    intro desiredkjob hdesired
    obtain ⟨kjob, hget, hkjob⟩ := hleft desiredkjob hdesired
    obtain ⟨job, hjob, hdesiredOf⟩ := desired_of_listed hagainList desiredkjob hdesired
    refine ⟨kjob, hget, hkjob, hup.kjobs job hjob kjob ?_⟩
    rw [← hdesiredOf.ns, ← hdesiredOf.name]
    exact hget
  rw [ensureKJobList, hagainList]
  exact hcurrent

/-- The run that is stored then has its name in its labels already. -/
theorem RunReconciled.named (hrun : getRun s.runs ns name = some run) {again : Run}
    (hagain : getRun t.runs ns name = some again) (hview : runView again = runView pass.run) :
    withRunName again = again ∧ again.labels.pipelineName = run.labels.pipelineName := by
  have hlabels : again.labels = (withRunName run).labels :=
    (congrArg RunView.labels hview).trans (congrArg RunView.labels hdone.views.run)
  refine ⟨withRunName_self ?_, ?_⟩
  · rw [hlabels, (getRun_key hagain).2]
    exact (getRun_key hrun).2
  · rw [hlabels]
    rfl

/-- A reconcile of what a reconcile has left changes two dates at most. -/
theorem RunReconciled.again (hs : KeyedStore s) (hrun : getRun s.runs ns name = some run)
    (hpipeline : getPipeline s.pipelines ns run.labels.pipelineName = some pipeline)
    (hup : ∀ again ∈ getRun t.runs ns name, RunUpToDate lib again t)
    (later endLater : Time) :
    reconcileRun lib ns name later endLater t =
      .ok (redatedByRun t ns name later endLater) := by
  have hkeys := hdone.keyed hs
  have hagain := hdone.getRun_eq hrun
  have hview : runView (withStatus lib pass.run (t.cluster.listRunKJobs ns name)
      (freeAttempt now endNow)) = runView pass.run := rfl
  have hcurrent := hup _ hagain
  have hstatus : (withStatus lib pass.run (t.cluster.listRunKJobs ns name)
      (freeAttempt now endNow)).status =
        runStatusFrom lib (withStatus lib pass.run (t.cluster.listRunKJobs ns name)
          (freeAttempt now endNow)) (t.cluster.listRunKJobs ns name) now.stored := rfl
  generalize hwritten : withStatus lib pass.run (t.cluster.listRunKJobs ns name)
    (freeAttempt now endNow) = again at hagain hview hcurrent hstatus
  obtain ⟨hnamed, hlabel⟩ := hdone.named hrun hagain hview
  obtain ⟨found, hfound⟩ := hdone.getPipeline_eq hpipeline
  have hfoundKey := getPipeline_key hfound
  rw [← hlabel] at hfound
  have hname : found.name = pipeline.name := hfoundKey.2.trans (getPipeline_key hpipeline).2.symm
  have hns : found.ns = again.ns := hfoundKey.1.trans (getRun_key hagain).1.symm
  obtain ⟨left, hvolumes⟩ :=
    hdone.volumes_again hs hrun hagain hview hname hns hcurrent.volumes
  have hstart : volumePass again { t with runs := replaceRun t.runs again } =
      volumePass again t := by
    rw [replaceRun_self hkeys.runs (List.mem_of_find?_eq_some hagain)]
  have hkjobs := hdone.kjobs_again hs hwritten.symm hcurrent
  obtain ⟨written, hwrote, hruns, hpipelines, hrest⟩ :=
    updateRunStatus_again hkeys hagain hfound hstatus later endLater
  have hresult : reconcileStored lib again found later endLater t =
      .ok (redatedByRun t ns name later endLater) := by
    simp only [reconcileStored, hnamed, hstart, hvolumes, hkjobs, hwrote, hruns, hpipelines]
    rw [hrest]
  rw [reconcileRun, hagain]
  simp only [hfound]
  exact hresult

end Reconciled

/-- One more reconcile of a run that is up to date. -/
theorem reconcileRun_again (hs : KeyedStore s)
    (hok : reconcileRun lib ns name now endNow s = .ok t)
    (hup : ∀ again ∈ getRun t.runs ns name, RunUpToDate lib again t)
    (later endLater : Time) :
    reconcileRun lib ns name later endLater t =
      .ok (redatedByRun t ns name later endLater) := by
  unfold reconcileRun at hok
  cases hrun : getRun s.runs ns name with
  | none =>
      simp only [hrun] at hok
      cases hok
      simp only [reconcileRun, redatedByRun, hrun]
  | some run =>
      simp only [hrun] at hok
      cases hpipeline : getPipeline s.pipelines ns run.labels.pipelineName with
      | none =>
          simp only [hpipeline] at hok
          cases hok
          simp only [reconcileRun, redatedByRun, hrun, hpipeline]
      | some pipeline =>
          simp only [hpipeline] at hok
          obtain ⟨pass, hdone⟩ := reconcileStored_ok hs hrun hpipeline hok
          exact hdone.again hs hrun hpipeline hup later endLater

end Run

/-! ## What a reconcile of a pipeline writes -/

/-- A pipeline in the place of the one with its key. -/
def putPipeline (pipelines : List Pipeline) (pipeline : Pipeline) : List Pipeline :=
  pipelines.map fun p => if p.ns = pipeline.ns ∧ p.name = pipeline.name then pipeline else p

section Put

variable {pipelines : List Pipeline} {ns name : String} {pipeline : Pipeline}

theorem getPipeline_put (hget : getPipeline pipelines ns name = some pipeline) (put : Pipeline)
    (hns : put.ns = ns) (hname : put.name = name) :
    getPipeline (putPipeline pipelines put) ns name = some put := by
  unfold getPipeline at hget ⊢
  have htest : ∀ p : Pipeline, decide
      ((if p.ns = put.ns ∧ p.name = put.name then put else p).ns = ns ∧
        (if p.ns = put.ns ∧ p.name = put.name then put else p).name = name) =
          decide (p.ns = ns ∧ p.name = name) := by
    intro p
    split
    · next hkey => rw [hkey.1, hkey.2]
    · rfl
  have hkey : pipeline.ns = ns ∧ pipeline.name = name := by
    simpa using List.find?_some hget
  rw [putPipeline, find?_map_kept htest, hget, Option.map_some, if_pos]
  rw [hkey.1, hkey.2, hns, hname]
  exact ⟨rfl, rfl⟩

/-- Of two pipelines put under one key the second stays. -/
theorem putPipeline_put {first second : Pipeline} (hns : first.ns = second.ns)
    (hname : first.name = second.name) :
    putPipeline (putPipeline pipelines first) second = putPipeline pipelines second := by
  unfold putPipeline
  rw [List.map_map]
  apply List.map_congr_left
  intro p _
  simp only [Function.comp_apply, hns, hname]
  split
  · simp [hns, hname]
  · rfl

theorem keyed_putPipeline (hkeys : Keyed pipelineKey pipelines) (put : Pipeline) :
    Keyed pipelineKey (putPipeline pipelines put) := by
  apply hkeys.map
  intro p _
  split
  · next hkey => exact (Prod.ext hkey.1 hkey.2).symm
  · rfl

/-- A status write puts the pipeline that was read. -/
theorem updateStatusOfPipeline_eq (hkeys : Keyed pipelineKey pipelines)
    (hmem : pipeline ∈ pipelines) (status : PipelineStatus) :
    updateStatusOfPipeline pipelines { pipeline with status := status } =
      putPipeline pipelines { pipeline with status := status } := by
  apply List.map_congr_left
  intro p hp
  split
  · next hkey => rw [hkeys.eq_of_key hp hmem (Prod.ext hkey.1 hkey.2)]
  · rfl

/-- So does an update that keeps the key. -/
theorem replacePipeline_eq (hkeys : Keyed pipelineKey pipelines) (hmem : pipeline ∈ pipelines)
    {updated : Pipeline} (hns : updated.ns = pipeline.ns) (hname : updated.name = pipeline.name)
    (hstatus : updated.status = pipeline.status) :
    replacePipeline pipelines updated = putPipeline pipelines updated := by
  apply List.map_congr_left
  intro p hp
  split
  · next hkey =>
      have hsame := hkeys.eq_of_key hp hmem
        (Prod.ext (hkey.1.trans hns) (hkey.2.trans hname))
      rw [hsame, ← hstatus]
  · rfl

end Put

/-- The pipeline after the count and the metadata have been written. -/
def countedPipeline (pipeline : Pipeline) (runs : RunStore) (now : Time) : Pipeline :=
  withMetadata { pipeline with status := countedStatus pipeline runs now }

section Pipeline

variable {lib : Externals} {pipeline : Pipeline} {ns name : String} {address : Nat}
  {now : Time} {s t : ObjectStore}

theorem countedPipeline_key (hns : pipeline.ns ≠ "") (runs : RunStore) (now : Time) :
    (countedPipeline pipeline runs now).ns = pipeline.ns ∧
      (countedPipeline pipeline runs now).name = pipeline.name :=
  ⟨if_neg hns, rfl⟩

/-- The three writes on the pipeline come to one. -/
theorem reconcilePipeline_eq (lib : Externals) (address : Nat) (now : Time) (hs : KeyedStore s)
    (hget : getPipeline s.pipelines ns name = some pipeline) :
    reconcilePipeline lib ns name address now s = do
      let runs ← ensureRunExists lib address (countedPipeline pipeline s.runs now) s.runs
      let status ← writtenStatus (countedPipeline pipeline s.runs now).status
        (ensureScheduleExecution lib (countedPipeline pipeline s.runs now) now)
      return { s with
        runs := runs
        pipelines := putPipeline s.pipelines
          { countedPipeline pipeline s.runs now with status := status } } := by
  obtain ⟨rfl, rfl⟩ := getPipeline_key hget
  have hmem : pipeline ∈ s.pipelines := List.mem_of_find?_eq_some hget
  have hns := hs.namespaced pipeline hmem
  obtain ⟨hcountedNs, hcountedName⟩ := countedPipeline_key hns s.runs now
  have hstatus : (countedPipeline pipeline s.runs now).status =
      countedStatus pipeline s.runs now := rfl
  have hupdated : withMetadata { pipeline with status := countedStatus pipeline s.runs now } =
      countedPipeline pipeline s.runs now := rfl
  generalize countedPipeline pipeline s.runs now = counted at *
  generalize hcount : countedStatus pipeline s.runs now = status at *
  have hread := getPipeline_put hget { pipeline with status := status } rfl rfl
  have hupdate : getPipeline (putPipeline s.pipelines { pipeline with status := status })
      counted.ns counted.name = some { pipeline with status := status } := by
    rw [hcountedNs, hcountedName]
    exact hread
  have hreread := getPipeline_put hget counted hcountedNs hcountedName
  have hput := keyed_putPipeline hs.pipelines
  have hfirst : updateStatusOfPipeline s.pipelines { pipeline with status := status } =
      putPipeline s.pipelines { pipeline with status := status } :=
    updateStatusOfPipeline_eq hs.pipelines hmem status
  have hsecond : replacePipeline
      (putPipeline s.pipelines { pipeline with status := status }) counted =
        putPipeline s.pipelines counted :=
    (replacePipeline_eq (hput _) (List.mem_of_find?_eq_some hread) hcountedNs hcountedName
      hstatus).trans (putPipeline_put hcountedNs.symm hcountedName.symm)
  have hthird : ∀ last, updateStatusOfPipeline (putPipeline s.pipelines counted)
      { counted with status := last } =
        putPipeline s.pipelines { counted with status := last } := by
    intro last
    rw [updateStatusOfPipeline_eq (hput _) (List.mem_of_find?_eq_some hreread)]
    exact putPipeline_put rfl rfl
  simp only [reconcilePipeline, updatePipelineStatus, ensurePipelineMetadata, hget, hcount, hfirst,
    hread, hupdated, hupdate, hsecond, hreread, hthird, bind, Except.bind]

/-- A reconcile of a pipeline without a schedule leaves no schedule in its
status. -/
theorem writtenStatus_of_unscheduled {status : PipelineStatus}
    (hnone : pipeline.spec.schedule = none)
    (hwritten : writtenStatus pipeline.status (ensureScheduleExecution lib pipeline now) =
      .ok status) :
    status.schedule = none ∧ status.createdDate = pipeline.status.createdDate := by
  unfold ensureScheduleExecution at hwritten
  rw [hnone] at hwritten
  cases hschedule : pipeline.status.schedule with
  | none =>
      rw [hschedule] at hwritten
      cases hwritten
      exact ⟨hschedule, rfl⟩
  | some schedule =>
      rw [hschedule] at hwritten
      cases hwritten
      exact ⟨rfl, rfl⟩

/-- One that has none there already leaves the status alone. -/
theorem writtenStatus_untouched (hnone : pipeline.spec.schedule = none)
    (hstatus : pipeline.status.schedule = none) :
    writtenStatus pipeline.status (ensureScheduleExecution lib pipeline now) =
      .ok pipeline.status := by
  simp only [ensureScheduleExecution, hnone, hstatus, writtenStatus]

/-- The store that a reconcile leaves is in order. -/
theorem keyed_of_put (hs : KeyedStore s) {put : Pipeline} (hns : put.ns ≠ "") {runs : RunStore}
    (hstep : ensureRunExists lib address put s.runs = .ok runs) {status : PipelineStatus} :
    KeyedStore { s with
      runs := runs
      pipelines := putPipeline s.pipelines { put with status := status } } where
  namespaced := by
    intro p hp
    obtain ⟨old, hold, rfl⟩ := List.mem_map.mp hp
    split
    · exact hns
    · exact hs.namespaced old hold
  pipelines := keyed_putPipeline hs.pipelines _
  runs := by
    rcases ensureRunExists_ok hstep with rfl | ⟨run, -, -, hfree, rfl⟩
    · exact hs.runs
    · exact hs.runs.concat (ne_of_getRun hfree)
  kjobs := hs.kjobs
  pvcs := hs.pvcs

/-- What a reconcile without an error leaves of a pipeline that has no
schedule. -/
structure PipelineReconciled (lib : Externals) (address : Nat) (pipeline : Pipeline)
    (t : ObjectStore) : Prop where
  keyed : KeyedStore t
  stored : getPipeline t.pipelines pipeline.ns pipeline.name = some pipeline
  labels : pipeline.labels = { pipelineName := pipeline.name }
  trigger : pipeline.annotations.trigger = formatBool pipeline.spec.trigger
  schedule : pipeline.status.schedule = none
  createdDate : pipeline.status.createdDate = some pipeline.creationTimestamp
  run : ∃ found, getRun t.runs pipeline.ns (runNameOf lib address pipeline) = some found

theorem reconcilePipeline_ok (hs : KeyedStore s)
    (hget : getPipeline s.pipelines ns name = some pipeline)
    (hok : reconcilePipeline lib ns name address now s = .ok t) :
    ∃ after, getPipeline t.pipelines ns name = some after ∧
      (after.spec.schedule = none → PipelineReconciled lib address after t) := by
  obtain ⟨rfl, rfl⟩ := getPipeline_key hget
  have hns := hs.namespaced pipeline (List.mem_of_find?_eq_some hget)
  rw [reconcilePipeline_eq lib address now hs hget] at hok
  obtain ⟨hcountedNs, hcountedName⟩ := countedPipeline_key hns s.runs now
  have hlabels : (countedPipeline pipeline s.runs now).labels = { pipelineName := pipeline.name } :=
    rfl
  have htrigger : (countedPipeline pipeline s.runs now).annotations.trigger =
      formatBool (countedPipeline pipeline s.runs now).spec.trigger := rfl
  have hcreated : (countedPipeline pipeline s.runs now).status.createdDate =
      some (countedPipeline pipeline s.runs now).creationTimestamp := rfl
  generalize countedPipeline pipeline s.runs now = counted at *
  obtain ⟨runs, hruns, hok⟩ := bind_ok hok
  obtain ⟨status, hstatus, hok⟩ := bind_ok hok
  cases hok
  have hafter := getPipeline_put hget { counted with status := status } hcountedNs hcountedName
  refine ⟨{ counted with status := status }, hafter, ?_⟩
  intro hafterNone
  have hnone : counted.spec.schedule = none := hafterNone
  obtain ⟨hschedule, hsame⟩ := writtenStatus_of_unscheduled hnone hstatus
  have hunscheduled : ¬ Scheduled counted := by
    rintro ⟨schedule, hsome, -⟩
    rw [hnone] at hsome
    cases hsome
  have hcountedGet : getPipeline s.pipelines counted.ns counted.name = some pipeline := by
    rw [hcountedNs, hcountedName]
    exact hget
  exact
    { keyed := keyed_of_put hs (hcountedNs ▸ hns) hruns
      stored := getPipeline_put hcountedGet _ rfl rfl
      labels := by
        show counted.labels = { pipelineName := counted.name }
        rw [hlabels, hcountedName]
      trigger := htrigger
      schedule := hschedule
      createdDate := hsame.trans hcreated
      run := ensureRunExists_present hunscheduled hruns }

end Pipeline

/-! ## One more reconcile of a pipeline -/

/-- A pipeline with another date. -/
def datedPipeline (pipeline : Pipeline) (now : Time) : Pipeline :=
  { pipeline with status.lastUpdatedDate := some now.stored }

section Pipeline

variable {lib : Externals} {pipeline : Pipeline} {ns name : String} {address : Nat}
  {now : Time} {s t : ObjectStore} (hdone : PipelineReconciled lib address pipeline t)
include hdone

/-- Counting the runs and writing the metadata again changes the date. -/
theorem PipelineReconciled.counted (hnone : pipeline.spec.schedule = none)
    (hup : PipelineUpToDate pipeline t) (later : Time) :
    countedPipeline pipeline t.runs later = datedPipeline pipeline later := by
  have hns : pipeline.ns ≠ "" :=
    hdone.keyed.namespaced pipeline (List.mem_of_find?_eq_some hdone.stored)
  have hcount : countedStatus pipeline t.runs later =
      { pipeline.status with lastUpdatedDate := some later.stored } := by
    unfold countedStatus
    rw [← show pipeline.status.runs = _ from hup, ← hdone.createdDate]
  unfold countedPipeline withMetadata
  rw [hcount]
  simp only [hns, hnone, if_false, ← hdone.trigger, ← hdone.labels]
  rfl

/-- The run is found wherever the pipeline is decoded. -/
theorem PipelineReconciled.run_again (hnone : pipeline.spec.schedule = none) (address' : Nat)
    (later : Time) :
    ensureRunExists lib address' (datedPipeline pipeline later) t.runs = .ok t.runs := by
  have hdatedNone : (datedPipeline pipeline later).spec.schedule = none := hnone
  obtain ⟨found, hfound⟩ := hdone.run
  obtain ⟨run, hrun⟩ := constructRunFromPipeline_of_unscheduled lib address' hdatedNone
  obtain ⟨hrunName, hrunNs, -, -⟩ := constructRunFromPipeline_ok hrun
  have hname : runNameOf lib address' (datedPipeline pipeline later) =
      runNameOf lib address pipeline :=
    runNameOf_of_unscheduled hdatedNone address' address
  have hrunFound : getRun t.runs run.ns run.name = some found := by
    rw [hrunName, hrunNs, hname]
    exact hfound
  exact ensureRunExists_of_found hrun hrunFound

theorem PipelineReconciled.put (later : Time) :
    putPipeline t.pipelines (datedPipeline pipeline later) =
      redatePipeline t.pipelines pipeline.ns pipeline.name later := by
  have hmem : pipeline ∈ t.pipelines := List.mem_of_find?_eq_some hdone.stored
  apply List.map_congr_left
  intro p hp
  by_cases hkey : p.ns = pipeline.ns ∧ p.name = pipeline.name
  · have hsame := hdone.keyed.pipelines.eq_of_key hp hmem (Prod.ext hkey.1 hkey.2)
    subst hsame
    simp [datedPipeline]
  · simp [datedPipeline, hkey]

theorem PipelineReconciled.again (hnone : pipeline.spec.schedule = none)
    (hup : PipelineUpToDate pipeline t) (address' : Nat) (later : Time) :
    reconcilePipeline lib pipeline.ns pipeline.name address' later t =
      .ok (redatedByPipeline t pipeline.ns pipeline.name later) := by
  have hdatedNone : (datedPipeline pipeline later).spec.schedule = none := hnone
  have hdatedStatus : (datedPipeline pipeline later).status.schedule = none := hdone.schedule
  rw [reconcilePipeline_eq lib address' later hdone.keyed hdone.stored,
    hdone.counted hnone hup later, hdone.run_again hnone address' later]
  simp only [writtenStatus_untouched hdatedNone hdatedStatus, bind, Except.bind, pure, Except.pure,
    hdone.put, redatedByPipeline]

end Pipeline

/-- One more reconcile of a pipeline without a schedule that has counted its
runs. -/
theorem reconcilePipeline_again {lib : Externals} {ns name : String} {address : Nat} {now : Time}
    {s t : ObjectStore} (hs : KeyedStore s)
    (hok : reconcilePipeline lib ns name address now s = .ok t)
    (hup : ∀ again ∈ getPipeline t.pipelines ns name,
      again.spec.schedule = none ∧ PipelineUpToDate again t)
    (address' : Nat) (later : Time) :
    reconcilePipeline lib ns name address' later t = .ok (redatedByPipeline t ns name later) := by
  cases hget : getPipeline s.pipelines ns name with
  | none =>
      simp only [reconcilePipeline, hget] at hok
      cases hok
      have hother : ∀ p ∈ s.pipelines, ¬ (p.ns = ns ∧ p.name = name) := by
        simpa [getPipeline] using hget
      have hredated : redatePipeline s.pipelines ns name later = s.pipelines := by
        unfold redatePipeline
        rw [List.map_congr_left fun p hp => if_neg (hother p hp), List.map_id']
      simp only [reconcilePipeline, hget, redatedByPipeline, hredated]
  | some pipeline =>
      obtain ⟨after, hafter, hreconciled⟩ := reconcilePipeline_ok hs hget hok
      obtain ⟨hnone, hcount⟩ := hup after hafter
      obtain ⟨rfl, rfl⟩ := getPipeline_key hafter
      exact (hreconciled hnone).again hnone hcount address' later

/-- **Reconciles of what is up to date change dates only.**  After a reconcile
without an error that has left its pipeline, which has no schedule, or its run
up to date, one more reconcile at any time writes its clock into the date of
the latest update, for a run that has ended also into the end date of its
pipeline, and leaves everything else that is stored as it is. -/
theorem reconciles_quiesce (lib : Externals) (ns name : String) {s : ObjectStore}
    (hs : KeyedStore s) (t : ObjectStore) :
    (∀ address now, reconcilePipeline lib ns name address now s = .ok t →
      (∀ pipeline ∈ getPipeline t.pipelines ns name,
        pipeline.spec.schedule = none ∧ PipelineUpToDate pipeline t) →
      ∀ address' later, reconcilePipeline lib ns name address' later t =
        .ok (redatedByPipeline t ns name later)) ∧
    (∀ now endNow, reconcileRun lib ns name now endNow s = .ok t →
      (∀ run ∈ getRun t.runs ns name, RunUpToDate lib run t) →
      ∀ later endLater, reconcileRun lib ns name later endLater t =
        .ok (redatedByRun t ns name later endLater)) := by
  constructor
  · intro address now hok hup
    exact reconcilePipeline_again hs hok hup
  · intro now endNow hok hup
    exact reconcileRun_again hs hok hup

/-- A pipeline of one task. -/
def compilePipeline : Pipeline where
  name := "build"
  ns := "team"
  spec := { tasks := [{ name := "compile", image := "compile" }] }

/-- The name of its run. -/
def compileRunName : String := runNameOf Externals.plain 0 compilePipeline

/-- The store in which both are up to date: the run exists, its kubernetes job
has been created and visited once, and the pipeline counts the run. -/
def compiledStore : ObjectStore :=
  (do
    let created ← reconcilePipeline Externals.plain "team" "build" 0 0
      { pipelines := [compilePipeline] }
    let deployed ← reconcileRun Externals.plain "team" compileRunName 0 0 created
    let recorded ← reconcileRun Externals.plain "team" compileRunName 0 0 deployed
    reconcilePipeline Externals.plain "team" "build" 0 0 recorded).toOption.getD {}

theorem compiledStore_keyed : KeyedStore compiledStore := by decide +kernel

theorem reconciles_quiesce_compiled :
    reconcilePipeline Externals.plain "team" "build" 1 Time.second compiledStore =
        .ok (redatedByPipeline compiledStore "team" "build" Time.second) ∧
      reconcileRun Externals.plain "team" compileRunName Time.second Time.second compiledStore =
        .ok (redatedByRun compiledStore "team" compileRunName Time.second Time.second) :=
  ⟨(reconciles_quiesce Externals.plain "team" "build" compiledStore_keyed compiledStore).1 0 0
      (by decide +kernel) (by decide +kernel) 1 Time.second,
    (reconciles_quiesce Externals.plain "team" compileRunName compiledStore_keyed
      compiledStore).2 0 0 (by decide +kernel) (by decide +kernel) Time.second Time.second⟩

/-! ## Dates, flags and volumes -/

/-- The states recorded on the kubernetes jobs of the run are up to date. -/
def StatesUpToDate (lib : Externals) (run : Run) (s : ObjectStore) : Prop :=
  ∀ job ∈ run.spec.jobs, ∀ kjob ∈ s.cluster.getKJob job.ns (kjobNameOf lib run job),
    kjob.recorded = determineJobStateFrom kjob (firstPod s.cluster kjob.ns kjob.name)

instance (lib : Externals) (run : Run) (s : ObjectStore) :
    Decidable (StatesUpToDate lib run s) := by
  unfold StatesUpToDate
  infer_instance

/-- The store after reconciles of the run `nightly`, one after another. -/
def nightlyReconciles : Nat → ObjectStore → ObjectStore
  | 0, s => s
  | n + 1, s =>
      (reconcileRun Externals.plain "team" "nightly" 0 0 (nightlyReconciles n s)).toOption.getD {}

/-- The run whose later job is listed first, deployed; then the first job has
succeeded. -/
def builtStore : ObjectStore :=
  let s := nightlyReconciles 2 {
    pipelines := [{ name := "build", ns := "team" }]
    runs := [{ chainRun "false" with labels := { pipelineName := "build" } }] }
  { s with cluster.kjobs := s.cluster.kjobs.map fun kjob =>
      if kjob.labels.runJobName = "build" then { kjob with status := { succeeded := 1 } }
      else kjob }

/-- A run with a volume that has no claim yet. -/
def unclaimedStore : ObjectStore where
  pipelines := [{ name := "build", ns := "team" }]
  runs := [{
    name := "nightly"
    ns := "team"
    labels := { pipelineName := "build" }
    spec := { volumes := [{
      name := "data"
      capacity := "1Gi"
      storage := "fast"
      accessModes := ["ReadWriteOnce"] }] } }]

/-- The run of one task whose kubernetes job has succeeded, and its reconciles one
after another. -/
def endedStore : ObjectStore :=
  { compiledStore with
    cluster.kjobs := compiledStore.cluster.kjobs.map fun kjob =>
      { kjob with status := { succeeded := 1 } } }

def endedReconciled (now : Time) (s : ObjectStore) : ObjectStore :=
  (reconcileRun Externals.plain "team" compileRunName now now s).toOption.getD {}

theorem endedStore_keyed : KeyedStore endedStore := by decide +kernel

theorem builtStore_keyed : KeyedStore builtStore := by decide +kernel

theorem unclaimedStore_keyed : KeyedStore unclaimedStore := by decide +kernel

/-- No reconcile is silent: it dates the pipeline, and it dates the run.  That of a
run that has ended dates the execution of its pipeline, too.  Where only the
recorded states are up to date, a reconcile also may release a job that is listed
before the one it waits for, and spell a volume the way its new claim does. -/
theorem reconciles_not_silent :
    (¬ ∀ (lib : Externals) (ns name : String) (s t : ObjectStore) (address address' : Nat)
      (now later : Time), KeyedStore s → reconcilePipeline lib ns name address now s = .ok t →
      (∀ pipeline ∈ getPipeline t.pipelines ns name,
        pipeline.spec.schedule = none ∧ PipelineUpToDate pipeline t) →
      reconcilePipeline lib ns name address' later t = .ok t) ∧
    (¬ ∀ (lib : Externals) (ns name : String) (s t : ObjectStore) (now later : Time),
      KeyedStore s → reconcileRun lib ns name now now s = .ok t →
      (∀ run ∈ getRun t.runs ns name, RunUpToDate lib run t) →
      reconcileRun lib ns name later later t = .ok t) ∧
    (¬ ∀ (lib : Externals) (ns name : String) (s t next : ObjectStore) (now later : Time),
      KeyedStore s → reconcileRun lib ns name now now s = .ok t →
      (∀ run ∈ getRun t.runs ns name, RunUpToDate lib run t) →
      reconcileRun lib ns name later later t = .ok next →
        next.pipelines.map (fun p => p.status.scheduleLastExecutionEndDate) =
          t.pipelines.map fun p => p.status.scheduleLastExecutionEndDate) ∧
    (¬ ∀ (lib : Externals) (ns name : String) (s t next : ObjectStore) (now later : Time),
      KeyedStore s → reconcileRun lib ns name now now s = .ok t →
      (∀ run ∈ getRun t.runs ns name, StatesUpToDate lib run t) →
      reconcileRun lib ns name later later t = .ok next → next.cluster = t.cluster) ∧
    (¬ ∀ (lib : Externals) (ns name : String) (s t next : ObjectStore) (now later : Time),
      KeyedStore s → reconcileRun lib ns name now now s = .ok t →
      (∀ run ∈ getRun t.runs ns name, StatesUpToDate lib run t) →
      reconcileRun lib ns name later later t = .ok next →
        next.runs.map Run.spec = t.runs.map Run.spec) := by
  refine ⟨?_, ?_, ?_, ?_, ?_⟩
  · intro hall
    have hsilent := hall Externals.plain "team" "build" compiledStore compiledStore 0 0 0
      Time.second compiledStore_keyed (by decide +kernel) (by decide +kernel)
    exact absurd hsilent (by decide +kernel)
  · intro hall
    have hsilent := hall Externals.plain "team" compileRunName compiledStore compiledStore 0
      Time.second compiledStore_keyed (by decide +kernel) (by decide +kernel)
    exact absurd hsilent (by decide +kernel)
  · intro hall
    have hkept := hall Externals.plain "team" compileRunName endedStore
      (endedReconciled 0 endedStore)
      (endedReconciled Time.second (endedReconciled 0 endedStore)) 0 Time.second endedStore_keyed
      (by decide +kernel) (by decide +kernel) (by decide +kernel)
    exact absurd hkept (by decide +kernel)
  · intro hall
    have hkept := hall Externals.plain "team" "nightly" builtStore
      (nightlyReconciles 1 builtStore) (nightlyReconciles 2 builtStore) 0 0 builtStore_keyed
      (by decide +kernel) (by decide +kernel) (by decide +kernel)
    exact absurd hkept (by decide +kernel)
  · intro hall
    have hkept := hall Externals.plain "team" "nightly" unclaimedStore
      (nightlyReconciles 1 unclaimedStore) (nightlyReconciles 2 unclaimedStore) 0 0
      unclaimedStore_keyed (by decide +kernel) (by decide +kernel) (by decide +kernel)
    exact absurd hkept (by decide +kernel)

end PipelineOperator.Controller
