import PipelineOperator.Controller.Confined

/-!
# Namespaces are isolated

The stages of a reconcile stay in the namespace of the request, so the
reconciles and the goroutines do.  Where everybody else leaves the jobs of a
run in the namespace of the run, whatever happens in one namespace, errors
included, shows nowhere in another.  The one thing that would show is the end of
the process at a nil pointer, which takes the goroutines of all namespaces with
it; so this is about the time between two such ends.

## Main results

* `PipelineReconciler.reconcile_confined`, `RunReconciler.reconcile_confined`,
  `scheduleExecution_confined`: the reconciles and the goroutines.
* `namespace_isolated`: a namespace goes through the actions of its own and no
  others.
-/

namespace PipelineOperator.Controller

open PipelineOperator.Lib
open PipelineOperator.Api

/-! ## Stages of a reconcile -/

def OperatorWorld.restrictTo (ns : String) (s : OperatorWorld) : OperatorWorld where
  store := s.store.restrictTo ns
  goroutines := part Pipeline.ns ns s.goroutines
  outcomes := part Outcome.ns ns s.outcomes

/-- A stage that makes one write at most: if it fails, nothing has happened. -/
private def stage (f : ObjectStore → Except String ObjectStore) (s : OperatorWorld) :
    OperatorWorld × Except String Unit :=
  match f s.store with
  | .error e => (s, .error e)
  | .ok store => ({ s with store := store }, .ok ())

/-- The rest of a reconcile after a stage. -/
private def afterStage {ρ : Type} (rest : OperatorWorld → OperatorWorld × Except String ρ)
    (verdict : Except String Unit) (s : OperatorWorld) : OperatorWorld × Except String ρ :=
  match verdict with
  | .error e => (s, .error e)
  | .ok () => rest s

section Stages

variable {lib : Externals} {ns name : String} {pipeline : Pipeline} {address : Nat} {now : Time}

/-- A computation on the whole that stays in the namespace. -/
abbrev OperatorConfined {ρ : Type} (ns : String) (f : OperatorWorld → OperatorWorld × ρ) : Prop :=
  Confined OperatorWorld.restrictTo OperatorWorld.restrictTo (fun s => AllLocal s.store.runs) ns f

private theorem stage_confined {f : ObjectStore → Except String ObjectStore}
    (hkeeps : ∀ s t, f s = .ok t → AllLocal s.runs → AllLocal t.runs)
    (hown : ∀ s, f (s.restrictTo ns) = (f s).map (ObjectStore.restrictTo ns))
    (hother : ∀ s t, f s = .ok t → ∀ e, e ≠ ns → t.restrictTo e = s.restrictTo e) :
    OperatorConfined ns (stage f) where
  keeps := by
    intro s hs
    unfold stage
    split
    · exact hs
    · next store hstore => exact hkeeps _ _ hstore hs
  own := by
    intro s _
    unfold stage
    simp only [OperatorWorld.restrictTo, hown]
    cases f s.store <;> rfl
  other := by
    intro s _ e he
    unfold stage
    split
    · rfl
    · next store hstore => simp only [OperatorWorld.restrictTo, hother _ _ hstore e he]

/-- A stage, and the rest of the reconcile behind it. -/
private theorem stage_bind {ρ : Type} {f : ObjectStore → Except String ObjectStore}
    {rest whole : OperatorWorld → OperatorWorld × Except String ρ}
    (hstage : OperatorConfined ns (stage f)) (hrest : OperatorConfined ns rest)
    (hwhole : ∀ s, whole s = afterStage rest (stage f s).2 (stage f s).1) :
    OperatorConfined ns whole := by
  refine hstage.bind (fun _ => True) (afterStage rest) (fun _ _ => trivial)
    (fun verdict _ => ?_) hwhole
  cases verdict with
  | error e => exact .pure (Except.error e)
  | ok _ => exact hrest

/-- Reading a pipeline of the namespace. -/
private theorem readPipeline_confined (name : String) :
    OperatorConfined ns fun s => (s, getPipeline s.store.pipelines ns name) :=
  .read fun _ _ => getPipeline_part _ _

/-! ### Pipelines -/

/-- The count of the runs sees its namespace only. -/
theorem countedStatus_part (pipeline : Pipeline) (runs : RunStore) (now : Time) :
    countedStatus pipeline (part Run.ns pipeline.ns runs) now =
      countedStatus pipeline runs now := by
  have hfilter : (part Run.ns pipeline.ns runs).filter
      (fun run => decide (run.ns = pipeline.ns ∧ run.labels.pipelineName = pipeline.name)) =
        runs.filter fun run =>
          decide (run.ns = pipeline.ns ∧ run.labels.pipelineName = pipeline.name) :=
    filter_part fun _ _ hp => (of_decide_eq_true hp).1
  simp only [countedStatus, List.countP_eq_length_filter, hfilter]

theorem updatePipelineStatus_confined (hns : pipeline.ns = ns) :
    OperatorConfined ns (stage (updatePipelineStatus pipeline now)) := by
  apply stage_confined
  · intro s t hstep hs
    unfold updatePipelineStatus at hstep
    split at hstep
    · cases hstep
    · cases hstep
      exact hs
  · intro s
    unfold updatePipelineStatus
    simp only [ObjectStore.restrictTo, hns, getPipeline_part]
    cases hget : getPipeline s.pipelines ns pipeline.name with
    | none => rfl
    | some found =>
        have hfound := (getPipeline_key hget).1
        simp only [Except.map, ObjectStore.restrictTo, part_updateStatusOfPipeline]
        rw [← hfound, countedStatus_part]
  · intro s t hstep e he
    unfold updatePipelineStatus at hstep
    split at hstep
    · cases hstep
    · next found hget =>
        cases hstep
        have hfound := (getPipeline_key hget).1.trans hns
        simp only [ObjectStore.restrictTo, ObjectStore.mk.injEq, and_true]
        refine part_updateStatusOfPipeline_other ?_ _
        exact fun hsame => he (hsame.symm.trans hfound)

theorem ensurePipelineMetadata_confined (hns : pipeline.ns = ns) (hnamed : ns ≠ "") :
    OperatorConfined ns (stage (ensurePipelineMetadata pipeline)) := by
  have hkept : ∀ s : ObjectStore, ∀ found, getPipeline s.pipelines pipeline.ns pipeline.name =
      some found → (withMetadata found).ns = ns := by
    intro s found hget
    have hfound := (getPipeline_key hget).1.trans hns
    simp only [withMetadata, hfound, if_neg hnamed]
  apply stage_confined
  · intro s t hstep hs
    unfold ensurePipelineMetadata at hstep
    simp only at hstep
    split at hstep
    · cases hstep
    · split at hstep
      · cases hstep
      · cases hstep
        exact hs
  · intro s
    unfold ensurePipelineMetadata
    simp only [ObjectStore.restrictTo, hns, getPipeline_part]
    cases hget : getPipeline s.pipelines ns pipeline.name with
    | none => rfl
    | some found =>
        have hupdated := hkept s found (by rw [hns]; exact hget)
        simp only [hupdated, getPipeline_part]
        cases getPipeline s.pipelines ns (withMetadata found).name with
        | none => rfl
        | some _ => simp only [Except.map, ObjectStore.restrictTo, part_replacePipeline]
  · intro s t hstep e he
    unfold ensurePipelineMetadata at hstep
    simp only at hstep
    split at hstep
    · cases hstep
    · next found hget =>
        split at hstep
        · cases hstep
        · cases hstep
          simp only [ObjectStore.restrictTo, ObjectStore.mk.injEq, and_true]
          refine part_replacePipeline_other ?_ _
          rw [hkept s found hget]
          exact he.symm

/-- What creates a run in the namespace of the pipeline. -/
private theorem createRun_confined {create : RunStore → Except String RunStore}
    (hcreate : ∀ runs after, create runs = .ok after → after = runs ∨
      ∃ run, run.ns = ns ∧ LocalJobs run ∧ after = runs ++ [run])
    (hown : ∀ runs, create (part Run.ns ns runs) = (create runs).map (part Run.ns ns)) :
    OperatorConfined ns
      (stage fun s => (create s.runs).map fun runs => { s with runs := runs }) := by
  apply stage_confined
  · intro s t hstep hs
    cases hruns : create s.runs with
    | error e =>
        rw [hruns] at hstep
        cases hstep
    | ok after =>
        rw [hruns] at hstep
        cases hstep
        rcases hcreate _ _ hruns with rfl | ⟨run, -, hlocal, rfl⟩
        · exact hs
        · exact hs.append hlocal
  · intro s
    simp only [ObjectStore.restrictTo, hown]
    cases create s.runs <;> rfl
  · intro s t hstep e he
    cases hruns : create s.runs with
    | error error =>
        rw [hruns] at hstep
        cases hstep
    | ok after =>
        rw [hruns] at hstep
        cases hstep
        rcases hcreate _ _ hruns with rfl | ⟨run, hrun, -, rfl⟩
        · rfl
        · have hne : run.ns ≠ e := by rw [hrun]; exact he.symm
          simp only [ObjectStore.restrictTo, part_append, part_singleton_other hne,
            List.append_nil]

theorem ensureRunExists_confined (lib : Externals) (address : Nat) (hns : pipeline.ns = ns) :
    OperatorConfined ns (stage fun s =>
      (ensureRunExists lib address pipeline s.runs).map fun runs => { s with runs := runs }) := by
  apply createRun_confined
  · intro runs after hstep
    unfold ensureRunExists at hstep
    split at hstep
    · cases hstep
      exact Or.inl rfl
    · obtain ⟨run, hrun, hstep⟩ := bind_ok hstep
      obtain ⟨hrunNs, hlocal⟩ := localJobs_of_constructed hrun
      cases hget : getRun runs run.ns run.name with
      | some found =>
          rw [hget] at hstep
          cases hstep
          exact Or.inl rfl
      | none =>
          rw [hget] at hstep
          obtain ⟨-, -, hstep⟩ := bind_ok hstep
          cases hstep
          refine Or.inr ⟨{ run with owner := some ⟨.pipeline, pipeline.name⟩ }, ?_, ?_, rfl⟩
          · exact hrunNs.trans hns
          · exact hlocal
  · intro runs
    unfold ensureRunExists
    split
    · rfl
    · cases hrun : constructRunFromPipeline lib address pipeline with
      | error e => rfl
      | ok run =>
          have hrunNs := (localJobs_of_constructed hrun).1.trans hns
          simp only [bind, Except.bind, pure, Except.pure, hrunNs, getRun_part]
          cases getRun runs ns run.name with
          | some found => rfl
          | none =>
              simp only
              cases validateOwner pipeline.ns ns with
              | error e => rfl
              | ok _ =>
                  simp [Except.map, part]

/-- The run that a goroutine creates. -/
theorem executeSchedule_confined (lib : Externals) (address : Nat) (hns : pipeline.ns = ns) :
    OperatorConfined ns (stage fun s =>
      (executeSchedule lib address pipeline s.runs).map fun runs => { s with runs := runs }) := by
  apply createRun_confined
  · intro runs after hstep
    obtain ⟨run, hrun, hstep⟩ := bind_ok hstep
    obtain ⟨hrunNs, hlocal⟩ := localJobs_of_constructed hrun
    cases hget : getRun runs run.ns run.name with
    | some found =>
        rw [hget] at hstep
        cases hstep
    | none =>
        rw [hget] at hstep
        cases hstep
        exact Or.inr ⟨run, hrunNs.trans hns, hlocal, rfl⟩
  · intro runs
    unfold executeSchedule
    cases hrun : constructRunFromPipeline lib address pipeline with
    | error e => rfl
    | ok run =>
        have hrunNs := (localJobs_of_constructed hrun).1.trans hns
        simp only [bind, Except.bind, pure, Except.pure, hrunNs, getRun_part]
        cases getRun runs ns run.name with
        | some found => rfl
        | none => simp only [Except.map, part_append, part_singleton_self hrunNs]

/-- A status write on a pipeline of the namespace, and what comes with it. -/
theorem writeStatus_confined {ρ : Type} {written : Pipeline} (hwritten : written.ns = ns)
    {started : List Pipeline} (hstarted : ∀ copy ∈ started, copy.ns = ns) (r : ρ) :
    OperatorConfined ns fun s => ({ s with
      store.pipelines := updateStatusOfPipeline s.store.pipelines written
      goroutines := s.goroutines ++ started }, r) where
  keeps := fun _ hs => hs
  own := by
    intro s _
    have hself : part Pipeline.ns ns started = started :=
      List.filter_eq_self.mpr fun copy hcopy => by simp [hstarted copy hcopy]
    simp only [OperatorWorld.restrictTo, ObjectStore.restrictTo, part_updateStatusOfPipeline,
      part_append, hself]
  other := by
    intro s _ e he
    have hne : written.ns ≠ e := by rw [hwritten]; exact he.symm
    have hnone : part Pipeline.ns e started = [] :=
      List.filter_eq_nil_iff.mpr fun copy hcopy => by simp [hstarted copy hcopy, he.symm]
    simp only [OperatorWorld.restrictTo, ObjectStore.restrictTo,
      part_updateStatusOfPipeline_other hne, part_append, hnone, List.append_nil]

theorem schedule_confined (lib : Externals) (now : Time) (hns : pipeline.ns = ns) :
    OperatorConfined ns (PipelineReconciler.schedule lib pipeline now) := by
  unfold PipelineReconciler.schedule
  simp only
  split
  · exact .pure _
  · refine writeStatus_confined ?_ ?_ _
    · exact hns
    · intro copy hcopy
      cases houtcome : ensureScheduleExecution lib pipeline now with
      | armed status reset =>
          rw [houtcome, startedBy, List.mem_singleton] at hcopy
          rw [hcopy]
          exact hns
      | quiet | requeued | failed | panicked | untouched | removed | emptied | pendingCleared =>
          rw [houtcome] at hcopy
          cases hcopy

/-- The end of the reconcile, once the pipeline has been fetched again. -/
private def executeFetched (lib : Externals) (address : Nat) (now : Time)
    (fetched : Option Pipeline) (s : OperatorWorld) : OperatorWorld × ReconcileResult :=
  fetched.elim (s, .ok 0) fun pipeline =>
    let created := stage (fun s =>
      (ensureRunExists lib address pipeline s.runs).map fun runs => { s with runs := runs }) s
    afterStage (PipelineReconciler.schedule lib pipeline now) created.2 created.1

theorem execute_confined (lib : Externals) (name : String) (address : Nat) (now : Time) :
    OperatorConfined ns (PipelineReconciler.execute lib ns name address now) := by
  refine (readPipeline_confined name).bind (fun fetched => ∀ pipeline ∈ fetched, pipeline.ns = ns)
    (executeFetched lib address now) (fun s _ pipeline hget => (getPipeline_key hget).1)
    (fun fetched hfetched => ?_) fun s => ?_
  · cases fetched with
    | none => exact .pure _
    | some pipeline =>
        have hns := hfetched pipeline rfl
        exact stage_bind (ensureRunExists_confined lib address hns)
          (schedule_confined lib now hns) fun _ => rfl
  · unfold PipelineReconciler.execute
    cases getPipeline s.store.pipelines ns name with
    | none => rfl
    | some pipeline =>
        simp only [executeFetched, Option.elim_some, stage]
        cases ensureRunExists lib address pipeline s.store.runs <;> rfl

/-- The reconcile, once the pipeline has been fetched. -/
private def reconcileFetched (lib : Externals) (ns name : String) (address : Nat) (now : Time)
    (fetched : Option Pipeline) (s : OperatorWorld) : OperatorWorld × ReconcileResult :=
  fetched.elim (s, .ok 0) fun pipeline =>
    let counted := stage (updatePipelineStatus pipeline now) s
    afterStage (fun s =>
      let labelled := stage (ensurePipelineMetadata pipeline) s
      afterStage (PipelineReconciler.execute lib ns name address now) labelled.2 labelled.1)
      counted.2 counted.1

/-- A reconcile of a pipeline stays in its namespace. -/
theorem PipelineReconciler.reconcile_confined (lib : Externals) (name : String) (address : Nat)
    (now : Time) (hnamed : ns ≠ "") :
    OperatorConfined ns (PipelineReconciler.reconcile lib ns name address now) := by
  refine (readPipeline_confined name).bind (fun fetched => ∀ pipeline ∈ fetched, pipeline.ns = ns)
    (reconcileFetched lib ns name address now) (fun s _ pipeline hget => (getPipeline_key hget).1)
    (fun fetched hfetched => ?_) fun s => ?_
  · cases fetched with
    | none => exact .pure _
    | some pipeline =>
        have hns := hfetched pipeline rfl
        exact stage_bind (updatePipelineStatus_confined hns)
          (stage_bind (ensurePipelineMetadata_confined hns hnamed)
            (execute_confined lib name address now) fun _ => rfl) fun _ => rfl
  · unfold PipelineReconciler.reconcile
    cases getPipeline s.store.pipelines ns name with
    | none => rfl
    | some pipeline =>
        simp only [reconcileFetched, Option.elim_some, stage]
        cases updatePipelineStatus pipeline now s.store with
        | error e => rfl
        | ok counted =>
            simp only [afterStage]
            cases ensurePipelineMetadata pipeline counted <;> rfl

/-- A goroutine that has passed its comparisons. -/
private def executePassed (lib : Externals) (address : Nat) (now : Time) (current : Pipeline)
    (s : OperatorWorld) : OperatorWorld × Except String Unit :=
  let created := stage (fun s =>
    (executeSchedule lib address current s.runs).map fun runs => { s with runs := runs }) s
  afterStage (fun s => ({ s with
      store.pipelines := updateStatusOfPipeline s.store.pipelines { current with
        status := recordedStatus now current.status }
      goroutines := s.goroutines ++ [] },
    .ok ())) created.2 created.1

/-- A goroutine, once the pipeline has been fetched. -/
private def wakeFetched (lib : Externals) (pipeline : Pipeline) (address : Nat) (now : Time)
    (fetched : Option Pipeline) (s : OperatorWorld) : OperatorWorld × Except String Unit :=
  fetched.elim (s, notFound "pipelines.pipeline.1eedaegon.github.io" pipeline.name) fun current =>
    match compareWith pipeline.status current.status with
    | .aborts => (s, .ok ())
    | .panics => (s, .error nilDereference)
    | .passes =>
        if ∃ endDate ∈ pipeline.status.schedule.bind Schedule.endDate, endDate < now then
          (s, .ok ())
        else executePassed lib address now current s

/-- A goroutine stays in the namespace of its pipeline. -/
theorem scheduleExecution_confined (lib : Externals) (address : Nat) (now : Time)
    (hns : pipeline.ns = ns) :
    OperatorConfined ns
      (PipelineReconciler.scheduleExecution lib pipeline address now) := by
  unfold PipelineReconciler.scheduleExecution
  split
  · exact .pure _
  · refine (readPipeline_confined pipeline.name).bind
      (fun fetched => ∀ current ∈ fetched, current.ns = ns)
      (wakeFetched lib pipeline address now) (fun s _ current hget => (getPipeline_key hget).1)
      (fun fetched hfetched => ?_) fun s => ?_
    · cases fetched with
      | none => exact .pure _
      | some current =>
          have hcurrent := hfetched current rfl
          unfold wakeFetched
          simp only [Option.elim_some]
          split
          · exact .pure _
          · exact .pure _
          · split
            · exact .pure _
            · refine stage_bind (executeSchedule_confined lib address hcurrent)
                (writeStatus_confined ?_ (fun _ hcopy => by cases hcopy) (Except.ok ()))
                fun _ => rfl
              exact hcurrent
    · simp only [hns]
      cases getPipeline s.store.pipelines ns pipeline.name with
      | none => rfl
      | some current =>
          simp only [wakeFetched, Option.elim_some]
          cases compareWith pipeline.status current.status with
          | aborts => rfl
          | panics => rfl
          | passes =>
              simp only
              split
              · rfl
              · simp only [executePassed, stage]
                cases executeSchedule lib address current s.store.runs with
                | error e => rfl
                | ok runs => simp [afterStage, Except.map]

/-! ### Runs -/

/-- The retry loop over the store, on the kubernetes jobs that have been
listed. -/
private def writeListed (lib : Externals) (run : Run) (now endNow : Time) (kjobs : List KJob)
    (s : OperatorWorld) : OperatorWorld × ReconcileResult :=
  let written := retryOnConflict (tryUpdateRunStatus lib run.ns run.labels.pipelineName kjobs)
    (allowed fun _ => freeAttempt now endNow)
    { keyName := run.name, store := { runs := s.store.runs, pipelines := s.store.pipelines } }
  ({ s with
      store.runs := written.1.store.runs
      store.pipelines := written.1.store.pipelines },
    RunReconciler.statusResult run written.2)

private theorem writeListed_confined (lib : Externals) {run : Run} (hns : run.ns = ns)
    (now endNow : Time) (kjobs : List KJob) :
    OperatorConfined ns (writeListed lib run now endNow kjobs) := by
  subst hns
  have hretry : StatusConfined run.ns (retryOnConflict
      (tryUpdateRunStatus lib run.ns run.labels.pipelineName kjobs)
      (allowed fun _ => freeAttempt now endNow)) :=
    retry_confined lib run.labels.pipelineName kjobs _
  refine hretry.zoom
    (fun s => { keyName := run.name,
                store := { runs := s.store.runs, pipelines := s.store.pipelines } })
    (fun x s => { s with store.runs := x.store.runs, store.pipelines := x.store.pipelines })
    (fun r => RunReconciler.statusResult run r.2) (fun _ => rfl) (fun _ hs => hs)
    (fun _ _ _ hx => hx) (fun _ _ => rfl) (fun _ _ => rfl) (fun _ _ => rfl)
    fun s x _ e _ hview => ?_
  have hparts := StatusStore.mk.inj hview
  simp only [OperatorWorld.restrictTo, ObjectStore.restrictTo, hparts.1, hparts.2]

/-- `updateRunStatus` stays in the namespace of the run. -/
theorem updateRunStatus_confined (lib : Externals) {run : Run} (hns : run.ns = ns)
    (now endNow : Time) : OperatorConfined ns (RunReconciler.writeStatus lib run now endNow) := by
  have hlook : OperatorConfined ns fun s : OperatorWorld =>
      (s, s.store.cluster.listRunKJobs run.ns run.name) := by
    apply Confined.read
    intro s _
    rw [hns]
    exact listRunKJobs_restrictTo s.store.cluster run.name
  exact hlook.bind (fun _ => True) (writeListed lib run now endNow) (fun _ _ => trivial)
    (fun kjobs _ => writeListed_confined lib hns now endNow kjobs) fun _ => rfl

/-- `ensureKJobList` over the whole. -/
private def deployStage (lib : Externals) (run : Run) (s : OperatorWorld) :
    OperatorWorld × Except String Unit :=
  let deployed := ensureKJobList lib run s.store.cluster
  ({ s with store.cluster := deployed.1 }, deployed.2)

private theorem deployStage_confined (lib : Externals) {run : Run} (hjobs : LocalJobs run)
    (hns : run.ns = ns) : OperatorConfined ns (deployStage lib run) := by
  refine (ensureKJobList_confined lib hjobs hns).zoom (fun s => s.store.cluster)
    (fun c s => { s with store.cluster := c }) Prod.snd (fun _ => rfl) (fun _ _ => trivial)
    (fun _ _ hs _ => hs) (fun _ _ => rfl) (fun _ _ => rfl) (fun _ _ => rfl)
    fun s c _ e _ hview => ?_
  simp only [OperatorWorld.restrictTo, ObjectStore.restrictTo, OperatorWorld.mk.injEq,
    ObjectStore.mk.injEq, true_and, and_true]
  exact hview

theorem deploy_confined (lib : Externals) {run : Run} (hjobs : LocalJobs run) (hns : run.ns = ns)
    (now endNow : Time) : OperatorConfined ns (RunReconciler.deploy lib run now endNow) := by
  refine (deployStage_confined lib hjobs hns).bind (fun _ => True)
    (afterStage (RunReconciler.writeStatus lib run now endNow)) (fun _ _ => trivial)
    (fun verdict _ => ?_) fun s => ?_
  · cases verdict with
    | error e => exact .pure (Except.error e)
    | ok _ => exact updateRunStatus_confined lib hns now endNow
  · unfold RunReconciler.deploy deployStage
    simp only
    cases (ensureKJobList lib run s.store.cluster).2 <;> rfl

/-- `ensureRunMetadata` and `ensureVolumeList` over the whole; the run in hand
is part of the result. -/
private def volumesStage (lib : Externals) (run : Run) (pipeline : Pipeline)
    (s : OperatorWorld) : OperatorWorld × (Run × Except String Unit) :=
  let volumes := ensureVolumeList lib pipeline
    (volumePass run { s.store with runs := replaceRun s.store.runs run })
  ({ s with
      store.runs := volumes.1.store.runs
      store.pvcs := volumes.1.store.pvcs },
    (volumes.1.run, volumes.2))

private theorem inHand_volumePass {run : Run} (hjobs : LocalJobs run) (hns : run.ns = ns)
    {s : OperatorWorld} (hs : AllLocal s.store.runs) :
    InHand ns (volumePass run { s.store with runs := replaceRun s.store.runs run }) :=
  ⟨hns, hjobs, hs.replaceRun hjobs⟩

private theorem volumesStage_confined (lib : Externals) {run : Run} (hjobs : LocalJobs run)
    (hns : run.ns = ns) (pipeline : Pipeline) :
    OperatorConfined ns (volumesStage lib run pipeline) := by
  refine (ensureVolumeList_confined lib pipeline).zoom
    (fun s => volumePass run { s.store with runs := replaceRun s.store.runs run })
    (fun x s => { s with store.runs := x.store.runs, store.pvcs := x.store.pvcs })
    (fun r => (r.1.run, r.2)) (fun _ => rfl) (fun s hs => inHand_volumePass hjobs hns hs)
    (fun _ x _ hx => hx.runs) (fun s _ => ?_) (fun _ _ => rfl) (fun _ _ => rfl)
    fun s x _ e he hview => ?_
  · simp only [OperatorWorld.restrictTo, ObjectStore.restrictTo, volumePass,
      VolumePass.restrictTo, VolumeStore.restrictTo, part_replaceRun]
  · have hparts := VolumeStore.mk.inj hview
    have hne : run.ns ≠ e := by rw [hns]; exact he.symm
    simp only [volumePass, part_replaceRun_other hne] at hparts
    simp only [OperatorWorld.restrictTo, ObjectStore.restrictTo, hparts.1, hparts.2]

/-- How a reconcile goes on after the volumes. -/
private def deployHand (lib : Externals) (now endNow : Time) (hand : Run × Except String Unit)
    (s : OperatorWorld) : OperatorWorld × ReconcileResult :=
  afterStage (RunReconciler.deploy lib hand.1 now endNow) hand.2 s

theorem reconcileStored_confined (lib : Externals) {run : Run} (hjobs : LocalJobs run)
    (hns : run.ns = ns) (pipeline : Pipeline) (now endNow : Time) :
    OperatorConfined ns (RunReconciler.reconcileStored lib run pipeline now endNow) := by
  have hnamed : LocalJobs (withRunName run) := hjobs
  refine (volumesStage_confined lib hnamed hns pipeline).bind
    (fun hand => hand.1.ns = ns ∧ LocalJobs hand.1) (deployHand lib now endNow)
    (fun s hs => ?_) (fun hand hhand => ?_) fun s => ?_
  · have hafter := (ensureVolumeList_confined lib pipeline).keeps _
      (inHand_volumePass (s := s) hnamed hns hs)
    exact ⟨hafter.ns, hafter.jobs⟩
  · obtain ⟨inHand, verdict⟩ := hand
    cases verdict with
    | error e => exact .pure _
    | ok _ => exact deploy_confined lib hhand.2 hhand.1 now endNow
  · unfold RunReconciler.reconcileStored volumesStage deployHand
    simp only
    cases (ensureVolumeList lib pipeline (volumePass (withRunName run)
      { s.store with runs := replaceRun s.store.runs (withRunName run) })).2 <;> rfl

/-- The run of a request, with its pipeline. -/
private def fetchRun (ns name : String) (s : OperatorWorld) : Option (Run × Pipeline) := do
  let run ← getRun s.store.runs ns name
  let pipeline ← getPipeline s.store.pipelines ns run.labels.pipelineName
  return (run, pipeline)

/-- The reconcile, once run and pipeline have been fetched. -/
private def reconcileFound (lib : Externals) (now endNow : Time)
    (fetched : Option (Run × Pipeline)) (s : OperatorWorld) : OperatorWorld × ReconcileResult :=
  fetched.elim (s, .ok 0) fun found =>
    RunReconciler.reconcileStored lib found.1 found.2 now endNow s

/-- A reconcile of a run stays in its namespace. -/
theorem RunReconciler.reconcile_confined (lib : Externals) (name : String)
    (now endNow : Time) :
    OperatorConfined ns (RunReconciler.reconcile lib ns name now endNow) := by
  have hlook : OperatorConfined ns fun s => (s, fetchRun ns name s) := by
    apply Confined.read
    intro s _
    simp only [fetchRun, OperatorWorld.restrictTo, ObjectStore.restrictTo, getRun_part,
      getPipeline_part]
  refine hlook.bind (fun fetched => ∀ found ∈ fetched, found.1.ns = ns ∧ LocalJobs found.1)
    (reconcileFound lib now endNow) (fun s hs found hfound => ?_) (fun fetched hfetched => ?_)
    fun s => ?_
  · obtain ⟨run, hrun, hfound⟩ := Option.bind_eq_some_iff.mp hfound
    obtain ⟨pipeline, -, hfound⟩ := Option.bind_eq_some_iff.mp hfound
    cases hfound
    exact ⟨(getRun_key hrun).1, hs run (List.mem_of_find?_eq_some hrun)⟩
  · cases fetched with
    | none => exact .pure _
    | some found =>
        have hfound := hfetched found rfl
        exact reconcileStored_confined lib hfound.2 hfound.1 found.2 now endNow
  · unfold RunReconciler.reconcile fetchRun
    cases getRun s.store.runs ns name with
    | none => rfl
    | some run =>
        simp only
        cases hpipeline : getPipeline s.store.pipelines ns run.labels.pipelineName with
        | none => simp [hpipeline, reconcileFound]
        | some pipeline => simp [hpipeline, reconcileFound]

end Stages

/-! ## The operator -/

/-- The requests carry a namespace, and the environment leaves the jobs of runs
in the namespace of the run. -/
def OperatorAction.Local : OperatorAction → Prop
  | .reconcilePipeline ns _ _ _ => ns ≠ ""
  | .environment _ objects => AllLocal objects.runs
  | .reconcileRun _ _ _ _ | .execute _ _ _ => True

instance (a : OperatorAction) : Decidable a.Local := by
  unfold OperatorAction.Local
  split <;> infer_instance

section Operator

variable {lib : Externals} {ns : String}

/-- A confined reconcile with its result noted. -/
private theorem note_isolated {f : OperatorWorld → OperatorWorld × ReconcileResult}
    (hf : OperatorConfined ns f) {s : OperatorWorld} (hs : AllLocal s.store.runs) :
    AllLocal (OperatorWorld.note ns (f s)).store.runs ∧
      (OperatorWorld.note ns (f s)).restrictTo ns =
        OperatorWorld.note ns (f (s.restrictTo ns)) ∧
      ∀ e, e ≠ ns → (OperatorWorld.note ns (f s)).restrictTo e = s.restrictTo e := by
  refine ⟨hf.keeps s hs, ?_, fun e he => ?_⟩
  · rw [hf.own s hs]
    simp [OperatorWorld.note, OperatorWorld.restrictTo, part]
  · rw [← hf.other s hs e he]
    simp [OperatorWorld.note, OperatorWorld.restrictTo, part, he.symm]

theorem restrictTo_replaceIn (objects s : ObjectStore) :
    (objects.replaceIn ns s).restrictTo ns = objects.replaceIn ns (s.restrictTo ns) := by
  have hempty : ∀ {α : Type} (nsOf : α → String) (l : List α),
      (part nsOf ns l).filter (fun a => decide (nsOf a ≠ ns)) = [] := by
    intro α nsOf l
    refine List.filter_eq_nil_iff.mpr fun a ha => ?_
    simp [(mem_part.mp ha).2]
  have hempty' : ∀ {α : Type} (nsOf : α → String) (l : List α),
      part nsOf ns (l.filter (fun a => decide (nsOf a ≠ ns))) = [] := by
    intro α nsOf l
    refine List.filter_eq_nil_iff.mpr fun a ha => ?_
    have hne := of_decide_eq_true (List.mem_filter.mp ha).2
    simp [hne]
  simp only [ObjectStore.restrictTo, ObjectStore.replaceIn, part_append, part_part_self, hempty,
    hempty', List.nil_append]

theorem restrictTo_replaceIn_other {other : String} (hother : ns ≠ other)
    (objects s : ObjectStore) :
    (objects.replaceIn ns s).restrictTo other = s.restrictTo other := by
  have hkept : ∀ {α : Type} (nsOf : α → String) (l : List α),
      part nsOf other (l.filter (fun a => decide (nsOf a ≠ ns))) = part nsOf other l := by
    intro α nsOf l
    rw [part, List.filter_filter, part]
    congr 1
    funext a
    by_cases ha : nsOf a = other
    · simp [ha, hother.symm]
    · simp [ha]
  have hempty : ∀ {α : Type} (nsOf : α → String) (l : List α),
      part nsOf other (part nsOf ns l) = [] := by
    intro α nsOf l
    refine List.filter_eq_nil_iff.mpr fun a ha => ?_
    simp [(mem_part.mp ha).2, hother]
  simp only [ObjectStore.restrictTo, ObjectStore.replaceIn, part_append, hkept, hempty,
    List.append_nil]

/-- A goroutine runs in the namespace of its pipeline. -/
private theorem execute_isolated (lib : Externals) (pipeline : Pipeline) (address : Nat)
    (now : Time) {s : OperatorWorld} (hs : AllLocal s.store.runs) :
    AllLocal (s.step lib (.execute pipeline address now)).store.runs ∧
      (s.step lib (.execute pipeline address now)).restrictTo pipeline.ns =
        (s.restrictTo pipeline.ns).step lib (.execute pipeline address now) ∧
      ∀ e, e ≠ pipeline.ns →
        (s.step lib (.execute pipeline address now)).restrictTo e = s.restrictTo e := by
  have hruns : ∀ t : OperatorWorld, pipeline ∈ t.goroutines →
      t.step lib (.execute pipeline address now) =
        (PipelineReconciler.scheduleExecution lib pipeline address now
          { t with goroutines := t.goroutines.erase pipeline }).1 :=
    fun _ ht => if_pos ht
  have hskips : ∀ t : OperatorWorld, pipeline ∉ t.goroutines →
      t.step lib (.execute pipeline address now) = t :=
    fun _ ht => if_neg ht
  have hmem : pipeline ∈ (s.restrictTo pipeline.ns).goroutines ↔ pipeline ∈ s.goroutines := by
    simp [OperatorWorld.restrictTo, mem_part]
  by_cases hthere : pipeline ∈ s.goroutines
  · have hexecute : OperatorConfined pipeline.ns
        (PipelineReconciler.scheduleExecution lib pipeline address now) :=
      scheduleExecution_confined lib address now rfl
    rw [hruns s hthere, hruns _ (hmem.mpr hthere)]
    generalize hleft : ({ s with goroutines := s.goroutines.erase pipeline } : OperatorWorld) = left
    have hlocal : AllLocal left.store.runs := by
      rw [← hleft]
      exact hs
    have herased : ({ s.restrictTo pipeline.ns with
        goroutines := (s.restrictTo pipeline.ns).goroutines.erase pipeline } : OperatorWorld) =
          left.restrictTo pipeline.ns := by
      simp only [← hleft, OperatorWorld.restrictTo, part_erase]
    refine ⟨hexecute.keeps _ hlocal, ?_, fun e he => ?_⟩
    · rw [herased, hexecute.own _ hlocal]
    · have hnot : pipeline ∉ part Pipeline.ns e s.goroutines := by
        intro hin
        exact he (mem_part.mp hin).2.symm
      rw [hexecute.other _ hlocal e he, ← hleft]
      simp only [OperatorWorld.restrictTo, part_erase, List.erase_of_not_mem hnot]
  · rw [hskips s hthere, hskips _ (mt hmem.mp hthere)]
    exact ⟨hs, rfl, fun _ _ => rfl⟩

/-- An action ends the process in its namespace alone, if it does. -/
theorem panics_iff (lib : Externals) {s : OperatorWorld} (hs : AllLocal s.store.runs)
    {a : OperatorAction} (ha : a.Local) :
    (s.restrictTo a.ns).Panics lib a ↔ s.Panics lib a := by
  cases a with
  | reconcilePipeline ns name address now =>
      have hown := (PipelineReconciler.reconcile_confined lib name address now ha).own s hs
      simp only [OperatorWorld.Panics, OperatorAction.ns, hown]
  | reconcileRun ns name now endNow =>
      have hconfined : OperatorConfined ns (RunReconciler.reconcile lib ns name now endNow) :=
        RunReconciler.reconcile_confined lib name now endNow
      simp only [OperatorWorld.Panics, OperatorAction.ns, hconfined.own s hs]
  | execute pipeline address now =>
      have hmem : pipeline ∈ (s.restrictTo pipeline.ns).goroutines ↔ pipeline ∈ s.goroutines := by
        simp [OperatorWorld.restrictTo, mem_part]
      have hconfined : OperatorConfined pipeline.ns
          (PipelineReconciler.scheduleExecution lib pipeline address now) :=
        scheduleExecution_confined lib address now rfl
      have hown := hconfined.own { s with goroutines := s.goroutines.erase pipeline } hs
      have herased : ({ s.restrictTo pipeline.ns with
          goroutines := (s.restrictTo pipeline.ns).goroutines.erase pipeline } : OperatorWorld) =
            OperatorWorld.restrictTo pipeline.ns
              { s with goroutines := s.goroutines.erase pipeline } := by
        simp only [OperatorWorld.restrictTo, part_erase]
      simp only [OperatorWorld.Panics, OperatorAction.ns, hmem, herased, hown]
  | environment ns objects => exact Iff.rfl

/-- Every action is confined to its namespace. -/
theorem operator_isolated (lib : Externals) :
    Isolated (OperatorWorld.Panics lib) (OperatorWorld.step lib) OperatorAction.ns
      OperatorWorld.restrictTo OperatorAction.Local fun s => AllLocal s.store.runs := by
  have hall : ∀ (s : OperatorWorld) (a : OperatorAction), AllLocal s.store.runs → a.Local →
      AllLocal (s.step lib a).store.runs ∧
        (s.step lib a).restrictTo a.ns = (s.restrictTo a.ns).step lib a ∧
        ∀ e, e ≠ a.ns → (s.step lib a).restrictTo e = s.restrictTo e := by
    intro s a hs ha
    cases a with
    | reconcilePipeline ns name address now =>
        exact note_isolated (PipelineReconciler.reconcile_confined lib name address now ha) hs
    | reconcileRun ns name now endNow =>
        exact note_isolated (RunReconciler.reconcile_confined lib name now endNow) hs
    | execute pipeline address now => exact execute_isolated lib pipeline address now hs
    | environment ns objects =>
        refine ⟨?_, ?_, fun e he => ?_⟩
        · intro run hrun
          rcases List.mem_append.mp hrun with hrun | hrun
          · exact hs run (List.mem_filter.mp hrun).1
          · exact ha run (mem_part.mp hrun).1
        · simp only [OperatorWorld.step, OperatorAction.ns, OperatorWorld.restrictTo,
            restrictTo_replaceIn]
        · have hne : ns ≠ e := Ne.symm he
          simp only [OperatorWorld.step, OperatorWorld.restrictTo, restrictTo_replaceIn_other hne]
  exact
    { keeps := fun s a hs ha => (hall s a hs ha).1
      own := fun s a hs ha => (hall s a hs ha).2.1
      other := fun s a d hs ha hd => (hall s a hs ha).2.2 d (Ne.symm hd)
      dies_iff := fun s a hs ha => panics_iff lib hs ha }

end Operator

/-- A pipeline of the same name in two namespaces. -/
def teamPipeline (ns : String) : Pipeline where
  name := "nightly"
  ns := ns
  spec := { tasks := [{ name := "build", image := "golang" }] }

/-- Both pipelines are reconciled, and somebody empties one of the
namespaces. -/
def teamActions : List OperatorAction :=
  [ .reconcilePipeline "red" "nightly" 0 0
  , .reconcilePipeline "blue" "nightly" 0 0
  , .environment "red" {}
  , .reconcilePipeline "red" "nightly" 0 Time.second ]

def teamWorld : OperatorWorld where
  store := { pipelines := [teamPipeline "red", teamPipeline "blue"] }

end PipelineOperator.Controller
