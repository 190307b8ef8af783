import PipelineOperator.Controller.Operator
import PipelineOperator.Controller.SecondPass

/-!
# What the stages of a reconcile stay in

Every lookup, listing and write of the stages of a reconcile carries a
namespace, which is that of the run or the pipeline in hand.  The one exception
is a job in the spec of a run, with a namespace of its own; the operator copies
it from the run.

## Main results

* `ensureVolumeList_confined`, `ensureKJobList_confined`, `retry_confined`: the
  stages of a reconcile of a run stay in its namespace, if its jobs do.
-/

namespace PipelineOperator.Controller

open PipelineOperator.Lib
open PipelineOperator.Api

/-- The jobs of a run stay in the namespace of the run. -/
def LocalJobs (run : Run) : Prop := ∀ job ∈ run.spec.jobs, job.ns = run.ns

instance (run : Run) : Decidable (LocalJobs run) := by
  unfold LocalJobs
  infer_instance

/-- So do those of all runs. -/
def AllLocal (runs : RunStore) : Prop := ∀ run ∈ runs, LocalJobs run

instance (runs : RunStore) : Decidable (AllLocal runs) := by
  unfold AllLocal
  infer_instance

/-! ## Lookups and writes -/

section Store

variable {ns : String}

theorem getRun_part (runs : RunStore) (name : String) :
    getRun (part Run.ns ns runs) ns name = getRun runs ns name :=
  find?_part fun _ _ hp => (of_decide_eq_true hp).1

theorem getPipeline_part (pipelines : List Pipeline) (name : String) :
    getPipeline (part Pipeline.ns ns pipelines) ns name = getPipeline pipelines ns name :=
  find?_part fun _ _ hp => (of_decide_eq_true hp).1

theorem getPvc_part (pvcs : List PersistentVolumeClaim) (name : String) :
    getPvc (part PersistentVolumeClaim.ns ns pvcs) ns name = getPvc pvcs ns name :=
  find?_part fun _ _ hp => (of_decide_eq_true hp).1

theorem part_updateStatusOfPipeline (pipelines : List Pipeline) (pipeline : Pipeline) :
    part Pipeline.ns ns (updateStatusOfPipeline pipelines pipeline) =
      updateStatusOfPipeline (part Pipeline.ns ns pipelines) pipeline :=
  part_replace pipelines (fun p => { p with status := pipeline.status }) fun _ _ _ => rfl

theorem part_updateStatusOfPipeline_other {pipeline : Pipeline} (hns : pipeline.ns ≠ ns)
    (pipelines : List Pipeline) :
    part Pipeline.ns ns (updateStatusOfPipeline pipelines pipeline) =
      part Pipeline.ns ns pipelines :=
  part_replace_other pipelines (fun p => { p with status := pipeline.status })
    fun _ _ ha => ⟨rfl, by rw [ha.1]; exact hns⟩

theorem part_replacePipeline (pipelines : List Pipeline) (pipeline : Pipeline) :
    part Pipeline.ns ns (replacePipeline pipelines pipeline) =
      replacePipeline (part Pipeline.ns ns pipelines) pipeline :=
  part_replace pipelines (fun p => { pipeline with status := p.status }) fun _ _ ha => ha.1.symm

theorem part_replacePipeline_other {pipeline : Pipeline} (hns : pipeline.ns ≠ ns)
    (pipelines : List Pipeline) :
    part Pipeline.ns ns (replacePipeline pipelines pipeline) = part Pipeline.ns ns pipelines :=
  part_replace_other pipelines (fun p => { pipeline with status := p.status })
    fun _ _ ha => ⟨ha.1.symm, by rw [ha.1]; exact hns⟩

theorem part_replaceRun (runs : RunStore) (run : Run) :
    part Run.ns ns (replaceRun runs run) = replaceRun (part Run.ns ns runs) run :=
  part_replace runs (fun r => { run with status := r.status }) fun _ _ ha => ha.1.symm

theorem part_replaceRun_other {run : Run} (hns : run.ns ≠ ns) (runs : RunStore) :
    part Run.ns ns (replaceRun runs run) = part Run.ns ns runs :=
  part_replace_other runs (fun r => { run with status := r.status })
    fun _ _ ha => ⟨ha.1.symm, by rw [ha.1]; exact hns⟩

theorem part_updateStatusOfRun (runs : RunStore) (run : Run) :
    part Run.ns ns (updateStatusOfRun runs run) = updateStatusOfRun (part Run.ns ns runs) run :=
  part_replace runs (fun r => { r with status := run.status }) fun _ _ _ => rfl

theorem part_updateStatusOfRun_other {run : Run} (hns : run.ns ≠ ns) (runs : RunStore) :
    part Run.ns ns (updateStatusOfRun runs run) = part Run.ns ns runs :=
  part_replace_other runs (fun r => { r with status := run.status })
    fun _ _ ha => ⟨rfl, by rw [ha.1]; exact hns⟩

theorem part_replacePvc (pvcs : List PersistentVolumeClaim) (pvc : PersistentVolumeClaim) :
    part PersistentVolumeClaim.ns ns (replacePvc pvcs pvc) =
      replacePvc (part PersistentVolumeClaim.ns ns pvcs) pvc :=
  part_replace pvcs (fun _ => pvc) fun _ _ ha => ha.1.symm

theorem part_replacePvc_other {pvc : PersistentVolumeClaim} (hns : pvc.ns ≠ ns)
    (pvcs : List PersistentVolumeClaim) :
    part PersistentVolumeClaim.ns ns (replacePvc pvcs pvc) =
      part PersistentVolumeClaim.ns ns pvcs :=
  part_replace_other pvcs (fun _ => pvc) fun _ _ ha => ⟨ha.1.symm, by rw [ha.1]; exact hns⟩

/-! Local jobs stay local. -/

theorem AllLocal.replaceRun {runs : RunStore} (hlocal : AllLocal runs) {run : Run}
    (hrun : LocalJobs run) : AllLocal (replaceRun runs run) := by
  intro r hr
  obtain ⟨kept, hkept, rfl⟩ := List.mem_map.mp hr
  split
  · exact hrun
  · exact hlocal kept hkept

theorem AllLocal.updateStatusOfRun {runs : RunStore} (hlocal : AllLocal runs) (run : Run) :
    AllLocal (updateStatusOfRun runs run) := by
  intro r hr
  obtain ⟨kept, hkept, rfl⟩ := List.mem_map.mp hr
  split
  · exact hlocal kept hkept
  · exact hlocal kept hkept

theorem AllLocal.append {runs : RunStore} (hlocal : AllLocal runs) {run : Run}
    (hrun : LocalJobs run) : AllLocal (runs ++ [run]) := by
  intro r hr
  rcases List.mem_append.mp hr with hr | hr
  · exact hlocal r hr
  · rw [List.mem_singleton.mp hr]
    exact hrun

/-- The jobs of a constructed run are local. -/
theorem localJobs_of_constructed {lib : Externals} {address : Nat} {pipeline : Pipeline}
    {run : Run} (hrun : constructRunFromPipeline lib address pipeline = .ok run) :
    run.ns = pipeline.ns ∧ LocalJobs run := by
  obtain ⟨-, hns, -, hjobs⟩ := constructRunFromPipeline_ok hrun
  refine ⟨hns, fun job hjob => ?_⟩
  rw [hjobs] at hjob
  obtain ⟨task, -, rfl⟩ := List.mem_map.mp hjob
  rfl

end Store

/-! ## Volumes -/

def VolumeStore.restrictTo (ns : String) (store : VolumeStore) : VolumeStore where
  runs := part Run.ns ns store.runs
  pvcs := part PersistentVolumeClaim.ns ns store.pvcs

def VolumePass.restrictTo (ns : String) (s : VolumePass) : VolumePass :=
  { s with store := s.store.restrictTo ns }

/-- What a pass has to do with other namespaces than that of its run. -/
def VolumePass.view (ns : String) (s : VolumePass) : VolumeStore := s.store.restrictTo ns

/-- The run in hand is one of the namespace, and all jobs are local. -/
structure InHand (ns : String) (s : VolumePass) : Prop where
  ns : s.run.ns = ns
  jobs : LocalJobs s.run
  runs : AllLocal s.store.runs

section Volumes

variable {lib : Externals} {ns : String}

/-- A computation of a pass over the volumes that stays in the namespace. -/
abbrev VolumesConfined {ρ : Type} (ns : String) (f : VolumePass → VolumePass × ρ) : Prop :=
  Confined VolumePass.restrictTo VolumePass.view (InHand ns) ns f

/-- A write stays in the namespace if what it writes does. -/
theorem write_confined {change : VolumeStore → VolumeStore}
    (hkeeps : ∀ store, AllLocal store.runs → AllLocal (change store).runs)
    (hown : ∀ store, change (store.restrictTo ns) = (change store).restrictTo ns)
    (hother : ∀ store e, e ≠ ns → (change store).restrictTo e = store.restrictTo e) :
    VolumesConfined ns fun s => s.write change where
  keeps := by
    intro s hs
    rcases write_cases s change with ⟨e, hwrite⟩ | ⟨accepted, hwrite⟩
    · simp only [hwrite]
      exact hs
    · simp only [hwrite]
      exact ⟨hs.ns, hs.jobs, hkeeps _ hs.runs⟩
  own := by
    rintro ⟨run, store, accepted⟩ _
    cases accepted with
    | zero => rfl
    | succ accepted => simp only [VolumePass.write, VolumePass.restrictTo, hown]
  other := by
    intro s _ e he
    rcases write_cases s change with ⟨error, hwrite⟩ | ⟨accepted, hwrite⟩
    · simp only [hwrite]
    · simp only [hwrite]
      exact hother s.store e he

theorem createPvc_confined {pvc : PersistentVolumeClaim} (hpvc : pvc.ns = ns) :
    VolumesConfined ns fun s =>
      s.write fun store => { store with pvcs := store.pvcs ++ [pvc] } := by
  apply write_confined
  · exact fun _ hruns => hruns
  · intro store
    simp only [VolumeStore.restrictTo, part_append, part_singleton_self hpvc]
  · intro store e he
    have hne : pvc.ns ≠ e := by rw [hpvc]; exact he.symm
    simp only [VolumeStore.restrictTo, part_append, part_singleton_other hne, List.append_nil]

theorem updatePvc_confined {pvc : PersistentVolumeClaim} (hpvc : pvc.ns = ns) :
    VolumesConfined ns fun s =>
      s.write fun store => { store with pvcs := replacePvc store.pvcs pvc } := by
  apply write_confined
  · exact fun _ hruns => hruns
  · intro store
    simp only [VolumeStore.restrictTo, part_replacePvc]
  · intro store e he
    have hne : pvc.ns ≠ e := by rw [hpvc]; exact he.symm
    simp only [VolumeStore.restrictTo, part_replacePvc_other hne]

theorem updateRun_confined {run : Run} (hrun : run.ns = ns) (hjobs : LocalJobs run) :
    VolumesConfined ns fun s =>
      s.write fun store => { store with runs := replaceRun store.runs run } := by
  apply write_confined
  · exact fun _ hruns => hruns.replaceRun hjobs
  · intro store
    simp only [VolumeStore.restrictTo, part_replaceRun]
  · intro store e he
    have hne : run.ns ≠ e := by rw [hrun]; exact he.symm
    simp only [VolumeStore.restrictTo, part_replaceRun_other hne]

theorem run_write (s : VolumePass) (change : VolumeStore → VolumeStore) :
    (s.write change).1.run = s.run := by
  rcases write_cases s change with ⟨e, hwrite⟩ | ⟨accepted, hwrite⟩
  · rw [hwrite]
  · rw [hwrite]

/-- The claim keeps its key when it gets an owner. -/
theorem setPvcOwner_ns {pipeline : Pipeline} {run : Run} {scope : VolumeLifecycle}
    {pvc owned : PersistentVolumeClaim}
    (hset : setPvcOwner pipeline run scope { pvc with ownerReferences := [] } = .ok owned) :
    owned.ns = pvc.ns := by
  obtain ⟨-, rfl⟩ := setPvcOwner_ok rfl hset
  rfl

/-- The end of the visit of a volume with a claim, once the run has been
updated, or not. -/
private def reclaim (pipeline : Pipeline) (entry : VolumeResource × Nat)
    (pvcQuery : PersistentVolumeClaim) (run : Run) (verdict : Except String Unit)
    (s : VolumePass) : VolumePass × Except String Unit :=
  match verdict with
  | .error e => (s, .error e)
  | .ok () =>
      match setPvcOwner pipeline run entry.1.scope { pvcQuery with ownerReferences := [] } with
      | .error e => (s, .error e)
      | .ok pvc => s.write fun store => { store with pvcs := replacePvc store.pvcs pvc }

/-- The visit of a volume with a claim, once the run has been rewritten. -/
private def updateAndReclaim (pipeline : Pipeline) (entry : VolumeResource × Nat)
    (pvcQuery : PersistentVolumeClaim) (run : Run) (s : VolumePass) :
    VolumePass × Except String Unit :=
  let written := s.write fun store => { store with runs := replaceRun store.runs run }
  reclaim pipeline entry pvcQuery run written.2 written.1

private theorem reclaim_confined (pipeline : Pipeline) (entry : VolumeResource × Nat)
    {pvcQuery : PersistentVolumeClaim} (hpvc : pvcQuery.ns = ns) (run : Run)
    (verdict : Except String Unit) :
    VolumesConfined ns (reclaim pipeline entry pvcQuery run verdict) := by
  cases verdict with
  | error e => exact .pure (Except.error e)
  | ok _ =>
      unfold reclaim
      simp only
      split
      · exact .pure _
      · next pvc hset => exact updatePvc_confined ((setPvcOwner_ns hset).trans hpvc)

private theorem updateAndReclaim_confined (pipeline : Pipeline) (entry : VolumeResource × Nat)
    {pvcQuery : PersistentVolumeClaim} (hpvc : pvcQuery.ns = ns) {run : Run}
    (hrun : run.ns = ns ∧ LocalJobs run) :
    VolumesConfined ns (updateAndReclaim pipeline entry pvcQuery run) :=
  (updateRun_confined hrun.1 hrun.2).bind (fun _ => True) (reclaim pipeline entry pvcQuery run)
    (fun _ _ => trivial) (fun verdict _ => reclaim_confined pipeline entry hpvc run verdict)
    fun _ => rfl

/-- The run is rewritten in hand, then in the store, and then the claim is. -/
private theorem reconcileVolume_eq (pipeline : Pipeline) (entry : VolumeResource × Nat)
    (pvcQuery : PersistentVolumeClaim) (storage : String) (s : VolumePass) :
    reconcileVolume pipeline entry pvcQuery storage s =
      updateAndReclaim pipeline entry pvcQuery (withFetchedVolume s.run entry pvcQuery storage)
        { s with run := withFetchedVolume s.run entry pvcQuery storage } := by
  simp only [reconcileVolume, updateAndReclaim]
  generalize withFetchedVolume s.run entry pvcQuery storage = run
  have hkept := run_write { s with run := run }
    fun store => { store with runs := replaceRun store.runs run }
  generalize VolumePass.write _ _ = written at hkept ⊢
  obtain ⟨after, verdict⟩ := written
  cases verdict with
  | error e => rfl
  | ok _ =>
      simp only at hkept
      cases hset : setPvcOwner pipeline run entry.1.scope
          { pvcQuery with ownerReferences := [] } <;>
        simp only [reclaim, hkept, hset]

theorem reconcileVolume_confined (pipeline : Pipeline) (entry : VolumeResource × Nat)
    {pvcQuery : PersistentVolumeClaim} (hpvc : pvcQuery.ns = ns) (storage : String) :
    VolumesConfined ns (reconcileVolume pipeline entry pvcQuery storage) := by
  have hrewrite : VolumesConfined ns fun s : VolumePass =>
      ({ s with run := withFetchedVolume s.run entry pvcQuery storage },
        withFetchedVolume s.run entry pvcQuery storage) :=
    { keeps := fun _ hs => ⟨hs.ns, hs.jobs, hs.runs⟩
      own := fun _ _ => rfl
      other := fun _ _ _ _ => rfl }
  exact hrewrite.bind (fun run => run.ns = ns ∧ LocalJobs run)
    (updateAndReclaim pipeline entry pvcQuery) (fun s hs => ⟨hs.ns, hs.jobs⟩)
    (fun run hrun => updateAndReclaim_confined pipeline entry hpvc hrun)
    (reconcileVolume_eq pipeline entry pvcQuery storage)

/-- The visit of a volume, once its claim has been fetched, or not found. -/
private def visitFetched (lib : Externals) (pipeline : Pipeline) (entry : VolumeResource × Nat)
    (run : Run) (fetched : Option PersistentVolumeClaim) (s : VolumePass) :
    VolumePass × Except String Unit :=
  match fetched with
  | none =>
      match newPvc lib pipeline run entry.1 with
      | .error e => (s, .error e)
      | .ok pvc => s.write fun store => { store with pvcs := store.pvcs ++ [pvc] }
  | some pvcQuery =>
      match pvcQuery.storageClassName with
      | none => (s, .error nilDereference)
      | some storage => reconcileVolume pipeline entry pvcQuery storage s

private theorem visitFetched_confined (lib : Externals) (pipeline : Pipeline)
    (entry : VolumeResource × Nat) {run : Run} (hrun : run.ns = ns)
    {fetched : Option PersistentVolumeClaim} (hfetched : ∀ pvc ∈ fetched, pvc.ns = ns) :
    VolumesConfined ns (visitFetched lib pipeline entry run fetched) := by
  cases fetched with
  | none =>
      unfold visitFetched
      simp only
      split
      · exact .pure _
      · next pvc hnew => exact createPvc_confined ((newPvc_ok hnew).2.1.trans hrun)
  | some pvcQuery =>
      unfold visitFetched
      simp only
      split
      · exact .pure _
      · exact reconcileVolume_confined pipeline entry (hfetched pvcQuery rfl) _

theorem ensureVolume_confined (lib : Externals) (pipeline : Pipeline)
    (entry : VolumeResource × Nat) : VolumesConfined ns (ensureVolume lib pipeline entry) := by
  have hlook : VolumesConfined ns fun s : VolumePass =>
      (s, (s.run, getPvc s.store.pvcs s.run.ns entry.1.name)) := by
    apply Confined.read
    intro s hs
    simp only [VolumePass.restrictTo, VolumeStore.restrictTo, hs.ns, getPvc_part]
  refine hlook.bind (fun looked => looked.1.ns = ns ∧ ∀ pvc ∈ looked.2, pvc.ns = ns)
    (fun looked => visitFetched lib pipeline entry looked.1 looked.2) (fun s hs => ⟨hs.ns, ?_⟩)
    (fun looked hlooked => visitFetched_confined lib pipeline entry hlooked.1 hlooked.2)
    fun s => ?_
  · intro pvc hpvc
    rw [(getPvc_key hpvc).1, hs.ns]
  · cases hget : getPvc s.store.pvcs s.run.ns entry.1.name with
    | none =>
        cases hnew : newPvc lib pipeline s.run entry.1 <;>
          simp only [visitFetched, ensureVolume, hget, hnew]
    | some pvcQuery =>
        cases hclass : pvcQuery.storageClassName <;>
          simp only [visitFetched, ensureVolume, hget, hclass]

/-- A pass over the volumes stays in the namespace of its run. -/
theorem ensureVolumeList_confined (lib : Externals) (pipeline : Pipeline) :
    VolumesConfined ns (ensureVolumeList lib pipeline) := by
  have hlook : VolumesConfined ns fun s : VolumePass => (s, s.run.spec.volumes.zipIdx) :=
    .read fun _ _ => rfl
  exact hlook.bind (fun _ => True) (walk (ensureVolume lib pipeline)) (fun _ _ => trivial)
    (fun entries _ => .walk fun entry _ => ensureVolume_confined lib pipeline entry) fun _ => rfl

end Volumes

/-! ## Kubernetes jobs -/

def Cluster.restrictTo (ns : String) (c : Cluster) : Cluster where
  kjobs := part KJob.ns ns c.kjobs
  pods := part Pod.ns ns c.pods

section KJobs

variable {lib : Externals} {ns : String} {run : Run}

/-- A computation on the cluster that stays in the namespace. -/
abbrev ClusterConfined {ρ : Type} (ns : String) (f : Cluster → Cluster × ρ) : Prop :=
  Confined Cluster.restrictTo Cluster.restrictTo (fun _ => True) ns f

theorem getKJob_restrictTo (c : Cluster) (name : String) :
    (c.restrictTo ns).getKJob ns name = c.getKJob ns name :=
  find?_part fun _ _ hp => (of_decide_eq_true hp).1

theorem listKJobs_restrictTo (c : Cluster) (runJobName : String) :
    (c.restrictTo ns).listKJobs ns runJobName = c.listKJobs ns runJobName :=
  filter_part fun _ _ hp => (of_decide_eq_true hp).1

theorem listRunKJobs_restrictTo (c : Cluster) (runName : String) :
    (c.restrictTo ns).listRunKJobs ns runName = c.listRunKJobs ns runName :=
  filter_part fun _ _ hp => (of_decide_eq_true hp).1

theorem firstPod_restrictTo (c : Cluster) (jobName : String) :
    firstPod (c.restrictTo ns) ns jobName = firstPod c ns jobName := by
  have hpods : (c.restrictTo ns).listPods ns jobName = c.listPods ns jobName :=
    filter_part fun _ _ hp => (of_decide_eq_true hp).1
  rw [firstPod, hpods, firstPod]

theorem isSuspending_restrictTo (c : Cluster) (currentTrigger : String)
    (runBefore : List String) :
    isSuspending (c.restrictTo ns) ns currentTrigger runBefore =
      isSuspending c ns currentTrigger runBefore := by
  induction runBefore with
  | nil => rfl
  | cons before runBefore ih =>
      unfold isSuspending
      rw [listKJobs_restrictTo]
      cases c.listKJobs ns before with
      | nil => rfl
      | cons beforeKjob rest => simp only [ih]

/-- A label names a job of the run, or one without predecessors. -/
theorem selfJobOf_cases (run : Run) (runJobName : String) :
    selfJobOf run runJobName ∈ run.spec.jobs ∨ (selfJobOf run runJobName).runBefore = [] := by
  unfold selfJobOf
  cases hfind : run.spec.jobs.find? fun job => runJobName = job.name with
  | none => exact Or.inr rfl
  | some job => exact Or.inl (List.mem_of_find?_eq_some hfind)

/-- The decision whether to suspend looks at the namespace only. -/
theorem isSuspending_self (hjobs : LocalJobs run) (hns : run.ns = ns) (c : Cluster)
    (runJobName currentTrigger : String) :
    isSuspending (c.restrictTo ns) (selfJobOf run runJobName).ns currentTrigger
        (selfJobOf run runJobName).runBefore =
      isSuspending c (selfJobOf run runJobName).ns currentTrigger
        (selfJobOf run runJobName).runBefore := by
  rcases selfJobOf_cases run runJobName with hmem | hnone
  · rw [hjobs _ hmem, hns]
    exact isSuspending_restrictTo c _ _
  · rw [hnone]
    rfl

theorem updateKJob_restrictTo (c : Cluster) (kjob : KJob) :
    (c.updateKJob kjob).restrictTo ns = (c.restrictTo ns).updateKJob kjob := by
  simp only [Cluster.restrictTo, Cluster.updateKJob, Cluster.mk.injEq, and_true]
  exact part_replace c.kjobs (fun _ => kjob) fun _ _ hkey => (Prod.mk.inj hkey).1.symm

theorem updateKJob_restrictTo_other {kjob : KJob} (hkjob : kjob.ns ≠ ns) (c : Cluster) :
    (c.updateKJob kjob).restrictTo ns = c.restrictTo ns := by
  simp only [Cluster.restrictTo, Cluster.updateKJob, Cluster.mk.injEq, and_true]
  refine part_replace_other c.kjobs (fun _ => kjob) fun k _ hkey => ?_
  have hns : k.ns = kjob.ns := (Prod.mk.inj hkey).1
  exact ⟨hns.symm, by rw [hns]; exact hkjob⟩

theorem createKJob_restrictTo {kjob : KJob} (hkjob : kjob.ns = ns) (c : Cluster) :
    (c.createKJob kjob).restrictTo ns = (c.restrictTo ns).createKJob kjob := by
  simp only [Cluster.restrictTo, Cluster.createKJob, part_append, part_singleton_self hkjob]

theorem createKJob_restrictTo_other {kjob : KJob} (hkjob : kjob.ns ≠ ns) (c : Cluster) :
    (c.createKJob kjob).restrictTo ns = c.restrictTo ns := by
  simp only [Cluster.restrictTo, Cluster.createKJob, part_append, part_singleton_other hkjob,
    List.append_nil]

/-- One job, on the part of the namespace. -/
theorem ensureKJob_restrictTo (hjobs : LocalJobs run) (hns : run.ns = ns) {desiredkjob : KJob}
    (hdesired : desiredkjob.ns = ns) (c : Cluster) :
    ensureKJob run (c.restrictTo ns) desiredkjob =
      (ensureKJob run c desiredkjob).map (Cluster.restrictTo ns) := by
  unfold ensureKJob
  simp only [hdesired, getKJob_restrictTo, firstPod_restrictTo]
  cases c.getKJob ns desiredkjob.name with
  | none =>
      simp only
      cases howned : setControllerReference run desiredkjob with
      | error e => rfl
      | ok owned =>
          have howner : owned.ns = ns := by
            obtain ⟨-, -, hset⟩ := bind_ok howned
            cases hset
            exact hdesired
          simp only [bind, Except.bind, pure, Except.pure, Except.map,
            createKJob_restrictTo howner]
  | some currentKjob =>
      simp only [isSuspending_self hjobs hns]
      cases isSuspending c (selfJobOf run currentKjob.labels.runJobName).ns
          currentKjob.annotations.trigger
          (selfJobOf run currentKjob.labels.runJobName).runBefore with
      | error e => rfl
      | ok suspending =>
          simp only [bind, Except.bind, pure, Except.pure, Except.map, updateKJob_restrictTo]

/-- One job leaves the other namespaces alone. -/
theorem ensureKJob_restrictTo_other {desiredkjob : KJob} {other : String}
    (hdesired : desiredkjob.ns ≠ other) {c next : Cluster}
    (hstep : ensureKJob run c desiredkjob = .ok next) :
    next.restrictTo other = c.restrictTo other := by
  cases hget : c.getKJob desiredkjob.ns desiredkjob.name with
  | none =>
      rw [ensureKJob_of_missing hget hstep]
      generalize howned : ({ desiredkjob with owner := some ⟨.run, run.name⟩ } : KJob) = owned
      have howner : owned.ns ≠ other := by
        rw [← howned]
        exact hdesired
      exact createKJob_restrictTo_other howner c
  | some currentKjob =>
      obtain ⟨suspending, -, rfl⟩ := ensureKJob_of_exists hget hstep
      refine updateKJob_restrictTo_other ?_ c
      have hkey := (Cluster.mem_of_getKJob hget).2.1
      intro hsame
      exact hdesired (hkey.symm.trans hsame)

theorem visitKJob_confined (hjobs : LocalJobs run) (hns : run.ns = ns) {desiredkjob : KJob}
    (hdesired : desiredkjob.ns = ns) : ClusterConfined ns (visitKJob run desiredkjob) where
  keeps := fun _ _ => trivial
  own := by
    intro c _
    unfold visitKJob
    rw [ensureKJob_restrictTo hjobs hns hdesired]
    cases ensureKJob run c desiredkjob <;> rfl
  other := by
    intro c _ e he
    unfold visitKJob
    cases hstep : ensureKJob run c desiredkjob with
    | error error => rfl
    | ok next =>
        have hne : desiredkjob.ns ≠ e := by rw [hdesired]; exact he.symm
        exact ensureKJob_restrictTo_other hne hstep

/-- A pass over the kubernetes jobs of a run with local jobs stays in its
namespace. -/
theorem ensureKJobList_confined (lib : Externals) (hjobs : LocalJobs run) (hns : run.ns = ns) :
    ClusterConfined ns (ensureKJobList lib run) := by
  unfold ensureKJobList
  cases hlist : constructKjobListFromRun lib run with
  | error e => exact .pure (Except.error e)
  | ok kjobList =>
      have hdesired : ∀ desiredkjob ∈ kjobList, desiredkjob.ns = ns := by
        intro desiredkjob hmem
        obtain ⟨job, hjob, hdesired⟩ := desired_of_listed hlist desiredkjob hmem
        rw [hdesired.ns, hjobs job hjob, hns]
      have hwalk : ensureKJobs run kjobList = walk (visitKJob run) kjobList :=
        funext fun c => ensureKJobs_eq_walk run kjobList c
      simp only [hwalk]
      exact .walk fun desiredkjob hmem => visitKJob_confined hjobs hns (hdesired _ hmem)

end KJobs

/-! ## The status of a run -/

def StatusStore.restrictTo (ns : String) (store : StatusStore) : StatusStore where
  runs := part Run.ns ns store.runs
  pipelines := part Pipeline.ns ns store.pipelines

def RetryState.restrictTo (ns : String) (s : RetryState) : RetryState :=
  { s with store := s.store.restrictTo ns }

def RetryState.view (ns : String) (s : RetryState) : StatusStore := s.store.restrictTo ns

section Status

variable {lib : Externals} {ns : String}

/-- A computation of the retry loop that stays in the namespace. -/
abbrev StatusConfined {ρ : Type} (ns : String) (f : RetryState → RetryState × ρ) : Prop :=
  Confined RetryState.restrictTo RetryState.view (fun s => AllLocal s.store.runs) ns f

theorem writeRunStatus_confined (attempt : StatusAttempt) {run : Run} (hrun : run.ns = ns) :
    StatusConfined ns (writeRunStatus attempt run) where
  keeps := by
    intro s hs
    unfold writeRunStatus
    simp only
    split
    · exact hs
    · exact hs.updateStatusOfRun run
  own := by
    intro s _
    unfold writeRunStatus
    simp only [RetryState.restrictTo, RetryState.access, StatusStore.restrictTo,
      ← part_updateStatusOfRun]
    split <;> rfl
  other := by
    intro s _ e he
    have hne : run.ns ≠ e := by rw [hrun]; exact he.symm
    unfold writeRunStatus
    simp only
    split
    · rfl
    · simp only [RetryState.view, RetryState.access, StatusStore.restrictTo,
        part_updateStatusOfRun_other hne]

theorem endExecution_confined (pipelineName : String) (attempt : StatusAttempt) :
    StatusConfined ns (endExecution ns pipelineName attempt) where
  keeps := by
    intro s hs
    unfold endExecution
    simp only
    split
    · exact hs
    · split
      · exact hs
      · exact hs
  own := by
    intro s _
    unfold endExecution
    simp only [RetryState.restrictTo, RetryState.access, StatusStore.restrictTo, getPipeline_part]
    cases getPipeline s.store.pipelines ns pipelineName with
    | none => rfl
    | some found =>
        simp only [← part_updateStatusOfPipeline]
        split <;> rfl
  other := by
    intro s _ e he
    unfold endExecution
    simp only
    cases hget : getPipeline s.store.pipelines ns pipelineName with
    | none => rfl
    | some found =>
        have hne : found.ns ≠ e := by rw [(getPipeline_key hget).1]; exact he.symm
        simp only
        split
        · rfl
        · simp only [RetryState.view, RetryState.access, StatusStore.restrictTo,
            StatusStore.mk.injEq, true_and]
          refine part_updateStatusOfPipeline_other ?_ _
          exact hne

/-- The closure once it has found a run. -/
private def updateFound (lib : Externals) (ns pipelineName : String) (kjobs : List KJob)
    (attempt : StatusAttempt) (found : Run) (s : RetryState) : RetryState × AttemptVerdict :=
  if EndsExecution found kjobs then
    match endExecution ns pipelineName attempt s with
    | (s, .done) => writeRunStatus attempt (withStatus lib found kjobs attempt) s
    | (s, verdict) => (s, verdict)
  else writeRunStatus attempt (withStatus lib found kjobs attempt) s

/-- What an attempt does after the write on the pipeline. -/
private def writeAfter (attempt : StatusAttempt) (run : Run) (verdict : AttemptVerdict)
    (s : RetryState) : RetryState × AttemptVerdict :=
  match verdict with
  | .done => writeRunStatus attempt run s
  | .conflict => (s, .conflict)
  | .failed => (s, .failed)

private theorem updateFound_confined (lib : Externals) (pipelineName : String)
    (kjobs : List KJob) (attempt : StatusAttempt) {found : Run} (hfound : found.ns = ns) :
    StatusConfined ns (updateFound lib ns pipelineName kjobs attempt found) := by
  have hwrite : StatusConfined ns
      (writeRunStatus attempt (withStatus lib found kjobs attempt)) :=
    writeRunStatus_confined attempt hfound
  unfold updateFound
  split
  · refine (endExecution_confined pipelineName attempt).bind (fun _ => True)
      (writeAfter attempt (withStatus lib found kjobs attempt)) (fun _ _ => trivial)
      (fun verdict _ => ?_) fun s => ?_
    · cases verdict with
      | done => exact hwrite
      | conflict => exact .pure AttemptVerdict.conflict
      | failed => exact .pure AttemptVerdict.failed
    · generalize endExecution ns pipelineName attempt s = ended
      obtain ⟨after, verdict⟩ := ended
      cases verdict <;> rfl
  · exact hwrite

/-- The closure once it has looked for a run. -/
private def updateLooked (lib : Externals) (ns pipelineName : String) (kjobs : List KJob)
    (attempt : StatusAttempt) (looked : Option Run) (s : RetryState) :
    RetryState × AttemptVerdict :=
  looked.elim (s, .failed) fun found => updateFound lib ns pipelineName kjobs attempt found s

theorem tryUpdateRunStatus_confined (lib : Externals) (pipelineName : String)
    (kjobs : List KJob) (attempt : StatusAttempt) :
    StatusConfined ns (tryUpdateRunStatus lib ns pipelineName kjobs attempt) := by
  have hlook : StatusConfined ns fun s : RetryState =>
      (s.access (.getRun ns s.keyName), getRun s.store.runs ns s.keyName) :=
    { keeps := fun _ hs => hs
      own := by
        intro s _
        simp only [RetryState.restrictTo, RetryState.access, StatusStore.restrictTo, getRun_part]
      other := fun _ _ _ _ => rfl }
  refine hlook.bind (fun looked => ∀ found ∈ looked, found.ns = ns)
    (updateLooked lib ns pipelineName kjobs attempt)
    (fun s _ found hfound => (getRun_key hfound).1) (fun looked hlooked => ?_) fun s => ?_
  · cases looked with
    | none => exact .pure AttemptVerdict.failed
    | some found => exact updateFound_confined lib pipelineName kjobs attempt (hlooked found rfl)
  · unfold tryUpdateRunStatus
    cases getRun s.store.runs ns s.keyName <;> rfl

/-- The retry loop stays in the namespace. -/
theorem retry_confined (lib : Externals) (pipelineName : String) (kjobs : List KJob)
    (attempts : List StatusAttempt) :
    StatusConfined ns
      (retryOnConflict (tryUpdateRunStatus lib ns pipelineName kjobs) attempts) :=
  .retryOnConflict fun attempt _ => tryUpdateRunStatus_confined lib pipelineName kjobs attempt

end Status

end PipelineOperator.Controller
