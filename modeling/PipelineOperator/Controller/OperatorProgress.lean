import PipelineOperator.Controller.RunRefinement
import PipelineOperator.Lib.Lasso
import PipelineOperator.Lib.Pieces

/-!
# The operator brings runs to their end

An endless run of the operator, with many pipelines and runs, goroutines, users
and the cluster.  The machine of a run follows it, action by action, and the
pieces in which it does make up an endless run of that machine.  If reconciles
of the run get through again and again that is a fair run, so that it comes to
its end there; and what the machine shows is what is stored.

The reconciles of a run whose tasks are listed in order do get through, as soon
as its volumes are there, so that it is enough to call them.

## Main results

* `EndlessOperator.followed`: the machine of the run follows the operator for
  ever.
* `operator_completes`: in the end the stored run is completed.
* `ordered_pipeline_completes`: so it is if its pipeline lists its tasks in order
  and its reconciles are called.
-/

namespace PipelineOperator.Controller

open PipelineOperator.Lib
open PipelineOperator.Api
open PipelineOperator.Go
open Filter

/-- The action is a reconcile of the run that gets through. -/
def GetsThrough (lib : Externals) (run : Run) (w : OperatorWorld) (a : OperatorAction) : Prop :=
  ∃ now endNow, a = .reconcileRun run.ns run.name now endNow ∧
    (∃ stored pipeline, getRun w.store.runs run.ns run.name = some stored ∧
      getPipeline w.store.pipelines run.ns stored.labels.pipelineName = some pipeline) ∧
    ∃ requeue, (RunReconciler.reconcile lib run.ns run.name now endNow w).2 = .ok requeue

/-- The action is a reconcile of the run whose pass over the volumes meets no
error. -/
def TakesVolumes (lib : Externals) (run : Run) (w : OperatorWorld) (a : OperatorAction) : Prop :=
  ∃ now endNow, a = .reconcileRun run.ns run.name now endNow ∧
    ∃ stored pipeline, getRun w.store.runs run.ns run.name = some stored ∧
      getPipeline w.store.pipelines run.ns stored.labels.pipelineName = some pipeline ∧
      (ensureVolumeList lib pipeline (startOf stored w.store)).2 = .ok ()

/-- An endless run of the operator, from a store that has the run and nothing of
it in the cluster on.  Everybody leaves the run alone, and a job of it that is
not suspended from some moment on succeeds at some time. -/
structure EndlessOperator (lib : Externals) (run : Run) (w : Nat → OperatorWorld)
    (a : Nat → OperatorAction) : Prop where
  trace : (operatorMachine lib (StartsRun lib run)).Trace w a
  leaves : ∀ i, LeavesRun lib run (w i) (a i)
  succeeds : ∀ job ∈ run.spec.jobs,
    (∀ᶠ i in atTop, ∃ kjob ∈ (w i).store.cluster.getKJob run.ns (kjobNameOf lib run job),
      kjob.suspend = false) →
    ∃ i, HasSucceeded lib run (w i).store.cluster job

/-- All jobs of the stored run have succeeded and are recorded so, its status says
that it is completed, and a status write ends the execution of its pipeline. -/
structure StoredCompleted (lib : Externals) (run : Run) (s : ObjectStore) : Prop where
  jobs : ∀ job ∈ run.spec.jobs, ∃ kjob ∈ s.cluster.getKJob run.ns (kjobNameOf lib run job),
    kjob.suspend = false ∧ kjob.recorded = .completed ∧ kjob.status.Succeeded
  status : (getRun s.runs run.ns run.name).map (fun stored => stored.status.runState) =
    some .completed
  ends : EndsExecution run (s.cluster.listRunKJobs run.ns run.name)

section Progress

variable {lib : Externals} {run : Run} {w : Nat → OperatorWorld} {a : Nat → OperatorAction}

/-! ## The machine of the run -/

/-- What the machine shows of the kubernetes job of a job is stored. -/
theorem ShowsRun.kjobOf {v : OperatorWorld} {x : RunWorld} (hshows : ShowsRun lib run v x)
    {job : Job} (hjob : job ∈ run.spec.jobs) :
    x.kjobOf lib run job = v.store.cluster.getKJob run.ns (kjobNameOf lib run job) := by
  rw [RunWorld.kjobOf, hshows.cluster]
  exact getKJob_runPart hshows.separate.unmixed hjob

theorem ShowsRun.hasSucceeded_iff {v : OperatorWorld} {x : RunWorld}
    (hshows : ShowsRun lib run v x) {job : Job} (hjob : job ∈ run.spec.jobs) :
    HasSucceeded lib run x.cluster job ↔ HasSucceeded lib run v.store.cluster job := by
  have hkjobOf := hshows.kjobOf hjob
  rw [RunWorld.kjobOf] at hkjobOf
  rw [HasSucceeded, HasSucceeded, hkjobOf]

theorem EndlessOperator.storedApart (h : EndlessOperator lib run w a) (i : Nat) :
    StoredApart run (w i).store := by
  induction i with
  | zero => exact h.trace.init.stored
  | succ i ih =>
      have hstep := Option.some.inj (h.trace.step i)
      rw [← hstep]
      exact ih.step (h.leaves i)

/-- The actions with which the machine follows one action of the operator. -/
structure FollowsAction (lib : Externals) (run : Run) (v : OperatorWorld) (b : OperatorAction)
    (x y : RunWorld) (piece : List RunAction) : Prop where
  exec : (runMachine lib run).exec (fun _ _ => True) x piece = some y
  ne_nil : piece ≠ []
  writes : GetsThrough lib run v b → ∃ now, .updateStatus now ∈ piece

/-- A run of the machine with one action behind it. -/
theorem exec_concat {x y z : RunWorld} {b : RunAction}
    (hsteps : (runMachine lib run).Steps (fun _ _ => True) x y)
    (hstep : y.step lib run b = some z) :
    ∃ as, (runMachine lib run).exec (fun _ _ => True) x (as ++ [b]) = some z := by
  obtain ⟨as, has⟩ := hsteps.exists_exec
  refine ⟨as, ?_⟩
  rw [Machine.exec_append, has, Option.bind_some, Machine.exec, if_pos trivial]
  exact Option.bind_eq_some_iff.mpr ⟨z, hstep, rfl⟩

theorem exists_followsAction (hrun : WellFormed run) {v : OperatorWorld} {b : OperatorAction}
    (hv : StoredApart run v.store) (hb : LeavesRun lib run v b) {x : RunWorld}
    (hx : Underway lib run x) (hshows : ShowsRun lib run v x) :
    ∃ y, (Underway lib run y ∧ ShowsRun lib run (v.step lib b) y) ∧
      ∃ piece, FollowsAction lib run v b x y piece := by
  by_cases hthrough : GetsThrough lib run v b
  · obtain ⟨now, endNow, rfl, ⟨stored, pipeline, hstored, hpipeline⟩,
      requeue, hok⟩ := id hthrough
    obtain ⟨y, z, date, hsteps, hwrite, hz⟩ :=
      RunReconciler.reconcile_writes hrun hv hstored hpipeline hok x hx hshows
    obtain ⟨as, has⟩ := exec_concat hsteps hwrite
    refine ⟨z, ⟨(hx.steps hrun hsteps).step hrun hwrite, { hz with }⟩, as ++ [.updateStatus date],
      has, by simp, fun _ => ⟨date, by simp⟩⟩
  · obtain ⟨y, hsteps, hy⟩ := action_followed hrun hv hb x hx hshows
    -- A reconcile that is not under way is broken off, which changes nothing.
    have habort : y.step lib run .abort = some y := by
      rw [RunWorld.step, ← hy.idle]
    obtain ⟨as, has⟩ := exec_concat hsteps habort
    exact ⟨y, ⟨hx.steps hrun hsteps, hy⟩, as ++ [.abort], has, by simp,
      fun h => absurd h hthrough⟩

/-- The machine follows the operator for ever, in pieces. -/
theorem EndlessOperator.followed (h : EndlessOperator lib run w a) (hrun : WellFormed run) :
    ∃ x : Nat → RunWorld, ∃ piece : Nat → List RunAction, (runMachine lib run).init (x 0) ∧
      ∀ i, Underway lib run (x i) ∧ ShowsRun lib run (w i) (x i) ∧
        FollowsAction lib run (w i) (a i) (x i) (x (i + 1)) (piece i) := by
  have hfirst : ∃ x, (0 = 0 → (runMachine lib run).init x) ∧ Underway lib run x ∧
      ShowsRun lib run (w 0) x := by
    obtain ⟨x, hinit, -, hx, hshows⟩ := (run_simulation lib hrun).init (w 0) h.trace.init
    exact ⟨x, fun _ => hinit, hx, hshows⟩
  obtain ⟨x, hx⟩ : ∃ x : Nat → RunWorld, ∀ i,
      ((i = 0 → (runMachine lib run).init (x i)) ∧ Underway lib run (x i) ∧
        ShowsRun lib run (w i) (x i)) ∧
      ∃ piece, FollowsAction lib run (w i) (a i) (x i) (x (i + 1)) piece := by
    refine exists_sequence
      (P := fun i x => (i = 0 → (runMachine lib run).init x) ∧ Underway lib run x ∧
        ShowsRun lib run (w i) x)
      (Q := fun i x y => ∃ piece, FollowsAction lib run (w i) (a i) x y piece) hfirst ?_
    rintro i x ⟨-, hx, hshows⟩
    obtain ⟨y, hy, hfollows⟩ :=
      exists_followsAction hrun (h.storedApart i) (h.leaves i) hx hshows
    have hstep : (w i).step lib (a i) = w (i + 1) := Option.some.inj (h.trace.step i)
    rw [hstep] at hy
    exact ⟨y, ⟨fun hzero => absurd hzero (Nat.succ_ne_zero i), hy⟩, hfollows⟩
  choose piece hpiece using fun i => (hx i).2
  exact ⟨x, piece, (hx 0).1.1 rfl, fun i => ⟨(hx i).1.2.1, (hx i).1.2.2, hpiece i⟩⟩

/-! ## The end -/

/-- A run that is completed where the machine is, is completed where the operator
is. -/
theorem ShowsRun.storedCompleted {v : OperatorWorld} {x : RunWorld}
    (hshows : ShowsRun lib run v x) (hx : RunCompleted lib run x) :
    StoredCompleted lib run v.store where
  jobs := by
    intro job hjob
    obtain ⟨⟨kjob, hkjob, hreleased, hrecorded⟩, found, hfound, hcounts⟩ := hx.jobs job hjob
    cases hfound.symm.trans hkjob
    exact ⟨kjob, (hshows.kjobOf hjob).symm.trans hkjob, hreleased, hrecorded, hcounts⟩
  status := by
    obtain ⟨stored, hstored, hstatus⟩ := Option.map_eq_some_iff.mp hshows.status
    rw [hstored, Option.map_some, hstatus, hx.status]
  ends := by
    have hends := hx.ends
    rw [hshows.cluster, listRunKJobs_runPart] at hends
    exact hends

/-- If reconciles of the run get through again and again, it is completed in the
end. -/
theorem EndlessOperator.completes (h : EndlessOperator lib run w a) (hrun : WellFormed run)
    (hacyclic : Acyclic (RunsBefore run)) (hjobs : run.spec.jobs ≠ [])
    (htriggers : ∀ job ∈ run.spec.jobs, job.trigger ≠ formatBool true)
    (hreconciled : ∃ᶠ i in atTop, GetsThrough lib run (w i) (a i)) :
    ∀ᶠ i in atTop, StoredCompleted lib run (w i).store := by
  obtain ⟨x, piece, hinit, hx⟩ := h.followed hrun
  obtain ⟨s, b, k, htrace, hstate, haction⟩ :=
    Machine.exists_trace hinit (fun i => (hx i).2.2.exec) fun i => (hx i).2.2.ne_nil
  have hfair : FairRun lib run s b :=
    { trace := htrace
      reconciled := by
        rw [frequently_atTop]
        intro n
        obtain ⟨i, hi, hthrough⟩ := frequently_atTop.mp hreconciled n
        obtain ⟨now, hmem⟩ := (hx i).2.2.writes hthrough
        obtain ⟨m, hm, hwrite⟩ := haction i _ hmem
        have hle : n ≤ m := Nat.le_trans (Nat.le_trans hi (hstate i).1) hm
        exact ⟨m, hle, now, hwrite⟩
      succeeds := by
        intro job hjob hreleased
        obtain ⟨n, hn⟩ := eventually_atTop.mp hreleased
        have hstored : ∀ᶠ i in atTop,
            ∃ kjob ∈ (w i).store.cluster.getKJob run.ns (kjobNameOf lib run job),
              kjob.suspend = false := by
          refine eventually_atTop.mpr ⟨n, fun i hi => ?_⟩
          have hhere := hn (k i) (Nat.le_trans hi (hstate i).1)
          rw [(hstate i).2, (hx i).2.1.kjobOf hjob] at hhere
          exact hhere
        obtain ⟨i, hsucceeded⟩ := h.succeeds job hjob hstored
        refine ⟨k i, ?_⟩
        rw [(hstate i).2]
        exact ((hx i).2.1.hasSucceeded_iff hjob).mpr hsucceeded }
  obtain ⟨n, hn⟩ := eventually_atTop.mp (hfair.completes hrun hacyclic hjobs htriggers)
  refine eventually_atTop.mpr ⟨n, fun i hi => ?_⟩
  have hcompleted := hn (k i) (Nat.le_trans hi (hstate i).1)
  rw [(hstate i).2] at hcompleted
  exact (hx i).2.1.storedCompleted hcompleted

/-- Every stored run comes to its end, whatever other runs and pipelines there are,
as long as its reconciles get through again and again and its released jobs
succeed. -/
theorem operator_completes (hrun : WellFormed run) (hacyclic : Acyclic (RunsBefore run))
    (hjobs : run.spec.jobs ≠ [])
    (htriggers : ∀ job ∈ run.spec.jobs, job.trigger ≠ formatBool true)
    (h : EndlessOperator lib run w a)
    (hreconciled : ∃ᶠ i in atTop, GetsThrough lib run (w i) (a i)) :
    ∀ᶠ i in atTop, StoredCompleted lib run (w i).store :=
  h.completes hrun hacyclic hjobs htriggers hreconciled

/-! ## Pipelines listed in order -/

/-- A reconcile of a run listed in order gets through once its volumes are there. -/
theorem getsThrough_of_takesVolumes (hrun : WellFormed run) (horder : ListedInOrder run)
    {kjobList : List KJob} (hlist : constructKjobListFromRun lib run = .ok kjobList)
    {v : OperatorWorld} {b : OperatorAction} (hv : StoredApart run v.store) {x : RunWorld}
    (hx : Underway lib run x) (hshows : ShowsRun lib run v x) (htakes : TakesVolumes lib run v b) :
    GetsThrough lib run v b := by
  obtain ⟨now, endNow, rfl, stored, pipeline, hstored, hpipeline, hvolumes⟩ := htakes
  refine ⟨now, endNow, rfl, ⟨stored, pipeline, hstored, hpipeline⟩, 0, ?_⟩
  rw [RunReconciler.reconcile_ordered hrun horder hlist hv hx hshows hstored hpipeline, hvolumes]
  rfl

theorem EndlessOperator.getsThrough (h : EndlessOperator lib run w a) (hrun : WellFormed run)
    (horder : ListedInOrder run) {kjobList : List KJob}
    (hlist : constructKjobListFromRun lib run = .ok kjobList) {i : Nat}
    (htakes : TakesVolumes lib run (w i) (a i)) : GetsThrough lib run (w i) (a i) := by
  obtain ⟨x, piece, -, hx⟩ := h.followed hrun
  exact getsThrough_of_takesVolumes hrun horder hlist (h.storedApart i) (hx i).1 (hx i).2.1 htakes

/-- The run of a pipeline whose tasks are listed in order comes to its end if its
reconciles are called again and again with its volumes there, and its released
jobs succeed. -/
theorem ordered_pipeline_completes (l : Launched lib) (horder : TasksInOrder l.pipeline)
    (htasks : l.pipeline.spec.tasks ≠ [])
    (htriggers : ∀ task ∈ l.pipeline.spec.tasks, task.trigger = false)
    (h : EndlessOperator lib l.run w a)
    (hcalled : ∃ᶠ i in atTop, TakesVolumes lib l.run (w i) (a i)) :
    ∀ᶠ i in atTop, StoredCompleted lib l.run (w i).store := by
  have hrun := l.wellFormed_of_order horder
  have hlisted := l.listedInOrder horder
  have hjobs : l.run.spec.jobs ≠ [] := by
    rw [l.jobs_eq]
    exact fun hnone => htasks (List.map_eq_nil_iff.mp hnone)
  have hjobTriggers : ∀ job ∈ l.run.spec.jobs, job.trigger ≠ formatBool true := by
    intro job hjob
    rw [l.jobs_eq] at hjob
    obtain ⟨task, htask, rfl⟩ := List.mem_map.mp hjob
    show formatBool task.trigger ≠ formatBool true
    rw [htriggers task htask]
    decide
  exact h.completes hrun (hlisted.acyclic hrun) hjobs hjobTriggers <|
    hcalled.mono fun _ htakes => h.getsThrough hrun hlisted l.listed htakes

end Progress

/-! ## Runs without volumes -/

section NoVolumes

variable {lib : Externals} {run : Run} {w : OperatorWorld}

/-- A stored pipeline is stored for good. -/
theorem getPipeline_extends {s t : ObjectStore} (h : Extends s t) {ns name : String}
    {stored : Pipeline} (hget : getPipeline s.pipelines ns name = some stored) :
    ∃ kept, getPipeline t.pipelines ns name = some kept := by
  obtain ⟨i, hi⟩ := List.getElem?_of_mem (List.mem_of_find?_eq_some hget)
  obtain ⟨kept, hkept, hsame⟩ := h.pipelines i stored hi
  obtain ⟨hns, hname⟩ := getPipeline_key hget
  refine ⟨kept, h.keyed.pipelines.find?_eq (List.mem_of_getElem? hkept) ?_ ?_⟩
  · exact decide_eq_true ⟨hsame.ns.trans hns, hsame.name.trans hname⟩
  · intro other _ hother
    obtain ⟨hotherNs, hotherName⟩ := of_decide_eq_true hother
    exact Prod.ext (hotherNs.trans (hsame.ns.trans hns).symm)
      (hotherName.trans (hsame.name.trans hname).symm)

/-- A run without volumes needs nothing but its pipeline. -/
theorem takesVolumes_of_none (hw : StoredApart run w.store) (hnone : run.spec.volumes = [])
    {pipeline : Pipeline}
    (hpipeline : getPipeline w.store.pipelines run.ns run.labels.pipelineName = some pipeline)
    (now endNow : Time) :
    TakesVolumes lib run w (.reconcileRun run.ns run.name now endNow) := by
  obtain ⟨stored, hstored, hintent⟩ := hw.stored
  have hlabel : stored.labels.pipelineName = run.labels.pipelineName :=
    congrArg (fun run => run.labels.pipelineName) hintent
  have hlisting : listing stored = [] := by
    rw [← listing_runIntent, hintent, listing_runIntent, listing, hnone, List.map_nil]
  have hvolumes : stored.spec.volumes = [] := List.map_eq_nil_iff.mp hlisting
  refine ⟨now, endNow, rfl, stored, pipeline, hstored, hlabel ▸ hpipeline, ?_⟩
  have hvisits : (startOf stored w.store).run.spec.volumes.zipIdx = [] := by
    show stored.spec.volumes.zipIdx = []
    rw [hvolumes, List.zipIdx_nil]
  rw [ensureVolumeList, hvisits]
  rfl

end NoVolumes

/-! ## Two runs that come to their end -/

instance (before after : KJob) : Decidable (ClusterChange before after) :=
  decidable_of_iff
    (after = { before with
        status := after.status
        deletionTimestamp := after.deletionTimestamp } ∧
      (before.status.Succeeded → after.status.Succeeded) ∧
      (before.deletionTimestamp.isSome → after.deletionTimestamp.isSome))
    ⟨fun h => ⟨h.1, h.2.1, h.2.2⟩, fun h => ⟨h.rest, h.succeeded, h.marked⟩⟩

def releaseReconcile (name : String) : OperatorAction :=
  .reconcileRun "team" (releaseRunOf name).name 0 0

/-- The runs of both pipelines are reconciled. -/
def releaseReconciles : List OperatorAction := [releaseReconcile "stable", releaseReconcile "beta"]

/-- Everything that is released succeeds. -/
def releasedSucceed (s : ObjectStore) : OperatorAction :=
  .environment "team" { s with cluster.kjobs := s.cluster.kjobs.map fun kjob =>
    if kjob.suspend then kjob else { kjob with status := { succeeded := 1 } } }

/-- Both runs have created their kubernetes jobs, and visited them. -/
def releasesVisited : OperatorWorld :=
  releasesCreated.run Externals.plain (releaseReconciles ++ releaseReconciles)

/-- The first tasks have succeeded, and the second ones are released. -/
def releasesReleased : OperatorWorld :=
  releasesVisited.run Externals.plain (releasedSucceed releasesVisited.store :: releaseReconciles)

/-- The reconciles of both runs take turns for ever; in between the cluster reports
twice. -/
def releaseLasso : Lasso OperatorAction where
  stem :=
    releaseReconciles ++ releaseReconciles ++
      releasedSucceed releasesVisited.store :: releaseReconciles ++
      releasedSucceed releasesReleased.store :: releaseReconciles
  first := releaseReconcile "stable"
  rest := [releaseReconcile "beta"]

def releaseTrace : Nat → OperatorWorld :=
  (operatorMachine Externals.plain (StartsRun Externals.plain stable.run)).follow
    releasesCreated releaseLasso.action

theorem releaseTrace_step (i : Nat) :
    (releaseTrace i).step Externals.plain (releaseLasso.action i) = releaseTrace (i + 1) :=
  rfl

/-- All other actions are reconciles. -/
theorem releaseLasso_action {i : Nat} (hi : ¬ (i = 4 ∨ i = 7)) :
    ∃ name, releaseLasso.action i = releaseReconcile name := by
  have hmem : releaseLasso.action i ∈ releaseReconciles := by
    by_cases hstem : i < 10
    · have hall : ∀ i < 10, ¬ (i = 4 ∨ i = 7) → releaseLasso.action i ∈ releaseReconciles := by
        decide +kernel
      exact hall i hstem hi
    · exact releaseLasso.action_mem (Nat.not_lt.mp hstem)
  rcases List.mem_pair.mp hmem with haction | haction
  · exact ⟨"stable", haction⟩
  · exact ⟨"beta", haction⟩

/-- The cluster leaves the run alone when it reports. -/
theorem releaseTrace_reported {i : Nat} (hi : i = 4 ∨ i = 7) :
    LeavesRun Externals.plain stable.run (releaseTrace i) (releaseLasso.action i) ∧
      (getPipeline (releaseTrace (i + 1)).store.pipelines "team" "stable").isSome := by
  have hall : (∀ other ∈ (releaseTrace (i + 1)).store.runs, runKey other ≠ runKey stable.run →
        Apart stable.run other) ∧
      KeyedStore (releaseTrace (i + 1)).store ∧
      (∀ stored ∈ getRun (releaseTrace i).store.runs stable.run.ns stable.run.name,
        getRun (releaseTrace (i + 1)).store.runs stable.run.ns stable.run.name = some stored) ∧
      List.Forall₂ ClusterChange (runPart stable.run (releaseTrace i).store.cluster).kjobs
        (runPart stable.run (releaseTrace (i + 1)).store.cluster).kjobs ∧
      Unmixed Externals.plain stable.run (releaseTrace (i + 1)).store.cluster ∧
      (getPipeline (releaseTrace (i + 1)).store.pipelines "team" "stable").isSome := by
    rcases hi with rfl | rfl
    · decide +kernel
    · decide +kernel
  obtain ⟨hapart, hkeyed, hkept, hkjobs, hunmixed, hpipeline⟩ := hall
  refine ⟨⟨hapart, fun _ => ⟨hkeyed, ?_, hkjobs, hunmixed⟩⟩, hpipeline⟩
  intro stored hstored
  exact ⟨stored, hkept stored hstored, rfl, rfl⟩

/-- The run is stored all the time, with its pipeline. -/
theorem releaseTrace_stored (i : Nat) : StoredApart stable.run (releaseTrace i).store ∧
    (getPipeline (releaseTrace i).store.pipelines "team" "stable").isSome := by
  induction i with
  | zero => exact ⟨releasesCreated_starts.stored, by decide +kernel⟩
  | succ i ih =>
      obtain ⟨hw, hpipeline⟩ := ih
      by_cases hi : i = 4 ∨ i = 7
      · obtain ⟨hleaves, hkept⟩ := releaseTrace_reported hi
        exact ⟨hw.step hleaves, hkept⟩
      · obtain ⟨name, haction⟩ := releaseLasso_action hi
        rw [← releaseTrace_step, haction]
        have hextends : Extends (releaseTrace i).store
            ((releaseTrace i).step Externals.plain (releaseReconcile name)).store :=
          step_extends Externals.plain (.refl hw.keyed) trivial
        obtain ⟨stored, hstored⟩ := Option.isSome_iff_exists.mp hpipeline
        refine ⟨hw.step (hw.leavesRun _ _ _ _), ?_⟩
        exact Option.isSome_iff_exists.mpr (getPipeline_extends hextends hstored)

theorem releaseTrace_endless :
    EndlessOperator Externals.plain stable.run releaseTrace releaseLasso.action where
  trace :=
    { init := releasesCreated_starts
      step := fun i => congrArg some (releaseTrace_step i) }
  leaves := by
    intro i
    by_cases hi : i = 4 ∨ i = 7
    · exact (releaseTrace_reported hi).1
    · obtain ⟨name, haction⟩ := releaseLasso_action hi
      rw [haction]
      exact (releaseTrace_stored i).1.leavesRun _ _ _ _
  succeeds := by
    intro job hjob _
    have hall : ∀ job ∈ stable.run.spec.jobs,
        HasSucceeded Externals.plain stable.run (releaseTrace 8).store.cluster job := by
      decide +kernel
    exact ⟨8, hall job hjob⟩

/-- Every other reconcile of the loop is one of the run. -/
theorem releaseTrace_takesVolumes : ∃ᶠ i in atTop,
    TakesVolumes Externals.plain stable.run (releaseTrace i) (releaseLasso.action i) := by
  have hns : stable.run.ns = "team" := by decide +kernel
  have hlabel : stable.run.labels.pipelineName = "stable" := by decide +kernel
  refine (releaseLasso.again (b := releaseReconcile "stable") (by decide +kernel)).mono
    fun i hi => ?_
  obtain ⟨hw, hpipeline⟩ := releaseTrace_stored i
  obtain ⟨pipeline, hpipeline⟩ := Option.isSome_iff_exists.mp hpipeline
  have hown : getPipeline (releaseTrace i).store.pipelines stable.run.ns
      stable.run.labels.pipelineName = some pipeline := by
    rw [hns, hlabel]
    exact hpipeline
  rw [hi, releaseReconcile, ← hns]
  exact takesVolumes_of_none hw (by decide +kernel) hown 0 0

/-- At first both runs hold back their second tasks. -/
theorem operator_completes_stable :
    (releaseTrace 4).store.cluster.kjobs.map KJob.suspend = [false, true, false, true] ∧
      ∀ᶠ i in atTop, StoredCompleted Externals.plain stable.run (releaseTrace i).store := by
  have hrun := stable.wellFormed_of_order (releaseOf_inOrder "stable")
  have hlisted := stable.listedInOrder (releaseOf_inOrder "stable")
  refine ⟨by decide +kernel, ?_⟩
  refine operator_completes hrun (hlisted.acyclic hrun) (by decide +kernel) (by decide +kernel)
    releaseTrace_endless (releaseTrace_takesVolumes.mono fun i htakes => ?_)
  exact releaseTrace_endless.getsThrough hrun hlisted stable.listed htakes

theorem ordered_pipeline_completes_stable :
    (releaseTrace 4).store.cluster.kjobs.map KJob.suspend = [false, true, false, true] ∧
      ∀ᶠ i in atTop, StoredCompleted Externals.plain stable.run (releaseTrace i).store :=
  ⟨by decide +kernel,
    ordered_pipeline_completes stable (releaseOf_inOrder "stable") (by decide) (by decide)
      releaseTrace_endless releaseTrace_takesVolumes⟩

end PipelineOperator.Controller
