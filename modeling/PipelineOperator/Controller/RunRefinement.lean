import PipelineOperator.Controller.Confined
import PipelineOperator.Controller.InOrder
import PipelineOperator.Controller.References
import PipelineOperator.Controller.Refinement

/-!
# The operator runs the machine of a run

The machine of a run has the kubernetes jobs of one run, and its passes visit
them job by job.  The operator has a store in which other runs have theirs, and
takes a reconcile as a whole.  As long as the jobs of other runs have other
names, no run sees the kubernetes jobs of another one: whatever the operator
does is, for each run that users leave stored, a run of the machine of this run,
on the kubernetes jobs that carry its label.

## Main results

* `ensureKJob_own`: the visit of a job of the run, on its own kubernetes jobs.
* `Separate.other`: the visit of a job of another run.
* `run_simulation`: the machine of a run follows the operator.
* `operator_runs`: in every run of the operator, what carries the label of a run
  has been created for one of its jobs, once.
* `ordered_pipeline_reconciles`: the run of a pipeline whose tasks are listed in
  order is never stuck.
-/

namespace PipelineOperator.Controller

open PipelineOperator.Lib
open PipelineOperator.Api

/-! ## The part of a run -/

/-- The run that a kubernetes job is labelled with. -/
def kjobRun (kjob : KJob) : String × String := (kjob.ns, kjob.labels.runName)

/-- The cluster without the kubernetes jobs of other runs. -/
def runPart (run : Run) (c : Cluster) : Cluster :=
  { c with kjobs := part kjobRun (runKey run) c.kjobs }

/-- What does not carry the label of the run has neither the labels nor the
names of its jobs. -/
def Unmixed (lib : Externals) (run : Run) (c : Cluster) : Prop :=
  ∀ kjob ∈ c.kjobs, kjob.ns = run.ns → kjob.labels.runName ≠ run.name →
    ∀ job ∈ run.spec.jobs, kjob.labels.runJobName ≠ job.name ∧ kjob.name ≠ kjobNameOf lib run job

instance (lib : Externals) (run : Run) (c : Cluster) : Decidable (Unmixed lib run c) :=
  inferInstanceAs (Decidable (∀ kjob ∈ c.kjobs, kjob.ns = run.ns →
    kjob.labels.runName ≠ run.name → ∀ job ∈ run.spec.jobs,
      kjob.labels.runJobName ≠ job.name ∧ kjob.name ≠ kjobNameOf lib run job))

/-- Another run has its jobs in its namespace, and if that is the one of the run,
they have other names. -/
structure Apart (run other : Run) : Prop where
  jobs : LocalJobs other
  names : other.ns = run.ns → ∀ job ∈ other.spec.jobs, ∀ own ∈ run.spec.jobs, job.name ≠ own.name

instance (run other : Run) : Decidable (Apart run other) :=
  decidable_of_iff (LocalJobs other ∧
      (other.ns = run.ns → ∀ job ∈ other.spec.jobs, ∀ own ∈ run.spec.jobs, job.name ≠ own.name))
    ⟨fun h => ⟨h.1, h.2⟩, fun h => ⟨h.jobs, h.names⟩⟩

section Part

variable {lib : Externals} {run : Run} {c : Cluster} {job : Job}

theorem kjobRun_eq {kjob : KJob} (hns : kjob.ns = run.ns)
    (hlabel : kjob.labels.runName = run.name) : kjobRun kjob = runKey run := Prod.ext hns hlabel

/-- The kubernetes job of a job of the run is found in the part of the run. -/
theorem getKJob_runPart (hc : Unmixed lib run c) (hjob : job ∈ run.spec.jobs) :
    (runPart run c).getKJob run.ns (kjobNameOf lib run job) =
      c.getKJob run.ns (kjobNameOf lib run job) := by
  apply find?_part
  intro kjob hkjob htest
  obtain ⟨hns, hname⟩ := of_decide_eq_true htest
  refine kjobRun_eq hns ?_
  by_contra hlabel
  exact (hc kjob hkjob hns hlabel job hjob).2 hname

/-- So is what carries the label of the job. -/
theorem listKJobs_runPart (hc : Unmixed lib run c) (hjob : job ∈ run.spec.jobs) :
    (runPart run c).listKJobs run.ns job.name = c.listKJobs run.ns job.name := by
  apply filter_part
  intro kjob hkjob htest
  obtain ⟨hns, hname⟩ := of_decide_eq_true htest
  refine kjobRun_eq hns ?_
  by_contra hlabel
  exact (hc kjob hkjob hns hlabel job hjob).1 hname

theorem listRunKJobs_runPart (run : Run) (c : Cluster) :
    (runPart run c).listRunKJobs run.ns run.name = c.listRunKJobs run.ns run.name := by
  apply filter_part
  intro kjob _ htest
  obtain ⟨hns, hlabel⟩ := of_decide_eq_true htest
  exact kjobRun_eq hns hlabel

/-- The decision to suspend reads nothing but the lists of the predecessors. -/
theorem isSuspending_congr {c c' : Cluster} {ns currentTrigger : String} {runBefore : List String}
    (hlists : ∀ b ∈ runBefore, c.listKJobs ns b = c'.listKJobs ns b) :
    isSuspending c ns currentTrigger runBefore = isSuspending c' ns currentTrigger runBefore := by
  induction runBefore with
  | nil => rfl
  | cons before runBefore ih =>
      rw [isSuspending, isSuspending, hlists before List.mem_cons_self,
        ih fun b hb => hlists b (List.mem_cons_of_mem before hb)]

/-! ## Writes -/

theorem runPart_createKJob {kjob : KJob} (hown : kjobRun kjob = runKey run) (c : Cluster) :
    runPart run (c.createKJob kjob) = (runPart run c).createKJob kjob := by
  simp only [runPart, Cluster.createKJob, part_append, part_singleton_self hown]

theorem runPart_createKJob_other {kjob : KJob} (hother : kjobRun kjob ≠ runKey run) (c : Cluster) :
    runPart run (c.createKJob kjob) = runPart run c := by
  simp only [runPart, Cluster.createKJob, part_append, part_singleton_other hother,
    List.append_nil]

theorem kjobRun_congr {old updated : KJob} (hkey : kjobKey updated = kjobKey old)
    (hlabels : updated.labels = old.labels) : kjobRun updated = kjobRun old := by
  rw [kjobRun, kjobRun, hlabels]
  exact congrArg (fun key => (key.1, old.labels.runName)) hkey

/-- A kubernetes job that is replaced stays with its run. -/
theorem runPart_updateKJob (hkeys : Keyed kjobKey c.kjobs) {old updated : KJob}
    (hold : old ∈ c.kjobs) (hkey : kjobKey updated = kjobKey old)
    (hlabels : updated.labels = old.labels) :
    runPart run (c.updateKJob updated) = (runPart run c).updateKJob updated := by
  have hpart : part kjobRun (runKey run) (c.updateKJob updated).kjobs =
      ((runPart run c).updateKJob updated).kjobs := by
    refine part_replace c.kjobs (fun _ => updated) fun k hk hhit => ?_
    rw [hkeys.eq_of_key hk hold (hhit.trans hkey)]
    exact kjobRun_congr hkey hlabels
  rw [runPart, hpart]
  rfl

theorem runPart_updateKJob_other (hkeys : Keyed kjobKey c.kjobs) {old updated : KJob}
    (hold : old ∈ c.kjobs) (hkey : kjobKey updated = kjobKey old)
    (hlabels : updated.labels = old.labels) (hother : kjobRun old ≠ runKey run) :
    runPart run (c.updateKJob updated) = runPart run c := by
  have hpart : part kjobRun (runKey run) (c.updateKJob updated).kjobs =
      part kjobRun (runKey run) c.kjobs := by
    refine part_replace_other c.kjobs (fun _ => updated) fun k hk hhit => ?_
    rw [hkeys.eq_of_key hk hold (hhit.trans hkey)]
    exact ⟨kjobRun_congr hkey hlabels, hother⟩
  rw [runPart, hpart]
  rfl

theorem Unmixed.createKJob (hc : Unmixed lib run c) {kjob : KJob}
    (hkjob : kjob.ns = run.ns → kjob.labels.runName ≠ run.name → ∀ own ∈ run.spec.jobs,
      kjob.labels.runJobName ≠ own.name ∧ kjob.name ≠ kjobNameOf lib run own) :
    Unmixed lib run (c.createKJob kjob) := by
  intro k hk
  rcases List.mem_append.mp hk with hold | hnew
  · exact hc k hold
  · rw [List.mem_singleton.mp hnew]
    exact hkjob

theorem Unmixed.updateKJob (hc : Unmixed lib run c) {old updated : KJob} (hold : old ∈ c.kjobs)
    (hkey : kjobKey updated = kjobKey old) (hlabels : updated.labels = old.labels) :
    Unmixed lib run (c.updateKJob updated) := by
  intro k hk
  obtain ⟨before, hbefore, rfl⟩ := List.mem_map.mp hk
  obtain ⟨hns, hname⟩ := Prod.mk.inj hkey
  split
  · rw [hlabels, hns, hname]
    exact hc old hold
  · exact hc before hbefore

/-! ## Visits of the jobs of the run -/

/-- The kubernetes jobs are stored under different keys, those of the run apart
from the others. -/
structure Separate (lib : Externals) (run : Run) (c : Cluster) : Prop where
  keys : Keyed kjobKey c.kjobs
  unmixed : Unmixed lib run c

theorem Separate.createKJob (hc : Separate lib run c) {kjob : KJob}
    (hmissing : c.getKJob kjob.ns kjob.name = none)
    (hkjob : kjob.ns = run.ns → kjob.labels.runName ≠ run.name → ∀ own ∈ run.spec.jobs,
      kjob.labels.runJobName ≠ own.name ∧ kjob.name ≠ kjobNameOf lib run own) :
    Separate lib run (c.createKJob kjob) :=
  ⟨keyed_createKJob hc.keys hmissing, hc.unmixed.createKJob hkjob⟩

theorem Separate.updateKJob (hc : Separate lib run c) {old updated : KJob} (hold : old ∈ c.kjobs)
    (hkey : kjobKey updated = kjobKey old) (hlabels : updated.labels = old.labels) :
    Separate lib run (c.updateKJob updated) :=
  ⟨keyed_updateKJob hc.keys updated, hc.unmixed.updateKJob hold hkey hlabels⟩

variable {x : RunWorld} {desiredkjob : KJob}

/-- The visit does on the kubernetes jobs of the run what it does on all of
them. -/
theorem ensureKJob_own (hrun : WellFormed run) (hx : Underway lib run x)
    (hcluster : x.cluster = runPart run c) (hc : Separate lib run c) (hjob : job ∈ run.spec.jobs)
    (hdesired : Desired lib run job desiredkjob) :
    ensureKJob run x.cluster desiredkjob = (ensureKJob run c desiredkjob).map (runPart run) := by
  have hns : desiredkjob.ns = run.ns := hdesired.ns.trans (hrun.ns_eq job hjob)
  have hget : x.cluster.getKJob desiredkjob.ns desiredkjob.name =
      c.getKJob desiredkjob.ns desiredkjob.name := by
    rw [hcluster, hns, hdesired.name]
    exact getKJob_runPart hc.unmixed hjob
  have hpod : firstPod x.cluster = firstPod c := by
    rw [hcluster]
    rfl
  unfold ensureKJob
  rw [hget]
  cases hfound : c.getKJob desiredkjob.ns desiredkjob.name with
  | none =>
      simp only [setControllerReference, bind, Except.bind, pure, Except.pure]
      cases validateOwner run.ns desiredkjob.ns with
      | error e => rfl
      | ok _ =>
          have hown : kjobRun { desiredkjob with owner := some ⟨.run, run.name⟩ } = runKey run :=
            kjobRun_eq hns hdesired.runName
          simp only [Except.map, hcluster, runPart_createKJob hown]
  | some kjob =>
      obtain ⟨hmem, -, -⟩ := Cluster.mem_of_getKJob hfound
      obtain ⟨-, -, hself⟩ := hx.found hrun hjob hdesired (hget.trans hfound)
      have hlists : ∀ b ∈ job.runBefore,
          x.cluster.listKJobs run.ns b = c.listKJobs run.ns b := by
        intro b hb
        obtain ⟨before, hbefore, rfl⟩ := hrun.before_mem job hjob b hb
        rw [hcluster]
        exact listKJobs_runPart hc.unmixed hbefore
      simp only [hself, hrun.ns_eq job hjob, hpod, isSuspending_congr hlists, bind, Except.bind,
        pure, Except.pure]
      cases isSuspending c run.ns kjob.annotations.trigger job.runBefore with
      | error e => rfl
      | ok suspending =>
          simp only [Except.map, hcluster, runPart_updateKJob hc.keys hmem
            (kjobKey_updatedKJob kjob _ _ suspending) (labels_updatedKJob kjob _ _ suspending)]

/-- It leaves the kubernetes jobs of the run apart. -/
theorem Separate.own (hc : Separate lib run c) (hdesired : Desired lib run job desiredkjob)
    {next : Cluster} (hstep : ensureKJob run c desiredkjob = .ok next) : Separate lib run next := by
  cases hget : c.getKJob desiredkjob.ns desiredkjob.name with
  | none =>
      rw [ensureKJob_of_missing hget hstep]
      exact hc.createKJob hget fun _ hlabel => absurd hdesired.runName hlabel
  | some kjob =>
      obtain ⟨suspending, -, rfl⟩ := ensureKJob_of_exists hget hstep
      exact hc.updateKJob (Cluster.mem_of_getKJob hget).1 (kjobKey_updatedKJob ..)
        (labels_updatedKJob ..)

/-! ## Visits of the jobs of other runs -/

/-- The visit of a job of another run does nothing on the kubernetes jobs of the
run, and leaves them apart. -/
theorem Separate.other (hc : Separate lib run c) (hx : Underway lib run x)
    (hcluster : x.cluster = runPart run c) {other : Run} (hother : runKey other ≠ runKey run)
    (hapart : Apart run other) (hjob : job ∈ other.spec.jobs)
    (hdesired : Desired lib other job desiredkjob) {next : Cluster}
    (hstep : ensureKJob other c desiredkjob = .ok next) :
    Separate lib run next ∧ runPart run next = runPart run c := by
  have hns : desiredkjob.ns = other.ns := hdesired.ns.trans (hapart.jobs job hjob)
  have hnames : other.ns = run.ns → ∀ own ∈ run.spec.jobs,
      job.name ≠ own.name ∧ kjobNameOf lib other job ≠ kjobNameOf lib run own := by
    intro hsame own hown
    have hne := hapart.names hsame job hjob own hown
    exact ⟨hne, fun hname => hne (getShortHashPostFix_inj hname).1⟩
  cases hget : c.getKJob desiredkjob.ns desiredkjob.name with
  | none =>
      have hdomain : kjobRun { desiredkjob with owner := some ⟨.run, other.name⟩ } ≠
          runKey run := by
        intro hrun
        rw [kjobRun, hdesired.runName, hns] at hrun
        exact hother hrun
      rw [ensureKJob_of_missing hget hstep, runPart_createKJob_other hdomain]
      refine ⟨hc.createKJob hget ?_, rfl⟩
      intro hsame _ own hown
      rw [hdesired.runJobName, hdesired.name]
      exact hnames (hns.symm.trans hsame) own hown
  | some kjob =>
      obtain ⟨suspending, -, rfl⟩ := ensureKJob_of_exists hget hstep
      obtain ⟨hmem, hkjobNs, hkjobName⟩ := Cluster.mem_of_getKJob hget
      have hdomain : kjobRun kjob ≠ runKey run := by
        intro hrun
        -- Everything of the run has been created for one of its jobs.
        have hpart : kjob ∈ x.cluster.kjobs := by
          rw [hcluster]
          exact mem_part.mpr ⟨hmem, hrun⟩
        obtain ⟨hkjobRun, hlabel⟩ := Prod.mk.inj hrun
        obtain ⟨own, hown, hcreated⟩ := hx.created kjob hpart hkjobRun (Or.inl hlabel)
        have hsame : other.ns = run.ns := hns.symm.trans (hkjobNs.symm.trans hkjobRun)
        refine (hnames hsame own hown).2 ?_
        rw [← hcreated.name, hkjobName, hdesired.name]
      exact ⟨hc.updateKJob hmem (kjobKey_updatedKJob ..) (labels_updatedKJob ..),
        runPart_updateKJob_other hc.keys hmem (kjobKey_updatedKJob ..) (labels_updatedKJob ..)
          hdomain⟩

/-! ## Passes -/

/-- Where the reconcile of the run stands after its pass. -/
def phaseAfter : Except String Unit → RunPhase
  | .ok _ => .updating
  | .error _ => .idle

/-- The machine follows a pass of the run job by job. -/
theorem ensureKJobs_own (hrun : WellFormed run) {todo : List KJob} (hx : Underway lib run x)
    (hphase : x.phase = .ensuring todo) (hcluster : x.cluster = runPart run c)
    (hc : Separate lib run c) :
    Separate lib run (ensureKJobs run todo c).1 ∧
      ensureKJobs run todo x.cluster =
        (runPart run (ensureKJobs run todo c).1, (ensureKJobs run todo c).2) ∧
      (runMachine lib run).Steps (fun _ _ => True) x
        { x with
          cluster := runPart run (ensureKJobs run todo c).1
          phase := phaseAfter (ensureKJobs run todo c).2 } := by
  induction todo generalizing x c with
  | nil =>
      refine ⟨hc, by rw [hcluster]; rfl, .single (b := .process) trivial ?_⟩
      simp only [runMachine, RunWorld.step, hphase, ensureKJobs, phaseAfter, ← hcluster]
  | cons desiredkjob todo ih =>
      obtain ⟨job, hjob, hdesired⟩ := hx.todo _ hphase desiredkjob List.mem_cons_self
      have hvisit := ensureKJob_own hrun hx hcluster hc hjob hdesired
      rw [ensureKJobs, ensureKJobs]
      cases hstep : ensureKJob run c desiredkjob with
      | error e =>
          rw [hstep] at hvisit
          refine ⟨hc, by rw [hvisit, hcluster]; rfl, .single (b := .process) trivial ?_⟩
          simp only [runMachine, RunWorld.step, hphase, hvisit, Except.map, phaseAfter, ← hcluster]
      | ok next =>
          rw [hstep] at hvisit
          have hfirst : x.step lib run .process =
              some { x with cluster := runPart run next, phase := .ensuring todo } := by
            simp only [RunWorld.step, hphase, hvisit, Except.map]
          obtain ⟨hnext, hsame, hrest⟩ := ih (hx.step hrun hfirst) rfl rfl (hc.own hdesired hstep)
          refine ⟨hnext, ?_, (Machine.Steps.single (b := .process) trivial hfirst).trans hrest⟩
          rw [hvisit]
          exact hsame

/-- A whole pass of the run, however it ends. -/
theorem ensureKJobList_own (hrun : WellFormed run) (hx : Underway lib run x)
    (hidle : x.phase = .idle) (hcluster : x.cluster = runPart run c) (hc : Separate lib run c) :
    Separate lib run (ensureKJobList lib run c).1 ∧
      ensureKJobList lib run x.cluster =
        (runPart run (ensureKJobList lib run c).1, (ensureKJobList lib run c).2) ∧
      (runMachine lib run).Steps (fun _ _ => True) x
        { x with
          cluster := runPart run (ensureKJobList lib run c).1
          phase := phaseAfter (ensureKJobList lib run c).2 } := by
  unfold ensureKJobList
  cases hlist : constructKjobListFromRun lib run with
  | error e =>
      refine ⟨hc, by rw [hcluster], ?_⟩
      simp only [phaseAfter, ← hcluster, ← hidle]
      exact .refl x
  | ok kjobList =>
      have hbegin : x.step lib run .begin = some { x with phase := .ensuring kjobList } := by
        simp only [RunWorld.step, hidle, hlist]
      obtain ⟨hnext, hsame, hsteps⟩ :=
        ensureKJobs_own hrun (hx.step hrun hbegin) rfl hcluster hc
      exact ⟨hnext, hsame, (Machine.Steps.single (b := .begin) trivial hbegin).trans hsteps⟩

/-- A whole pass of another run. -/
theorem Separate.otherPass (hc : Separate lib run c) (hx : Underway lib run x)
    (hcluster : x.cluster = runPart run c) {other : Run} (hother : runKey other ≠ runKey run)
    (hapart : Apart run other) :
    Separate lib run (ensureKJobList lib other c).1 ∧
      runPart run (ensureKJobList lib other c).1 = runPart run c := by
  unfold ensureKJobList
  cases hlist : constructKjobListFromRun lib other with
  | error e => exact ⟨hc, rfl⟩
  | ok kjobList =>
      simp only
      rw [ensureKJobs_eq_walk]
      refine walk_invariant (I := fun c' => Separate lib run c' ∧ runPart run c' = runPart run c)
        ?_ ⟨hc, rfl⟩
      rintro desiredkjob hdesired c' ⟨hc', hpart⟩
      obtain ⟨job, hjob, hdesired⟩ := desired_of_listed hlist desiredkjob hdesired
      unfold visitKJob
      split
      · exact ⟨hc', hpart⟩
      · next next hstep =>
          obtain ⟨hnext, hsame⟩ :=
            hc'.other hx (hcluster.trans hpart.symm) hother hapart hjob hdesired hstep
          exact ⟨hnext, hsame.trans hpart⟩

/-- A pass reads nothing of its run but the intent. -/
theorem ensureKJobList_runIntent (lib : Externals) (run : Run) (c : Cluster) :
    ensureKJobList lib (runIntent run) c = ensureKJobList lib run c := by
  unfold ensureKJobList
  rw [show constructKjobListFromRun lib (runIntent run) = constructKjobListFromRun lib run from rfl]
  split
  · rfl
  · rw [ensureKJobs_eq_walk, ensureKJobs_eq_walk]
    rfl

end Part

/-! ## What the machine of a run shows -/

/-- The machine shows the run as it is in the store, between two actions of the
operator. -/
structure ShowsRun (lib : Externals) (run : Run) (w : OperatorWorld) (x : RunWorld) : Prop where
  status : (getRun w.store.runs run.ns run.name).map Run.status = some x.status
  cluster : x.cluster = runPart run w.store.cluster
  idle : x.phase = .idle
  separate : Separate lib run w.store.cluster

/-- The machine can follow a change of the operator's world. -/
def FollowsRun (lib : Externals) (run : Run) (w w' : OperatorWorld) : Prop :=
  ∀ x, Underway lib run x → ShowsRun lib run w x →
    ∃ y, (runMachine lib run).Steps (fun _ _ => True) x y ∧ ShowsRun lib run w' y

/-- It can follow with a run whose last step writes the status of the run. -/
def WritesRun (lib : Externals) (run : Run) (w w' : OperatorWorld) : Prop :=
  ∀ x, Underway lib run x → ShowsRun lib run w x →
    ∃ y z now, (runMachine lib run).Steps (fun _ _ => True) x y ∧
      y.step lib run (.updateStatus now) = some z ∧ ShowsRun lib run w' z

section Follow

variable {lib : Externals} {run : Run} {w w' w'' : OperatorWorld} {x y : RunWorld}

theorem Underway.steps (hx : Underway lib run x) (hrun : WellFormed run)
    (hsteps : (runMachine lib run).Steps (fun _ _ => True) x y) : Underway lib run y := by
  induction hsteps with
  | refl => exact hx
  | step _ _ hstep ih => exact ih.step hrun hstep

theorem FollowsRun.refl (w : OperatorWorld) : FollowsRun lib run w w :=
  fun x _ hshows => ⟨x, .refl x, hshows⟩

theorem FollowsRun.trans (hrun : WellFormed run) (hfirst : FollowsRun lib run w w')
    (hsecond : FollowsRun lib run w' w'') : FollowsRun lib run w w'' := by
  intro x hx hshows
  obtain ⟨y, hsteps, hy⟩ := hfirst x hx hshows
  obtain ⟨z, hrest, hz⟩ := hsecond y (hx.steps hrun hsteps) hy
  exact ⟨z, hsteps.trans hrest, hz⟩

theorem WritesRun.follows (h : WritesRun lib run w w') : FollowsRun lib run w w' := by
  intro x hx hshows
  obtain ⟨y, z, now, hsteps, hwrite, hz⟩ := h x hx hshows
  exact ⟨z, .step (b := .updateStatus now) hsteps trivial hwrite, hz⟩

theorem FollowsRun.writes (hrun : WellFormed run) (hfirst : FollowsRun lib run w w')
    (hsecond : WritesRun lib run w' w'') : WritesRun lib run w w'' := by
  intro x hx hshows
  obtain ⟨y, hsteps, hy⟩ := hfirst x hx hshows
  obtain ⟨z, t, now, hrest, hwrite, ht⟩ := hsecond y (hx.steps hrun hsteps) hy
  exact ⟨z, t, now, hsteps.trans hrest, hwrite, ht⟩

/-- No step is needed if neither the cluster nor the status of the run changes. -/
theorem FollowsRun.still (hcluster : w'.store.cluster = w.store.cluster)
    (hstatus : (getRun w'.store.runs run.ns run.name).map Run.status =
      (getRun w.store.runs run.ns run.name).map Run.status) : FollowsRun lib run w w' := by
  intro x _ hshows
  refine ⟨x, .refl x, ⟨hstatus.trans hshows.status, ?_, hshows.idle, ?_⟩⟩
  · rw [hcluster]
    exact hshows.cluster
  · rw [hcluster]
    exact hshows.separate

/-! ## Pipelines and their goroutines -/

/-- Runs are created, and that is all. -/
structure CreatesRuns (s t : ObjectStore) : Prop where
  cluster : t.cluster = s.cluster
  runs : ∃ created, t.runs = s.runs ++ created

theorem CreatesRuns.refl (s : ObjectStore) : CreatesRuns s s :=
  ⟨rfl, [], (List.append_nil _).symm⟩

theorem PipelineReconciler.schedule_creates (pipeline : Pipeline) (now : Time) {s : ObjectStore}
    (hw : CreatesRuns s w.store) : CreatesRuns s (schedule lib pipeline now w).1.store := by
  unfold schedule
  simp only
  split
  · exact hw
  · exact ⟨hw.cluster, hw.runs⟩

/-- A reconcile of a pipeline, however it ends. -/
theorem PipelineReconciler.reconcile_creates (ns name : String) (address : Nat) (now : Time)
    (w : OperatorWorld) : CreatesRuns w.store (reconcile lib ns name address now w).1.store := by
  unfold reconcile
  split
  · exact .refl _
  · split
    · exact .refl _
    · next counted hcounted =>
        have hfirst : CreatesRuns w.store counted := by
          unfold updatePipelineStatus at hcounted
          split at hcounted
          · cases hcounted
          · cases hcounted
            exact ⟨rfl, [], (List.append_nil _).symm⟩
        split
        · exact hfirst
        · next labelled hlabelled =>
            have hsecond : CreatesRuns w.store labelled := by
              unfold ensurePipelineMetadata at hlabelled
              split at hlabelled
              · cases hlabelled
              · simp only at hlabelled
                split at hlabelled
                · cases hlabelled
                · cases hlabelled
                  exact ⟨hfirst.cluster, hfirst.runs⟩
            unfold execute
            split
            · exact hsecond
            · split
              · exact hsecond
              · next runs hruns =>
                  apply schedule_creates
                  obtain ⟨created, hcreated⟩ := hsecond.runs
                  rcases ensureRunExists_ok hruns with rfl | ⟨run, -, -, -, rfl⟩
                  · exact hsecond
                  · refine ⟨hsecond.cluster, created ++ [run], ?_⟩
                    rw [← List.append_assoc, ← hcreated]

/-- A goroutine, however it ends. -/
theorem PipelineReconciler.scheduleExecution_creates (pipeline : Pipeline) (address : Nat)
    (now : Time) (w : OperatorWorld) :
    CreatesRuns w.store (scheduleExecution lib pipeline address now w).1.store := by
  unfold scheduleExecution
  split
  · exact .refl _
  · split
    · exact .refl _
    · split
      · exact .refl _
      · exact .refl _
      · split
        · exact .refl _
        · split
          · exact .refl _
          · next runs hruns =>
              obtain ⟨run, -, -, rfl⟩ := executeSchedule_ok hruns
              exact ⟨rfl, [run], rfl⟩

/-- Other runs are none of the machine's business. -/
theorem FollowsRun.creates (hstored : (getRun w.store.runs run.ns run.name).isSome)
    (h : CreatesRuns w.store w'.store) : FollowsRun lib run w w' := by
  obtain ⟨stored, hget⟩ := Option.isSome_iff_exists.mp hstored
  obtain ⟨created, hruns⟩ := h.runs
  refine .still h.cluster ?_
  have hkept : getRun w'.store.runs run.ns run.name = some stored := by
    rw [getRun] at hget ⊢
    rw [hruns, List.find?_append, hget, Option.some_or]
  rw [hkept, hget]

/-! ## The reconcile of the run -/

theorem runKey_of_intent {other : Run} (hintent : runIntent other = runIntent run) :
    other.ns = run.ns ∧ other.name = run.name := by
  have hns : (runIntent other).ns = (runIntent run).ns := congrArg Run.ns hintent
  have hname : (runIntent other).name = (runIntent run).name := congrArg Run.name hintent
  exact ⟨hns, hname⟩

/-- A pass reads of its run what the intent tells. -/
theorem ensureKJobList_of_intent {other : Run} (hintent : runIntent other = runIntent run)
    (c : Cluster) : ensureKJobList lib other c = ensureKJobList lib run c := by
  rw [← ensureKJobList_runIntent lib other, hintent, ensureKJobList_runIntent]

/-- So does the status that is written, on top of the one that is there. -/
theorem runStatusFrom_of_intent {stored : Run} (hintent : runIntent stored = runIntent run)
    (kjobs : List KJob) (now : Time) :
    runStatusFrom lib stored kjobs now =
      runStatusFrom lib { run with status := stored.status } kjobs now := by
  have hsame : runStatusFrom lib { runIntent stored with status := stored.status } kjobs now =
      runStatusFrom lib { runIntent run with status := stored.status } kjobs now := by
    rw [hintent]
  exact hsame

/-- The reconcile has the run in hand, as it is stored, and its pipeline. -/
structure TakenUp (run : Run) (s : ObjectStore) (inHand : Run) : Prop where
  intent : runIntent inHand = runIntent run
  stored : ∃ stored, getRun s.runs run.ns run.name = some stored ∧
    runIntent stored = runIntent run
  pipeline : ∃ pipeline, getPipeline s.pipelines inHand.ns inHand.labels.pipelineName =
    some pipeline

/-- The status of the run is written. -/
theorem RunReconciler.writeStatus_own (lib : Externals) {inHand : Run}
    (h : TakenUp run w.store inHand) (now endNow : Time) :
    (writeStatus lib inHand now endNow w).2 = .ok 0 ∧
      ∃ status, (getRun w.store.runs run.ns run.name).map Run.status = some status ∧
        (getRun (writeStatus lib inHand now endNow w).1.store.runs run.ns run.name).map
          Run.status =
            some (runStatusFrom lib { run with status := status }
              (w.store.cluster.listRunKJobs run.ns run.name) now.stored) := by
  obtain ⟨hns, hname⟩ := runKey_of_intent h.intent
  obtain ⟨stored, hget, hintent⟩ := h.stored
  obtain ⟨pipeline, hpipeline⟩ := h.pipeline
  have hfound : getRun w.store.runs inHand.ns inHand.name = some stored := by rw [hns, hname, hget]
  obtain ⟨t, hwritten, hstore⟩ := updateRunStatus_free lib
    { runs := w.store.runs, pipelines := w.store.pipelines } w.store.cluster now endNow hfound
    hpipeline
  unfold writeStatus
  rw [hwritten]
  refine ⟨rfl, stored.status, by rw [hget, Option.map_some], ?_⟩
  have hkey := getRun_key hget
  simp only [hstore, statusWritten, getRun_updateStatusOfRun, hget, Option.map_some, withStatus,
    freeAttempt, hns, hname, and_self, if_true, runStatusFrom_of_intent hintent]

/-- A pass over the kubernetes jobs of the run that gets through, and its status
behind it. -/
theorem RunReconciler.deploy_writes (hrun : WellFormed run) {inHand : Run}
    (h : TakenUp run w.store inHand) (now endNow : Time)
    (hpass : (ensureKJobList lib run w.store.cluster).2 = .ok ()) :
    WritesRun lib run w (deploy lib inHand now endNow w).1 := by
  intro x hx hshows
  obtain ⟨hseparate, -, hsteps⟩ :=
    ensureKJobList_own hrun hx hshows.idle hshows.cluster hshows.separate
  unfold deploy
  rw [ensureKJobList_of_intent h.intent]
  generalize ensureKJobList lib run w.store.cluster = deployed at hpass hseparate hsteps
  obtain ⟨next, result⟩ := deployed
  cases hpass
  have hdeployed : TakenUp run { w.store with cluster := next } inHand :=
    ⟨h.intent, h.stored, h.pipeline⟩
  obtain ⟨-, status, hbefore, hafter⟩ :=
    writeStatus_own (w := { w with store.cluster := next }) lib hdeployed now endNow
  have hsame : status = x.status := Option.some.inj (hbefore.symm.trans hshows.status)
  refine ⟨_, _, now, hsteps, rfl, ?_, rfl, rfl, hseparate⟩
  rw [hafter, hsame]
  simp only [RunWorld.nextStatus, listRunKJobs_runPart]

/-- So does one that breaks off. -/
theorem RunReconciler.deploy_own (hrun : WellFormed run) {inHand : Run}
    (h : TakenUp run w.store inHand) (now endNow : Time) :
    FollowsRun lib run w (deploy lib inHand now endNow w).1 := by
  cases hresult : (ensureKJobList lib run w.store.cluster).2 with
  | ok _ => exact (deploy_writes hrun h now endNow hresult).follows
  | error e =>
      intro x hx hshows
      obtain ⟨hseparate, -, hsteps⟩ :=
        ensureKJobList_own hrun hx hshows.idle hshows.cluster hshows.separate
      unfold deploy
      rw [ensureKJobList_of_intent h.intent]
      simp only [hresult] at hsteps ⊢
      exact ⟨_, hsteps, hshows.status, rfl, rfl, hseparate⟩

/-! ## The reconciles of other runs -/

theorem Apart.of_intent {other inHand : Run} (hapart : Apart run other)
    (hintent : runIntent inHand = runIntent other) : Apart run inHand := by
  have hns := (runKey_of_intent hintent).1
  have hjobs : (runIntent inHand).spec.jobs = (runIntent other).spec.jobs :=
    congrArg (fun run => run.spec.jobs) hintent
  have hsame : inHand.spec.jobs = other.spec.jobs := hjobs
  refine ⟨?_, ?_⟩
  · rw [LocalJobs, hsame, hns]
    exact hapart.jobs
  · rw [hsame, hns]
    exact hapart.names

/-- The status of another run is written. -/
theorem RunReconciler.writeStatus_other (lib : Externals) {other : Run}
    (hother : runKey other ≠ runKey run)
    (hpipeline : ∃ pipeline, getPipeline w.store.pipelines other.ns other.labels.pipelineName =
      some pipeline) (now endNow : Time) :
    getRun (writeStatus lib other now endNow w).1.store.runs run.ns run.name =
      getRun w.store.runs run.ns run.name := by
  obtain ⟨pipeline, hpipeline⟩ := hpipeline
  unfold writeStatus
  cases hget : getRun w.store.runs other.ns other.name with
  | none =>
      simp only
      rw [updateRunStatus_missing lib w.store.cluster now endNow hget]
  | some stored =>
      obtain ⟨t, hwritten, hstore⟩ := updateRunStatus_free lib
        { runs := w.store.runs, pipelines := w.store.pipelines } w.store.cluster now endNow hget
        hpipeline
      have hkey := getRun_key hget
      have hkept : OthersKept other w.store.runs (updateStatusOfRun w.store.runs
          (withStatus lib stored (w.store.cluster.listRunKJobs other.ns other.name)
            (freeAttempt now endNow))) := .updateStatusOfRun w.store.runs hkey.1 hkey.2
      rw [hwritten]
      simp only [hstore]
      exact hkept run.ns run.name (Ne.symm hother)

/-- A pass over the kubernetes jobs of another run, and its status behind it. -/
theorem RunReconciler.deploy_other {other : Run} (hother : runKey other ≠ runKey run)
    (hapart : Apart run other)
    (hpipeline : ∃ pipeline, getPipeline w.store.pipelines other.ns other.labels.pipelineName =
      some pipeline) (now endNow : Time) :
    FollowsRun lib run w (deploy lib other now endNow w).1 := by
  intro x hx hshows
  obtain ⟨hseparate, hpart⟩ := hshows.separate.otherPass hx hshows.cluster hother hapart
  unfold deploy
  generalize ensureKJobList lib other w.store.cluster = deployed at hseparate hpart
  obtain ⟨next, result⟩ := deployed
  have hcluster : x.cluster = runPart run next := hshows.cluster.trans hpart.symm
  cases result with
  | error e => exact ⟨x, .refl x, hshows.status, hcluster, hshows.idle, hseparate⟩
  | ok _ =>
      have hkept := writeStatus_other (w := { w with store.cluster := next }) lib hother hpipeline
        now endNow
      refine ⟨x, .refl x, ?_, hcluster, hshows.idle, hseparate⟩
      exact (congrArg (Option.map Run.status) hkept).trans hshows.status

/-! ## The reconcile of any run -/

/-- The run is stored, and the jobs of other runs are apart from its jobs. -/
structure StoredApart (run : Run) (s : ObjectStore) : Prop where
  keyed : KeyedStore s
  stored : ∃ stored, getRun s.runs run.ns run.name = some stored ∧ runIntent stored = runIntent run
  apart : ∀ other ∈ s.runs, runKey other ≠ runKey run → Apart run other

/-- What is in hand after the pass over the volumes, if the run is the one that
is reconciled. -/
theorem StoredApart.takenUp (hw : StoredApart run w.store) {taken : Run} {pass : VolumePass}
    (hpass : VolumesExtend w.store (withRunName taken) pass)
    (htaken : getRun w.store.runs run.ns run.name = some taken) {pipeline : Pipeline}
    (hpipeline : getPipeline w.store.pipelines run.ns taken.labels.pipelineName =
      some pipeline) :
    TakenUp run { w.store with runs := pass.store.runs, pvcs := pass.store.pvcs } pass.run := by
  obtain ⟨stored, hstored, hintent⟩ := hw.stored
  rw [htaken] at hstored
  cases hstored
  have hinHand : runIntent pass.run = runIntent run := hpass.inHand.intent.trans hintent
  obtain ⟨hns, hname⟩ := runKey_of_intent hinHand
  have hlabel := pipelineName_of_same hpass.inHand
  refine ⟨hinHand, ?_, pipeline, ?_⟩
  · have hstatus := hpass.statuses run.ns run.name
    rw [htaken] at hstatus
    obtain ⟨kept, hkept, -⟩ := Option.map_eq_some_iff.mp hstatus
    have hkeptKey := getRun_key hkept
    have hsame := hpass.standsFor kept (List.mem_of_find?_eq_some hkept)
      (Prod.ext (hkeptKey.1.trans hns.symm) (hkeptKey.2.trans hname.symm))
    exact ⟨kept, hkept, hsame.intent.symm.trans hinHand⟩
  · rw [hns, hlabel]
    exact hpipeline

/-- A reconcile of any run, however it ends. -/
theorem RunReconciler.reconcile_followed (hrun : WellFormed run) (hw : StoredApart run w.store)
    (ns name : String) (now endNow : Time) :
    FollowsRun lib run w (reconcile lib ns name now endNow w).1 := by
  unfold reconcile
  split
  · exact .refl w
  · next taken htaken =>
      split
      · exact .refl w
      · next pipeline hpipeline =>
          have hmem : taken ∈ w.store.runs := List.mem_of_find?_eq_some htaken
          have htakenKey := getRun_key htaken
          have hpass := ensureVolumeList_extends lib pipeline hw.keyed hmem
          unfold reconcileStored
          simp only
          generalize ensureVolumeList lib pipeline (volumePass (withRunName taken)
            { w.store with runs := replaceRun w.store.runs (withRunName taken) }) = volumes at hpass
          obtain ⟨pass, result⟩ := volumes
          have hvolumes : FollowsRun lib run w
              { w with store.runs := pass.store.runs, store.pvcs := pass.store.pvcs } :=
            .still rfl (hpass.statuses run.ns run.name)
          cases result with
          | error _ => exact hvolumes
          | ok _ =>
              refine hvolumes.trans hrun ?_
              by_cases hkey : runKey taken = runKey run
              · obtain ⟨hns, hname⟩ := Prod.mk.inj hkey
                rw [← htakenKey.1, ← htakenKey.2, hns, hname] at htaken
                rw [← htakenKey.1, hns] at hpipeline
                exact deploy_own hrun (hw.takenUp hpass htaken hpipeline) now endNow
              · have hapart := hw.apart taken hmem hkey
                have hinHandKey : runKey pass.run = runKey taken := hpass.inHand.key
                have hlabel := pipelineName_of_same hpass.inHand
                refine deploy_other (hinHandKey ▸ hkey) (hapart.of_intent hpass.inHand.intent) ?_
                  now endNow
                rw [show pass.run.ns = taken.ns from hpass.inHand.ns, htakenKey.1, hlabel]
                exact ⟨pipeline, hpipeline⟩

/-- A reconcile of the run that gets through. -/
theorem RunReconciler.reconcile_writes (hrun : WellFormed run) (hw : StoredApart run w.store)
    {stored : Run} (hstored : getRun w.store.runs run.ns run.name = some stored)
    {pipeline : Pipeline}
    (hpipeline : getPipeline w.store.pipelines run.ns stored.labels.pipelineName = some pipeline)
    {now endNow : Time} {duration : Duration}
    (hok : (reconcile lib run.ns run.name now endNow w).2 = .ok duration) :
    WritesRun lib run w (reconcile lib run.ns run.name now endNow w).1 := by
  have hpass := ensureVolumeList_extends lib pipeline hw.keyed (List.mem_of_find?_eq_some hstored)
  unfold reconcile reconcileStored at hok ⊢
  simp only [hstored, hpipeline] at hok ⊢
  generalize ensureVolumeList lib pipeline (volumePass (withRunName stored)
    { w.store with runs := replaceRun w.store.runs (withRunName stored) }) = volumes at hpass hok ⊢
  obtain ⟨pass, result⟩ := volumes
  cases result with
  | error _ => cases hok
  | ok _ =>
      have htaken := hw.takenUp hpass hstored hpipeline
      have hvolumes : FollowsRun lib run w
          { w with store.runs := pass.store.runs, store.pvcs := pass.store.pvcs } :=
        .still rfl (hpass.statuses run.ns run.name)
      refine hvolumes.writes hrun (deploy_writes hrun htaken now endNow ?_)
      simp only [deploy, ensureKJobList_of_intent htaken.intent] at hok
      cases hresult : (ensureKJobList lib run w.store.cluster).2 with
      | ok _ => rfl
      | error e =>
          rw [hresult] at hok
          cases hok

/-! ## Users and the cluster -/

/-- What the cluster does to a kubernetes job: it reports other counters without
taking a success back, and it marks the job as being deleted. -/
structure ClusterChange (before after : KJob) : Prop where
  rest : after =
    { before with status := after.status, deletionTimestamp := after.deletionTimestamp }
  succeeded : before.status.Succeeded → after.status.Succeeded
  marked : before.deletionTimestamp.isSome → after.deletionTimestamp.isSome

/-- The run is left to the operator, and its kubernetes jobs to the operator and
the cluster. -/
structure LeftAlone (lib : Externals) (run : Run) (before after : ObjectStore) : Prop where
  keyed : KeyedStore after
  kept : ∀ stored, getRun before.runs run.ns run.name = some stored →
    ∃ kept, getRun after.runs run.ns run.name = some kept ∧
      runIntent kept = runIntent stored ∧ kept.status = stored.status
  kjobs : List.Forall₂ ClusterChange (runPart run before.cluster).kjobs
    (runPart run after.cluster).kjobs
  unmixed : Unmixed lib run after.cluster

/-- Replacing an entry in its place. -/
theorem updateKJob_middle {c : Cluster} {front back : List KJob} {kjob : KJob}
    (hkjobs : c.kjobs = front ++ kjob :: back) (hkeys : Keyed kjobKey c.kjobs) (updated : KJob)
    (hkey : kjobKey updated = kjobKey kjob) :
    c.updateKJob updated = { c with kjobs := front ++ updated :: back } := by
  rw [hkjobs] at hkeys
  have hnot := (List.nodup_cons.mp (List.nodup_middle.mp hkeys.nodup)).1
  have hkept : ∀ k ∈ front ++ back, (if kjobKey k = kjobKey updated then updated else k) = k := by
    intro k hk
    refine if_neg fun hsame => hnot ?_
    have hmem : k ∈ front ++ kjob :: back := by
      rcases List.mem_append.mp hk with hfront | hback
      · exact List.mem_append_left _ hfront
      · exact List.mem_append_right _ (List.mem_cons_of_mem kjob hback)
    rw [← hkeys.eq_of_key hmem (by simp) (hsame.trans hkey)]
    exact hk
  have hfront := List.map_congr_left fun k hk => hkept k (List.mem_append_left back hk)
  have hback := List.map_congr_left fun k hk => hkept k (List.mem_append_right front hk)
  rw [Cluster.updateKJob, hkjobs, List.map_append, List.map_cons, hfront, hback, List.map_id',
    List.map_id', if_pos hkey.symm]

/-- The machine follows the cluster, one kubernetes job after another. -/
theorem clusterChanges_follow (hrun : WellFormed run) (front : List KJob)
    {before after : List KJob} (hchange : List.Forall₂ ClusterChange before after)
    (hx : Underway lib run x) (hkjobs : x.cluster.kjobs = front ++ before) :
    (runMachine lib run).Steps (fun _ _ => True) x
      { x with cluster := { x.cluster with kjobs := front ++ after } } := by
  induction hchange generalizing front x with
  | nil =>
      rw [← hkjobs]
      exact .refl x
  | @cons kjob kjob' before after hfirst _ ih =>
      have hmem : kjob ∈ x.cluster.kjobs := by
        rw [hkjobs]
        exact List.mem_append_right front List.mem_cons_self
      have hreport : x.step lib run (.report kjob.ns kjob.name kjob'.status) =
          some { x with cluster := { x.cluster with
            kjobs := front ++ { kjob with status := kjob'.status } :: before } } := by
        simp only [RunWorld.step, hx.labelled.getKJob_eq hmem, if_pos hfirst.succeeded]
        rw [updateKJob_middle hkjobs hx.keys { kjob with status := kjob'.status } rfl]
      have hreported := hx.step hrun hreport
      have hboth : (runMachine lib run).Steps (fun _ _ => True) x
          { x with cluster := { x.cluster with kjobs := front ++ kjob' :: before } } := by
        have hrest := hfirst.rest
        cases hdate : kjob'.deletionTimestamp with
        | none =>
            have hunmarked : kjob.deletionTimestamp = none := by
              cases hbefore : kjob.deletionTimestamp with
              | none => rfl
              | some date =>
                  have hmarked := hfirst.marked (by rw [hbefore]; rfl)
                  rw [hdate] at hmarked
                  cases hmarked
            rw [hdate, ← hunmarked] at hrest
            rw [hrest]
            exact .single (b := .report kjob.ns kjob.name kjob'.status) trivial hreport
        | some date =>
            rw [hdate] at hrest
            refine .step (b := .markDeleted kjob.ns kjob.name date)
              (.single (b := .report kjob.ns kjob.name kjob'.status) trivial hreport) trivial ?_
            have hget := hreported.labelled.getKJob_eq
              (List.mem_append_right front (List.mem_cons_self
                (a := { kjob with status := kjob'.status }) (l := before)))
            have hupdate := updateKJob_middle
              (c := { x.cluster with
                kjobs := front ++ { kjob with status := kjob'.status } :: before })
              rfl hreported.keys
              { kjob with status := kjob'.status, deletionTimestamp := some date } rfl
            simp only at hget
            simp only [runMachine, RunWorld.step, hget]
            rw [hupdate, ← hrest]
      have hnext := ih (front ++ [kjob']) (hx.steps hrun hboth) (by simp)
      rw [List.append_assoc, List.singleton_append] at hnext
      exact hboth.trans hnext

/-- It follows users who leave the run alone. -/
theorem FollowsRun.leftAlone (hrun : WellFormed run) (h : LeftAlone lib run w.store w'.store) :
    FollowsRun lib run w w' := by
  intro x hx hshows
  have hkjobs : x.cluster.kjobs = [] ++ (runPart run w.store.cluster).kjobs := by
    rw [hshows.cluster]
    rfl
  refine ⟨_, .step (b := .setPods w'.store.cluster.pods)
    (clusterChanges_follow hrun [] h.kjobs hx hkjobs) trivial rfl, ?_⟩
  obtain ⟨stored, hstored, hstatus⟩ := Option.map_eq_some_iff.mp hshows.status
  obtain ⟨kept, hkept, -, hsame⟩ := h.kept stored hstored
  refine ⟨?_, rfl, hshows.idle, ⟨h.keyed.kjobs, h.unmixed⟩⟩
  rw [hkept, Option.map_some, hsame, hstatus]

/-! ## The simulation -/

/-- Everybody keeps the jobs of other runs apart, and everybody but the operator
leaves the run alone. -/
structure LeavesRun (lib : Externals) (run : Run) (w : OperatorWorld) (a : OperatorAction) :
    Prop where
  apart : ∀ other ∈ (w.step lib a).store.runs, runKey other ≠ runKey run → Apart run other
  alone : ¬ a.ByOperator → LeftAlone lib run w.store (w.step lib a).store

/-- The run is stored, and nothing of it in the cluster. -/
structure StartsRun (lib : Externals) (run : Run) (w : OperatorWorld) : Prop where
  stored : StoredApart run w.store
  fresh : Fresh lib run w.store.cluster

/-- A stored run is found under its key. -/
theorem getRun_of_mem {runs : RunStore} (hkeys : Keyed runKey runs) {stored : Run}
    (hmem : stored ∈ runs) : getRun runs stored.ns stored.name = some stored := by
  apply hkeys.find?_eq hmem
  · exact decide_eq_true ⟨rfl, rfl⟩
  · intro other _ hother
    exact Prod.ext (of_decide_eq_true hother).1 (of_decide_eq_true hother).2

/-- A stored run is stored for good. -/
theorem getRun_extends {s t : ObjectStore} (h : Extends s t) {ns name : String} {stored : Run}
    (hget : getRun s.runs ns name = some stored) :
    ∃ kept, getRun t.runs ns name = some kept ∧ SameRun stored kept := by
  obtain ⟨i, hi⟩ := List.getElem?_of_mem (List.mem_of_find?_eq_some hget)
  obtain ⟨kept, hkept, hsame⟩ := h.runs i stored hi
  have hfound := getRun_of_mem h.keyed.runs (List.mem_of_getElem? hkept)
  rw [hsame.ns, hsame.name, (getRun_key hget).1, (getRun_key hget).2] at hfound
  exact ⟨kept, hfound, hsame⟩

/-- Every action keeps the run stored, and its jobs apart. -/
theorem StoredApart.step (hw : StoredApart run w.store) {a : OperatorAction}
    (ha : LeavesRun lib run w a) : StoredApart run (w.step lib a).store := by
  obtain ⟨stored, hstored, hintent⟩ := hw.stored
  by_cases hby : a.ByOperator
  · have hextends := step_extends lib (.refl hw.keyed) hby
    obtain ⟨kept, hkept, hsame⟩ := getRun_extends hextends hstored
    exact ⟨hextends.keyed, ⟨kept, hkept, hsame.intent.trans hintent⟩, ha.apart⟩
  · have halone := ha.alone hby
    obtain ⟨kept, hkept, hsame, -⟩ := halone.kept stored hstored
    exact ⟨halone.keyed, ⟨kept, hkept, hsame.trans hintent⟩, ha.apart⟩

/-- A reconcile of a run creates none. -/
theorem RunReconciler.getRun_reconcile (hs : KeyedStore w.store) (ns name : String)
    (now endNow : Time) {ns' name' : String}
    (hfound : (getRun (reconcile lib ns name now endNow w).1.store.runs ns' name').isSome) :
    (getRun w.store.runs ns' name').isSome := by
  unfold reconcile at hfound
  split at hfound
  · exact hfound
  · next taken htaken =>
      split at hfound
      · exact hfound
      · next pipeline hpipeline =>
          have htakenKey := getRun_key htaken
          have hpass :=
            ensureVolumeList_extends lib pipeline hs (List.mem_of_find?_eq_some htaken)
          unfold reconcileStored at hfound
          simp only at hfound
          generalize ensureVolumeList lib pipeline (volumePass (withRunName taken)
            { w.store with runs := replaceRun w.store.runs (withRunName taken) }) = volumes
            at hpass hfound
          obtain ⟨pass, result⟩ := volumes
          have hvolumes := congrArg Option.isSome (hpass.statuses ns' name')
          rw [Option.isSome_map, Option.isSome_map] at hvolumes
          cases result with
          | error _ => exact hvolumes.symm.trans hfound
          | ok _ =>
              by_cases hkey : runKey taken = (ns', name')
              · obtain ⟨hns, hname⟩ := Prod.mk.inj hkey
                rw [← hns, ← hname, htakenKey.1, htakenKey.2, htaken]
                rfl
              · have hother : runKey pass.run ≠ runKey { ns := ns', name := name' } :=
                  fun hsame => hkey (hpass.inHand.key.symm.trans hsame)
                have hinHand : ∃ found, getPipeline w.store.pipelines pass.run.ns
                    pass.run.labels.pipelineName = some found := by
                  rw [show pass.run.ns = taken.ns from hpass.inHand.ns, htakenKey.1,
                    pipelineName_of_same hpass.inHand]
                  exact ⟨pipeline, hpipeline⟩
                rw [← hvolumes]
                unfold deploy at hfound
                generalize ensureKJobList lib pass.run w.store.cluster = deployed at hfound
                obtain ⟨next, result⟩ := deployed
                cases result with
                | error _ => exact hfound
                | ok _ =>
                    have hkept := writeStatus_other
                      (w := { w with
                        store.runs := pass.store.runs
                        store.pvcs := pass.store.pvcs
                        store.cluster := next })
                      lib hother hinHand now endNow
                    exact (congrArg Option.isSome hkept).symm.trans hfound

/-- So it leaves the jobs of the other runs apart. -/
theorem StoredApart.leavesRun (hw : StoredApart run w.store) (ns name : String)
    (now endNow : Time) : LeavesRun lib run w (.reconcileRun ns name now endNow) where
  apart := by
    intro other hother hkey
    have hextends : Extends w.store (w.step lib (.reconcileRun ns name now endNow)).store :=
      step_extends lib (.refl hw.keyed) trivial
    have hget := getRun_of_mem hextends.keyed.runs hother
    obtain ⟨before, hbefore⟩ := Option.isSome_iff_exists.mp
      (RunReconciler.getRun_reconcile hw.keyed ns name now endNow
        (Option.isSome_iff_exists.mpr ⟨other, hget⟩))
    obtain ⟨kept, hkept, hsame⟩ := getRun_extends hextends hbefore
    cases hkept.symm.trans hget
    have hbeforeKey : runKey before ≠ runKey run := fun heq => hkey (hsame.key.trans heq)
    exact (hw.apart before (List.mem_of_find?_eq_some hbefore) hbeforeKey).of_intent hsame.intent
  alone := fun hby => absurd trivial hby

/-- The machine follows every action. -/
theorem action_followed (hrun : WellFormed run) (hw : StoredApart run w.store)
    {a : OperatorAction} (ha : LeavesRun lib run w a) :
    FollowsRun lib run w (w.step lib a) := by
  have hstored : (getRun w.store.runs run.ns run.name).isSome := by
    obtain ⟨stored, hstored, -⟩ := hw.stored
    rw [hstored]
    rfl
  have hnoted : ∀ {ns : String} {after : OperatorWorld × ReconcileResult},
      FollowsRun lib run w after.1 → FollowsRun lib run w (OperatorWorld.note ns after) := by
    intro ns after hfollows
    exact hfollows.trans hrun (.still rfl rfl)
  cases a with
  | reconcilePipeline ns name address now =>
      exact hnoted (.creates hstored (PipelineReconciler.reconcile_creates ns name address now w))
  | reconcileRun ns name now endNow =>
      exact hnoted (RunReconciler.reconcile_followed hrun hw ns name now endNow)
  | execute pipeline address now =>
      simp only [OperatorWorld.step]
      split
      · exact .creates hstored (PipelineReconciler.scheduleExecution_creates pipeline address now
          { w with goroutines := w.goroutines.erase pipeline })
      · exact .refl w
  | environment ns objects => exact .leftAlone hrun (ha.alone id)

theorem Fresh.runPart {c : Cluster} (h : Fresh lib run c) : Fresh lib run (runPart run c) where
  keys := (List.filter_sublist.map kjobKey).nodup h.keys
  runName := fun kjob hkjob => h.runName kjob (mem_part.mp hkjob).1
  label := fun kjob hkjob => h.label kjob (mem_part.mp hkjob).1

/-- The machine of a run follows the operator. -/
theorem run_simulation (lib : Externals) (hrun : WellFormed run) :
    Machine.Simulation (operatorMachine lib (StartsRun lib run)) (LeavesRun lib run)
      (runMachine lib run) (fun _ _ => True)
      (fun w x => StoredApart run w.store ∧ Underway lib run x ∧ ShowsRun lib run w x) where
  init := by
    intro w hw
    obtain ⟨stored, hget, -⟩ := hw.stored.stored
    have hinit : (runMachine lib run).init
        { cluster := runPart run w.store.cluster, status := stored.status } :=
      ⟨hw.fresh.runPart, rfl, rfl⟩
    refine ⟨_, hinit, hw.stored, Underway.init hinit, ?_⟩
    exact
      { status := by rw [hget, Option.map_some]
        cluster := rfl
        idle := rfl
        separate := ⟨hw.fresh.keys, fun kjob hkjob hns _ => hw.fresh.label kjob hkjob hns⟩ }
  step := by
    rintro w a t x ⟨hw, hx, hshows⟩ ha ⟨⟩
    have hfollows : FollowsRun lib run w (w.step lib a) := action_followed hrun hw ha
    obtain ⟨y, hsteps, hy⟩ := hfollows x hx hshows
    exact ⟨y, hsteps, hw.step ha, hx.steps hrun hsteps, hy⟩

/-- The label of a job is on one kubernetes job at most. -/
theorem ShowsRun.listed (hshows : ShowsRun lib run w x) (hx : Underway lib run x) {job : Job}
    (hjob : job ∈ run.spec.jobs) :
    (w.store.cluster.listKJobs run.ns job.name).length ≤ 1 := by
  rw [← listKJobs_runPart hshows.separate.unmixed hjob, ← hshows.cluster]
  cases hlisted : x.cluster.listKJobs run.ns job.name with
  | nil => exact Nat.zero_le 1
  | cons kjob rest =>
      have hmem : kjob ∈ x.cluster.listKJobs run.ns job.name := by
        rw [hlisted]
        exact List.mem_cons_self
      rw [← hlisted, hx.labelled.listKJobs_eq hjob (hx.labelled.getKJob_of_listed hjob hmem)]
      exact Nat.le_refl 1

/-- What the operator does is, for every run that users leave stored, a run of the
machine of this run, whatever other runs and pipelines there are; so what carries
the label of the run in its namespace has been created for one of its jobs, and
no job has more than one kubernetes job. -/
theorem operator_runs (hrun : WellFormed run)
    (hw : (operatorMachine lib (StartsRun lib run)).Reach (LeavesRun lib run) w) :
    ∃ x, (runMachine lib run).Reachable x ∧ ShowsRun lib run w x ∧
      (∀ kjob ∈ w.store.cluster.kjobs, kjob.ns = run.ns → kjob.labels.runName = run.name →
        ∃ job ∈ run.spec.jobs, CreatedFor lib run kjob job) ∧
      ∀ job ∈ run.spec.jobs, (w.store.cluster.listKJobs run.ns job.name).length ≤ 1 := by
  obtain ⟨x, hreach, -, hx, hshows⟩ := (run_simulation lib hrun).reach hw
  refine ⟨x, hreach, hshows, ?_, fun job hjob => hshows.listed hx hjob⟩
  intro kjob hkjob hns hlabel
  have hpart : kjob ∈ x.cluster.kjobs := by
    rw [hshows.cluster]
    exact mem_part.mpr ⟨hkjob, kjobRun_eq hns hlabel⟩
  exact hx.created kjob hpart hns (Or.inl hlabel)

/-! ## Reconciles that get through -/

/-- A pass over the kubernetes jobs of a run that is listed in order, in the store
of the operator. -/
theorem operator_pass (hrun : WellFormed run) (horder : ListedInOrder run)
    {kjobList : List KJob} (hlist : constructKjobListFromRun lib run = .ok kjobList)
    (hx : Underway lib run x) (hshows : ShowsRun lib run w x) :
    ∃ next, ensureKJobList lib run w.store.cluster = (next, .ok ()) := by
  obtain ⟨-, hsame, -⟩ :=
    ensureKJobList_own hrun hx hshows.idle hshows.cluster hshows.separate
  obtain ⟨next, hpass⟩ := hx.pass hrun horder hlist
  rw [hpass] at hsame
  have hresult : .ok () = (ensureKJobList lib run w.store.cluster).2 := congrArg Prod.snd hsame
  exact ⟨_, Prod.ext rfl hresult.symm⟩

/-- The reconcile of such a run ends as its pass over the volumes does. -/
theorem RunReconciler.reconcile_ordered (hrun : WellFormed run) (horder : ListedInOrder run)
    {kjobList : List KJob} (hlist : constructKjobListFromRun lib run = .ok kjobList)
    (hw : StoredApart run w.store) (hx : Underway lib run x) (hshows : ShowsRun lib run w x)
    {stored : Run} (hstored : getRun w.store.runs run.ns run.name = some stored)
    {pipeline : Pipeline}
    (hpipeline : getPipeline w.store.pipelines run.ns stored.labels.pipelineName = some pipeline)
    (now endNow : Time) :
    (reconcile lib run.ns run.name now endNow w).2 =
      (ensureVolumeList lib pipeline (startOf stored w.store)).2.map fun _ => 0 := by
  have hpass := ensureVolumeList_extends lib pipeline hw.keyed (List.mem_of_find?_eq_some hstored)
  unfold reconcile reconcileStored
  simp only [hstored, hpipeline, startOf]
  generalize ensureVolumeList lib pipeline (volumePass (withRunName stored)
    { w.store with runs := replaceRun w.store.runs (withRunName stored) }) = volumes at hpass
  obtain ⟨pass, result⟩ := volumes
  cases result with
  | error _ => rfl
  | ok _ =>
      have htaken := hw.takenUp hpass hstored hpipeline
      obtain ⟨next, hdeployed⟩ := operator_pass hrun horder hlist hx hshows
      simp only [deploy, ensureKJobList_of_intent htaken.intent, hdeployed]
      exact (writeStatus_own
        (w := { w with
          store.runs := pass.store.runs
          store.pvcs := pass.store.pvcs
          store.cluster := next })
        lib ⟨htaken.intent, htaken.stored, htaken.pipeline⟩ now endNow).1

end Follow

/-- Every task is listed after those it waits for. -/
def TasksInOrder (pipeline : Pipeline) : Prop :=
  ∀ front task back, pipeline.spec.tasks = front ++ task :: back →
    ∀ name ∈ task.runBefore, ∃ before ∈ front, before.name = name

section Launched

variable {lib : Externals} {w : OperatorWorld}

theorem Launched.wellFormed_of_order (l : Launched lib) (horder : TasksInOrder l.pipeline) :
    WellFormed l.run := by
  refine l.wellFormed fun task htask name hname => ?_
  obtain ⟨front, back, hsplit⟩ := List.append_of_mem htask
  obtain ⟨before, hbefore, hsame⟩ := horder front task back hsplit name hname
  refine ⟨before, ?_, hsame⟩
  rw [hsplit]
  exact List.mem_append_left _ hbefore

/-- So is every job of a run that is constructed from it. -/
theorem Launched.listedInOrder (l : Launched lib) (horder : TasksInOrder l.pipeline) :
    ListedInOrder l.run := by
  intro front job back hjobs name hname
  rw [l.jobs_eq] at hjobs
  obtain ⟨frontTasks, rest, hsplit, rfl, hrest⟩ := List.map_eq_append_iff.mp hjobs
  obtain ⟨task, backTasks, rfl, rfl, -⟩ := List.map_eq_cons_iff.mp hrest
  obtain ⟨taskName, htaskName, rfl⟩ := List.mem_map.mp hname
  obtain ⟨before, hbefore, rfl⟩ := horder frontTasks task backTasks hsplit taskName htaskName
  exact ⟨_, List.mem_map_of_mem hbefore, rfl⟩

/-- The run of a pipeline whose tasks are listed in order never gets stuck: however
the reconciles of all runs and pipelines, the goroutines, the cluster and users
that leave the run alone have been interleaved, its next reconcile ends as its
pass over the volumes does. -/
theorem ordered_pipeline_reconciles (l : Launched lib) (horder : TasksInOrder l.pipeline)
    (hw : (operatorMachine lib (StartsRun lib l.run)).Reach (LeavesRun lib l.run) w)
    {stored : Run} (hstored : getRun w.store.runs l.run.ns l.run.name = some stored)
    {pipeline : Pipeline}
    (hpipeline : getPipeline w.store.pipelines l.run.ns stored.labels.pipelineName = some pipeline)
    (now endNow : Time) :
    (RunReconciler.reconcile lib l.run.ns l.run.name now endNow w).2 =
      (ensureVolumeList lib pipeline (startOf stored w.store)).2.map fun _ => 0 := by
  have hrun := l.wellFormed_of_order horder
  obtain ⟨x, -, hapart, hx, hshows⟩ := (run_simulation lib hrun).reach hw
  exact RunReconciler.reconcile_ordered hrun (l.listedInOrder horder) l.listed hapart hx hshows
    hstored hpipeline now endNow

end Launched

/-! ## Two runs with the same tasks -/

/-- A pipeline with one task after another. -/
def releaseOf (name : String) : Pipeline where
  name := name
  ns := "team"
  spec := { tasks := [
    { name := "compile", image := "compile" },
    { name := "publish", image := "publish", runBefore := ["compile"] }] }

theorem releaseOf_inOrder (name : String) : TasksInOrder (releaseOf name) := by
  intro front task back htasks before hbefore
  rcases front with _ | ⟨first, _ | ⟨second, front⟩⟩
  · obtain ⟨rfl, -⟩ := List.cons.inj htasks
    cases hbefore
  · obtain ⟨rfl, hrest⟩ := List.cons.inj htasks
    obtain ⟨rfl, -⟩ := List.cons.inj hrest
    exact ⟨_, List.mem_cons_self, (List.mem_singleton.mp hbefore).symm⟩
  · have hlength := congrArg List.length htasks
    simp [releaseOf] at hlength

def releaseRunOf (name : String) : Run :=
  (constructRunFromPipeline Externals.plain 0 (releaseOf name)).toOption.getD {}

def stable : Launched Externals.plain where
  pipeline := releaseOf "stable"
  address := 0
  run := releaseRunOf "stable"
  kjobs := (constructKjobListFromRun Externals.plain (releaseRunOf "stable")).toOption.getD []
  constructed := by decide +kernel
  listed := by decide +kernel
  tasks := by decide

/-- Both runs have been created, and nothing else. -/
def releasesCreated : OperatorWorld where
  store := {
    pipelines := [releaseOf "stable", releaseOf "beta"]
    runs := [releaseRunOf "stable", releaseRunOf "beta"] }

/-- One run is reconciled after the other, and the first one once more. -/
def releaseActions : List OperatorAction :=
  [ .reconcileRun "team" (releaseRunOf "stable").name 0 0
  , .reconcileRun "team" (releaseRunOf "beta").name 0 0
  , .reconcileRun "team" (releaseRunOf "stable").name Time.second Time.second ]

def releasesDeployed : OperatorWorld := releasesCreated.run Externals.plain releaseActions

theorem releasesCreated_starts : StartsRun Externals.plain stable.run releasesCreated where
  stored :=
    { keyed := by decide +kernel
      stored := ⟨stable.run, by decide +kernel, rfl⟩
      apart := by decide +kernel }
  fresh := fresh_empty _ _

theorem releasesDeployed_reach :
    (operatorMachine Externals.plain (StartsRun Externals.plain stable.run)).Reach
      (LeavesRun Externals.plain stable.run) releasesDeployed := by
  refine .step (.step (.step (.init releasesCreated_starts)
    (a := .reconcileRun "team" (releaseRunOf "stable").name 0 0) ?_ rfl)
    (a := .reconcileRun "team" (releaseRunOf "beta").name 0 0) ?_ rfl)
    (a := .reconcileRun "team" (releaseRunOf "stable").name Time.second Time.second) ?_ rfl
  · exact ⟨by decide +kernel, fun h => absurd trivial h⟩
  · exact ⟨by decide +kernel, fun h => absurd trivial h⟩
  · exact ⟨by decide +kernel, fun h => absurd trivial h⟩

/-- There are four kubernetes jobs, and two of them are the run's. -/
theorem operator_runs_stable :
    (∃ x, (runMachine Externals.plain stable.run).Reachable x ∧
        ShowsRun Externals.plain stable.run releasesDeployed x ∧
        (∀ kjob ∈ releasesDeployed.store.cluster.kjobs, kjob.ns = stable.run.ns →
          kjob.labels.runName = stable.run.name →
            ∃ job ∈ stable.run.spec.jobs, CreatedFor Externals.plain stable.run kjob job) ∧
        ∀ job ∈ stable.run.spec.jobs,
          (releasesDeployed.store.cluster.listKJobs stable.run.ns job.name).length ≤ 1) ∧
      releasesDeployed.store.cluster.kjobs.length = 4 ∧
      (releasesDeployed.store.cluster.listRunKJobs "team" stable.run.name).length = 2 :=
  ⟨operator_runs (stable.wellFormed_of_order (releaseOf_inOrder "stable")) releasesDeployed_reach,
    by decide +kernel, by decide +kernel⟩

/-- The run as it is stored then. -/
def stableDeployed : Run :=
  (getRun releasesDeployed.store.runs stable.run.ns stable.run.name).getD {}

theorem ordered_pipeline_reconciles_stable :
    (RunReconciler.reconcile Externals.plain stable.run.ns stable.run.name (2 * Time.second)
      (2 * Time.second) releasesDeployed).2 = .ok 0 := by
  have hstored : getRun releasesDeployed.store.runs stable.run.ns stable.run.name =
      some stableDeployed := by decide +kernel
  have hpipeline : getPipeline releasesDeployed.store.pipelines stable.run.ns
      stableDeployed.labels.pipelineName = some (releaseOf "stable") := by decide +kernel
  have hvolumes : (ensureVolumeList Externals.plain (releaseOf "stable")
      (startOf stableDeployed releasesDeployed.store)).2 = .ok () := by decide +kernel
  rw [ordered_pipeline_reconciles stable (releaseOf_inOrder "stable") releasesDeployed_reach
    hstored hpipeline, hvolumes]
  rfl

end PipelineOperator.Controller
