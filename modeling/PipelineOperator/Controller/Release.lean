import PipelineOperator.Controller.RunMachine

/-!
# Releasing jobs in time

A job of a run should not be handed to the cluster unsuspended before the
jobs it waits for have succeeded.  Two places decide about it.  The update of
an existing job looks at the recorded states of its predecessors, and takes
`completed` and `deleted` for good; the creation of a missing job looks at the
trigger of the job alone.  So a job can be released too early in two ways: it
is created without a trigger while a predecessor is missing or unfinished, or
it is updated while a predecessor is recorded as deleted that has not
succeeded.  Where neither happens, every released job has only succeeded jobs
before it.

## Main results

* `gated_of_reach`: gating holds in every state of every run of the machine
  whose steps avoid the two ways.
-/

namespace PipelineOperator.Controller

open PipelineOperator.Lib
open PipelineOperator.Api
open PipelineOperator.Go

/-- The kubernetes job of a job exists and has succeeded. -/
def HasSucceeded (lib : Externals) (run : Run) (c : Cluster) (job : Job) : Prop :=
  ∃ kjob, kjob ∈ c.getKJob run.ns (kjobNameOf lib run job) ∧ kjob.status.Succeeded

instance (lib : Externals) (run : Run) (c : Cluster) (job : Job) :
    Decidable (HasSucceeded lib run c job) := by
  unfold HasSucceeded
  infer_instance

/-- The jobs that a job waits for have succeeded. -/
def BeforeSucceeded (lib : Externals) (run : Run) (c : Cluster) (job : Job) : Prop :=
  ∀ b ∈ run.spec.jobs, b.name ∈ job.runBefore → HasSucceeded lib run c b

instance (lib : Externals) (run : Run) (c : Cluster) (job : Job) :
    Decidable (BeforeSucceeded lib run c job) := by
  unfold BeforeSucceeded
  infer_instance

/-- Dependency gating: where the stored kubernetes job of a job is not
suspended, the jobs before it have succeeded. -/
def Gated (lib : Externals) (run : Run) (c : Cluster) : Prop :=
  ∀ job ∈ run.spec.jobs, ∀ kjob ∈ c.getKJob run.ns (kjobNameOf lib run job),
    kjob.suspend = false → BeforeSucceeded lib run c job

instance (lib : Externals) (run : Run) (c : Cluster) : Decidable (Gated lib run c) := by
  unfold Gated
  infer_instance

/-! ## The two ways to release a job -/

/-- The kubernetes job of the job is created suspended, or the jobs before it
have succeeded already. -/
def CreatedInTime (lib : Externals) (run : Run) (c : Cluster) (job : Job) : Prop :=
  triggerBool job.trigger = true ∨ BeforeSucceeded lib run c job

instance (lib : Externals) (run : Run) (c : Cluster) (job : Job) :
    Decidable (CreatedInTime lib run c job) := by
  unfold CreatedInTime
  infer_instance

/-- The update keeps the job suspended, for its trigger or for a predecessor
that is not recorded as done, or every predecessor that is recorded as deleted
has succeeded nevertheless. -/
def UpdatedInTime (run : Run) (c : Cluster) (job : Job) (currentKjob : KJob) : Prop :=
  currentKjob.annotations.trigger = formatBool true ∨
    (∃ b ∈ job.runBefore, ∀ before ∈ c.listKJobs run.ns b,
      before.recorded ≠ .completed ∧ before.recorded ≠ .deleted) ∨
    ∀ b ∈ job.runBefore, ∀ before ∈ c.listKJobs run.ns b,
      before.recorded = .deleted → before.status.Succeeded

instance (run : Run) (c : Cluster) (job : Job) (currentKjob : KJob) :
    Decidable (UpdatedInTime run c job currentKjob) := by
  unfold UpdatedInTime
  infer_instance

/-- The condition on a step: the job that it creates or updates is dealt with
in time. -/
def InTime (lib : Externals) (run : Run) (s : RunWorld) (a : RunAction) : Prop :=
  s.OnProcess a fun desiredkjob found =>
    match found with
    | none => CreatedInTime lib run s.cluster (selfJobOf run desiredkjob.labels.runJobName)
    | some currentKjob =>
        UpdatedInTime run s.cluster (selfJobOf run desiredkjob.labels.runJobName) currentKjob

instance (lib : Externals) (run : Run) (s : RunWorld) (a : RunAction) :
    Decidable (InTime lib run s a) := by
  unfold InTime
  have hcond : ∀ (desiredkjob : KJob) (found : Option KJob), Decidable
      (match found with
        | none => CreatedInTime lib run s.cluster (selfJobOf run desiredkjob.labels.runJobName)
        | some currentKjob => UpdatedInTime run s.cluster
            (selfJobOf run desiredkjob.labels.runJobName) currentKjob) :=
    fun desiredkjob found =>
      match found with
      | none => inferInstanceAs (Decidable (CreatedInTime lib run s.cluster _))
      | some currentKjob => inferInstanceAs (Decidable (UpdatedInTime run s.cluster _ currentKjob))
  infer_instance

/-! ## Replacing and creating jobs -/

section Store

variable {lib : Externals} {run : Run} {c : Cluster}

/-- A job found after a replacement is the new one under the key of the old
one, or was there before. -/
theorem getKJob_replaced {ns name : String} {old updated : KJob}
    (hget : c.getKJob ns name = some old) (hkey : kjobKey updated = kjobKey old)
    {ns' name' : String} {kjob : KJob}
    (hkjob : (c.updateKJob updated).getKJob ns' name' = some kjob) :
    (kjob = updated ∧ c.getKJob ns' name' = some old) ∨ c.getKJob ns' name' = some kjob := by
  rw [Cluster.getKJob_updateKJob, Option.map_eq_some_iff] at hkjob
  obtain ⟨k, hk, hreplaced⟩ := hkjob
  split at hreplaced
  · next hsame =>
      obtain ⟨-, hns, hname⟩ := Cluster.mem_of_getKJob hget
      obtain ⟨-, hkns, hkname⟩ := Cluster.mem_of_getKJob hk
      have hparts := Prod.mk.inj (hsame.trans hkey)
      have hns' : ns' = ns := by rw [← hkns, hparts.1, hns]
      have hname' : name' = name := by rw [← hkname, hparts.2, hname]
      refine Or.inl ⟨hreplaced.symm, ?_⟩
      rw [hns', hname', hget]
  · rw [← hreplaced]
    exact Or.inr hk

/-- A success is kept when a job is replaced by one that keeps it. -/
theorem HasSucceeded.updateKJob {ns name : String} {old updated : KJob}
    (hget : c.getKJob ns name = some old) (hkey : kjobKey updated = kjobKey old)
    (hstatus : old.status.Succeeded → updated.status.Succeeded) {job : Job}
    (h : HasSucceeded lib run c job) : HasSucceeded lib run (c.updateKJob updated) job := by
  obtain ⟨kjob, hkjob, hsucceeded⟩ := h
  have hkjob' : c.getKJob run.ns (kjobNameOf lib run job) = some kjob := hkjob
  have hafter : (c.updateKJob updated).getKJob run.ns (kjobNameOf lib run job) =
      some (if kjobKey kjob = kjobKey updated then updated else kjob) := by
    rw [Cluster.getKJob_updateKJob, hkjob', Option.map_some]
  refine ⟨_, hafter, ?_⟩
  split
  · next hsame =>
      rcases getKJob_replaced hget hkey (hafter.trans (by rw [if_pos hsame])) with ⟨-, hold⟩ | hnew
      · rw [hkjob'] at hold
        cases hold
        exact hstatus hsucceeded
      · rw [hkjob'] at hnew
        cases hnew
        exact hsucceeded
  · exact hsucceeded

theorem HasSucceeded.createKJob {kjob : KJob} {job : Job} (h : HasSucceeded lib run c job) :
    HasSucceeded lib run (c.createKJob kjob) job := by
  obtain ⟨found, hfound, hsucceeded⟩ := h
  refine ⟨found, ?_, hsucceeded⟩
  have hfound' : c.getKJob run.ns (kjobNameOf lib run job) = some found := hfound
  rw [Option.mem_def, Cluster.getKJob_createKJob, hfound', Option.some_or]

/-- Gating survives a replacement, if the new job is not released too early. -/
theorem Gated.updateKJob (hgated : Gated lib run c) {ns name : String} {old updated : KJob}
    (hget : c.getKJob ns name = some old) (hkey : kjobKey updated = kjobKey old)
    (hstatus : old.status.Succeeded → updated.status.Succeeded)
    (hnew : ∀ job ∈ run.spec.jobs, c.getKJob run.ns (kjobNameOf lib run job) = some old →
      updated.suspend = false → BeforeSucceeded lib run c job) :
    Gated lib run (c.updateKJob updated) := by
  intro job hjob kjob hkjob hreleased b hb hbefore
  apply HasSucceeded.updateKJob hget hkey hstatus
  rcases getKJob_replaced hget hkey hkjob with ⟨rfl, hold⟩ | hkept
  · exact hnew job hjob hold hreleased b hb hbefore
  · exact hgated job hjob kjob hkept hreleased b hb hbefore

/-- Gating survives the creation of a job that is not released too early. -/
theorem Gated.createKJob (hgated : Gated lib run c) {kjob : KJob}
    (hnew : ∀ job ∈ run.spec.jobs, kjob.name = kjobNameOf lib run job →
      kjob.suspend = false → BeforeSucceeded lib run c job) :
    Gated lib run (c.createKJob kjob) := by
  intro job hjob found hfound hreleased b hb hbefore
  apply HasSucceeded.createKJob
  rw [Option.mem_def, Cluster.getKJob_createKJob, Option.or_eq_some_iff] at hfound
  rcases hfound with hkept | ⟨-, hcreated⟩
  · exact hgated job hjob found hkept hreleased b hb hbefore
  · split at hcreated
    · next hkey =>
        cases hcreated
        exact hnew job hjob (Prod.mk.inj hkey).2.symm hreleased b hb hbefore
    · cases hcreated

/-- Good order of the store is about its jobs only. -/
theorem Labelled.congr {c' : Cluster} (hlab : Labelled lib run c)
    (hkjobs : c'.kjobs = c.kjobs) : Labelled lib run c' where
  keys := by
    rw [hkjobs]
    exact hlab.keys
  label_iff := by
    rw [hkjobs]
    exact hlab.label_iff

/-- Creating the missing job of a job of the run. -/
theorem Labelled.createKJob (hrun : WellFormed run) (hlab : Labelled lib run c)
    {job : Job} (hjob : job ∈ run.spec.jobs) {kjob : KJob} (hdesired : Desired lib run job kjob)
    (hmissing : c.getKJob kjob.ns kjob.name = none) :
    Labelled lib run (c.createKJob kjob) := by
  refine
    { keys := ?_
      label_iff := ?_ }
  · exact keyed_createKJob hlab.keys hmissing
  · intro k hk other hother hkns
    rcases List.mem_append.mp hk with hk | hk
    · exact hlab.label_iff k hk other hother hkns
    · have hnew : k = kjob := by simpa using hk
      rw [hnew, hdesired.runJobName, hdesired.name]
      constructor
      · intro hname
        rw [hrun.names.eq_of_key hjob hother hname]
      · intro hname
        exact (getShortHashPostFix_inj hname).1

/-- The owner reference is not part of what a run desires. -/
theorem desired_withOwner {job : Job} {kjob : KJob} (hdesired : Desired lib run job kjob)
    (owner : Option OwnerReference) : Desired lib run job { kjob with owner := owner } := by
  obtain ⟨hname, hns, hrunName, hrunJobName, htrigger, hstatus, hsuspend, hcounts⟩ := hdesired
  constructor <;> assumption

/-- A store without jobs of the run is in good order. -/
theorem Fresh.labelled (hfresh : Fresh lib run c) : Labelled lib run c where
  keys := hfresh.keys
  label_iff := by
    intro kjob hmem job hjob hns
    obtain ⟨hlabel, hname⟩ := hfresh.label kjob hmem hns job hjob
    simp [hlabel, hname]

end Store

/-! ## The invariant -/

/-- Besides gating, the jobs of the run carry their labels, and whatever is
recorded as completed has succeeded. -/
structure Released (lib : Externals) (run : Run) (s : RunWorld) : Prop
    extends Tracked lib run s where
  labelled : Labelled lib run s.cluster
  completed : ∀ job ∈ run.spec.jobs,
    ∀ kjob ∈ s.cluster.getKJob run.ns (kjobNameOf lib run job),
      kjob.recorded = .completed → kjob.status.Succeeded
  gated : Gated lib run s.cluster

section Invariant

variable {lib : Externals} {run : Run} {s t : RunWorld}

theorem Released.init (h : (runMachine lib run).init s) : Released lib run s := by
  have hnone : ∀ job ∈ run.spec.jobs,
      s.cluster.getKJob run.ns (kjobNameOf lib run job) = none := by
    intro job hjob
    cases hget : s.cluster.getKJob run.ns (kjobNameOf lib run job) with
    | none => rfl
    | some kjob =>
        obtain ⟨hmem, hns, hname⟩ := Cluster.mem_of_getKJob hget
        exact absurd hname (h.1.label kjob hmem hns job hjob).2
  refine
    { toTracked := Tracked.init h
      labelled := h.1.labelled
      completed := ?_
      gated := ?_ }
  · intro job hjob kjob hkjob
    rw [hnone job hjob] at hkjob
    cases hkjob
  · intro job hjob kjob hkjob
    rw [hnone job hjob] at hkjob
    cases hkjob

/-- An update in time releases a job only after the jobs before it. -/
private theorem before_of_update (hinv : Released lib run s) {job : Job} {currentKjob : KJob}
    (hintime : UpdatedInTime run s.cluster job currentKjob)
    (hreleased : isSuspending s.cluster run.ns currentKjob.annotations.trigger job.runBefore =
      .ok false) : BeforeSucceeded lib run s.cluster job := by
  have hdone := isSuspending_eq_false hreleased
  intro b hb hbefore
  obtain ⟨htrigger, before, rest, hlist, hstate⟩ := hdone b.name hbefore
  have hlisted : before ∈ s.cluster.listKJobs run.ns b.name := by simp [hlist]
  have hget := hinv.labelled.getKJob_of_listed hb hlisted
  refine ⟨before, hget, ?_⟩
  rcases hstate with hcompleted | hdeleted
  · exact hinv.completed b hb before hget hcompleted
  · rcases hintime with hset | ⟨b', hb', hheld⟩ | hgood
    · exact absurd hset htrigger
    · -- The loop has found this predecessor done as well.
      obtain ⟨-, before', rest', hlist', hstate'⟩ := hdone b' hb'
      obtain ⟨hnot, hnot'⟩ := hheld before' (by simp [hlist'])
      rcases hstate' with hstate' | hstate'
      · exact absurd hstate' hnot
      · exact absurd hstate' hnot'
    · exact hgood b.name hbefore before hlisted hdeleted

/-- The condition on a step that processes the job of a given job. -/
private theorem inTime_process (hrun : WellFormed run) {job : Job} (hjob : job ∈ run.spec.jobs)
    {desiredkjob : KJob} {todo : List KJob} (hphase : s.phase = .ensuring (desiredkjob :: todo))
    (hdesired : Desired lib run job desiredkjob) (hintime : InTime lib run s .process) :
    match s.cluster.getKJob desiredkjob.ns desiredkjob.name with
    | none => CreatedInTime lib run s.cluster job
    | some currentKjob => UpdatedInTime run s.cluster job currentKjob := by
  simp only [InTime, RunWorld.OnProcess, hphase, hdesired.runJobName, hrun.selfJobOf hjob]
    at hintime
  exact hintime

/-- The names of the kubernetes jobs tell the jobs of the run apart. -/
private theorem job_of_name (hrun : WellFormed run) {job other : Job}
    (hjob : job ∈ run.spec.jobs) (hother : other ∈ run.spec.jobs)
    (hname : kjobNameOf lib run job = kjobNameOf lib run other) : other = job :=
  (hrun.names.eq_of_key hjob hother (getShortHashPostFix_inj hname).1).symm

/-- Replacing a job keeps the invariant, if the new job keeps a success, is
not recorded as completed without one, and is not released too early. -/
private theorem replaced_step (hinv : Released lib run s) (htracked : Tracked lib run t)
    {ns name : String} {old updated : KJob} (hget : s.cluster.getKJob ns name = some old)
    (hcluster : t.cluster = s.cluster.updateKJob updated)
    (hkey : kjobKey updated = kjobKey old) (hlabels : updated.labels = old.labels)
    (hstatus : old.status.Succeeded → updated.status.Succeeded)
    (hcompleted : ∀ job ∈ run.spec.jobs,
      s.cluster.getKJob run.ns (kjobNameOf lib run job) = some old →
      updated.recorded = .completed → updated.status.Succeeded)
    (hreleased : ∀ job ∈ run.spec.jobs,
      s.cluster.getKJob run.ns (kjobNameOf lib run job) = some old →
      updated.suspend = false → BeforeSucceeded lib run s.cluster job) :
    Released lib run t := by
  refine
    { toTracked := htracked
      labelled := ?_
      completed := ?_
      gated := ?_ }
  · rw [hcluster]
    exact hinv.labelled.updateKJob (Cluster.mem_of_getKJob hget).1 hkey hlabels
  · intro job hjob kjob hkjob hstate
    rw [hcluster] at hkjob
    rcases getKJob_replaced hget hkey hkjob with ⟨rfl, hold⟩ | hkept
    · exact hcompleted job hjob hold hstate
    · exact hinv.completed job hjob kjob hkept hstate
  · rw [hcluster]
    exact hinv.gated.updateKJob hget hkey hstatus hreleased

/-- The invariant looks at the stored jobs only. -/
private theorem Released.congr (hinv : Released lib run s) (htracked : Tracked lib run t)
    (hkjobs : t.cluster.kjobs = s.cluster.kjobs) : Released lib run t := by
  have hget : ∀ ns name, t.cluster.getKJob ns name = s.cluster.getKJob ns name := by
    intro ns name
    simp only [Cluster.getKJob, hkjobs]
  refine
    { toTracked := htracked
      labelled := hinv.labelled.congr hkjobs
      completed := ?_
      gated := ?_ }
  · simpa only [hget] using hinv.completed
  · simpa only [Gated, BeforeSucceeded, HasSucceeded, hget] using hinv.gated

/-- Creating a job in time keeps the invariant. -/
private theorem created_step (hrun : WellFormed run) (hinv : Released lib run s)
    (htracked : Tracked lib run t) {job : Job} {desiredkjob : KJob} (hjob : job ∈ run.spec.jobs)
    (hdesired : Desired lib run job desiredkjob)
    (hmissing : s.cluster.getKJob desiredkjob.ns desiredkjob.name = none)
    (hcluster : t.cluster =
      s.cluster.createKJob { desiredkjob with owner := some ⟨.run, run.name⟩ })
    (hcreated : CreatedInTime lib run s.cluster job) : Released lib run t := by
  refine
    { toTracked := htracked
      labelled := ?_
      completed := ?_
      gated := ?_ }
  · rw [hcluster]
    exact hinv.labelled.createKJob hrun hjob (desired_withOwner hdesired _) hmissing
  · -- The new job has nothing recorded yet.
    intro other hother kjob hkjob hstate
    rw [Option.mem_def, hcluster, Cluster.getKJob_createKJob, Option.or_eq_some_iff] at hkjob
    rcases hkjob with hkept | ⟨-, hnew⟩
    · exact hinv.completed other hother kjob hkept hstate
    · split at hnew
      · cases hnew
        rw [KJob.recorded, hdesired.status] at hstate
        exact absurd hstate (by decide)
      · cases hnew
  · rw [hcluster]
    apply hinv.gated.createKJob
    intro other hother hname hreleased
    rw [job_of_name hrun hjob hother (hdesired.name.symm.trans hname)]
    rcases hcreated with htrigger | hbefore
    · have hsuspend : desiredkjob.suspend = false := hreleased
      rw [hdesired.suspend, htrigger] at hsuspend
      cases hsuspend
    · exact hbefore

/-- One step in time keeps the invariant. -/
theorem Released.step (hrun : WellFormed run) (hinv : Released lib run s) {a : RunAction}
    (hintime : InTime lib run s a) (hstep : s.step lib run a = some t) :
    Released lib run t := by
  have htracked := hinv.toTracked.step hstep
  cases RunWorld.step_effect hinv.toTracked hstep with
  | quiet hkjobs => exact hinv.congr htracked hkjobs
  | created hjob hphase hdesired hmissing hcluster =>
      have hcreated := inTime_process hrun hjob hphase hdesired hintime
      simp only [hmissing] at hcreated
      exact created_step hrun hinv htracked hjob hdesired hmissing hcluster hcreated
  | @updated job desiredkjob currentKjob todo suspending hjob hphase hdesired hget hsuspending
      hcluster =>
      have hupdated := inTime_process hrun hjob hphase hdesired hintime
      simp only [hget] at hupdated
      obtain ⟨hmem, hkns, hkname⟩ := Cluster.mem_of_getKJob hget
      apply replaced_step hinv htracked hget hcluster (kjobKey_updatedKJob _ _ _ _)
        (labels_updatedKJob _ _ _ _) id
      · intro _ _ _ hstate
        rw [recorded_updatedKJob] at hstate
        rw [status_updatedKJob]
        exact succeeded_of_completed hstate
      · intro other hother hold hreleased
        have hfalse : suspending = false := hreleased
        have hns := hkns.trans (hdesired.ns.trans (hrun.ns_eq job hjob))
        have hname := hkname.trans hdesired.name
        have hlabel := (hinv.labelled.label_iff currentKjob hmem job hjob hns).mpr hname
        rw [hfalse, hlabel, hrun.selfJobOf hjob, hrun.ns_eq job hjob] at hsuspending
        rw [job_of_name hrun hjob hother (hname.symm.trans (Cluster.mem_of_getKJob hold).2.2)]
        exact before_of_update hinv hupdated hsuspending
  | @reported _ _ kjob _ hget hcounts hcluster =>
      apply replaced_step hinv htracked hget hcluster rfl rfl hcounts
      · intro other hother hold hstate
        exact hcounts (hinv.completed other hother kjob hold hstate)
      · intro other hother hold hreleased
        exact hinv.gated other hother kjob hold hreleased
  | @marked _ _ kjob _ hget hcluster =>
      apply replaced_step hinv htracked hget hcluster rfl rfl id
      · intro other hother hold hstate
        exact hinv.completed other hother kjob hold hstate
      · intro other hother hold hreleased
        exact hinv.gated other hother kjob hold hreleased
  | wrote hcluster => exact hinv.congr htracked (by rw [hcluster])

/-- Dependency gating holds in every state that is reached by steps in time,
in whatever order the reconciles and the cluster take theirs. -/
theorem gated_of_reach (hrun : WellFormed run)
    (h : (runMachine lib run).Reach (InTime lib run) s) : Gated lib run s.cluster := by
  have hinv : Released lib run s :=
    h.invariant (fun _ hinit => Released.init hinit)
      fun _ _ _ hinv hintime hstep => hinv.step hrun hintime hstep
  exact hinv.gated

end Invariant

/-! ## A run that is gated, and one that is not -/

/-- Two reconciles of the chain; between them nothing happens. -/
def twoReconciles : List RunAction :=
  [.begin, .process, .process, .process, .updateStatus 0,
    .begin, .process, .process, .process]

/-- With their trigger set both jobs are created suspended.  The update then
releases the one that has nothing before it. -/
def triggeredWorld : RunWorld :=
  ((runMachine Externals.plain (chainRun "true")).exec (InTime Externals.plain (chainRun "true"))
    {} twoReconciles).getD {}

theorem gated_of_reach_triggered :
    Gated Externals.plain (chainRun "true") triggeredWorld.cluster := by
  have hinit : (runMachine Externals.plain (chainRun "true")).init {} :=
    ⟨fresh_empty _ _, rfl, rfl⟩
  have hexec : (runMachine Externals.plain (chainRun "true")).exec
      (InTime Externals.plain (chainRun "true")) {} twoReconciles = some triggeredWorld := by
    decide +kernel
  exact gated_of_reach (chainRun_wellFormed "true") (Machine.reach_of_exec _ hinit hexec)

/-- Without a trigger the job listed first is created unsuspended, before the
job that it waits for exists. -/
def untriggeredWorld : RunWorld :=
  ((runMachine Externals.plain (chainRun "false")).exec (fun _ _ => True)
    {} [.begin, .process]).getD {}

theorem untriggered_not_gated :
    WellFormed (chainRun "false") ∧
      (runMachine Externals.plain (chainRun "false")).Reachable untriggeredWorld ∧
      ¬ Gated Externals.plain (chainRun "false") untriggeredWorld.cluster := by
  have hinit : (runMachine Externals.plain (chainRun "false")).init {} :=
    ⟨fresh_empty _ _, rfl, rfl⟩
  have hexec : (runMachine Externals.plain (chainRun "false")).exec (fun _ _ => True) {}
      [.begin, .process] = some untriggeredWorld := by
    decide +kernel
  exact ⟨chainRun_wellFormed "false", Machine.reach_of_exec _ hinit hexec, by decide +kernel⟩

end PipelineOperator.Controller
