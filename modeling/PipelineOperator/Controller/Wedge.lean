import PipelineOperator.Controller.Completion
import PipelineOperator.Controller.ScheduleCount

/-!
# What lifts the guard

While an execution is running, `ensureScheduleExecution` returns early: a start
date has been recorded and no end date.  The only thing that sets the end date
is the reconcile of a run whose jobs have all been recorded as ended.  The
guard is in force for good when no such run is left.

The machine here puts the two controllers together over one store: the
pipeline with its schedule and goroutines, and any number of runs with their
kubernetes jobs.  Users create and delete runs, and the cluster collects the
kubernetes jobs of a run with it.  A reconcile of a run is one step, which may
be broken off at any of its kubernetes jobs, and which ends with the attempts
to write the status; a pass that meets an error is one that is broken off
there.  Runs created by executions are remembered by their names as long as
they are stored; nothing in the code reads that.

## Main results

* `reconcile_is_step`: the reconciles of a run are steps.
* `Coherent.step`: kubernetes jobs belong to stored runs.
* `ExecutionLeft.step`: the steps that keep an unfinished execution.
* `guard_liftable`: in runs of such steps one is left while the guard is in
  force.
* `wedged_by_deletion`: the deletion of a run can leave none.
-/

namespace PipelineOperator.Controller

open PipelineOperator.Lib
open PipelineOperator.Api

/-! ## States and steps -/

/-- The schedule with the runs and kubernetes jobs, and the names of the stored
runs that executions have created. -/
structure GuardWorld where
  schedule : ScheduleWorld
  executions : List String := []
  deriving Repr, DecidableEq

namespace GuardWorld

abbrev pipeline (s : GuardWorld) : Pipeline := s.schedule.pipeline.val

abbrev status (s : GuardWorld) : PipelineStatus := s.schedule.status

abbrev runs (s : GuardWorld) : RunStore := s.schedule.runs

abbrev cluster (s : GuardWorld) : Cluster := s.schedule.cluster

end GuardWorld

/-- A reconcile of a run: the number of jobs that its pass gets to, and the
attempts to write the status when it gets to all of them. -/
structure RunPass where
  ns : String
  name : String
  entries : Nat
  attempts : Nat → StatusAttempt

/-- The steps.  Those of the schedule are the reconciles of the pipeline, its
goroutines and the edits of its spec; `createRun` is any other creation of a
run; `writeRun` writes what the first stages of a reconcile of a run write on
it; and the cluster changes counters, deletion marks and pods. -/
inductive GuardAction where
  | schedule (a : ScheduleAction)
  | createRun (run : Run)
  | writeRun (ns name : String) (volumes : List VolumeResource) (status : RunStatus)
  | reconcileRun (pass : RunPass)
  | deleteRun (ns name : String)
  | report (ns name : String) (counts : JobStatus) (deletionTimestamp : Option Time)
  | setPods (pods : List Pod)

/-- The steps of the schedule's own machine that stand for runs and their
reconciles. -/
def ScheduleAction.ofRuns : ScheduleAction → Bool
  | .finishRun _ _ | .setRuns _ | .setKJobs _ => true
  | _ => false

/-- The names of the runs that a step of the schedule has created. -/
def createdNames (before after : ScheduleWorld) : List String :=
  (after.runs.drop before.runs.length).map Run.name

/-- What the first stages of a reconcile write on a run. -/
def writtenRun (volumes : List VolumeResource) (status : RunStatus) (run : Run) : Run :=
  { run with
    labels := { run.labels with runName := run.name }
    spec := { run.spec with volumes := volumes }
    status := status }

namespace GuardWorld

/-- The store after the attempts to write a status. -/
def withStore (s : GuardWorld) (store : StatusStore) : GuardWorld :=
  match getPipeline store.pipelines s.pipeline.ns s.pipeline.name with
  | none => { s with schedule := { s.schedule with runs := store.runs } }
  | some pipeline =>
      { s with schedule := { s.schedule.writeStatus pipeline.status with runs := store.runs } }

/-- The end of a reconcile that has got to all jobs.  Only this pipeline is
stored, so the run of another one has its status written by `writeRun`. -/
def updateStatus (lib : Externals) (s : GuardWorld) (run : Run)
    (attempts : Nat → StatusAttempt) : GuardWorld :=
  s.withStore (updateRunStatus lib run s.cluster attempts
    { runs := s.runs, pipelines := [s.pipeline] }).1.store

/-- A reconcile of a stored run. -/
def passRun (lib : Externals) (s : GuardWorld) (run : Run) (pass : RunPass) :
    Option GuardWorld :=
  match constructKjobListFromRun lib run with
  | .error _ => none
  | .ok kjobList =>
      match ensureKJobs run (kjobList.take pass.entries) s.cluster with
      | (_, .error _) => none
      | (cluster, .ok ()) =>
          let next := { s with schedule := { s.schedule with cluster := cluster } }
          if run.spec.jobs.length ≤ pass.entries then
            some (next.updateStatus lib run pass.attempts)
          else some next

/-- A run is deleted, with the kubernetes jobs that it owns. -/
def deleteRun (s : GuardWorld) (ns name : String) : GuardWorld where
  schedule := { s.schedule with
    runs := s.runs.filter fun run => ¬ (run.ns = ns ∧ run.name = name)
    cluster := { s.cluster with
      kjobs := s.cluster.kjobs.filter fun kjob =>
        ¬ (kjob.ns = ns ∧ kjob.owner = some ⟨.run, name⟩) } }
  executions :=
    if ns = s.pipeline.ns then s.executions.filter fun other => other ≠ name else s.executions

def step (lib : Externals) (s : GuardWorld) : GuardAction → Option GuardWorld
  | .schedule a =>
      if a.ofRuns then none
      else (s.schedule.step lib a).map fun next =>
        { schedule := next, executions := s.executions ++ createdNames s.schedule next }
  | .createRun run =>
      if run.ns ≠ "" ∧ (getRun s.runs run.ns run.name).isNone then
        some { s with schedule := { s.schedule with runs := s.runs ++ [run] } }
      else none
  | .writeRun ns name volumes status =>
      some { s with schedule := { s.schedule with
        runs := s.runs.map fun run =>
          if run.ns = ns ∧ run.name = name then writtenRun volumes status run else run } }
  | .reconcileRun pass =>
      (getRun s.runs pass.ns pass.name).bind fun run => s.passRun lib run pass
  | .deleteRun ns name => some (s.deleteRun ns name)
  | .report ns name counts deletionTimestamp =>
      (s.cluster.getKJob ns name).map fun kjob =>
        { s with schedule := { s.schedule with
          cluster := s.cluster.updateKJob
            { kjob with status := counts, deletionTimestamp := deletionTimestamp } } }
  | .setPods pods =>
      some { s with schedule := { s.schedule with cluster := { s.cluster with pods := pods } } }

end GuardWorld

/-- The machine of the guard: at the start nothing is running, and no runs are
stored. -/
def guardMachine (lib : Externals) : Machine GuardWorld GuardAction where
  init s := s.pipeline.ns ≠ "" ∧ ¬ GuardInForce s.status ∧ s.schedule.goroutines = [] ∧
    s.runs = [] ∧ s.cluster.kjobs = [] ∧ s.executions = []
  step := GuardWorld.step lib

/-! ## What has to be left -/

/-- An execution of the pipeline has created the run. -/
def GuardWorld.Executed (s : GuardWorld) (run : Run) : Prop :=
  run.ns = s.pipeline.ns ∧ run.name ∈ s.executions

instance (s : GuardWorld) (run : Run) : Decidable (s.Executed run) := by
  unfold GuardWorld.Executed
  infer_instance

/-- A run of an execution is stored that is not finished. -/
def ExecutionLeft (s : GuardWorld) : Prop :=
  ∃ run ∈ s.runs, s.Executed run ∧ Unfinished s.cluster run

instance (s : GuardWorld) : Decidable (ExecutionLeft s) := by
  unfold ExecutionLeft
  infer_instance

/-! ## The conditions -/

/-- A reconcile of a run leaves an unfinished execution or lifts the guard: a
job of an execution has not ended or is not visited, or the run is itself of an
execution, with jobs of different names, and the reconcile gets to its end
without a conflict at its first write on the pipeline. -/
def LeavesExecution (lib : Externals) (s : GuardWorld) (pass : RunPass) (run : Run) : Prop :=
  (∃ other ∈ s.runs, s.Executed other ∧
    StaysUnfinished lib s.cluster run pass.entries other) ∨
  (s.Executed run ∧ Keyed Job.name run.spec.jobs ∧ run.spec.jobs.length ≤ pass.entries ∧
    (pass.attempts 0).pipelineConflict = false)

instance (lib : Externals) (s : GuardWorld) (pass : RunPass) (run : Run) :
    Decidable (LeavesExecution lib s pass run) := by
  unfold LeavesExecution Keyed
  infer_instance

namespace GuardAction

/-- The goroutine of a status write, the run that is deleted, and the reconcile
of a run. -/
def recorder : GuardAction → Option Nat
  | .schedule a => a.recorder
  | _ => none

def deleted : GuardAction → Option (String × String)
  | .deleteRun ns name => some (ns, name)
  | _ => none

def pass : GuardAction → Option RunPass
  | .reconcileRun pass => some pass
  | _ => none

end GuardAction

/-- The step keeps an unfinished execution for the guard.  An execution is
recorded only while one is left; and while the guard is in force, the run that
is deleted is not the last of them, and a reconcile that could finish the last
of them lifts the guard. -/
def KeepsExecution (lib : Externals) (s : GuardWorld) (a : GuardAction) : Prop :=
  (∀ i ∈ a.recorder, Refused s.schedule i ∨ ExecutionLeft s) ∧
  (¬ GuardInForce s.status ∨
    ((∀ key ∈ a.deleted, ∃ run ∈ s.runs, s.Executed run ∧ runKey run ≠ key ∧
      Unfinished s.cluster run) ∧
    ∀ pass ∈ a.pass, ∀ run ∈ getRun s.runs pass.ns pass.name, LeavesExecution lib s pass run))

instance (lib : Externals) (s : GuardWorld) (a : GuardAction) :
    Decidable (KeepsExecution lib s a) := by
  unfold KeepsExecution
  infer_instance

/-! ## Reconciles are steps -/

/-- A pass leaves what is left by one that is broken off where it meets an
error. -/
theorem ensureKJobs_brokenOff (run : Run) (todo : List KJob) (c : Cluster) :
    ∃ entries, ensureKJobs run (todo.take entries) c = ((ensureKJobs run todo c).1, .ok ()) ∧
      (todo.length ≤ entries ↔ (ensureKJobs run todo c).2 = .ok ()) := by
  induction todo generalizing c with
  | nil => exact ⟨0, rfl, by simp [ensureKJobs]⟩
  | cons desiredkjob todo ih =>
      cases hstep : ensureKJob run c desiredkjob with
      | error e => exact ⟨0, by simp [ensureKJobs, hstep], by simp [ensureKJobs, hstep]⟩
      | ok next =>
          obtain ⟨entries, hpass, hall⟩ := ih next
          refine ⟨entries + 1, ?_, ?_⟩
          · rw [List.take_succ_cons, ensureKJobs, ensureKJobs, hstep]
            exact hpass
          · rw [ensureKJobs, hstep, List.length_cons, Nat.add_le_add_iff_right]
            exact hall

/-- A reconcile of a run is a step, however its pass ends. -/
theorem reconcile_is_step (lib : Externals) {s : GuardWorld} {ns name : String} {run : Run}
    (hget : getRun s.runs ns name = some run) {kjobList : List KJob}
    (hlist : constructKjobListFromRun lib run = .ok kjobList) (attempts : Nat → StatusAttempt) :
    ∃ entries, s.step lib (.reconcileRun ⟨ns, name, entries, attempts⟩) =
      let next := { s with schedule := { s.schedule with
        cluster := (ensureKJobList lib run s.cluster).1 } }
      if (ensureKJobList lib run s.cluster).2 = .ok () then
        some (next.updateStatus lib run attempts)
      else some next := by
  have hlength : kjobList.length = run.spec.jobs.length :=
    (constructKjobListFromRun_desired hlist).length_eq.symm
  have hpass : ensureKJobList lib run s.cluster = ensureKJobs run kjobList s.cluster := by
    rw [ensureKJobList, hlist]
  obtain ⟨entries, hbroken, hall⟩ := ensureKJobs_brokenOff run kjobList s.cluster
  rw [hlength] at hall
  refine ⟨entries, ?_⟩
  simp only [GuardWorld.step, hget, Option.bind_some, GuardWorld.passRun, hlist, hbroken, hpass,
    hall]

/-! ## What the steps of the schedule do -/

section Schedule

variable {lib : Externals} {s t : ScheduleWorld} {a : ScheduleAction}

/-- The step leaves the name of the pipeline, the runs and the jobs. -/
structure SameStore (s t : ScheduleWorld) : Prop where
  ns : t.pipeline.val.ns = s.pipeline.val.ns
  name : t.pipeline.val.name = s.pipeline.val.name
  runs : t.runs = s.runs
  cluster : t.cluster = s.cluster

theorem SameStore.writeStatus (s : ScheduleWorld) (status : PipelineStatus) :
    SameStore s (s.writeStatus status) where
  ns := by simp [ScheduleWorld.writeStatus]
  name := by simp [ScheduleWorld.writeStatus]
  runs := rfl
  cluster := rfl

theorem SameStore.applyOutcome (s : ScheduleWorld) (now : Time) (outcome : ScheduleOutcome) :
    SameStore s (s.applyOutcome now outcome) := by
  cases outcome with
  | quiet | requeued | failed | panicked => exact ⟨rfl, rfl, rfl, rfl⟩
  | untouched => exact .writeStatus s _
  | removed status | emptied status | pendingCleared status | armed status =>
      have hwrite := SameStore.writeStatus s status
      exact ⟨hwrite.ns, hwrite.name, rfl, rfl⟩

/-- What a step does to the runs: nothing, or a goroutine has created one. -/
inductive RunsEffect (lib : Externals) (s t : ScheduleWorld) : Prop where
  | same (hsame : SameStore s t)
  | created {g : Goroutine} {read : Versioned Pipeline} {address : Nat} {run : Run}
      (hg : g ∈ s.goroutines) (hread : read ∈ g.phase.read)
      (hrun : constructRunFromPipeline lib address read.val = .ok run)
      (hfree : s.hasRun run = false) (hpipeline : t.pipeline = s.pipeline)
      (hruns : t.runs = s.runs ++ [run]) (hcluster : t.cluster = s.cluster) : RunsEffect lib s t

theorem ScheduleWorld.step_runs (hof : a.ofRuns = false) (hstep : s.step lib a = some t) :
    RunsEffect lib s t := by
  cases a with
  | finishRun | setRuns | setKJobs => cases hof
  | edit spec =>
      cases hstep
      exact .same ⟨by simp, by simp, rfl, rfl⟩
  | touch =>
      cases hstep
      exact .same ⟨rfl, rfl, rfl, rfl⟩
  | countRuns now =>
      cases hstep
      exact .same (.writeStatus s _)
  | reconcile now accepted =>
      simp only [ScheduleWorld.step] at hstep
      split at hstep
      · cases hstep
        exact .same (.applyOutcome s now _)
      · cases hstep
        exact .same ⟨rfl, rfl, rfl, rfl⟩
  | wake i =>
      simp only [ScheduleWorld.step] at hstep
      split at hstep
      · split at hstep
        · cases hstep
          exact .same ⟨rfl, rfl, rfl, rfl⟩
        · cases hstep
          exact .same ⟨rfl, rfl, rfl, rfl⟩
      · cases hstep
  | create i address now =>
      simp only [ScheduleWorld.step] at hstep
      split at hstep
      · next copy read hg =>
          split at hstep
          · cases hstep
            exact .same ⟨rfl, rfl, rfl, rfl⟩
          · split at hstep
            · cases hstep
              exact .same ⟨rfl, rfl, rfl, rfl⟩
            · next run hrun =>
                split at hstep
                · cases hstep
                  exact .same ⟨rfl, rfl, rfl, rfl⟩
                · next hfree =>
                    cases hstep
                    exact .created (List.mem_of_getElem? hg) rfl hrun (by simpa using hfree) rfl
                      rfl rfl
      · cases hstep
  | breakOff i =>
      simp only [ScheduleWorld.step] at hstep
      split at hstep
      · cases hstep
        exact .same ⟨rfl, rfl, rfl, rfl⟩
      · cases hstep
        exact .same ⟨rfl, rfl, rfl, rfl⟩
      · cases hstep
  | record i =>
      simp only [ScheduleWorld.step] at hstep
      split at hstep
      · next copy read now hg =>
          split at hstep
          · cases hstep
            have hwrite := SameStore.writeStatus s (recordedStatus now read.val.status)
            exact .same ⟨hwrite.ns, hwrite.name, rfl, rfl⟩
          · cases hstep
            exact .same ⟨rfl, rfl, rfl, rfl⟩
      · cases hstep

/-- Only a status write that is accepted brings the guard in force. -/
theorem ScheduleEffect.guard_before (h : ScheduleEffect lib s t a)
    (hguard : GuardInForce t.status) :
    GuardInForce s.status ∨ ∃ i, a = .record i ∧ ¬ Refused s i := by
  cases h with
  | kept hfields _ _ _ _ _ =>
      left
      exact (guardInForce_of_fields hfields).mp hguard
  | removed _ _ ht =>
      subst ht
      simp [GuardInForce, removedStatus] at hguard
  | cleared hcleared ht =>
      subst ht
      left
      rw [status_addEvent, status_writeStatus] at hguard
      exact hcleared.guardInForce.mp hguard
  | @armed now schedule status duration _ hpass hnot _ _ ht =>
      subst ht
      exfalso
      rw [GuardInForce] at hguard
      simp only [ScheduleWorld.applyOutcome, ScheduleWorld.status, ScheduleWorld.addEvent,
        ScheduleWorld.writeStatus, Versioned.write_val, armedStatus, resetStatus] at hguard
      split at hguard
      · simp at hguard
      · exact hnot hguard
  | ended _ ht =>
      subst ht
      simp [GuardInForce] at hguard
  | stopped _ _ ht | passed _ _ ht | created _ _ _ ht | refused _ _ ht =>
      subst ht
      exact Or.inl hguard
  | @recorded i now copy read hg hversion ht =>
      right
      refine ⟨i, rfl, ?_⟩
      rintro ⟨g, hmem, -, other, hother, hne⟩
      rw [hg] at hmem
      cases hmem
      cases hother
      exact hne hversion

/-- What a goroutine acts upon it has acted upon before, or it is what is
stored. -/
theorem ScheduleEffect.read_before (h : ScheduleEffect lib s t a) {g : Goroutine}
    (hg : g ∈ t.goroutines) {read : Versioned Pipeline} (hread : read ∈ g.phase.read) :
    (∃ before ∈ s.goroutines, read ∈ before.phase.read) ∨ read = t.pipeline := by
  cases h.goroutines with
  | same hsame => exact Or.inl ⟨g, hsame ▸ hg, hread⟩
  | started copy _ hstarted =>
      rw [hstarted] at hg
      rcases List.mem_append.mp hg with hold | hnew
      · exact Or.inl ⟨g, hold, hread⟩
      · rw [List.mem_singleton] at hnew
        subst hnew
        cases hread
  | moved i before phase hmoves =>
      rw [hmoves.after] at hg
      rcases List.mem_or_eq_of_mem_set hg with hold | rfl
      · exact Or.inl ⟨g, hold, hread⟩
      · rcases hmoves.reads read hread with hkept | ⟨hcurrent, -⟩
        · exact Or.inl ⟨before, List.mem_of_getElem? hmoves.before, hkept⟩
        · exact Or.inr hcurrent

end Schedule

/-! ## Whose kubernetes jobs they are -/

theorem keyed_of_cores {before after : RunStore}
    (hcores : after.map runCore = before.map runCore) (hkeys : Keyed runKey before) :
    Keyed runKey after :=
  hkeys.of_map_eq hcores (fun core => (core.ns, core.name)) fun _ => rfl

section Congr

variable {lib : Externals} {run run' : Run} {c c' : Cluster}

theorem Belongs.congr (hcore : runCore run' = runCore run) {kjob : KJob}
    (hbelongs : Belongs lib run kjob) : Belongs lib run' kjob := by
  obtain ⟨hns, hname, -, hjobs⟩ := RunCore.mk.inj hcore
  have hkjobName : kjobNameOf lib run' = kjobNameOf lib run := by
    funext job
    rw [kjobNameOf, kjobNameOf, hname, hns]
  refine ⟨?_, ?_, ?_, ?_⟩
  · rw [hns, hbelongs.ns]
  · rw [hname, hbelongs.runName]
  · rw [hname, hbelongs.owner]
  · rw [hjobs, hkjobName]
    exact hbelongs.job

/-- What is written on a kubernetes job leaves it with its run. -/
theorem Belongs.kept {kjob old : KJob} (hbelongs : Belongs lib run old)
    (hkey : kjobKey kjob = kjobKey old) (hlabels : kjob.labels = old.labels)
    (howner : kjob.owner = old.owner) : Belongs lib run kjob := by
  obtain ⟨hns, hname⟩ := Prod.mk.inj hkey
  refine ⟨?_, ?_, ?_, ?_⟩
  · rw [hns, hbelongs.ns]
  · rw [hlabels, hbelongs.runName]
  · rw [howner, hbelongs.owner]
  · rw [hlabels, hname]
    exact hbelongs.job

theorem Unfinished.congr (hcore : runCore run' = runCore run) (hopen : Unfinished c run) :
    Unfinished c run' := by
  obtain ⟨hns, hname, -, hjobs⟩ := RunCore.mk.inj hcore
  rw [Unfinished, hns, hname, hjobs]
  exact hopen

/-- A run stays unfinished when kubernetes jobs are only removed, or changed in
what is not recorded on them. -/
theorem Unfinished.frame (hopen : Unfinished c run)
    (hkjobs : ∀ kjob ∈ c'.kjobs, ∃ old ∈ c.kjobs, kjob.ns = old.ns ∧
      kjob.labels = old.labels ∧ kjob.annotations = old.annotations) :
    Unfinished c' run := by
  obtain ⟨job, hjob, hall⟩ := hopen
  refine ⟨job, hjob, ?_⟩
  intro kjob hkjob
  obtain ⟨hmem, hlisted⟩ := List.mem_filter.mp hkjob
  obtain ⟨old, hold, hns, hlabels, hannotations⟩ := hkjobs kjob hmem
  have holdListed : old ∈ c.listRunKJobs run.ns run.name := by
    refine List.mem_filter.mpr ⟨hold, ?_⟩
    rw [decide_eq_true_eq] at hlisted ⊢
    rw [← hns, ← hlabels]
    exact hlisted
  rw [KJob.recorded, hlabels, hannotations]
  exact hall old holdListed

end Congr

/-- The store is as the controllers keep it: keys are different, kubernetes jobs
belong to stored runs, the remembered runs are stored and are those of the
pipeline, and so is what the goroutines have read. -/
structure Coherent (lib : Externals) (s : GuardWorld) : Prop where
  runKeys : Keyed runKey s.runs
  kjobKeys : Keyed kjobKey s.cluster.kjobs
  namespaced : s.pipeline.ns ≠ "" ∧ ∀ run ∈ s.runs, run.ns ≠ ""
  belongs : ∀ kjob ∈ s.cluster.kjobs, ∃ run ∈ s.runs, Belongs lib run kjob
  executions : ∀ name ∈ s.executions, ∃ run ∈ s.runs,
    run.ns = s.pipeline.ns ∧ run.name = name ∧ run.labels.pipelineName = s.pipeline.name
  reads : ∀ g ∈ s.schedule.goroutines, ∀ read ∈ g.phase.read,
    read.val.ns = s.pipeline.ns ∧ read.val.name = s.pipeline.name

section Coherent

variable {lib : Externals} {s t : GuardWorld}

/-- A run of an execution is one of the pipeline. -/
theorem Coherent.pipelineName_of_executed (hcoherent : Coherent lib s) {run : Run}
    (hrun : run ∈ s.runs) (hexecuted : s.Executed run) :
    run.labels.pipelineName = s.pipeline.name := by
  obtain ⟨found, hfound, hns, hname, hlabel⟩ := hcoherent.executions run.name hexecuted.2
  have hsame : run = found :=
    hcoherent.runKeys.eq_of_key hrun hfound (Prod.ext (hexecuted.1.trans hns.symm) hname.symm)
  rw [hsame, hlabel]

/-- The kubernetes jobs that are listed for a run belong to it. -/
theorem Coherent.belongs_of_listed (hcoherent : Coherent lib s) {run : Run} (hrun : run ∈ s.runs)
    {kjob : KJob} (hkjob : kjob ∈ s.cluster.listRunKJobs run.ns run.name) :
    Belongs lib run kjob := by
  obtain ⟨hmem, hlisted⟩ := List.mem_filter.mp hkjob
  rw [decide_eq_true_eq] at hlisted
  obtain ⟨owner, howner, hbelongs⟩ := hcoherent.belongs kjob hmem
  have hkey : runKey owner = runKey run :=
    Prod.ext (hbelongs.ns.symm.trans hlisted.1) (hbelongs.runName.symm.trans hlisted.2)
  rw [← hcoherent.runKeys.eq_of_key howner hrun hkey]
  exact hbelongs

/-- The steps that neither create nor delete a run. -/
theorem Coherent.frame (hcoherent : Coherent lib s)
    (hruns : t.runs.map runCore = s.runs.map runCore)
    (hns : t.pipeline.ns = s.pipeline.ns) (hname : t.pipeline.name = s.pipeline.name)
    (hexecutions : t.executions = s.executions)
    (hreads : ∀ g ∈ t.schedule.goroutines, ∀ read ∈ g.phase.read,
      read.val.ns = s.pipeline.ns ∧ read.val.name = s.pipeline.name)
    (hkeys : Keyed kjobKey t.cluster.kjobs)
    (hbelongs : ∀ kjob ∈ t.cluster.kjobs, ∃ run ∈ s.runs, Belongs lib run kjob) :
    Coherent lib t where
  runKeys := keyed_of_cores hruns hcoherent.runKeys
  kjobKeys := hkeys
  namespaced := by
    refine ⟨hns ▸ hcoherent.namespaced.1, ?_⟩
    intro run hrun
    obtain ⟨old, hold, hcore⟩ := exists_of_map_eq hruns.symm hrun
    rw [← (RunCore.mk.inj hcore).1]
    exact hcoherent.namespaced.2 old hold
  belongs := by
    intro kjob hkjob
    obtain ⟨run, hrun, hown⟩ := hbelongs kjob hkjob
    obtain ⟨next, hnext, hcore⟩ := exists_of_map_eq hruns hrun
    exact ⟨next, hnext, hown.congr hcore⟩
  executions := by
    rw [hexecutions, hns, hname]
    intro name hmem
    obtain ⟨run, hrun, hfound⟩ := hcoherent.executions name hmem
    obtain ⟨next, hnext, hcore⟩ := exists_of_map_eq hruns hrun
    obtain ⟨hnextNs, hnextName, hnextLabel, -⟩ := RunCore.mk.inj hcore
    refine ⟨next, hnext, ?_⟩
    rw [hnextNs, hnextName, hnextLabel]
    exact hfound
  reads := by
    rw [hns, hname]
    exact hreads

/-- A run is created under a key that was free. -/
theorem Coherent.create (hcoherent : Coherent lib s) {run : Run}
    (hfree : getRun s.runs run.ns run.name = none) (hrunNs : run.ns ≠ "")
    (hruns : t.runs = s.runs ++ [run]) (hcluster : t.cluster = s.cluster)
    (hpipeline : t.pipeline = s.pipeline)
    (hexecutions : ∀ name ∈ t.executions, name ∈ s.executions ∨
      (run.ns = s.pipeline.ns ∧ run.name = name ∧ run.labels.pipelineName = s.pipeline.name))
    (hreads : ∀ g ∈ t.schedule.goroutines, ∀ read ∈ g.phase.read,
      read.val.ns = s.pipeline.ns ∧ read.val.name = s.pipeline.name) :
    Coherent lib t where
  runKeys := by
    rw [hruns]
    exact hcoherent.runKeys.concat (ne_of_getRun hfree)
  kjobKeys := hcluster ▸ hcoherent.kjobKeys
  namespaced := by
    rw [hpipeline, hruns]
    refine ⟨hcoherent.namespaced.1, ?_⟩
    intro other hother
    rcases List.mem_append.mp hother with hold | hnew
    · exact hcoherent.namespaced.2 other hold
    · rw [List.mem_singleton.mp hnew]
      exact hrunNs
  belongs := by
    rw [hcluster, hruns]
    intro kjob hkjob
    obtain ⟨owner, howner, hown⟩ := hcoherent.belongs kjob hkjob
    exact ⟨owner, List.mem_append_left _ howner, hown⟩
  executions := by
    rw [hpipeline, hruns]
    intro name hname
    rcases hexecutions name hname with hold | hnew
    · obtain ⟨found, hfound, hkey⟩ := hcoherent.executions name hold
      exact ⟨found, List.mem_append_left _ hfound, hkey⟩
    · exact ⟨run, by simp, hnew⟩
  reads := by
    rw [hpipeline]
    exact hreads

end Coherent

/-! ## The steps keep it so -/

section Steps

variable {lib : Externals} {s t : GuardWorld}

/-- Goroutines go on with the pipeline. -/
theorem Coherent.reads_step (hcoherent : Coherent lib s) {a : ScheduleAction} {next : ScheduleWorld}
    (hstep : s.schedule.step lib a = some next) (hns : next.pipeline.val.ns = s.pipeline.ns)
    (hname : next.pipeline.val.name = s.pipeline.name) :
    ∀ g ∈ next.goroutines, ∀ read ∈ g.phase.read,
      read.val.ns = s.pipeline.ns ∧ read.val.name = s.pipeline.name := by
  intro g hg read hread
  rcases (ScheduleWorld.step_effect hstep).read_before hg hread with
    ⟨before, hbefore, hkept⟩ | hcurrent
  · exact hcoherent.reads before hbefore read hkept
  · rw [hcurrent]
    exact ⟨hns, hname⟩

theorem getRun_of_hasRun {w : ScheduleWorld} {run : Run} (hfree : w.hasRun run = false) :
    getRun w.runs run.ns run.name = none := by
  refine List.find?_eq_none.mpr ?_
  intro other hother
  have hnot := List.any_eq_false.mp hfree other hother
  simpa using hnot

/-- A step of the schedule. -/
theorem Coherent.schedule (hcoherent : Coherent lib s) {a : ScheduleAction} {next : ScheduleWorld}
    (hof : a.ofRuns = false) (hstep : s.schedule.step lib a = some next) :
    Coherent lib
      { schedule := next, executions := s.executions ++ createdNames s.schedule next } := by
  cases ScheduleWorld.step_runs hof hstep with
  | same hsame =>
      have hnone : createdNames s.schedule next = [] := by
        rw [createdNames, hsame.runs, List.drop_length, List.map_nil]
      rw [hnone, List.append_nil]
      refine hcoherent.frame (congrArg _ hsame.runs) hsame.ns hsame.name rfl
        (hcoherent.reads_step hstep hsame.ns hsame.name) ?_ ?_
      · show Keyed kjobKey next.cluster.kjobs
        rw [hsame.cluster]
        exact hcoherent.kjobKeys
      · show ∀ kjob ∈ next.cluster.kjobs, _
        rw [hsame.cluster]
        exact hcoherent.belongs
  | @created g read address run hg hread hrun hfree hpipeline hruns hcluster =>
      obtain ⟨-, hrunNs, hlabel, -⟩ := constructRunFromPipeline_ok hrun
      obtain ⟨hns, hname⟩ := hcoherent.reads g hg read hread
      rw [hns] at hrunNs
      rw [hname] at hlabel
      have hnew : createdNames s.schedule next = [run.name] := by
        rw [createdNames, hruns, List.drop_left, List.map_cons, List.map_nil]
      rw [hnew]
      refine hcoherent.create (getRun_of_hasRun hfree) (hrunNs ▸ hcoherent.namespaced.1) hruns
        hcluster (congrArg Versioned.val hpipeline) ?_
        (hcoherent.reads_step hstep (by rw [hpipeline]) (by rw [hpipeline]))
      intro name hmem
      rcases List.mem_append.mp hmem with hold | hcreated
      · exact Or.inl hold
      · exact Or.inr ⟨hrunNs, (List.mem_singleton.mp hcreated).symm, hlabel⟩

/-- The kubernetes jobs of a deleted run go with it. -/
theorem Coherent.deleteRun (hcoherent : Coherent lib s) (ns name : String) :
    Coherent lib (s.deleteRun ns name) where
  runKeys := List.Nodup.sublist (List.Sublist.map _ List.filter_sublist) hcoherent.runKeys
  kjobKeys := List.Nodup.sublist (List.Sublist.map _ List.filter_sublist) hcoherent.kjobKeys
  namespaced :=
    ⟨hcoherent.namespaced.1, fun run hrun =>
      hcoherent.namespaced.2 run (List.mem_of_mem_filter hrun)⟩
  belongs := by
    intro kjob hkjob
    obtain ⟨hmem, hkept⟩ := List.mem_filter.mp hkjob
    obtain ⟨run, hrun, hown⟩ := hcoherent.belongs kjob hmem
    refine ⟨run, List.mem_filter.mpr ⟨hrun, ?_⟩, hown⟩
    rw [decide_eq_true_eq] at hkept ⊢
    rintro ⟨hns, hname⟩
    exact hkept ⟨hown.ns.trans hns, hname ▸ hown.owner⟩
  executions := by
    intro other hother
    have hkept : other ∈ s.executions ∧ ¬ (ns = s.pipeline.ns ∧ other = name) := by
      simp only [GuardWorld.deleteRun] at hother
      split at hother
      · obtain ⟨hmem, hne⟩ := List.mem_filter.mp hother
        exact ⟨hmem, fun hsame => of_decide_eq_true hne hsame.2⟩
      · next hns => exact ⟨hother, fun hsame => hns hsame.1⟩
    obtain ⟨run, hrun, hns, hname, hlabel⟩ := hcoherent.executions other hkept.1
    refine ⟨run, List.mem_filter.mpr ⟨hrun, ?_⟩, hns, hname, hlabel⟩
    rw [decide_eq_true_eq]
    rintro ⟨hdeletedNs, hdeletedName⟩
    exact hkept.2 ⟨hdeletedNs.symm.trans hns, hname.symm.trans hdeletedName⟩
  reads := hcoherent.reads

/-- What a reconcile of a run leaves, and the end date on the pipeline. -/
structure Passed (lib : Externals) (s : GuardWorld) (run : Run) (pass : RunPass)
    (t : GuardWorld) (endDate : Option Time) : Prop where
  cluster : ∃ kjobList, constructKjobListFromRun lib run = .ok kjobList ∧
    t.cluster = (ensureKJobs run (kjobList.take pass.entries) s.cluster).1
  cores : t.runs.map runCore = s.runs.map runCore
  pipeline : t.pipeline = withEndDate s.pipeline endDate
  executions : t.executions = s.executions
  goroutines : t.schedule.goroutines = s.schedule.goroutines
  lastEnd : endDate = s.status.scheduleLastExecutionEndDate ∨ endDate.isSome
  ends : run.spec.jobs.length ≤ pass.entries →
    EndsExecution run (t.cluster.listRunKJobs run.ns run.name) →
    getRun s.runs run.ns run.name = some run → run.ns = s.pipeline.ns →
    run.labels.pipelineName = s.pipeline.name → (pass.attempts 0).pipelineConflict = false →
    endDate.isSome

/-- The status writes of a reconcile reach the store. -/
theorem withStore_eq {store : StatusStore} {endDate : Option Time}
    (hpipelines : store.pipelines = [withEndDate s.pipeline endDate]) :
    s.withStore store = { s with schedule :=
      { s.schedule.writeStatus { s.status with scheduleLastExecutionEndDate := endDate } with
        runs := store.runs } } := by
  have hget : getPipeline store.pipelines s.pipeline.ns s.pipeline.name =
      some (withEndDate s.pipeline endDate) := by
    simp [getPipeline, hpipelines, withEndDate]
  rw [GuardWorld.withStore, hget]
  rfl

/-- The end of a reconcile that has got to all jobs. -/
theorem updateStatus_passed {run : Run} {pass : RunPass} {cluster : Cluster}
    (hcluster : ∃ kjobList, constructKjobListFromRun lib run = .ok kjobList ∧
      cluster = (ensureKJobs run (kjobList.take pass.entries) s.cluster).1) :
    ∃ endDate, Passed lib s run pass
      (({ s with schedule := { s.schedule with cluster := cluster } } : GuardWorld).updateStatus lib
        run pass.attempts) endDate := by
  have hstart : StatusUpdated s.runs s.pipeline { runs := s.runs, pipelines := [s.pipeline] } :=
    .refl s.runs s.pipeline
  have hupdated : StatusUpdated s.runs s.pipeline (updateRunStatus lib run cluster pass.attempts
      { runs := s.runs, pipelines := [s.pipeline] }).1.store :=
    StatusUpdated.retry (s := ⟨run.name, _, []⟩) hstart lib run.ns run.labels.pipelineName
      (cluster.listRunKJobs run.ns run.name) (allowed pass.attempts)
  obtain ⟨endDate, hpipelines, hset⟩ := hupdated.pipelines
  have hwritten := withStore_eq (s := { s with schedule := { s.schedule with cluster := cluster } })
    hpipelines
  refine ⟨endDate, ?_⟩
  rw [GuardWorld.updateStatus, hwritten]
  refine
    { cluster := hcluster
      cores := hupdated.runs
      pipeline := Versioned.write_val _ _
      executions := rfl
      goroutines := rfl
      lastEnd := hset
      ends := ?_ }
  intro _ hends hstored hns hname hfree
  have hcount : EndsExecution run (cluster.listRunKJobs run.ns run.name) := hends
  obtain ⟨written, hsome, hthere⟩ := updateRunStatus_ends hstored hns hname hcount hfree
  rw [hpipelines] at hthere
  have hsame : endDate = written :=
    congrArg (fun pipeline => pipeline.status.scheduleLastExecutionEndDate)
      (List.singleton_inj.mp hthere)
  rw [hsame]
  exact hsome

theorem passRun_passed {run : Run} {pass : RunPass} (hstep : s.passRun lib run pass = some t) :
    ∃ endDate, Passed lib s run pass t endDate := by
  cases hlist : constructKjobListFromRun lib run with
  | error e => simp [GuardWorld.passRun, hlist] at hstep
  | ok kjobList =>
      cases hpass : ensureKJobs run (kjobList.take pass.entries) s.cluster with
      | mk cluster verdict =>
          have hcluster : cluster = (ensureKJobs run (kjobList.take pass.entries) s.cluster).1 := by
            rw [hpass]
          cases verdict with
          | error e => simp [GuardWorld.passRun, hlist, hpass] at hstep
          | ok _ =>
              simp only [GuardWorld.passRun, hlist, hpass] at hstep
              split at hstep
              · cases hstep
                exact updateStatus_passed ⟨kjobList, hlist, hcluster⟩
              · next hbroken =>
                  cases hstep
                  exact ⟨s.status.scheduleLastExecutionEndDate,
                    { cluster := ⟨kjobList, hlist, hcluster⟩
                      cores := rfl
                      pipeline := rfl
                      executions := rfl
                      goroutines := rfl
                      lastEnd := Or.inl rfl
                      ends := fun hall => absurd hall hbroken }⟩

/-- The pipeline keeps its key. -/
theorem Passed.key {run : Run} {pass : RunPass} {endDate : Option Time}
    (hpassed : Passed lib s run pass t endDate) :
    t.pipeline.ns = s.pipeline.ns ∧ t.pipeline.name = s.pipeline.name := by
  rw [hpassed.pipeline]
  exact ⟨rfl, rfl⟩

/-- A reconcile does not bring the guard in force, and lifts it with an end
date. -/
theorem Passed.guard {run : Run} {pass : RunPass} {endDate : Option Time}
    (hpassed : Passed lib s run pass t endDate) (hguard : GuardInForce t.status) :
    endDate = none ∧ GuardInForce s.status := by
  have hstatus : t.status = { s.status with scheduleLastExecutionEndDate := endDate } :=
    congrArg Pipeline.status hpassed.pipeline
  rw [GuardInForce, hstatus] at hguard
  have hnone : endDate = none := Option.isNone_iff_eq_none.mp hguard.2
  refine ⟨hnone, hguard.1, ?_⟩
  rcases hpassed.lastEnd with hsame | hsome
  · rw [← hsame]
    exact hguard.2
  · rw [hnone] at hsome
    cases hsome

/-- The kubernetes jobs after a reconcile, and where they come from. -/
theorem Coherent.kjobs_passed (hcoherent : Coherent lib s) {run : Run} (hrun : run ∈ s.runs)
    {pass : RunPass} {endDate : Option Time} (hpassed : Passed lib s run pass t endDate) :
    Keyed kjobKey t.cluster.kjobs ∧
      ∀ kjob ∈ t.cluster.kjobs, LeftByPass lib run pass.entries s.cluster kjob := by
  obtain ⟨kjobList, hlist, hcluster⟩ := hpassed.cluster
  obtain ⟨hway, hleft⟩ := ensureKJobs_leaves (hcoherent.namespaced.2 run hrun)
    hcoherent.kjobKeys hlist pass.entries
  rw [hcluster]
  exact ⟨hway.keys, hleft⟩

/-- A reconcile of a run. -/
theorem Coherent.passed (hcoherent : Coherent lib s) {run : Run} (hrun : run ∈ s.runs)
    {pass : RunPass} {endDate : Option Time} (hpassed : Passed lib s run pass t endDate) :
    Coherent lib t := by
  obtain ⟨hkeys, hleft⟩ := hcoherent.kjobs_passed hrun hpassed
  refine hcoherent.frame hpassed.cores hpassed.key.1 hpassed.key.2 hpassed.executions ?_ hkeys ?_
  · rw [hpassed.goroutines]
    exact hcoherent.reads
  · intro kjob hkjob
    cases hleft kjob hkjob with
    | stored old hold hkey hlabels howner _ _ =>
        obtain ⟨owner, howned, hbelongs⟩ := hcoherent.belongs old hold
        exact ⟨owner, howned, hbelongs.kept hkey hlabels howner⟩
    | created hbelongs _ _ => exact ⟨run, hrun, hbelongs⟩

/-- The counters and the deletion mark of a kubernetes job change. -/
theorem Coherent.report (hcoherent : Coherent lib s) {ns name : String} {kjob : KJob}
    (hget : s.cluster.getKJob ns name = some kjob) (counts : JobStatus)
    (deletionTimestamp : Option Time) :
    Coherent lib { s with schedule := { s.schedule with
      cluster := s.cluster.updateKJob
        { kjob with status := counts, deletionTimestamp := deletionTimestamp } } } := by
  refine hcoherent.frame rfl rfl rfl rfl hcoherent.reads
    (keyed_updateKJob hcoherent.kjobKeys _) ?_
  intro changed hchanged
  obtain ⟨k, hk, rfl⟩ := List.mem_map.mp hchanged
  split
  · obtain ⟨run, hrun, hbelongs⟩ := hcoherent.belongs kjob (Cluster.mem_of_getKJob hget).1
    exact ⟨run, hrun, hbelongs.kept rfl rfl rfl⟩
  · exact hcoherent.belongs k hk

theorem runCore_writtenRun (volumes : List VolumeResource) (status : RunStatus) (run : Run) :
    runCore (writtenRun volumes status run) = runCore run := rfl

/-- What a reconcile writes on a run changes nothing of its core. -/
theorem map_runCore_write (runs : RunStore) (ns name : String) (volumes : List VolumeResource)
    (status : RunStatus) :
    (runs.map fun run => if run.ns = ns ∧ run.name = name then writtenRun volumes status run
      else run).map runCore = runs.map runCore := by
  rw [List.map_map]
  apply List.map_congr_left
  intro run _
  simp only [Function.comp_apply]
  split
  · exact runCore_writtenRun volumes status run
  · rfl

theorem Coherent.init (hinit : (guardMachine lib).init s) : Coherent lib s := by
  obtain ⟨hns, -, hgoroutines, hruns, hkjobs, hexecutions⟩ := hinit
  refine
    { runKeys := by rw [hruns]; exact List.nodup_nil
      kjobKeys := by rw [hkjobs]; exact List.nodup_nil
      namespaced := ⟨hns, by simp [hruns]⟩
      belongs := by simp [hkjobs]
      executions := by simp [hexecutions]
      reads := by simp [hgoroutines] }

/-- Every step keeps the store so. -/
theorem Coherent.step (hcoherent : Coherent lib s) {a : GuardAction}
    (hstep : s.step lib a = some t) : Coherent lib t := by
  cases a with
  | schedule a =>
      simp only [GuardWorld.step] at hstep
      split at hstep
      · cases hstep
      · next hof =>
          obtain ⟨next, hnext, rfl⟩ := Option.map_eq_some_iff.mp hstep
          exact hcoherent.schedule (by simpa using hof) hnext
  | createRun run =>
      simp only [GuardWorld.step] at hstep
      split at hstep
      · next hnew =>
          cases hstep
          exact hcoherent.create (Option.isNone_iff_eq_none.mp hnew.2) hnew.1 rfl rfl rfl
            (fun name hname => Or.inl hname) hcoherent.reads
      · cases hstep
  | writeRun ns name volumes status =>
      cases hstep
      exact hcoherent.frame (map_runCore_write _ ns name volumes status) rfl rfl rfl
        hcoherent.reads hcoherent.kjobKeys hcoherent.belongs
  | reconcileRun pass =>
      obtain ⟨run, hget, hpass⟩ := Option.bind_eq_some_iff.mp hstep
      obtain ⟨endDate, hpassed⟩ := passRun_passed hpass
      exact hcoherent.passed (List.mem_of_find?_eq_some hget) hpassed
  | deleteRun ns name =>
      cases hstep
      exact hcoherent.deleteRun ns name
  | report ns name counts deletionTimestamp =>
      obtain ⟨kjob, hget, rfl⟩ := Option.map_eq_some_iff.mp hstep
      exact hcoherent.report hget counts deletionTimestamp
  | setPods pods =>
      cases hstep
      exact hcoherent.frame rfl rfl rfl rfl hcoherent.reads hcoherent.kjobKeys hcoherent.belongs

end Steps

/-! ## What is left for the guard -/

section Left

variable {lib : Externals} {s t : GuardWorld} {a : GuardAction}

/-- The core of an unfinished run of an execution is all that has to be there. -/
theorem executionLeft_of_core {run next : Run} (hnext : next ∈ t.runs)
    (hcore : runCore next = runCore run) (hns : run.ns = t.pipeline.ns)
    (hname : run.name ∈ t.executions) (hopen : Unfinished t.cluster run) : ExecutionLeft t := by
  obtain ⟨hnextNs, hnextName, -, -⟩ := RunCore.mk.inj hcore
  refine ⟨next, hnext, ⟨?_, ?_⟩, hopen.congr hcore⟩
  · rw [hnextNs, hns]
  · rw [hnextName]
    exact hname

/-- An unfinished execution is left where its run stays stored and unfinished. -/
theorem ExecutionLeft.frame (hleft : ExecutionLeft s)
    (hruns : ∀ run ∈ s.runs, ∃ next ∈ t.runs, runCore next = runCore run)
    (hns : t.pipeline.ns = s.pipeline.ns) (hexecutions : ∀ name ∈ s.executions, name ∈ t.executions)
    (hopen : ∀ run ∈ s.runs, Unfinished s.cluster run → Unfinished t.cluster run) :
    ExecutionLeft t := by
  obtain ⟨run, hrun, hexecuted, hunfinished⟩ := hleft
  obtain ⟨next, hnext, hcore⟩ := hruns run hrun
  exact executionLeft_of_core hnext hcore (hexecuted.1.trans hns.symm)
    (hexecutions run.name hexecuted.2) (hopen run hrun hunfinished)

/-- A step of the schedule leaves the runs there and the jobs alone. -/
theorem ExecutionLeft.schedule (hleft : ExecutionLeft s) {a : ScheduleAction}
    {next : ScheduleWorld} (hof : a.ofRuns = false) (hstep : s.schedule.step lib a = some next) :
    ExecutionLeft
      { schedule := next, executions := s.executions ++ createdNames s.schedule next } := by
  have hexecutions : ∀ name ∈ s.executions,
      name ∈ s.executions ++ createdNames s.schedule next :=
    fun name hname => List.mem_append_left _ hname
  cases ScheduleWorld.step_runs hof hstep with
  | same hsame =>
      refine hleft.frame ?_ hsame.ns hexecutions ?_
      · intro run hrun
        refine ⟨run, ?_, rfl⟩
        show run ∈ next.runs
        rw [hsame.runs]
        exact hrun
      · intro run _ hopen
        show Unfinished next.cluster run
        rw [hsame.cluster]
        exact hopen
  | created _ _ _ _ hpipeline hruns hcluster =>
      refine hleft.frame ?_ (congrArg (fun p => p.val.ns) hpipeline) hexecutions ?_
      · intro run hrun
        refine ⟨run, ?_, rfl⟩
        show run ∈ next.runs
        rw [hruns]
        exact List.mem_append_left _ hrun
      · intro run _ hopen
        show Unfinished next.cluster run
        rw [hcluster]
        exact hopen

/-- A reconcile that meets its condition leaves one, or it lifts the guard. -/
theorem LeavesExecution.passed {pass : RunPass} {run : Run} {endDate : Option Time}
    (hleaves : LeavesExecution lib s pass run) (hcoherent : Coherent lib s)
    (hget : getRun s.runs pass.ns pass.name = some run)
    (hpassed : Passed lib s run pass t endDate) (hguard : GuardInForce t.status) :
    ExecutionLeft t := by
  have hrun : run ∈ s.runs := List.mem_of_find?_eq_some hget
  have hkeyed := hcoherent.kjobs_passed hrun hpassed
  have hafter : ∀ other ∈ s.runs, s.Executed other → Unfinished t.cluster other →
      ExecutionLeft t := by
    intro other hother hexecuted hopen
    obtain ⟨next, hnext, hcore⟩ := exists_of_map_eq hpassed.cores hother
    exact executionLeft_of_core hnext hcore (hexecuted.1.trans hpassed.key.1.symm)
      (hpassed.executions ▸ hexecuted.2) hopen
  rcases hleaves with ⟨other, hother, hexecuted, hstays⟩ | ⟨hexecuted, hnames, hall, hfree⟩
  · exact hafter other hother hexecuted (hstays.after_pass hkeyed.2)
  · by_cases hopen : Unfinished t.cluster run
    · exact hafter run hrun hexecuted hopen
    · exfalso
      have hnext := hcoherent.passed hrun hpassed
      obtain ⟨next, hnextRun, hcore⟩ := exists_of_map_eq hpassed.cores hrun
      obtain ⟨hnextNs, hnextName, -, -⟩ := RunCore.mk.inj hcore
      have hbelongs : ∀ kjob ∈ t.cluster.listRunKJobs run.ns run.name, Belongs lib run kjob := by
        intro kjob hkjob
        rw [← hnextNs, ← hnextName] at hkjob
        exact (hnext.belongs_of_listed hnextRun hkjob).congr hcore.symm
      have hends := (endsExecution_iff hkeyed.1 hbelongs).mpr ⟨hnames, hopen⟩
      have hkey := getRun_key hget
      have hstored : getRun s.runs run.ns run.name = some run := by
        rw [hkey.1, hkey.2]
        exact hget
      have hsome := hpassed.ends hall hends hstored hexecuted.1
        (hcoherent.pipelineName_of_executed hrun hexecuted) hfree
      rw [(hpassed.guard hguard).1] at hsome
      cases hsome

/-- Deleting another run leaves an unfinished execution there. -/
theorem executionLeft_deleteRun {ns name : String} {run : Run} (hrun : run ∈ s.runs)
    (hexecuted : s.Executed run) (hne : runKey run ≠ (ns, name))
    (hopen : Unfinished s.cluster run) : ExecutionLeft (s.deleteRun ns name) := by
  have hkept : ¬ (run.ns = ns ∧ run.name = name) :=
    fun hsame => hne (Prod.ext hsame.1 hsame.2)
  refine ⟨run, List.mem_filter.mpr ⟨hrun, decide_eq_true hkept⟩, ⟨hexecuted.1, ?_⟩, ?_⟩
  · simp only [GuardWorld.deleteRun]
    split
    · next hns =>
        refine List.mem_filter.mpr ⟨hexecuted.2, decide_eq_true ?_⟩
        intro hname
        exact hkept ⟨hexecuted.1.trans hns.symm, hname⟩
    · exact hexecuted.2
  · refine hopen.frame ?_
    intro kjob hkjob
    exact ⟨kjob, List.mem_of_mem_filter hkjob, rfl, rfl, rfl⟩

/-- A step that meets the conditions leaves an unfinished execution while the
guard is in force. -/
theorem ExecutionLeft.step (hleft : GuardInForce s.status → ExecutionLeft s)
    (hcoherent : Coherent lib s) (hok : KeepsExecution lib s a) (hstep : s.step lib a = some t)
    (hguard : GuardInForce t.status) : ExecutionLeft t := by
  cases a with
  | schedule a =>
      simp only [GuardWorld.step] at hstep
      split at hstep
      · cases hstep
      · next hof =>
          obtain ⟨next, hnext, rfl⟩ := Option.map_eq_some_iff.mp hstep
          have hbefore : ExecutionLeft s := by
            rcases (ScheduleWorld.step_effect hnext).guard_before hguard with
              hforce | ⟨i, rfl, haccepted⟩
            · exact hleft hforce
            · exact (hok.1 i rfl).resolve_left haccepted
          exact hbefore.schedule (by simpa using hof) hnext
  | createRun run =>
      simp only [GuardWorld.step] at hstep
      split at hstep
      · cases hstep
        refine (hleft hguard).frame ?_ rfl (fun _ hname => hname) (fun _ _ hopen => hopen)
        intro other hother
        exact ⟨other, List.mem_append_left _ hother, rfl⟩
      · cases hstep
  | writeRun ns name volumes status =>
      cases hstep
      refine (hleft hguard).frame ?_ rfl (fun _ hname => hname) (fun _ _ hopen => hopen)
      intro run hrun
      exact exists_of_map_eq (map_runCore_write s.runs ns name volumes status) hrun
  | reconcileRun pass =>
      obtain ⟨run, hget, hpass⟩ := Option.bind_eq_some_iff.mp hstep
      obtain ⟨endDate, hpassed⟩ := passRun_passed hpass
      have hforce := (hpassed.guard hguard).2
      have hleaves := (hok.2.resolve_left (not_not_intro hforce)).2 pass rfl run hget
      exact hleaves.passed hcoherent hget hpassed hguard
  | deleteRun ns name =>
      cases hstep
      obtain ⟨run, hrun, hexecuted, hne, hopen⟩ :=
        (hok.2.resolve_left (not_not_intro hguard)).1 (ns, name) rfl
      exact executionLeft_deleteRun hrun hexecuted hne hopen
  | report ns name counts deletionTimestamp =>
      obtain ⟨kjob, hget, rfl⟩ := Option.map_eq_some_iff.mp hstep
      refine (hleft hguard).frame (fun run hrun => ⟨run, hrun, rfl⟩) rfl (fun _ hname => hname) ?_
      intro run _ hopen
      refine hopen.frame ?_
      intro changed hchanged
      obtain ⟨k, hk, rfl⟩ := List.mem_map.mp hchanged
      split
      · exact ⟨kjob, (Cluster.mem_of_getKJob hget).1, rfl, rfl, rfl⟩
      · exact ⟨k, hk, rfl, rfl, rfl⟩
  | setPods pods =>
      cases hstep
      exact (hleft hguard).frame (fun run hrun => ⟨run, hrun, rfl⟩) rfl (fun _ hname => hname)
        (fun _ _ hopen => hopen)

/-- In the runs whose steps meet the conditions, an unfinished run of an
execution is stored whenever the guard is in force. -/
theorem guard_liftable (h : (guardMachine lib).Reach (KeepsExecution lib) s)
    (hguard : GuardInForce s.status) : ExecutionLeft s := by
  have hinv : Coherent lib s ∧ (GuardInForce s.status → ExecutionLeft s) := by
    apply h.invariant
    · intro s hinit
      exact ⟨.init hinit, fun hforce => absurd hforce hinit.2.1⟩
    · intro s a t hinv hok hstep
      exact ⟨hinv.1.step hstep, ExecutionLeft.step hinv.2 hinv.1 hok hstep⟩
  exact hinv.2 hguard

end Left

/-! ## A deleted run -/

/-- The run of an execution, as it is constructed at an address. -/
def executionName (address : Nat) : String := runNameOf Externals.plain address (hourly true)

/-- One execution: it is armed, created and recorded, and its run is reconciled
for the first time. -/
def startExecution (i address : Nat) (start : Time) : List GuardAction :=
  [ .schedule (.reconcile start true)
  , .schedule (.wake i)
  , .schedule (.create i address (start + 3600 * Time.second))
  , .schedule (.record i)
  , .reconcileRun ⟨"team", executionName address, 1,
      fun _ => ⟨start + 3601 * Time.second, start + 3601 * Time.second, false, false⟩⟩ ]

/-- The first run has its only kubernetes job done and is reconciled again. -/
def finishExecution (address : Nat) (now : Time) : List GuardAction :=
  let name := executionName address
  let jobName := getShortHashPostFix Externals.plain "build" (name ++ "team")
  [ .report "team" (getShortHashPostFix Externals.plain jobName (jobName ++ name ++ "team"))
      { succeeded := 1 } none
  , .reconcileRun ⟨"team", name, 1, fun _ => ⟨now, now, false, false⟩⟩ ]

def hourlyStart : GuardWorld := { schedule := hourlyWorld true }

theorem hourlyStart_init : (guardMachine Externals.plain).init hourlyStart :=
  ⟨by decide, by decide, rfl, rfl, rfl, rfl⟩

/-- The second execution, after the first has ended and its run is deleted. -/
def secondExecution : List GuardAction :=
  startExecution 0 someAddress 0 ++ finishExecution someAddress (3700 * Time.second) ++
    startExecution 1 otherAddress (3800 * Time.second) ++
    [.deleteRun "team" (executionName someAddress)]

def secondExecutionWorld : GuardWorld :=
  ((guardMachine Externals.plain).exec (KeepsExecution Externals.plain) hourlyStart
    secondExecution).getD hourlyStart

theorem guard_liftable_secondExecution :
    GuardInForce secondExecutionWorld.status ∧ ExecutionLeft secondExecutionWorld := by
  have hexec : (guardMachine Externals.plain).exec (KeepsExecution Externals.plain) hourlyStart
      secondExecution = some secondExecutionWorld := by
    decide +kernel
  have hforce : GuardInForce secondExecutionWorld.status := by decide +kernel
  exact ⟨hforce, guard_liftable (Machine.reach_of_exec _ hourlyStart_init hexec) hforce⟩

/-- The run of the first execution is deleted before its job is done. -/
def deletedExecution : List GuardAction :=
  startExecution 0 someAddress 0 ++ [.deleteRun "team" (executionName someAddress)]

def deletedExecutionWorld : GuardWorld :=
  ((guardMachine Externals.plain).exec (fun _ _ => True) hourlyStart deletedExecution).getD
    hourlyStart

/-- A pass over a pipeline without a pending date stops at the guard. -/
theorem quiet_of_guard (lib : Externals) {s : GuardWorld} {schedule : Schedule}
    (hspec : s.pipeline.spec.schedule = some schedule)
    (hpending : s.pipeline.status.schedulePendingExecuctionDate = none)
    (hguard : GuardInForce s.status) (now : Time) :
    ensureScheduleExecution lib s.pipeline now = .quiet := by
  have hforce : GuardInForce s.pipeline.status := hguard
  simp only [ensureScheduleExecution, hspec, hpending, armSchedule, if_pos hforce]

/-- Every later pass stops at the guard then, and no run is left whose end would
lift it. -/
theorem wedged_by_deletion :
    (guardMachine Externals.plain).Reachable deletedExecutionWorld ∧
      (∀ now, ensureScheduleExecution Externals.plain deletedExecutionWorld.pipeline now =
        .quiet) ∧
      GuardInForce deletedExecutionWorld.status ∧ ¬ ExecutionLeft deletedExecutionWorld := by
  have hexec : (guardMachine Externals.plain).exec (fun _ _ => True) hourlyStart
      deletedExecution = some deletedExecutionWorld := by
    decide +kernel
  have hspec : deletedExecutionWorld.pipeline.spec.schedule =
      some { scheduleDate := "1h", repeats := true } := by
    decide +kernel
  have hpending : deletedExecutionWorld.pipeline.status.schedulePendingExecuctionDate = none := by
    decide +kernel
  have hforce : GuardInForce deletedExecutionWorld.status := by decide +kernel
  exact ⟨Machine.reach_of_exec _ hourlyStart_init hexec,
    quiet_of_guard Externals.plain hspec hpending hforce, hforce, by decide +kernel⟩

end PipelineOperator.Controller
