import PipelineOperator.Controller.Gating
import PipelineOperator.Controller.RunStatus
import PipelineOperator.Lib.Machine

/-!
# The machine of one run

The reconciles of a run, interleaved with what the cluster does to its jobs.
A run has one reconcile at a time: it takes up its list of jobs, processes
them one by one, and writes the status of the run; it may break off at any
point.  Between any two of its steps the cluster may report other counters on
a job, mark a job as being deleted, or change the pods.  The one thing the
cluster does not do is to take a success back.

## Main results

* `exec_ensureKJobs`: the steps of a pass, taken without interruption, are
  `ensureKJobs`.
* `RunWorld.step_effect`: the five things a step can do to the stored jobs and
  to the status.
* `Tracked.step`: the stored keys stay different.
-/

namespace PipelineOperator.Controller

open PipelineOperator.Lib
open PipelineOperator.Api

/-! ## States and actions -/

/-- Where the reconcile of the run stands. -/
inductive RunPhase where
  | idle
  | ensuring (todo : List KJob)
  | updating
  deriving Repr, DecidableEq

/-- The stored jobs and pods, the reconcile, the status of the run, and the
states of the run that have been written so far, the latest one first. -/
structure RunWorld where
  cluster : Cluster := {}
  phase : RunPhase := .idle
  status : RunStatus := {}
  written : List RunState := []
  deriving Repr, DecidableEq

inductive RunAction where
  | begin
  | process
  | abort
  | updateStatus (now : Time)
  | report (ns name : String) (counts : JobStatus)
  | markDeleted (ns name : String) (date : Time)
  | setPods (pods : List Pod)
  deriving Repr, DecidableEq

/-- The status that the reconcile writes in a state. -/
def RunWorld.nextStatus (lib : Externals) (run : Run) (s : RunWorld) (now : Time) : RunStatus :=
  runStatusFrom lib { run with status := s.status }
    (s.cluster.listRunKJobs run.ns run.name) now.stored

def RunWorld.step (lib : Externals) (run : Run) (s : RunWorld) : RunAction → Option RunWorld
  | .begin =>
      match s.phase, constructKjobListFromRun lib run with
      | .idle, .ok kjobList => some { s with phase := .ensuring kjobList }
      | _, _ => none
  | .process =>
      match s.phase with
      | .ensuring [] => some { s with phase := .updating }
      | .ensuring (desiredkjob :: todo) =>
          match ensureKJob run s.cluster desiredkjob with
          | .ok next => some { s with cluster := next, phase := .ensuring todo }
          | .error _ => some { s with phase := .idle }
      | _ => none
  | .abort => some { s with phase := .idle }
  | .updateStatus now =>
      match s.phase with
      | .updating => some { s with
          phase := .idle
          status := s.nextStatus lib run now
          written := (s.nextStatus lib run now).runState :: s.written }
      | _ => none
  | .report ns name counts =>
      match s.cluster.getKJob ns name with
      | none => none
      | some kjob =>
          if kjob.status.Succeeded → counts.Succeeded then
            some { s with cluster := s.cluster.updateKJob { kjob with status := counts } }
          else none
  | .markDeleted ns name date =>
      match s.cluster.getKJob ns name with
      | none => none
      | some kjob =>
          some { s with cluster :=
            s.cluster.updateKJob { kjob with deletionTimestamp := some date } }
  | .setPods pods => some { s with cluster := { s.cluster with pods := pods } }

/-- A condition on the steps that deal with a desired job, on that job and on
the one that is stored. -/
def RunWorld.OnProcess (s : RunWorld) (a : RunAction) (cond : KJob → Option KJob → Prop) : Prop :=
  match a, s.phase with
  | .process, .ensuring (desiredkjob :: _) =>
      cond desiredkjob (s.cluster.getKJob desiredkjob.ns desiredkjob.name)
  | _, _ => True

instance (s : RunWorld) (a : RunAction) (cond : KJob → Option KJob → Prop)
    [∀ desiredkjob found, Decidable (cond desiredkjob found)] :
    Decidable (s.OnProcess a cond) := by
  unfold RunWorld.OnProcess
  split <;> infer_instance

/-- No kubernetes job of the store belongs to the run yet. -/
structure Fresh (lib : Externals) (run : Run) (c : Cluster) : Prop where
  keys : Keyed kjobKey c.kjobs
  runName : ∀ kjob ∈ c.kjobs, kjob.ns = run.ns → kjob.labels.runName ≠ run.name
  label : ∀ kjob ∈ c.kjobs, kjob.ns = run.ns → ∀ job ∈ run.spec.jobs,
    kjob.labels.runJobName ≠ job.name ∧ kjob.name ≠ kjobNameOf lib run job

theorem fresh_empty (lib : Externals) (run : Run) : Fresh lib run {} where
  keys := List.nodup_nil
  runName := by simp
  label := by simp

/-- The machine of a run: it starts in a store without jobs of the run. -/
def runMachine (lib : Externals) (run : Run) : Machine RunWorld RunAction where
  init s := Fresh lib run s.cluster ∧ s.phase = .idle ∧ s.written = []
  step := RunWorld.step lib run

/-! ## Passes -/

/-- The steps of a pass without anything in between are `ensureKJobs`. -/
theorem exec_ensureKJobs (lib : Externals) (run : Run) (todo : List KJob) {s : RunWorld}
    (hphase : s.phase = .ensuring todo) {next : Cluster}
    (hpass : ensureKJobs run todo s.cluster = (next, .ok ())) :
    (runMachine lib run).exec (fun _ _ => True) s (List.replicate todo.length .process) =
      some { s with cluster := next, phase := .ensuring [] } := by
  induction todo generalizing s with
  | nil =>
      cases hpass
      simp [Machine.exec, ← hphase]
  | cons desiredkjob todo ih =>
      rw [ensureKJobs] at hpass
      split at hpass
      · cases hpass
      · next mid hmid =>
          have hstep : (runMachine lib run).step s .process =
              some { s with cluster := mid, phase := .ensuring todo } := by
            simp only [runMachine, RunWorld.step, hphase, hmid]
          rw [List.length_cons, List.replicate_succ, Machine.exec, if_pos trivial, hstep,
            Option.bind_some]
          exact ih rfl hpass

/-! ## What a step can do -/

/-- What a step does to the stored jobs and to the written states: nothing,
or one of five things. -/
inductive Effect (lib : Externals) (run : Run) (s t : RunWorld) : RunAction → Prop where
  | quiet {a : RunAction} (hkjobs : t.cluster.kjobs = s.cluster.kjobs)
      (hwritten : t.written = s.written) : Effect lib run s t a
  | created {job : Job} {desiredkjob : KJob} {todo : List KJob} (hjob : job ∈ run.spec.jobs)
      (hphase : s.phase = .ensuring (desiredkjob :: todo))
      (hdesired : Desired lib run job desiredkjob)
      (hmissing : s.cluster.getKJob desiredkjob.ns desiredkjob.name = none)
      (hcluster : t.cluster =
        s.cluster.createKJob { desiredkjob with owner := some ⟨.run, run.name⟩ })
      (hwritten : t.written = s.written) : Effect lib run s t .process
  | updated {job : Job} {desiredkjob currentKjob : KJob} {todo : List KJob} {suspending : Bool}
      (hjob : job ∈ run.spec.jobs)
      (hphase : s.phase = .ensuring (desiredkjob :: todo))
      (hdesired : Desired lib run job desiredkjob)
      (hget : s.cluster.getKJob desiredkjob.ns desiredkjob.name = some currentKjob)
      (hsuspending : isSuspending s.cluster (selfJobOf run currentKjob.labels.runJobName).ns
        currentKjob.annotations.trigger
        (selfJobOf run currentKjob.labels.runJobName).runBefore = .ok suspending)
      (hcluster : t.cluster = s.cluster.updateKJob
        (updatedKJob currentKjob (firstPod s.cluster desiredkjob.ns currentKjob.name)
          desiredkjob.annotations.trigger suspending))
      (hwritten : t.written = s.written) : Effect lib run s t .process
  | reported {ns name : String} {kjob : KJob} {counts : JobStatus}
      (hget : s.cluster.getKJob ns name = some kjob)
      (hcounts : kjob.status.Succeeded → counts.Succeeded)
      (hcluster : t.cluster = s.cluster.updateKJob { kjob with status := counts })
      (hwritten : t.written = s.written) : Effect lib run s t (.report ns name counts)
  | marked {ns name : String} {kjob : KJob} {date : Time}
      (hget : s.cluster.getKJob ns name = some kjob)
      (hcluster : t.cluster =
        s.cluster.updateKJob { kjob with deletionTimestamp := some date })
      (hwritten : t.written = s.written) : Effect lib run s t (.markDeleted ns name date)
  | wrote {now : Time} (hcluster : t.cluster = s.cluster)
      (hwritten : t.written = RunState.ofJobState
        (aggregate ((s.cluster.listRunKJobs run.ns run.name).map KJob.recorded)) :: s.written) :
      Effect lib run s t (.updateStatus now)

/-- The jobs are stored under different keys, and the reconcile works on jobs
that the run desires. -/
structure Tracked (lib : Externals) (run : Run) (s : RunWorld) : Prop where
  keys : Keyed kjobKey s.cluster.kjobs
  todo : ∀ todo, s.phase = .ensuring todo → ∀ desiredkjob ∈ todo,
    ∃ job ∈ run.spec.jobs, Desired lib run job desiredkjob

section Step

variable {lib : Externals} {run : Run} {s t : RunWorld}

/-- The effect of one step of the reconcile on one job. -/
private theorem process_effect (htracked : Tracked lib run s) {desiredkjob : KJob}
    {todo : List KJob} (hphase : s.phase = .ensuring (desiredkjob :: todo)) {next : Cluster}
    (hstep : ensureKJob run s.cluster desiredkjob = .ok next) :
    Effect lib run s { s with cluster := next, phase := .ensuring todo } .process := by
  obtain ⟨job, hjob, hdesired⟩ := htracked.todo _ hphase desiredkjob (by simp)
  cases hget : s.cluster.getKJob desiredkjob.ns desiredkjob.name with
  | none => exact .created hjob hphase hdesired hget (ensureKJob_of_missing hget hstep) rfl
  | some currentKjob =>
      obtain ⟨suspending, hsuspending, hnext⟩ := ensureKJob_of_exists hget hstep
      exact .updated hjob hphase hdesired hget hsuspending hnext rfl

/-- Every step has one of the effects. -/
theorem RunWorld.step_effect (htracked : Tracked lib run s) {a : RunAction}
    (hstep : s.step lib run a = some t) : Effect lib run s t a := by
  cases a with
  | begin =>
      simp only [RunWorld.step] at hstep
      split at hstep
      · cases hstep
        exact .quiet rfl rfl
      · cases hstep
  | process =>
      simp only [RunWorld.step] at hstep
      split at hstep
      · cases hstep
        exact .quiet rfl rfl
      · next desiredkjob todo hphase =>
          split at hstep
          · next next hnext =>
              cases hstep
              exact process_effect htracked hphase hnext
          · cases hstep
            exact .quiet rfl rfl
      · cases hstep
  | abort =>
      cases hstep
      exact .quiet rfl rfl
  | updateStatus now =>
      simp only [RunWorld.step] at hstep
      split at hstep
      · cases hstep
        exact .wrote rfl rfl
      · cases hstep
  | report ns name counts =>
      simp only [RunWorld.step] at hstep
      split at hstep
      · cases hstep
      · next kjob hget =>
          split at hstep
          · next hcounts =>
              cases hstep
              exact .reported hget hcounts rfl rfl
          · cases hstep
  | markDeleted ns name date =>
      simp only [RunWorld.step] at hstep
      split at hstep
      · cases hstep
      · next kjob hget =>
          cases hstep
          exact .marked hget rfl rfl
  | setPods pods =>
      cases hstep
      exact .quiet rfl rfl

/-! ## Keys and lists of jobs -/

/-- Replacing a job keeps the keys different. -/
theorem keyed_updateKJob {c : Cluster} (hkeys : Keyed kjobKey c.kjobs) (updated : KJob) :
    Keyed kjobKey (c.updateKJob updated).kjobs := by
  apply hkeys.map
  intro k _
  split
  · next hsame => exact hsame.symm
  · rfl

/-- So does creating a missing job. -/
theorem keyed_createKJob {c : Cluster} (hkeys : Keyed kjobKey c.kjobs) {kjob : KJob}
    (hmissing : c.getKJob kjob.ns kjob.name = none) :
    Keyed kjobKey (c.createKJob kjob).kjobs := by
  apply hkeys.concat
  intro k hk hkey
  have hparts := Prod.mk.inj hkey
  have hnot := List.find?_eq_none.mp hmissing k hk
  simp [hparts.1, hparts.2] at hnot

/-- What the reconcile still has to do after a step: the list it has just
taken up, or a part of what it had to do before. -/
private theorem todo_step {a : RunAction} (hstep : s.step lib run a = some t)
    {todo : List KJob} (hphase : t.phase = .ensuring todo) :
    constructKjobListFromRun lib run = .ok todo ∨
      ∃ before, s.phase = .ensuring before ∧ ∀ desiredkjob ∈ todo, desiredkjob ∈ before := by
  cases a with
  | begin =>
      simp only [RunWorld.step] at hstep
      split at hstep
      · next kjobList _ hlist =>
          cases hstep
          cases hphase
          exact Or.inl hlist
      · cases hstep
  | process =>
      simp only [RunWorld.step] at hstep
      split at hstep
      · cases hstep
        cases hphase
      · next desiredkjob rest hbefore =>
          split at hstep
          · cases hstep
            cases hphase
            exact Or.inr ⟨_, hbefore, fun d hd => List.mem_cons_of_mem _ hd⟩
          · cases hstep
            cases hphase
      · cases hstep
  | abort =>
      cases hstep
      cases hphase
  | updateStatus now =>
      simp only [RunWorld.step] at hstep
      split at hstep
      · cases hstep
        cases hphase
      · cases hstep
  | report ns name counts =>
      simp only [RunWorld.step] at hstep
      split at hstep
      · cases hstep
      · split at hstep
        · cases hstep
          exact Or.inr ⟨todo, hphase, fun _ hd => hd⟩
        · cases hstep
  | markDeleted ns name date =>
      simp only [RunWorld.step] at hstep
      split at hstep
      · cases hstep
      · cases hstep
        exact Or.inr ⟨todo, hphase, fun _ hd => hd⟩
  | setPods pods =>
      cases hstep
      exact Or.inr ⟨todo, hphase, fun _ hd => hd⟩

/-- The kubernetes jobs of a constructed list are desired by jobs of the run. -/
theorem desired_of_listed {kjobList : List KJob}
    (hlist : constructKjobListFromRun lib run = .ok kjobList) :
    ∀ kjob ∈ kjobList, ∃ job ∈ run.spec.jobs, Desired lib run job kjob := by
  have hdesired := constructKjobListFromRun_desired hlist
  intro kjob hkjob
  obtain ⟨i, hi, rfl⟩ := List.mem_iff_getElem.mp hkjob
  have hlength := hdesired.length_eq
  exact ⟨run.spec.jobs[i], List.getElem_mem _, hdesired.get (by omega) hi⟩

theorem Tracked.init (h : (runMachine lib run).init s) : Tracked lib run s := by
  obtain ⟨hfresh, hidle, -⟩ := h
  refine
    { keys := hfresh.keys
      todo := ?_ }
  intro todo hphase
  rw [hidle] at hphase
  cases hphase

/-- One step keeps the keys different and the work on desired jobs. -/
theorem Tracked.step (htracked : Tracked lib run s) {a : RunAction}
    (hstep : s.step lib run a = some t) : Tracked lib run t := by
  refine
    { keys := ?_
      todo := ?_ }
  · cases RunWorld.step_effect htracked hstep with
    | quiet hkjobs =>
        rw [hkjobs]
        exact htracked.keys
    | created _ _ _ hmissing hcluster =>
        rw [hcluster]
        exact keyed_createKJob htracked.keys hmissing
    | updated _ _ _ _ _ hcluster | reported _ _ hcluster | marked _ hcluster =>
        rw [hcluster]
        exact keyed_updateKJob htracked.keys _
    | wrote hcluster =>
        rw [hcluster]
        exact htracked.keys
  · intro todo hphase
    rcases todo_step hstep hphase with hlist | ⟨before, hbefore, hsub⟩
    · exact desired_of_listed hlist
    · intro desiredkjob hd
      exact htracked.todo before hbefore desiredkjob (hsub desiredkjob hd)

end Step

end PipelineOperator.Controller
