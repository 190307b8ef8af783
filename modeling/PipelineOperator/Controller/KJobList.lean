import PipelineOperator.Api.Construct
import PipelineOperator.Api.JobState
import PipelineOperator.Lib.Keyed

/-!
# `ensureKJobList`

A reconcile of a run walks over the kubernetes jobs its spec asks for.  It
creates those that are missing and updates the others: it records a state and
a reason, hands the trigger over when the spec has released it, and decides
whether the job stays suspended.  The decision looks one edge back, at the
states recorded of the jobs named in `RunBefore`.

The API calls on one job make up one step, `ensureKJob`; it writes at most
once, at its end, so a step that fails has changed nothing.
-/

namespace PipelineOperator.Controller

open PipelineOperator.Lib
open PipelineOperator.Api
open PipelineOperator.Go

/-! ## The store of jobs and pods -/

/-- The kubernetes jobs and pods the API server holds. -/
structure Cluster where
  kjobs : List KJob := []
  pods : List Pod := []
  deriving Repr, DecidableEq

/-- The key under which a kubernetes job is stored. -/
def kjobKey (kjob : KJob) : String × String := (kjob.ns, kjob.name)

namespace Cluster

def getKJob (c : Cluster) (ns name : String) : Option KJob :=
  c.kjobs.find? fun kjob => kjob.ns = ns ∧ kjob.name = name

/-- The jobs of a namespace with a given run-job-name label. -/
def listKJobs (c : Cluster) (ns runJobName : String) : List KJob :=
  c.kjobs.filter fun kjob => kjob.ns = ns ∧ kjob.labels.runJobName = runJobName

/-- The pods of a namespace with a given job-name label. -/
def listPods (c : Cluster) (ns jobName : String) : List Pod :=
  c.pods.filter fun pod => pod.ns = ns ∧ pod.jobName = jobName

def createKJob (c : Cluster) (kjob : KJob) : Cluster :=
  { c with kjobs := c.kjobs ++ [kjob] }

/-- Replace the job that has the key of the given one. -/
def updateKJob (c : Cluster) (kjob : KJob) : Cluster :=
  { c with kjobs := c.kjobs.map fun k => if kjobKey k = kjobKey kjob then kjob else k }

end Cluster

/-! ## One job -/

/-- The check in `ctrl.SetControllerReference`: owner and object share their
namespace, unless the owner has none. -/
def validateOwner (ownerNs objectNs : String) : Except String Unit :=
  if ownerNs ≠ "" ∧ objectNs ≠ ownerNs then
    .error ("cross-namespace owner references are disallowed, owner's namespace " ++ ownerNs
      ++ ", obj's namespace " ++ objectNs)
  else .ok ()

/-- `ctrl.SetControllerReference` on a job of a run. -/
def setControllerReference (run : Run) (kjob : KJob) : Except String KJob := do
  validateOwner run.ns kjob.ns
  return { kjob with owner := some ⟨.run, run.name⟩ }

/-- The loop over `RunBefore`: the job is suspended if its trigger is set or
a predecessor is recorded as failed or as not post-run.  It stops at the
first reason to suspend, and fails on a name that no job carries. -/
def isSuspending (c : Cluster) (ns currentTrigger : String) :
    List String → Except String Bool
  | [] => .ok false
  | beforeJob :: rest =>
      match c.listKJobs ns beforeJob with
      | [] =>
          .error "not found error: no kubernetes job corresponding to the job label was found"
      | beforeKjob :: _ =>
          let beforeJobState := JobState.ofText beforeKjob.annotations.status
          if currentTrigger = formatBool true ∨ beforeJobState = .failed ∨
              ¬ beforeJobState.PostRun then .ok true
          else isSuspending c ns currentTrigger rest

/-- The job of a run that a label names. -/
def selfJobOf (run : Run) (runJobName : String) : Job :=
  (run.spec.jobs.find? fun job => runJobName = job.name).getD {}

/-- The first pod in the listing, or an empty pod. -/
def firstPod (c : Cluster) (ns jobName : String) : Pod :=
  (c.listPods ns jobName).headD {}

/-- The trigger after a pass: `true` becomes `false` once the spec says so. -/
def handOver (currentTrigger desiredTrigger : String) : String :=
  if currentTrigger = formatBool true ∧ desiredTrigger = formatBool false then
    formatBool false
  else currentTrigger

/-- Handing over twice is handing over once. -/
theorem handOver_handOver (currentTrigger desiredTrigger : String) :
    handOver (handOver currentTrigger desiredTrigger) desiredTrigger =
      handOver currentTrigger desiredTrigger := by
  unfold handOver
  split
  · next hreleased => simp [hreleased.2, formatBool]
  · rfl

/-- A trigger that is the desired one is not handed over. -/
theorem handOver_self (trigger : String) : handOver trigger trigger = trigger := by
  unfold handOver
  split
  · next hreleased => exact hreleased.2.symm
  · rfl

/-- What a pass writes on an existing job. -/
def updatedKJob (currentKjob : KJob) (pod : Pod) (desiredTrigger : String)
    (suspending : Bool) : KJob :=
  { currentKjob with
    annotations := { currentKjob.annotations with
      status := (determineJobStateFrom currentKjob pod).text
      reason := pod.reason
      trigger := handOver currentKjob.annotations.trigger desiredTrigger }
    suspend := suspending }

@[simp] theorem kjobKey_updatedKJob (currentKjob : KJob) (pod : Pod) (desiredTrigger : String)
    (suspending : Bool) :
    kjobKey (updatedKJob currentKjob pod desiredTrigger suspending) = kjobKey currentKjob := rfl

@[simp] theorem labels_updatedKJob (currentKjob : KJob) (pod : Pod) (desiredTrigger : String)
    (suspending : Bool) :
    (updatedKJob currentKjob pod desiredTrigger suspending).labels = currentKjob.labels := rfl

@[simp] theorem status_updatedKJob (currentKjob : KJob) (pod : Pod) (desiredTrigger : String)
    (suspending : Bool) :
    (updatedKJob currentKjob pod desiredTrigger suspending).status = currentKjob.status := rfl

@[simp] theorem recorded_updatedKJob (currentKjob : KJob) (pod : Pod) (desiredTrigger : String)
    (suspending : Bool) :
    (updatedKJob currentKjob pod desiredTrigger suspending).recorded =
      determineJobStateFrom currentKjob pod :=
  ofText_determineJobStateFrom currentKjob pod

/-- The body of the loop of `ensureKJobList`. -/
def ensureKJob (run : Run) (c : Cluster) (desiredkjob : KJob) : Except String Cluster :=
  match c.getKJob desiredkjob.ns desiredkjob.name with
  | none => do
      let owned ← setControllerReference run desiredkjob
      return c.createKJob owned
  | some currentKjob => do
      let pod := firstPod c desiredkjob.ns currentKjob.name
      let currentTrigger := currentKjob.annotations.trigger
      let desiredTrigger := desiredkjob.annotations.trigger
      let selfJob := selfJobOf run currentKjob.labels.runJobName
      let suspending ← isSuspending c selfJob.ns currentTrigger selfJob.runBefore
      return c.updateKJob (updatedKJob currentKjob pod desiredTrigger suspending)

/-! ## The pass -/

/-- The loop of `ensureKJobList`; it ends at the first error. -/
def ensureKJobs (run : Run) : List KJob → Cluster → Cluster × Except String Unit
  | [], c => (c, .ok ())
  | desiredkjob :: rest, c =>
      match ensureKJob run c desiredkjob with
      | .error e => (c, .error e)
      | .ok next => ensureKJobs run rest next

def ensureKJobList (lib : Externals) (run : Run) (c : Cluster) :
    Cluster × Except String Unit :=
  match constructKjobListFromRun lib run with
  | .error e => (c, .error e)
  | .ok kjobList => ensureKJobs run kjobList c

/-- The result of an error-free pass. -/
def ensureKJobList? (lib : Externals) (run : Run) (c : Cluster) : Option Cluster :=
  match ensureKJobList lib run c with
  | (next, .ok ()) => some next
  | (_, .error _) => none

/-- The result of `n` error-free passes one after another. -/
def passes (lib : Externals) (run : Run) : Nat → Cluster → Option Cluster
  | 0, c => some c
  | n + 1, c => (passes lib run n c).bind (ensureKJobList? lib run)

theorem ensureKJobList?_eq_some {lib : Externals} {run : Run} {c next : Cluster} :
    ensureKJobList? lib run c = some next ↔ ensureKJobList lib run c = (next, .ok ()) := by
  unfold ensureKJobList?
  split
  · next hpass => simp [hpass]
  · next hpass => simp [hpass]

/-- A run that some pass could construct jobs for is constructible. -/
theorem exists_kjobList {lib : Externals} {run : Run} {c next : Cluster}
    (h : ensureKJobList lib run c = (next, .ok ())) :
    ∃ kjobList, constructKjobListFromRun lib run = .ok kjobList := by
  unfold ensureKJobList at h
  split at h
  · simp at h
  · next kjobList hlist => exact ⟨kjobList, hlist⟩

/-- A job that a lookup finds is stored under the key looked up. -/
theorem Cluster.mem_of_getKJob {c : Cluster} {ns name : String} {kjob : KJob}
    (hget : c.getKJob ns name = some kjob) :
    kjob ∈ c.kjobs ∧ kjob.ns = ns ∧ kjob.name = name := by
  refine ⟨List.mem_of_find?_eq_some hget, ?_⟩
  simpa using List.find?_some hget

/-- Replacing a job does not change which key a lookup finds. -/
theorem Cluster.getKJob_updateKJob (c : Cluster) (updated : KJob) (ns name : String) :
    (c.updateKJob updated).getKJob ns name =
      (c.getKJob ns name).map fun k => if kjobKey k = kjobKey updated then updated else k := by
  unfold Cluster.getKJob Cluster.updateKJob
  apply find?_map_kept
  intro k
  split
  · next hkey =>
      obtain ⟨hns, hname⟩ := Prod.mk.inj hkey
      rw [hns, hname]
  · rfl

/-- Looking up the key of a job that has been replaced. -/
theorem Cluster.getKJob_updateKJob_self {c : Cluster} {ns name : String} {old updated : KJob}
    (hget : c.getKJob ns name = some old) (hkey : kjobKey updated = kjobKey old) :
    (c.updateKJob updated).getKJob ns name = some updated := by
  rw [Cluster.getKJob_updateKJob, hget]
  simp [hkey]

/-- Looking up a key after a job has been created. -/
theorem Cluster.getKJob_createKJob (c : Cluster) (kjob : KJob) (ns name : String) :
    (c.createKJob kjob).getKJob ns name =
      (c.getKJob ns name).or (if (ns, name) = kjobKey kjob then some kjob else none) := by
  unfold Cluster.getKJob Cluster.createKJob
  rw [List.find?_append]
  congr 1
  by_cases hkey : kjob.ns = ns ∧ kjob.name = name
  · simp [hkey, kjobKey]
  · have hne : (ns, name) ≠ kjobKey kjob := by
      intro heq
      exact hkey ⟨(Prod.mk.inj heq).1.symm, (Prod.mk.inj heq).2.symm⟩
    simp [hkey, hne]

/-! ## What one step can do -/

/-- A step on an existing job, whole: it replaces this job and nothing else. -/
theorem ensureKJob_of_exists {run : Run} {c next : Cluster} {desiredkjob currentKjob : KJob}
    (hget : c.getKJob desiredkjob.ns desiredkjob.name = some currentKjob)
    (h : ensureKJob run c desiredkjob = .ok next) :
    ∃ suspending,
      isSuspending c (selfJobOf run currentKjob.labels.runJobName).ns
        currentKjob.annotations.trigger
        (selfJobOf run currentKjob.labels.runJobName).runBefore = .ok suspending ∧
      next = c.updateKJob (updatedKJob currentKjob
        (firstPod c desiredkjob.ns currentKjob.name) desiredkjob.annotations.trigger
        suspending) := by
  unfold ensureKJob at h
  simp only [hget, bind, Except.bind, pure, Except.pure] at h
  split at h
  · cases h
  · next suspending hsuspending =>
      cases h
      exact ⟨suspending, hsuspending, rfl⟩

/-- A step on a missing job adds it, owned by the run. -/
theorem ensureKJob_of_missing {run : Run} {c next : Cluster} {desiredkjob : KJob}
    (hget : c.getKJob desiredkjob.ns desiredkjob.name = none)
    (h : ensureKJob run c desiredkjob = .ok next) :
    next = c.createKJob { desiredkjob with owner := some ⟨.run, run.name⟩ } := by
  unfold ensureKJob setControllerReference at h
  simp only [hget, bind, Except.bind, pure, Except.pure] at h
  cases howner : validateOwner run.ns desiredkjob.ns with
  | error e => simp [howner] at h
  | ok _ =>
      simp only [howner, Except.ok.injEq] at h
      exact h.symm

/-- The owner of a created job shares its namespace. -/
theorem ensureKJob_ns {run : Run} {c next : Cluster} {desiredkjob : KJob} (hns : run.ns ≠ "")
    (hget : c.getKJob desiredkjob.ns desiredkjob.name = none)
    (h : ensureKJob run c desiredkjob = .ok next) : desiredkjob.ns = run.ns := by
  simp only [ensureKJob, hget] at h
  obtain ⟨_, hset, -⟩ := bind_ok h
  obtain ⟨_, hvalid, -⟩ := bind_ok hset
  by_contra hother
  simp [validateOwner, hns, hother] at hvalid

/-- A released job has no trigger set and only done jobs before it. -/
theorem isSuspending_eq_false {c : Cluster} {ns currentTrigger : String}
    {runBefore : List String} (h : isSuspending c ns currentTrigger runBefore = .ok false) :
    ∀ b ∈ runBefore, currentTrigger ≠ formatBool true ∧
      ∃ beforeKjob rest, c.listKJobs ns b = beforeKjob :: rest ∧
        (JobState.ofText beforeKjob.annotations.status = .completed ∨
          JobState.ofText beforeKjob.annotations.status = .deleted) := by
  induction runBefore with
  | nil => simp
  | cons before runBefore ih =>
      unfold isSuspending at h
      split at h
      · cases h
      · next beforeKjob rest hlist =>
          simp only at h
          split at h
          · cases h
          · next hfree =>
              simp only [not_or, not_not] at hfree
              intro b hb
              rcases List.mem_cons.mp hb with rfl | hb
              · refine ⟨hfree.1, beforeKjob, rest, hlist, ?_⟩
                rcases JobState.postRun_iff.mp hfree.2.2 with hstate | hstate | hstate
                · exact Or.inl hstate
                · exact absurd hstate hfree.2.1
                · exact Or.inr hstate
              · exact ih h b hb

/-! ## What a step records -/

/-- The job after a step on an existing job, looked up under its key: it
carries the state that the classifier reads off the job before the step. -/
theorem ensureKJob_records {run : Run} {c next : Cluster} {desiredkjob currentKjob : KJob}
    (hget : c.getKJob desiredkjob.ns desiredkjob.name = some currentKjob)
    (h : ensureKJob run c desiredkjob = .ok next) :
    ∃ updated, next.getKJob desiredkjob.ns desiredkjob.name = some updated ∧
      JobState.ofText updated.annotations.status =
        determineJobStateFrom currentKjob (firstPod c desiredkjob.ns currentKjob.name) := by
  obtain ⟨suspending, -, rfl⟩ := ensureKJob_of_exists hget h
  refine ⟨_, Cluster.getKJob_updateKJob_self hget ?_, ?_⟩
  · rfl
  · exact recorded_updatedKJob _ _ _ _

/-- A step records a post-run state exactly of the jobs that have terminated
and are not held back.  An active job is judged by the first of its pods,
which has to be pending or running for the judgement to count here. -/
theorem recorded_postRun_iff {run : Run} {c next : Cluster} {desiredkjob currentKjob : KJob}
    (hget : c.getKJob desiredkjob.ns desiredkjob.name = some currentKjob)
    (h : ensureKJob run c desiredkjob = .ok next)
    (hpod : ¬ currentKjob.Held → 0 < currentKjob.status.active →
      (firstPod c desiredkjob.ns currentKjob.name).phase = .pending ∨
        (firstPod c desiredkjob.ns currentKjob.name).phase = .running) :
    ∃ updated, next.getKJob desiredkjob.ns desiredkjob.name = some updated ∧
      ((JobState.ofText updated.annotations.status).PostRun ↔
        ¬ currentKjob.Held ∧ currentKjob.status.Terminated) := by
  obtain ⟨updated, hupdated, hstate⟩ := ensureKJob_records hget h
  refine ⟨updated, hupdated, ?_⟩
  rw [hstate]
  by_cases hheld : currentKjob.Held
  · rw [determineJobStateFrom_of_held _ hheld]
    simp [hheld, JobState.PostRun, jobCategory]
  · by_cases hactive : 0 < currentKjob.status.active
    · have hnot : ¬ currentKjob.status.Terminated := by
        intro hterminated
        have hidle := hterminated.1
        omega
      rw [determineJobStateFrom_of_active _ hheld hactive]
      rcases hpod hheld hactive with hphase | hphase
      · simp [hphase, hnot, JobState.PostRun, jobCategory]
      · simp [hphase, hnot, JobState.PostRun, jobCategory]
    · have hidle : currentKjob.status.active = 0 := by omega
      rw [postRun_iff_of_idle _ hheld hidle]
      simp [hheld, JobStatus.Terminated, hidle]

/-- A job that has succeeded once, with the trigger of its last pass. -/
def trainedKJob (trigger : String) : KJob where
  name := "train"
  ns := "team"
  labels := { runJobName := "train" }
  annotations := { trigger := trigger }
  status := { succeeded := 1 }

def trainedCluster (trigger : String) : Cluster := { kjobs := [trainedKJob trigger] }

theorem recorded_postRun_trained :
    ∃ updated, ((trainedCluster "false").updateKJob { trainedKJob "false" with
        annotations := { trigger := "false", status := "completed" } }).getKJob "team" "train" =
          some updated ∧
      ((JobState.ofText updated.annotations.status).PostRun ↔
        ¬ (trainedKJob "false").Held ∧ (trainedKJob "false").status.Terminated) := by
  have hget : (trainedCluster "false").getKJob "team" "train" = some (trainedKJob "false") := rfl
  have hstep : ensureKJob {} (trainedCluster "false") (trainedKJob "false") =
      .ok ((trainedCluster "false").updateKJob { trainedKJob "false" with
        annotations := { trigger := "false", status := "completed" } }) := rfl
  exact recorded_postRun_iff hget hstep (by decide)

/-- Termination alone does not decide it: with its trigger set, a job that has
succeeded is recorded as waiting. -/
theorem held_not_recorded_postRun :
    ¬ ∀ (run : Run) (c next : Cluster) (desiredkjob currentKjob updated : KJob),
      c.getKJob desiredkjob.ns desiredkjob.name = some currentKjob →
      ensureKJob run c desiredkjob = .ok next →
      next.getKJob desiredkjob.ns desiredkjob.name = some updated →
      ((JobState.ofText updated.annotations.status).PostRun ↔
        currentKjob.status.Terminated) := by
  intro hall
  have hiff := hall {} (trainedCluster "true")
    ((trainedCluster "true").updateKJob { trainedKJob "true" with
      annotations := { trigger := "true", status := "waiting" } })
    (trainedKJob "true") (trainedKJob "true")
    { trainedKJob "true" with annotations := { trigger := "true", status := "waiting" } }
    rfl rfl rfl
  exact absurd (hiff.mpr (by decide)) (by decide)

end PipelineOperator.Controller
