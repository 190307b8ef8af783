import PipelineOperator.Controller.KJobList

/-!
# The suspend decision

The comment above the decision gives two reasons to suspend a job: a job of its
`RunBefore` list has failed or is not post-run, or the trigger is set.  The
code asks for both inside the loop over that list, so the trigger counts only
for a job that has predecessors.

## Main results

* `isSuspending_iff`: what the loop computes.
* `ensureKJobs_processed`: every job of an error-free pass has its turn.
* `suspend_iff`: the flag is the documented one exactly when the job has
  predecessors or its trigger is not set.
-/

namespace PipelineOperator.Controller

open PipelineOperator.Api
open PipelineOperator.Go

/-! ## The decision -/

/-- The state recorded of a job named in `RunBefore`. -/
def beforeJobState (c : Cluster) (ns beforeJob : String) : JobState :=
  match c.listKJobs ns beforeJob with
  | [] => .undeclared ""
  | beforeKjob :: _ => beforeKjob.recorded

/-- A job recorded in this state holds back those behind it. -/
def HoldsBack (state : JobState) : Prop := state = .failed ∨ ¬ state.PostRun

instance (state : JobState) : Decidable (HoldsBack state) := by
  unfold HoldsBack
  infer_instance

/-- The reasons of the comment: the trigger, or a predecessor that has failed
or has not ended. -/
def SuspendReason (c : Cluster) (ns currentTrigger : String) (runBefore : List String) : Prop :=
  currentTrigger = formatBool true ∨ ∃ b ∈ runBefore, HoldsBack (beforeJobState c ns b)

instance (c : Cluster) (ns currentTrigger : String) (runBefore : List String) :
    Decidable (SuspendReason c ns currentTrigger runBefore) := by
  unfold SuspendReason
  infer_instance

section Decision

variable {c : Cluster} {ns currentTrigger : String}

/-- One turn of the loop. -/
private theorem isSuspending_cons {b : String} {rest : List String} {suspending : Bool}
    (h : isSuspending c ns currentTrigger (b :: rest) = .ok suspending) :
    ((currentTrigger = formatBool true ∨ HoldsBack (beforeJobState c ns b)) ∧
        suspending = true) ∨
      (¬ (currentTrigger = formatBool true ∨ HoldsBack (beforeJobState c ns b)) ∧
        isSuspending c ns currentTrigger rest = .ok suspending) := by
  unfold isSuspending at h
  split at h
  · cases h
  · next beforeKjob others hlist =>
      have hstate : beforeJobState c ns b = JobState.ofText beforeKjob.annotations.status := by
        rw [beforeJobState, hlist]
        rfl
      rw [hstate]
      simp only at h
      split at h
      · next hreason =>
          cases h
          exact Or.inl ⟨hreason, rfl⟩
      · next hreason => exact Or.inr ⟨hreason, h⟩

/-- The loop finds a reason to suspend if there is one, provided that it makes
a turn. -/
theorem isSuspending_iff {runBefore : List String} {suspending : Bool}
    (h : isSuspending c ns currentTrigger runBefore = .ok suspending) :
    suspending = true ↔ runBefore ≠ [] ∧ SuspendReason c ns currentTrigger runBefore := by
  induction runBefore with
  | nil =>
      cases h
      simp
  | cons b rest ih =>
      rcases isSuspending_cons h with ⟨hreason, hsuspending⟩ | ⟨hreason, hrest⟩
      · have hall : SuspendReason c ns currentTrigger (b :: rest) := by
          rcases hreason with htrigger | hholds
          · exact Or.inl htrigger
          · exact Or.inr ⟨b, List.mem_cons_self, hholds⟩
        simp [hsuspending, hall]
      · rw [not_or] at hreason
        rw [ih hrest]
        -- Neither the trigger nor this predecessor is a reason.
        simp only [SuspendReason, hreason.1, false_or, ne_eq, List.cons_ne_nil,
          not_false_eq_true, true_and, List.exists_mem_cons_iff, hreason.2]
        constructor
        · exact fun hrest => hrest.2
        · rintro ⟨b', hb', hholds⟩
          exact ⟨List.ne_nil_of_mem hb', b', hb', hholds⟩

end Decision

/-! ## The turn of a job in a pass -/

/-- In an error-free pass from `c` the job `desiredkjob` is processed in the
store `mid`, which leaves `next`. -/
structure Processed (lib : Externals) (run : Run) (c : Cluster) (desiredkjob : KJob)
    (mid next : Cluster) : Prop where
  pass : ∃ front back final, constructKjobListFromRun lib run = .ok (front ++ desiredkjob :: back) ∧
    ensureKJobs run front c = (mid, .ok ()) ∧ ensureKJobs run back next = (final, .ok ()) ∧
    ensureKJobList lib run c = (final, .ok ())
  turn : ensureKJob run mid desiredkjob = .ok next

/-- A pass over a list is one over its front followed by one over its back. -/
private theorem ensureKJobs_append {run : Run} {front back : List KJob} {c final : Cluster}
    (h : ensureKJobs run (front ++ back) c = (final, .ok ())) :
    ∃ mid, ensureKJobs run front c = (mid, .ok ()) ∧
      ensureKJobs run back mid = (final, .ok ()) := by
  induction front generalizing c with
  | nil => exact ⟨c, rfl, h⟩
  | cons desiredkjob front ih =>
      rw [List.cons_append, ensureKJobs] at h
      split at h
      · cases h
      · next next hnext =>
          obtain ⟨mid, hfront, hback⟩ := ih h
          refine ⟨mid, ?_, hback⟩
          rw [ensureKJobs, hnext]
          exact hfront

/-- Every job of the list has its turn in an error-free pass. -/
theorem ensureKJobs_processed {lib : Externals} {run : Run} {c final : Cluster}
    {front back : List KJob} {desiredkjob : KJob}
    (hlist : constructKjobListFromRun lib run = .ok (front ++ desiredkjob :: back))
    (hpass : ensureKJobList lib run c = (final, .ok ())) :
    ∃ mid next, Processed lib run c desiredkjob mid next := by
  have hjobs : ensureKJobs run (front ++ desiredkjob :: back) c = (final, .ok ()) := by
    rw [← hpass, ensureKJobList, hlist]
  obtain ⟨mid, hfront, hrest⟩ := ensureKJobs_append hjobs
  rw [ensureKJobs] at hrest
  split at hrest
  · cases hrest
  · next next hnext =>
      exact ⟨mid, next, ⟨front, back, final, hlist, hfront, hrest, hpass⟩, hnext⟩

/-! ## The flag -/

/-- The flag that a pass writes on an existing job is the documented one if
and only if the job has predecessors or its trigger is not set. -/
theorem suspend_iff {lib : Externals} {run : Run} {c mid next : Cluster}
    {desiredkjob currentKjob : KJob} (h : Processed lib run c desiredkjob mid next)
    (hget : mid.getKJob desiredkjob.ns desiredkjob.name = some currentKjob) :
    ∃ updated, next.getKJob desiredkjob.ns desiredkjob.name = some updated ∧
      ((updated.suspend = true ↔
          SuspendReason mid (selfJobOf run currentKjob.labels.runJobName).ns
            currentKjob.annotations.trigger
            (selfJobOf run currentKjob.labels.runJobName).runBefore) ↔
        (selfJobOf run currentKjob.labels.runJobName).runBefore ≠ [] ∨
          currentKjob.annotations.trigger ≠ formatBool true) := by
  obtain ⟨suspending, hsuspending, hnext⟩ := ensureKJob_of_exists hget h.turn
  refine ⟨updatedKJob currentKjob (firstPod mid desiredkjob.ns currentKjob.name)
    desiredkjob.annotations.trigger suspending, ?_, ?_⟩
  · rw [hnext]
    exact Cluster.getKJob_updateKJob_self hget rfl
  · have hiff := isSuspending_iff hsuspending
    show (suspending = true ↔ _) ↔ _
    rw [hiff]
    generalize selfJobOf run currentKjob.labels.runJobName = selfJob
    by_cases hbefore : selfJob.runBefore = []
    · simp [hbefore, SuspendReason]
    · simp [hbefore]

/-! ## A trigger without predecessors -/

/-- A run of two jobs, one behind the other, whose triggers are set. -/
def triggeredRun : Run where
  name := "nightly"
  ns := "team"
  spec :=
    { jobs :=
        [ { name := "build", ns := "team", image := "build", trigger := "true" }
        , { name := "deploy", ns := "team", image := "deploy", trigger := "true"
            runBefore := ["build"] } ] }

/-- The kubernetes jobs that a pass over it asks for. -/
def triggeredKJobs : List KJob :=
  (constructKjobListFromRun Externals.plain triggeredRun).toOption.getD []

def triggeredBuild : KJob := triggeredKJobs.headD {}

def triggeredDeploy : KJob := triggeredKJobs.tail.headD {}

/-- The store after the first pass, and how the second pass goes on from it. -/
def triggeredCluster : Cluster := (ensureKJobs triggeredRun triggeredKJobs {}).1

def triggeredMid : Cluster := (ensureKJobs triggeredRun [triggeredBuild] triggeredCluster).1

def triggeredNext : Cluster := (ensureKJobs triggeredRun [triggeredDeploy] triggeredMid).1

/-- The kubernetes job of the given one in a store. -/
def storedKJob (c : Cluster) (kjob : KJob) : KJob := (c.getKJob kjob.ns kjob.name).getD {}

/-- The job behind another one is suspended, because of its trigger. -/
theorem suspend_iff_triggeredDeploy :
    (storedKJob triggeredNext triggeredDeploy).suspend = true ∧
      SuspendReason triggeredMid "team" "true" ["build"] := by
  have hprocessed : Processed Externals.plain triggeredRun triggeredCluster triggeredDeploy
      triggeredMid triggeredNext :=
    ⟨⟨[triggeredBuild], [], triggeredNext, by decide +kernel, by decide +kernel, rfl,
      by decide +kernel⟩, by decide +kernel⟩
  have hget : triggeredMid.getKJob triggeredDeploy.ns triggeredDeploy.name =
      some (storedKJob triggeredMid triggeredDeploy) := by
    decide +kernel
  obtain ⟨updated, hupdated, hiff⟩ := suspend_iff hprocessed hget
  have hself : selfJobOf triggeredRun
      (storedKJob triggeredMid triggeredDeploy).labels.runJobName =
        { name := "deploy", ns := "team", image := "deploy", trigger := "true"
          runBefore := ["build"] } := by
    decide +kernel
  have htrigger : (storedKJob triggeredMid triggeredDeploy).annotations.trigger = "true" := by
    decide +kernel
  rw [hself, htrigger] at hiff
  have hreason : SuspendReason triggeredMid "team" "true" ["build"] := Or.inl rfl
  refine ⟨?_, hreason⟩
  rw [storedKJob, hupdated]
  exact (hiff.mpr (Or.inl (by simp))).mpr hreason

/-- The documented reasons alone do not decide it: the job in front is released
although its trigger is set. -/
theorem triggered_not_suspended :
    ¬ ∀ (lib : Externals) (run : Run) (c mid next : Cluster)
      (desiredkjob currentKjob updated : KJob),
      Processed lib run c desiredkjob mid next →
      mid.getKJob desiredkjob.ns desiredkjob.name = some currentKjob →
      next.getKJob desiredkjob.ns desiredkjob.name = some updated →
      (updated.suspend = true ↔
        SuspendReason mid (selfJobOf run currentKjob.labels.runJobName).ns
          currentKjob.annotations.trigger
          (selfJobOf run currentKjob.labels.runJobName).runBefore) := by
  intro hall
  have hprocessed : Processed Externals.plain triggeredRun triggeredCluster triggeredBuild
      triggeredCluster triggeredMid :=
    ⟨⟨[], [triggeredDeploy], triggeredNext, by decide +kernel, rfl, by decide +kernel,
      by decide +kernel⟩, by decide +kernel⟩
  have hiff := hall _ _ _ _ _ _ (storedKJob triggeredCluster triggeredBuild)
    (storedKJob triggeredMid triggeredBuild) hprocessed (by decide +kernel) (by decide +kernel)
  have htrigger : (storedKJob triggeredCluster triggeredBuild).annotations.trigger =
      formatBool true := by
    decide +kernel
  have hreleased : (storedKJob triggeredMid triggeredBuild).suspend = false := by decide +kernel
  have hsuspended := hiff.mpr (Or.inl htrigger)
  rw [hreleased] at hsuspended
  cases hsuspended

end PipelineOperator.Controller
