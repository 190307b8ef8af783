import PipelineOperator.Controller.Completion
import PipelineOperator.Controller.Release
import PipelineOperator.Controller.Settling
import PipelineOperator.Lib.Eventually
import PipelineOperator.Lib.Lasso

/-!
# Every run comes to its end

An endless run of the machine of a run, from a store without its jobs: passes
create and update the kubernetes jobs one by one, may break off or end in an
error, and the cluster reports and restarts what it likes in between.  If
reconciles get through again and again, and a job that is not suspended any
more succeeds at some time, then in the end all jobs have succeeded, in the
order of their dependencies, the status says so, and the execution is over.

Jobs may well run too early on the way, and may be suspended again.  What the
end rests on is that a recorded success is not taken back.

## Main results

* `job_step`: what one step does to the kubernetes job of a job.
* `visited_again`: every job is visited between two status writes.
* `run_completes`: in the end the run is completed.
-/

namespace PipelineOperator.Controller

open PipelineOperator.Lib
open PipelineOperator.Api
open PipelineOperator.Go
open Filter

/-- The kubernetes job of a job. -/
def RunWorld.kjobOf (lib : Externals) (run : Run) (s : RunWorld) (job : Job) : Option KJob :=
  s.cluster.getKJob run.ns (kjobNameOf lib run job)

/-! ## The kubernetes jobs of the run -/

/-- The kubernetes job has been created for the job. -/
structure CreatedFor (lib : Externals) (run : Run) (kjob : KJob) (job : Job) : Prop where
  name : kjob.name = kjobNameOf lib run job
  runName : kjob.labels.runName = run.name
  runJobName : kjob.labels.runJobName = job.name
  owner : kjob.owner = some ⟨.run, run.name⟩
  trigger : kjob.annotations.trigger = job.trigger

/-- What looks like a kubernetes job of the run has been created for one of its
jobs. -/
def AllCreated (lib : Externals) (run : Run) (c : Cluster) : Prop :=
  ∀ kjob ∈ c.kjobs, kjob.ns = run.ns →
    (kjob.labels.runName = run.name ∨ ∃ job ∈ run.spec.jobs, kjob.name = kjobNameOf lib run job) →
    ∃ job ∈ run.spec.jobs, CreatedFor lib run kjob job

/-- On its way, a run has nothing but kubernetes jobs that have been created
for it. -/
structure Underway (lib : Externals) (run : Run) (s : RunWorld) : Prop
    extends Tracked lib run s where
  labelled : Labelled lib run s.cluster
  created : AllCreated lib run s.cluster

section Underway

variable {lib : Externals} {run : Run} {s t : RunWorld} {c : Cluster}

theorem kjobName_inj (hrun : WellFormed run) {job other : Job} (hjob : job ∈ run.spec.jobs)
    (hother : other ∈ run.spec.jobs) (hname : kjobNameOf lib run job = kjobNameOf lib run other) :
    job = other :=
  hrun.names.eq_of_key hjob hother (getShortHashPostFix_inj hname).1

theorem Underway.createdFor (hs : Underway lib run s) (hrun : WellFormed run) {job : Job}
    (hjob : job ∈ run.spec.jobs) {kjob : KJob} (hkjob : s.kjobOf lib run job = some kjob) :
    CreatedFor lib run kjob job := by
  obtain ⟨hmem, hns, hname⟩ := Cluster.mem_of_getKJob hkjob
  obtain ⟨other, hother, hcreated⟩ := hs.created kjob hmem hns (Or.inr ⟨job, hjob, hname⟩)
  have hsame := kjobName_inj hrun hjob hother (hname.symm.trans hcreated.name)
  rw [hsame]
  exact hcreated

/-- A job that is replaced by one of the same key, labels, owner and trigger. -/
theorem AllCreated.updateKJob (hc : AllCreated lib run c) {old updated : KJob}
    (hold : old ∈ c.kjobs) (hkey : kjobKey updated = kjobKey old)
    (hlabels : updated.labels = old.labels) (howner : updated.owner = old.owner)
    (htrigger : updated.annotations.trigger = old.annotations.trigger) :
    AllCreated lib run (c.updateKJob updated) := by
  intro kjob hkjob hns hlooks
  obtain ⟨k, hk, rfl⟩ := List.mem_map.mp hkjob
  have hparts := Prod.mk.inj hkey
  by_cases hreplaced : kjobKey k = kjobKey updated
  · rw [if_pos hreplaced] at hns hlooks ⊢
    rw [hlabels, hparts.2] at hlooks
    obtain ⟨job, hjob, hcreated⟩ := hc old hold (hparts.1.symm.trans hns) hlooks
    refine ⟨job, hjob, ⟨hparts.2.trans hcreated.name, ?_, ?_, howner.trans hcreated.owner,
      htrigger.trans hcreated.trigger⟩⟩
    · rw [hlabels, hcreated.runName]
    · rw [hlabels, hcreated.runJobName]
  · rw [if_neg hreplaced] at hns hlooks ⊢
    exact hc k hk hns hlooks

theorem AllCreated.createKJob (hc : AllCreated lib run c) {job : Job}
    (hjob : job ∈ run.spec.jobs) {kjob : KJob} (hdesired : Desired lib run job kjob)
    (howner : kjob.owner = some ⟨.run, run.name⟩) : AllCreated lib run (c.createKJob kjob) := by
  intro k hk hns hlooks
  rcases List.mem_append.mp hk with hk | hk
  · exact hc k hk hns hlooks
  · rw [List.mem_singleton.mp hk]
    exact ⟨job, hjob,
      ⟨hdesired.name, hdesired.runName, hdesired.runJobName, howner, hdesired.trigger⟩⟩

theorem Underway.init (h : (runMachine lib run).init s) : Underway lib run s where
  toTracked := Tracked.init h
  labelled := h.1.labelled
  created := by
    intro kjob hkjob hns hlooks
    rcases hlooks with hrunName | ⟨job, hjob, hname⟩
    · exact absurd hrunName (h.1.runName kjob hkjob hns)
    · exact absurd hname (h.1.label kjob hkjob hns job hjob).2

/-- Replacing a job, as a step of the machine. -/
private theorem underway_replaced (hs : Underway lib run s) (ht : Tracked lib run t)
    {ns name : String} {old updated : KJob} (hget : s.cluster.getKJob ns name = some old)
    (hcluster : t.cluster = s.cluster.updateKJob updated)
    (hkey : kjobKey updated = kjobKey old) (hlabels : updated.labels = old.labels)
    (howner : updated.owner = old.owner)
    (htrigger : updated.annotations.trigger = old.annotations.trigger) : Underway lib run t := by
  have hmem := (Cluster.mem_of_getKJob hget).1
  refine
    { toTracked := ht
      labelled := ?_
      created := ?_ }
  · rw [hcluster]
    exact hs.labelled.updateKJob hmem hkey hlabels
  · rw [hcluster]
    exact hs.created.updateKJob hmem hkey hlabels howner htrigger

/-- A visit of a job finds its kubernetes job. -/
theorem Underway.found (hs : Underway lib run s) (hrun : WellFormed run) {job : Job}
    (hjob : job ∈ run.spec.jobs) {desiredkjob kjob : KJob}
    (hdesired : Desired lib run job desiredkjob)
    (hget : s.cluster.getKJob desiredkjob.ns desiredkjob.name = some kjob) :
    s.kjobOf lib run job = some kjob ∧ kjob.annotations.trigger = job.trigger ∧
      selfJobOf run kjob.labels.runJobName = job := by
  rw [hdesired.ns, hrun.ns_eq job hjob, hdesired.name] at hget
  obtain ⟨hmem, hns, hname⟩ := Cluster.mem_of_getKJob hget
  have hlabel := (hs.labelled.label_iff kjob hmem job hjob hns).mpr hname
  refine ⟨hget, (hs.createdFor hrun hjob hget).trigger, ?_⟩
  rw [hlabel, hrun.selfJobOf hjob]

theorem Underway.step (hs : Underway lib run s) (hrun : WellFormed run) {a : RunAction}
    (hstep : s.step lib run a = some t) : Underway lib run t := by
  have ht := hs.toTracked.step hstep
  have hsame : t.cluster.kjobs = s.cluster.kjobs → Underway lib run t := by
    intro hkjobs
    refine
      { toTracked := ht
        labelled := hs.labelled.congr hkjobs
        created := ?_ }
    unfold AllCreated
    rw [hkjobs]
    exact hs.created
  cases RunWorld.step_effect hs.toTracked hstep with
  | quiet hkjobs => exact hsame hkjobs
  | wrote hcluster => exact hsame (by rw [hcluster])
  | created hjob _ hdesired hmissing hcluster =>
      have howned := desired_withOwner hdesired (some ⟨.run, run.name⟩)
      refine
        { toTracked := ht
          labelled := ?_
          created := ?_ }
      · rw [hcluster]
        exact hs.labelled.createKJob hrun hjob howned hmissing
      · rw [hcluster]
        exact hs.created.createKJob hjob howned rfl
  | @updated job desiredkjob currentKjob _ _ hjob _ hdesired hget _ hcluster =>
      have htrigger := (hs.found hrun hjob hdesired hget).2.1
      refine underway_replaced hs ht hget hcluster rfl rfl rfl ?_
      show handOver currentKjob.annotations.trigger desiredkjob.annotations.trigger = _
      rw [hdesired.trigger, htrigger, handOver_self]
  | reported hget _ hcluster => exact underway_replaced hs ht hget hcluster rfl rfl rfl rfl
  | marked hget hcluster => exact underway_replaced hs ht hget hcluster rfl rfl rfl rfl

end Underway

/-! ## One step -/

/-- What a step does to the kubernetes job of a job: a visit decides anew
whether it is suspended and records its state, and nothing else does. -/
inductive JobStep (run : Run) (s : RunWorld) (job : Job) (kjob kjob' : KJob) : Prop where
  | kept (hsuspend : kjob'.suspend = kjob.suspend)
      (hannotations : kjob'.annotations = kjob.annotations)
      (hcounts : kjob.status.Succeeded → kjob'.status.Succeeded) : JobStep run s job kjob kjob'
  | visited {pod : Pod} {suspending : Bool}
      (hsuspending : isSuspending s.cluster run.ns job.trigger job.runBefore = .ok suspending)
      (hkjob' : kjob' = updatedKJob kjob pod job.trigger suspending) :
      JobStep run s job kjob kjob'

/-- The action visits the job, and meets no error. -/
def Visits (lib : Externals) (run : Run) (s : RunWorld) (a : RunAction) (job : Job) : Prop :=
  a = .process ∧ ∃ desiredkjob todo next, s.phase = .ensuring (desiredkjob :: todo) ∧
    Desired lib run job desiredkjob ∧ ensureKJob run s.cluster desiredkjob = .ok next

section Step

variable {lib : Externals} {run : Run} {s t : RunWorld} {job : Job} {kjob : KJob}

/-- A lookup after a replacement: the new job under the key of the old one, and
under another key what has been there. -/
theorem getKJob_updateKJob_cases {c : Cluster} {ns name ns' name' : String} {old updated : KJob}
    (hold : c.getKJob ns name = some old) (hkey : kjobKey updated = kjobKey old)
    (hkjob : c.getKJob ns' name' = some kjob) :
    kjob = old ∧ (c.updateKJob updated).getKJob ns' name' = some updated ∨
      (c.updateKJob updated).getKJob ns' name' = some kjob := by
  rw [Cluster.getKJob_updateKJob, hkjob, Option.map_some]
  by_cases hsame : kjobKey kjob = kjobKey updated
  · rw [if_pos hsame]
    obtain ⟨-, hns, hname⟩ := Cluster.mem_of_getKJob hold
    obtain ⟨-, hns', hname'⟩ := Cluster.mem_of_getKJob hkjob
    have hparts := Prod.mk.inj (hsame.trans hkey)
    have heq : some kjob = some old := by
      rw [← hkjob, ← hold, ← hns', ← hname', ← hns, ← hname, hparts.1, hparts.2]
    exact Or.inl ⟨Option.some.inj heq, rfl⟩
  · rw [if_neg hsame]
    exact Or.inr rfl

/-- The kubernetes job of a job stays, and changes in one of the two ways. -/
theorem job_step (hs : Underway lib run s) (hrun : WellFormed run) (hjob : job ∈ run.spec.jobs)
    (hkjob : s.kjobOf lib run job = some kjob) {a : RunAction}
    (hstep : s.step lib run a = some t) :
    ∃ kjob', t.kjobOf lib run job = some kjob' ∧ JobStep run s job kjob kjob' := by
  have hstays : t.kjobOf lib run job = some kjob →
      ∃ kjob', t.kjobOf lib run job = some kjob' ∧ JobStep run s job kjob kjob' :=
    fun h => ⟨kjob, h, .kept rfl rfl id⟩
  have hreplaced : ∀ {ns name : String} {old updated : KJob},
      s.cluster.getKJob ns name = some old → t.cluster = s.cluster.updateKJob updated →
      kjobKey updated = kjobKey old → (kjob = old → JobStep run s job kjob updated) →
      ∃ kjob', t.kjobOf lib run job = some kjob' ∧ JobStep run s job kjob kjob' := by
    intro ns name old updated hget hcluster hkey heffect
    rw [RunWorld.kjobOf, hcluster]
    rcases getKJob_updateKJob_cases hget hkey hkjob with ⟨heq, hnew⟩ | hkept
    · exact ⟨updated, hnew, heffect heq⟩
    · exact ⟨kjob, hkept, .kept rfl rfl id⟩
  cases RunWorld.step_effect hs.toTracked hstep with
  | quiet hkjobs =>
      apply hstays
      rw [RunWorld.kjobOf, Cluster.getKJob, hkjobs]
      exact hkjob
  | wrote hcluster =>
      apply hstays
      rw [RunWorld.kjobOf, hcluster]
      exact hkjob
  | created _ _ _ _ hcluster =>
      apply hstays
      rw [RunWorld.kjobOf] at hkjob
      rw [RunWorld.kjobOf, hcluster, Cluster.getKJob_createKJob, hkjob, Option.some_or]
  | @updated other desiredkjob currentKjob _ suspending hother _ hdesired hget hsuspending
      hcluster =>
      refine hreplaced hget hcluster (kjobKey_updatedKJob _ _ _ _) ?_
      rintro rfl
      obtain ⟨hcurrent, htrigger, hself⟩ := hs.found hrun hother hdesired hget
      -- The visited job is the one in question, as their names are equal.
      have hname : kjobNameOf lib run other = kjobNameOf lib run job :=
        (Cluster.mem_of_getKJob hcurrent).2.2.symm.trans (Cluster.mem_of_getKJob hkjob).2.2
      have heq := kjobName_inj hrun hother hjob hname
      rw [hself, htrigger, hrun.ns_eq other hother, heq] at hsuspending
      have hupdated : updatedKJob kjob (firstPod s.cluster desiredkjob.ns kjob.name)
            desiredkjob.annotations.trigger suspending =
          updatedKJob kjob (firstPod s.cluster desiredkjob.ns kjob.name) job.trigger
            suspending := by
        rw [hdesired.trigger, heq]
      exact .visited hsuspending hupdated
  | reported hget hcounts hcluster =>
      refine hreplaced hget hcluster rfl ?_
      rintro rfl
      exact .kept rfl rfl hcounts
  | marked hget hcluster =>
      refine hreplaced hget hcluster rfl ?_
      rintro rfl
      exact .kept rfl rfl id

/-- What a visit leaves: the job exists, and if it did before, it has been
updated. -/
theorem visit_step (hs : Underway lib run s) (hrun : WellFormed run) (hjob : job ∈ run.spec.jobs)
    {a : RunAction} (hvisit : Visits lib run s a job) (hstep : s.step lib run a = some t) :
    (s.kjobOf lib run job = none ∧ (t.kjobOf lib run job).isSome) ∨
      ∃ kjob pod suspending, s.kjobOf lib run job = some kjob ∧
        isSuspending s.cluster run.ns job.trigger job.runBefore = .ok suspending ∧
        t.kjobOf lib run job = some (updatedKJob kjob pod job.trigger suspending) := by
  obtain ⟨rfl, desiredkjob, todo, next, hphase, hdesired, hok⟩ := hvisit
  simp only [RunWorld.step, hphase, hok, Option.some.injEq] at hstep
  subst hstep
  have hkey : (desiredkjob.ns, desiredkjob.name) = (run.ns, kjobNameOf lib run job) := by
    rw [hdesired.ns, hrun.ns_eq job hjob, hdesired.name]
  cases hget : s.cluster.getKJob desiredkjob.ns desiredkjob.name with
  | none =>
      left
      rw [RunWorld.kjobOf, RunWorld.kjobOf, ensureKJob_of_missing hget hok,
        ← (Prod.mk.inj hkey).1, ← (Prod.mk.inj hkey).2, Cluster.getKJob_createKJob, hget]
      refine ⟨rfl, ?_⟩
      rw [Option.none_or]
      simp [kjobKey]
  | some kjob =>
      right
      obtain ⟨hcurrent, htrigger, hself⟩ := hs.found hrun hjob hdesired hget
      obtain ⟨suspending, hsuspending, rfl⟩ := ensureKJob_of_exists hget hok
      rw [hself, htrigger, hrun.ns_eq job hjob] at hsuspending
      refine ⟨kjob, firstPod s.cluster desiredkjob.ns kjob.name, suspending, hcurrent,
        hsuspending, ?_⟩
      rw [← hdesired.trigger]
      exact Cluster.getKJob_updateKJob_self hcurrent rfl

/-- A success stays. -/
theorem succeeded_step (hs : Underway lib run s) (hrun : WellFormed run)
    (hjob : job ∈ run.spec.jobs) (hsucceeded : HasSucceeded lib run s.cluster job) {a : RunAction}
    (hstep : s.step lib run a = some t) : HasSucceeded lib run t.cluster job := by
  obtain ⟨kjob, hkjob, hcounts⟩ := hsucceeded
  obtain ⟨kjob', hkjob', hjobStep⟩ := job_step hs hrun hjob hkjob hstep
  refine ⟨kjob', hkjob', ?_⟩
  cases hjobStep with
  | kept _ _ hkept => exact hkept hcounts
  | visited _ heq =>
      rw [heq, status_updatedKJob]
      exact hcounts

/-- A job whose predecessors are recorded as completed is released. -/
theorem isSuspending_of_completed (hs : Underway lib run s) (hrun : WellFormed run)
    (hjob : job ∈ run.spec.jobs) (htrigger : job.trigger ≠ formatBool true)
    (hbefore : ∀ b ∈ run.spec.jobs, b.name ∈ job.runBefore →
      ∃ kjob ∈ s.kjobOf lib run b, kjob.recorded = .completed) :
    isSuspending s.cluster run.ns job.trigger job.runBefore = .ok false := by
  have hlisted : ∀ name ∈ job.runBefore, ∃ kjob, s.cluster.listKJobs run.ns name = [kjob] ∧
      kjob.recorded = .completed := by
    intro name hname
    obtain ⟨b, hb, rfl⟩ := hrun.before_mem job hjob name hname
    obtain ⟨kjob, hkjob, hcompleted⟩ := hbefore b hb hname
    exact ⟨kjob, hs.labelled.listKJobs_eq hb hkjob, hcompleted⟩
  rw [isSuspending_eq_any, Except.ok.injEq, List.any_eq_false]
  · intro name hname
    obtain ⟨kjob, hlist, hcompleted⟩ := hlisted name hname
    have hdone : (gatesOf s.cluster run.ns name).Done := by
      rw [gatesOf, hlist]
      exact Or.inl hcompleted
    simp [htrigger, hdone]
  · intro name hname
    obtain ⟨kjob, hlist, -⟩ := hlisted name hname
    simp [hlist]

end Step

/-! ## Visits again and again -/

section Visits

variable {lib : Externals} {run : Run} {s : Nat → RunWorld} {a : Nat → RunAction} {job : Job}

/-- Since a moment at which no pass was under way: the job has been visited, or
the pass under way still has it to do. -/
private def VisitedOrDue (lib : Externals) (run : Run) (s : Nat → RunWorld) (a : Nat → RunAction)
    (job : Job) (start now : Nat) : Prop :=
  (∃ i, start ≤ i ∧ i < now ∧ Visits lib run (s i) (a i) job) ∨ (s now).phase = .idle ∨
    ∃ todo, (s now).phase = .ensuring todo ∧
      ∃ desiredkjob ∈ todo, Desired lib run job desiredkjob

private theorem visitedOrDue_step (htrace : (runMachine lib run).Trace s a)
    (hjob : job ∈ run.spec.jobs) {start now : Nat} (hle : start ≤ now)
    (hnow : VisitedOrDue lib run s a job start now) :
    VisitedOrDue lib run s a job start (now + 1) := by
  rcases hnow with ⟨i, hi, hlt, hvisit⟩ | hphase
  · exact Or.inl ⟨i, hi, by omega, hvisit⟩
  · have hstep : (s now).step lib run (a now) = some (s (now + 1)) := htrace.step now
    have hquiet : (s (now + 1)).phase = (s now).phase →
        VisitedOrDue lib run s a job start (now + 1) := by
      intro hsame
      right
      rw [hsame]
      exact hphase
    cases haction : a now with
    | begin =>
        rw [haction, RunWorld.step] at hstep
        split at hstep
        · next kjobList _ hlist =>
            obtain ⟨i, hi, rfl⟩ := List.mem_iff_getElem.mp hjob
            have hall := constructKjobListFromRun_desired hlist
            have hlength := hall.length_eq
            have hnext : (s (now + 1)).phase = .ensuring kjobList := by
              rw [← Option.some.inj hstep]
            exact Or.inr (Or.inr ⟨kjobList, hnext, kjobList[i], List.getElem_mem _,
              hall.get hi (by omega)⟩)
        · cases hstep
    | process =>
        rw [haction, RunWorld.step] at hstep
        rcases hphase with hidle | ⟨todo, hensuring, desiredkjob, hmem, hdesired⟩
        · rw [hidle] at hstep
          cases hstep
        · rw [hensuring] at hstep
          cases todo with
          | nil => cases hmem
          | cons first todo =>
              simp only at hstep
              split at hstep
              · next next hok =>
                  have hnext : (s (now + 1)).phase = .ensuring todo := by
                    rw [← Option.some.inj hstep]
                  rcases List.mem_cons.mp hmem with rfl | hmem
                  · exact Or.inl ⟨now, hle, by omega, haction, desiredkjob, todo, next,
                      hensuring, hdesired, hok⟩
                  · exact Or.inr (Or.inr ⟨todo, hnext, desiredkjob, hmem, hdesired⟩)
              · have hnext : (s (now + 1)).phase = .idle := by rw [← Option.some.inj hstep]
                exact Or.inr (Or.inl hnext)
    | abort =>
        rw [haction, RunWorld.step] at hstep
        have hnext : (s (now + 1)).phase = .idle := by rw [← Option.some.inj hstep]
        exact Or.inr (Or.inl hnext)
    | updateStatus date =>
        rw [haction, RunWorld.step] at hstep
        rcases hphase with hidle | ⟨todo, hensuring, -⟩
        · rw [hidle] at hstep
          cases hstep
        · rw [hensuring] at hstep
          cases hstep
    | report ns name counts =>
        rw [haction, RunWorld.step] at hstep
        split at hstep
        · cases hstep
        · split at hstep
          · exact hquiet (by rw [← Option.some.inj hstep])
          · cases hstep
    | markDeleted ns name date =>
        rw [haction, RunWorld.step] at hstep
        split at hstep
        · cases hstep
        · exact hquiet (by rw [← Option.some.inj hstep])
    | setPods pods =>
        rw [haction, RunWorld.step] at hstep
        exact hquiet (by rw [← Option.some.inj hstep])

/-- After a status write no pass is under way, and before one a pass has got
through. -/
theorem phase_updateStatus {s t : RunWorld} {now : Time}
    (hstep : s.step lib run (.updateStatus now) = some t) :
    s.phase = .updating ∧ t.phase = .idle ∧ t.status = s.nextStatus lib run now := by
  rw [RunWorld.step] at hstep
  split at hstep
  · next hphase =>
      cases hstep
      exact ⟨hphase, rfl, rfl⟩
  · cases hstep

/-- Every job is visited between a moment without a pass and a status write. -/
theorem visited_before_write (htrace : (runMachine lib run).Trace s a)
    (hjob : job ∈ run.spec.jobs) {start stop : Nat} (hidle : (s start).phase = .idle)
    (hle : start ≤ stop) {now : Time} (hwrite : a stop = .updateStatus now) :
    ∃ i, start ≤ i ∧ Visits lib run (s i) (a i) job := by
  have hstep := htrace.step stop
  rw [hwrite] at hstep
  have hupdating := (phase_updateStatus hstep).1
  have hstart : VisitedOrDue lib run s a job start start := Or.inr (Or.inl hidle)
  rcases kept_from hstart (fun k hk => visitedOrDue_step htrace hjob hk) stop hle with
    ⟨i, hi, -, hvisit⟩ | hidle | ⟨todo, hensuring, -⟩
  · exact ⟨i, hi, hvisit⟩
  · rw [hupdating] at hidle
    cases hidle
  · rw [hupdating] at hensuring
    cases hensuring

/-- Where reconciles get through again and again, every job is visited again
and again. -/
theorem visited_again (htrace : (runMachine lib run).Trace s a) (hjob : job ∈ run.spec.jobs)
    (hreconciled : ∃ᶠ i in atTop, ∃ now, a i = .updateStatus now) :
    ∃ᶠ i in atTop, Visits lib run (s i) (a i) job := by
  rw [frequently_atTop] at hreconciled ⊢
  intro n
  obtain ⟨i, hi, now, hwrite⟩ := hreconciled n
  obtain ⟨j, hj, later, hwrite'⟩ := hreconciled (i + 1)
  have hfirst := htrace.step i
  rw [hwrite] at hfirst
  obtain ⟨k, hk, hvisit⟩ :=
    visited_before_write htrace hjob (phase_updateStatus hfirst).2.1 hj hwrite'
  refine ⟨k, ?_, hvisit⟩
  show n ≤ k
  have hle : n ≤ i := hi
  omega

end Visits

/-! ## Completion -/

/-- An endless run in which reconciles get through again and again, and a job
that is not suspended from some moment on succeeds at some time. -/
structure FairRun (lib : Externals) (run : Run) (s : Nat → RunWorld) (a : Nat → RunAction) :
    Prop where
  trace : (runMachine lib run).Trace s a
  reconciled : ∃ᶠ i in atTop, ∃ now, a i = .updateStatus now
  succeeds : ∀ job ∈ run.spec.jobs,
    (∀ᶠ i in atTop, ∃ kjob ∈ (s i).kjobOf lib run job, kjob.suspend = false) →
    ∃ i, HasSucceeded lib run (s i).cluster job

/-- The kubernetes job of the job is released and recorded as completed. -/
def RecordedCompleted (lib : Externals) (run : Run) (s : RunWorld) (job : Job) : Prop :=
  ∃ kjob ∈ s.kjobOf lib run job, kjob.suspend = false ∧ kjob.recorded = .completed

/-- All jobs have succeeded and are recorded so, the status says that the run
is completed, and a status write ends the execution of the pipeline. -/
structure RunCompleted (lib : Externals) (run : Run) (s : RunWorld) : Prop where
  jobs : ∀ job ∈ run.spec.jobs,
    RecordedCompleted lib run s job ∧ HasSucceeded lib run s.cluster job
  status : s.status.runState = .completed
  ends : EndsExecution run (s.cluster.listRunKJobs run.ns run.name)

/-- A visit of a released job that has succeeded records it as completed. -/
theorem recorded_of_visit {kjob : KJob} (hreleased : kjob.suspend = false)
    (htrigger : kjob.annotations.trigger ≠ formatBool true) (hsucceeded : kjob.status.Succeeded)
    (pod : Pod) (desiredTrigger : String) (suspending : Bool) :
    (updatedKJob kjob pod desiredTrigger suspending).recorded = .completed := by
  have hheld : ¬ kjob.Held := by simp [KJob.Held, hreleased, htrigger]
  rw [recorded_updatedKJob, determineJobStateFrom_of_idle pod hheld hsucceeded.2,
    if_pos hsucceeded.1]

section Completes

variable {lib : Externals} {run : Run} {s : Nat → RunWorld} {a : Nat → RunAction} {job : Job}

theorem underway_of_trace (htrace : (runMachine lib run).Trace s a) (hrun : WellFormed run)
    (i : Nat) : Underway lib run (s i) :=
  htrace.invariant (fun _ => Underway.init) (fun _ _ _ hs hstep => hs.step hrun hstep) i

theorem FairRun.underway (hfair : FairRun lib run s a) (hrun : WellFormed run) (i : Nat) :
    Underway lib run (s i) :=
  underway_of_trace hfair.trace hrun i

/-- A job whose predecessors are recorded as completed in the end is released
by every visit in the end. -/
private theorem releasing (hfair : FairRun lib run s a) (hrun : WellFormed run)
    (hjob : job ∈ run.spec.jobs) (htrigger : job.trigger ≠ formatBool true)
    (hbefore : ∀ b ∈ run.spec.jobs, b.name ∈ job.runBefore →
      ∀ᶠ i in atTop, RecordedCompleted lib run (s i) b) :
    ∀ᶠ i in atTop,
      isSuspending (s i).cluster run.ns job.trigger job.runBefore = .ok false := by
  have hall : ∀ᶠ i in atTop, ∀ b ∈ run.spec.jobs, b.name ∈ job.runBefore →
      RecordedCompleted lib run (s i) b := by
    refine (eventually_all_finite (List.finite_toSet run.spec.jobs)).mpr fun b hb => ?_
    by_cases hwaits : b.name ∈ job.runBefore
    · exact (hbefore b hb hwaits).mono fun i hi _ => hi
    · exact Eventually.of_forall fun i hi => absurd hi hwaits
  refine hall.mono fun i hi => ?_
  apply isSuspending_of_completed (hfair.underway hrun i) hrun hjob htrigger
  intro b hb hwaits
  obtain ⟨kjob, hkjob, -, hcompleted⟩ := hi b hb hwaits
  exact ⟨kjob, hkjob, hcompleted⟩

/-- A job exists in the end. -/
private theorem exists_in_the_end (hfair : FairRun lib run s a) (hrun : WellFormed run)
    (hjob : job ∈ run.spec.jobs) : ∀ᶠ i in atTop, ∃ kjob, (s i).kjobOf lib run job = some kjob := by
  apply eventually_of_latch
  · refine (visited_again hfair.trace hjob hfair.reconciled).mono fun i hvisit => ?_
    rcases visit_step (hfair.underway hrun i) hrun hjob hvisit (hfair.trace.step i) with
      ⟨-, hcreated⟩ | ⟨kjob, pod, suspending, -, -, hupdated⟩
    · exact Option.isSome_iff_exists.mp hcreated
    · exact ⟨_, hupdated⟩
  · refine Eventually.of_forall fun i hi => ?_
    obtain ⟨kjob, hkjob⟩ := hi
    obtain ⟨kjob', hkjob', -⟩ :=
      job_step (hfair.underway hrun i) hrun hjob hkjob (hfair.trace.step i)
    exact ⟨kjob', hkjob'⟩

/-- A job that visits release in the end is released in the end. -/
private theorem released_in_the_end (hfair : FairRun lib run s a) (hrun : WellFormed run)
    (hjob : job ∈ run.spec.jobs)
    (hreleasing : ∀ᶠ i in atTop,
      isSuspending (s i).cluster run.ns job.trigger job.runBefore = .ok false) :
    ∀ᶠ i in atTop, ∃ kjob ∈ (s i).kjobOf lib run job, kjob.suspend = false := by
  have hvisits := visited_again hfair.trace hjob hfair.reconciled
  apply eventually_of_latch
  · refine (hvisits.and_eventually ((exists_in_the_end hfair hrun hjob).and hreleasing)).mono
      fun i hi => ?_
    obtain ⟨hvisit, ⟨kjob, hkjob⟩, hrelease⟩ := hi
    rcases visit_step (hfair.underway hrun i) hrun hjob hvisit (hfair.trace.step i) with
      ⟨hmissing, -⟩ | ⟨found, pod, suspending, -, hsuspending, hupdated⟩
    · rw [hmissing] at hkjob
      cases hkjob
    · refine ⟨_, hupdated, ?_⟩
      rw [hrelease] at hsuspending
      exact (Except.ok.inj hsuspending).symm
  · refine hreleasing.mono fun i hrelease hi => ?_
    obtain ⟨kjob, hkjob, hreleased⟩ := hi
    obtain ⟨kjob', hkjob', hjobStep⟩ :=
      job_step (hfair.underway hrun i) hrun hjob hkjob (hfair.trace.step i)
    refine ⟨kjob', hkjob', ?_⟩
    cases hjobStep with
    | kept hsuspend => exact hsuspend.trans hreleased
    | visited hsuspending heq =>
        rw [hrelease] at hsuspending
        rw [heq]
        exact (Except.ok.inj hsuspending).symm

/-- A job whose predecessors are recorded as completed in the end has succeeded
and is recorded as completed in the end. -/
theorem completed_in_the_end (hfair : FairRun lib run s a) (hrun : WellFormed run)
    (hjob : job ∈ run.spec.jobs) (htrigger : job.trigger ≠ formatBool true)
    (hbefore : ∀ b ∈ run.spec.jobs, b.name ∈ job.runBefore →
      ∀ᶠ i in atTop, RecordedCompleted lib run (s i) b) :
    ∀ᶠ i in atTop, RecordedCompleted lib run (s i) job ∧
      HasSucceeded lib run (s i).cluster job := by
  have hreleasing := releasing hfair hrun hjob htrigger hbefore
  have hreleased := released_in_the_end hfair hrun hjob hreleasing
  obtain ⟨start, hstart⟩ := hfair.succeeds job hjob hreleased
  have hsucceeded : ∀ᶠ i in atTop, HasSucceeded lib run (s i).cluster job :=
    eventually_of_kept hstart fun i hi =>
      succeeded_step (hfair.underway hrun i) hrun hjob hi (hfair.trace.step i)
  -- What a visit finds from now on, and what it makes of it.
  have hready : ∀ᶠ i in atTop, ∃ kjob, (s i).kjobOf lib run job = some kjob ∧
      ∀ pod, (updatedKJob kjob pod job.trigger false).recorded = .completed := by
    refine (hreleased.and hsucceeded).mono fun i hi => ?_
    obtain ⟨⟨kjob, hkjob, hfree⟩, found, hfound, hcounts⟩ := hi
    have heq : found = kjob := Option.some.inj (hfound.symm.trans hkjob)
    have hown := ((hfair.underway hrun i).createdFor hrun hjob hkjob).trigger
    refine ⟨kjob, hkjob, fun pod => recorded_of_visit hfree ?_ (heq ▸ hcounts) pod _ _⟩
    rw [hown]
    exact htrigger
  have hvisits := visited_again hfair.trace hjob hfair.reconciled
  have hrecorded : ∀ᶠ i in atTop, RecordedCompleted lib run (s i) job := by
    apply eventually_of_latch
    · refine (hvisits.and_eventually (hready.and hreleasing)).mono fun i hi => ?_
      obtain ⟨hvisit, ⟨kjob, hkjob, hrecords⟩, hrelease⟩ := hi
      rcases visit_step (hfair.underway hrun i) hrun hjob hvisit (hfair.trace.step i) with
        ⟨hmissing, -⟩ | ⟨found, pod, suspending, hfound, hsuspending, hupdated⟩
      · rw [hmissing] at hkjob
        cases hkjob
      · rw [hrelease] at hsuspending
        have hfalse : suspending = false := (Except.ok.inj hsuspending).symm
        have heq : found = kjob := Option.some.inj (hfound.symm.trans hkjob)
        rw [hfalse, heq] at hupdated
        exact ⟨_, hupdated, rfl, hrecords pod⟩
    · refine (hready.and hreleasing).mono fun i hi hcompleted => ?_
      obtain ⟨⟨kjob, hkjob, hrecords⟩, hrelease⟩ := hi
      obtain ⟨kjob', hkjob', hjobStep⟩ :=
        job_step (hfair.underway hrun i) hrun hjob hkjob (hfair.trace.step i)
      refine ⟨kjob', hkjob', ?_⟩
      cases hjobStep with
      | kept hsuspend hannotations =>
          obtain ⟨found, hfound, hfree, hstate⟩ := hcompleted
          have heq : found = kjob := Option.some.inj (hfound.symm.trans hkjob)
          rw [heq] at hfree hstate
          refine ⟨hsuspend.trans hfree, ?_⟩
          rw [KJob.recorded, hannotations]
          exact hstate
      | @visited pod suspending hsuspending heq =>
          rw [hrelease] at hsuspending
          have hfalse : suspending = false := (Except.ok.inj hsuspending).symm
          rw [heq, hfalse]
          exact ⟨rfl, hrecords pod⟩
  exact hrecorded.and hsucceeded

/-- All jobs are completed in the end if each is whose predecessors are, by
induction along the dependencies. -/
theorem all_completed (hrun : WellFormed run) (hacyclic : Acyclic (RunsBefore run))
    (hnode : ∀ job ∈ run.spec.jobs,
      (∀ b ∈ run.spec.jobs, b.name ∈ job.runBefore →
        ∀ᶠ i in atTop, RecordedCompleted lib run (s i) b) →
      ∀ᶠ i in atTop, RecordedCompleted lib run (s i) job ∧
        HasSucceeded lib run (s i).cluster job) :
    ∀ᶠ i in atTop, ∀ job ∈ run.spec.jobs,
      RecordedCompleted lib run (s i) job ∧ HasSucceeded lib run (s i).cluster job := by
  have hnodes : ∀ᶠ i in atTop, ∀ n ∈ (jobNames run).toFinset, ∀ job ∈ run.spec.jobs,
      job.name = n →
        RecordedCompleted lib run (s i) job ∧ HasSucceeded lib run (s i).cluster job := by
    refine eventually_of_acyclic hacyclic fun n hn hbelow => ?_
    obtain ⟨job, hjob, rfl⟩ := List.mem_map.mp (List.mem_toFinset.mp hn)
    have hcompleted := hnode job hjob ?_
    · refine hcompleted.mono fun i hi other hother hname => ?_
      rw [hrun.names.eq_of_key hother hjob hname]
      exact hi
    · intro b hb hwaits
      have hedge : RunsBefore run job.name b.name := by
        rw [RunsBefore, hrun.selfJobOf hjob]
        exact hwaits
      have hmem : b.name ∈ (jobNames run).toFinset :=
        List.mem_toFinset.mpr (List.mem_map_of_mem hb)
      exact (hbelow b.name hmem hedge).mono fun i hi => (hi b hb rfl).1
  refine hnodes.mono fun i hi job hjob => ?_
  exact hi job.name (List.mem_toFinset.mpr (List.mem_map_of_mem hjob)) job hjob rfl

variable {w : RunWorld}

/-- What is listed for the run has been created for its jobs. -/
private theorem listed_recorded (hw : Underway lib run w)
    (hall : ∀ job ∈ run.spec.jobs, RecordedCompleted lib run w job) :
    ∀ kjob ∈ w.cluster.listRunKJobs run.ns run.name,
      Belongs lib run kjob ∧ kjob.recorded = .completed := by
  intro kjob hkjob
  obtain ⟨hmem, htest⟩ := List.mem_filter.mp hkjob
  obtain ⟨hns, hrunName⟩ := of_decide_eq_true htest
  obtain ⟨job, hjob, hcreated⟩ := hw.created kjob hmem hns (Or.inl hrunName)
  have hget : w.kjobOf lib run job = some kjob := by
    rw [RunWorld.kjobOf, ← hns, ← hcreated.name]
    exact hw.labelled.getKJob_eq hmem
  obtain ⟨found, hfound, -, hcompleted⟩ := hall job hjob
  have heq : found = kjob := Option.some.inj (hfound.symm.trans hget)
  exact ⟨⟨hns, hrunName, hcreated.owner, job, hjob, hcreated.runJobName, hcreated.name⟩,
    heq ▸ hcompleted⟩

/-- Every job is listed. -/
private theorem listed_of_recorded (hw : Underway lib run w) (hrun : WellFormed run)
    (hjob : job ∈ run.spec.jobs) (hcompleted : RecordedCompleted lib run w job) :
    ∃ kjob ∈ w.cluster.listRunKJobs run.ns run.name,
      kjob.labels.runJobName = job.name ∧ kjob.recorded = .completed := by
  obtain ⟨kjob, hkjob, -, hstate⟩ := hcompleted
  obtain ⟨hmem, hns, -⟩ := Cluster.mem_of_getKJob hkjob
  have hcreated := hw.createdFor hrun hjob hkjob
  have hlisted : kjob ∈ w.cluster.listRunKJobs run.ns run.name :=
    List.mem_filter.mpr ⟨hmem, decide_eq_true ⟨hns, hcreated.runName⟩⟩
  exact ⟨kjob, hlisted, hcreated.runJobName, hstate⟩

/-- The counters then end the execution. -/
theorem ends_of_recorded (hw : Underway lib run w) (hrun : WellFormed run)
    (hall : ∀ job ∈ run.spec.jobs, RecordedCompleted lib run w job) :
    EndsExecution run (w.cluster.listRunKJobs run.ns run.name) := by
  have hlisted := listed_recorded hw hall
  refine (endsExecution_iff hw.keys fun kjob hkjob => (hlisted kjob hkjob).1).mpr
    ⟨hrun.names, ?_⟩
  rintro ⟨job, hjob, hopen⟩
  obtain ⟨kjob, hkjob, hlabel, hstate⟩ := listed_of_recorded hw hrun hjob (hall job hjob)
  rcases hopen kjob hkjob with hother | hnot
  · exact hother hlabel
  · rw [hstate] at hnot
    exact hnot rfl

/-- And the aggregate is completed. -/
theorem aggregate_of_recorded (hw : Underway lib run w) (hrun : WellFormed run)
    (hjobs : run.spec.jobs ≠ [])
    (hall : ∀ job ∈ run.spec.jobs, RecordedCompleted lib run w job) (now : Time) :
    (w.nextStatus lib run now).runState = .completed := by
  obtain ⟨job, hjob⟩ := List.exists_mem_of_ne_nil _ hjobs
  obtain ⟨kjob, hkjob, -, hstate⟩ := listed_of_recorded hw hrun hjob (hall job hjob)
  have hle := stateOrder_le_aggregate (List.mem_map_of_mem (f := KJob.recorded) hkjob)
  show RunState.ofJobState (aggregate _) = .completed
  rcases aggregate_recorded
      ((w.cluster.listRunKJobs run.ns run.name).map KJob.recorded) with hunknown | hmem
  · rw [hunknown, hstate] at hle
    exact absurd hle (by decide)
  · obtain ⟨other, hother, hrecorded⟩ := List.mem_map.mp hmem
    rw [← hrecorded, (listed_recorded hw hall other hother).2]
    rfl

/-- A step writes the status as it should, or leaves it. -/
theorem status_step {t : RunWorld} {action : RunAction}
    (hstep : w.step lib run action = some t) :
    t.status = w.status ∨
      ∃ now, action = .updateStatus now ∧ t.status = w.nextStatus lib run now := by
  cases action with
  | begin =>
      rw [RunWorld.step] at hstep
      split at hstep
      · cases hstep
        exact Or.inl rfl
      · cases hstep
  | process =>
      rw [RunWorld.step] at hstep
      split at hstep
      · cases hstep
        exact Or.inl rfl
      · split at hstep
        · cases hstep
          exact Or.inl rfl
        · cases hstep
          exact Or.inl rfl
      · cases hstep
  | abort | setPods =>
      cases hstep
      exact Or.inl rfl
  | updateStatus now => exact Or.inr ⟨now, rfl, (phase_updateStatus hstep).2.2⟩
  | report ns name counts =>
      rw [RunWorld.step] at hstep
      split at hstep
      · cases hstep
      · split at hstep
        · cases hstep
          exact Or.inl rfl
        · cases hstep
  | markDeleted ns name date =>
      rw [RunWorld.step] at hstep
      split at hstep
      · cases hstep
      · cases hstep
        exact Or.inl rfl

/-- A fair run is completed in the end. -/
theorem FairRun.completes (hfair : FairRun lib run s a) (hrun : WellFormed run)
    (hacyclic : Acyclic (RunsBefore run)) (hjobs : run.spec.jobs ≠ [])
    (htriggers : ∀ job ∈ run.spec.jobs, job.trigger ≠ formatBool true) :
    ∀ᶠ i in atTop, RunCompleted lib run (s i) := by
  have hall := all_completed hrun hacyclic fun job hjob =>
    completed_in_the_end hfair hrun hjob (htriggers job hjob)
  have hrecorded : ∀ᶠ i in atTop, ∀ job ∈ run.spec.jobs, RecordedCompleted lib run (s i) job :=
    hall.mono fun i hi job hjob => (hi job hjob).1
  have hstatus : ∀ᶠ i in atTop, (s i).status.runState = .completed := by
    apply eventually_of_latch
    · refine (hfair.reconciled.and_eventually hrecorded).mono fun i hi => ?_
      obtain ⟨⟨now, hwrite⟩, hcompleted⟩ := hi
      have hstep := hfair.trace.step i
      rw [hwrite] at hstep
      rw [(phase_updateStatus hstep).2.2]
      exact aggregate_of_recorded (hfair.underway hrun i) hrun hjobs hcompleted now
    · refine hrecorded.mono fun i hcompleted hi => ?_
      rcases status_step (hfair.trace.step i) with hkept | ⟨now, -, hwritten⟩
      · rw [hkept]
        exact hi
      · rw [hwritten]
        exact aggregate_of_recorded (hfair.underway hrun i) hrun hjobs hcompleted now
  refine (hall.and hstatus).mono fun i hi => ?_
  exact
    { jobs := hi.1
      status := hi.2
      ends := ends_of_recorded (hfair.underway hrun i) hrun fun job hjob => (hi.1 job hjob).1 }

/-- Every run whose reconciles get through again and again comes to its end, if
no trigger holds a job back and every job succeeds once it is let run: from
some moment on it is completed, whatever has happened before. -/
theorem run_completes (hrun : WellFormed run) (hacyclic : Acyclic (RunsBefore run))
    (hjobs : run.spec.jobs ≠ [])
    (htriggers : ∀ job ∈ run.spec.jobs, job.trigger ≠ formatBool true)
    (hfair : FairRun lib run s a) : ∀ᶠ i in atTop, RunCompleted lib run (s i) :=
  hfair.completes hrun hacyclic hjobs htriggers

end Completes

/-! ## A reconcile that changes nothing -/

section SettledGates

variable {lib : Externals} {run : Run} {s t : RunWorld}

/-- No visit of a job changes anything. -/
structure SettledGates (lib : Externals) (run : Run) (c : Cluster) : Prop where
  deployed : Deployed lib run c
  fixed : ∀ n ∈ jobNames run,
    gateRule run (surroundingsOf lib run c) n (ownGates lib run c) = ownGates lib run c n

/-- The actions of a reconcile and of the pods leave a settled cluster. -/
theorem SettledGates.step (hsettled : SettledGates lib run s.cluster) (hs : Tracked lib run s)
    (hrun : WellFormed run) {now : Time} {a : RunAction}
    (ha : a ∈ [.begin, .process, .updateStatus now, .setPods s.cluster.pods])
    (hstep : s.step lib run a = some t) : t.cluster = s.cluster := by
  cases a with
  | begin =>
      rw [RunWorld.step] at hstep
      split at hstep
      · cases hstep
        rfl
      · cases hstep
  | process =>
      rw [RunWorld.step] at hstep
      split at hstep
      · cases hstep
        rfl
      · next desiredkjob todo hphase =>
          obtain ⟨job, hjob, hdesired⟩ := hs.todo _ hphase desiredkjob List.mem_cons_self
          obtain ⟨next, hnext, -, -, -, hsame⟩ :=
            ensureKJob_visits hrun hsettled.deployed hjob hdesired
          rw [hsame (hsettled.fixed job.name (List.mem_map_of_mem hjob))] at hnext
          rw [hnext] at hstep
          cases hstep
          rfl
      · cases hstep
  | updateStatus date =>
      rw [RunWorld.step] at hstep
      split at hstep
      · cases hstep
        rfl
      · cases hstep
  | setPods pods =>
      have hpods : pods = s.cluster.pods := by simpa using ha
      cases hstep
      rw [hpods]
  | abort | report | markDeleted => simp at ha

/-- The actions of a reconcile of a run with so many jobs. -/
def reconcileActions (jobs : Nat) (now : Time) : List RunAction :=
  .begin :: (List.replicate jobs .process ++ [.process, .updateStatus now])

/-- A reconcile without anything in between. -/
theorem exec_reconcileActions {kjobList : List KJob}
    (hlist : constructKjobListFromRun lib run = .ok kjobList) (hidle : s.phase = .idle)
    {next : Cluster} (hpass : ensureKJobList lib run s.cluster = (next, .ok ())) (now : Time) :
    ∃ t, (runMachine lib run).exec (fun _ _ => True) s (reconcileActions kjobList.length now) =
      some t ∧ t.cluster = next ∧ t.phase = .idle := by
  have hbegin : (runMachine lib run).step s .begin =
      some { s with phase := .ensuring kjobList } := by
    simp only [runMachine, RunWorld.step, hidle, hlist]
  have hjobs : ensureKJobs run kjobList s.cluster = (next, .ok ()) := by
    rw [← hpass, ensureKJobList, hlist]
  have hvisits := exec_ensureKJobs lib run kjobList
    (s := { s with phase := .ensuring kjobList }) rfl hjobs
  rw [reconcileActions, Machine.exec, if_pos trivial, hbegin, Option.bind_some,
    Machine.exec_append, hvisits, Option.bind_some]
  exact ⟨_, rfl, rfl, rfl⟩

end SettledGates

/-! ## Two jobs that come to their end -/

/-- The actions up to the end of both jobs.  The first pass creates them, and the
second one is broken off when it has held back `deploy`.  Then `build` succeeds
and is recorded, `deploy` is released, and succeeds in its turn. -/
def chainStem : List RunAction :=
  reconcileActions 2 0 ++ [.begin, .process, .abort] ++
    [.report "team" (kjobNameOf Externals.plain (chainRun "false") (chainBuild "false"))
      { succeeded := 1 }] ++
    reconcileActions 2 0 ++ reconcileActions 2 0 ++
    [.report "team" (kjobNameOf Externals.plain (chainRun "false") (chainDeploy "false"))
      { succeeded := 1 }] ++
    reconcileActions 2 0

/-- Then there are reconciles for ever. -/
def chainLasso : Lasso RunAction where
  stem := chainStem
  first := .begin
  rest := [.process, .process, .process, .updateStatus 0]

def chainStates : Nat → RunWorld :=
  (runMachine Externals.plain (chainRun "false")).follow {} chainLasso.action

def chainKJob (s : RunWorld) (job : Job) : KJob :=
  (s.kjobOf Externals.plain (chainRun "false") job).getD {}

/-- Where the stem ends. -/
def chainEnd : RunWorld :=
  ((runMachine Externals.plain (chainRun "false")).exec (fun _ _ => True) {} chainStem).getD {}

theorem chainEnd_exec :
    (runMachine Externals.plain (chainRun "false")).exec (fun _ _ => True) {} chainStem =
      some chainEnd := by
  have hsome : ((runMachine Externals.plain (chainRun "false")).exec (fun _ _ => True)
      {} chainStem).isSome = true := by decide +kernel
  obtain ⟨t, ht⟩ := Option.isSome_iff_exists.mp hsome
  rw [chainEnd, ht, Option.getD_some]

theorem chainEnd_settled : SettledGates Externals.plain (chainRun "false") chainEnd.cluster where
  deployed :=
    { keys := by decide +kernel
      present := by decide +kernel }
  fixed := by decide +kernel

theorem chainEnd_succeeded : ∀ job ∈ (chainRun "false").spec.jobs,
    HasSucceeded Externals.plain (chainRun "false") chainEnd.cluster job := by
  decide +kernel

def chainKJobs : List KJob :=
  (constructKjobListFromRun Externals.plain (chainRun "false")).toOption.getD []

theorem chainKJobs_listed :
    constructKjobListFromRun Externals.plain (chainRun "false") = .ok chainKJobs := by
  decide +kernel

theorem chainEnd_pass :
    ensureKJobList Externals.plain (chainRun "false") chainEnd.cluster =
      (chainEnd.cluster, .ok ()) :=
  ensureKJobList_eq_self (chainRun_wellFormed "false") chainEnd_settled.deployed chainKJobs_listed
    chainEnd_settled.fixed

theorem chainStates_end : chainStates 25 = chainEnd :=
  (Lasso.follow_stem (l := chainLasso) chainEnd_exec).1

theorem chainStates_trace :
    (runMachine Externals.plain (chainRun "false")).Trace chainStates chainLasso.action := by
  have hinit : (runMachine Externals.plain (chainRun "false")).init {} :=
    ⟨fresh_empty _ _, rfl, rfl⟩
  refine Lasso.trace (J := fun s => s.phase = .idle ∧ s.cluster = chainEnd.cluster) hinit
    chainEnd_exec ⟨by decide +kernel, rfl⟩ ?_
  rintro s ⟨hidle, hcluster⟩
  have hpass : ensureKJobList Externals.plain (chainRun "false") s.cluster =
      (chainEnd.cluster, .ok ()) := by
    rw [hcluster]
    exact chainEnd_pass
  obtain ⟨t, hexec, hend, hphase⟩ := exec_reconcileActions chainKJobs_listed hidle hpass 0
  exact ⟨t, hexec, hphase, hend⟩

theorem chainStates_fair :
    FairRun Externals.plain (chainRun "false") chainStates chainLasso.action where
  trace := chainStates_trace
  reconciled := (chainLasso.again (b := .updateStatus 0) (by decide)).mono fun _ hi => ⟨0, hi⟩
  succeeds := by
    intro job hjob _
    refine ⟨25, ?_⟩
    rw [chainStates_end]
    exact chainEnd_succeeded job hjob

/-- `deploy` is held back where the pass is broken off, and released in the end. -/
theorem run_completes_chain :
    (chainKJob (chainStates 8) (chainDeploy "false")).suspend = true ∧
      ∀ᶠ i in atTop, RunCompleted Externals.plain (chainRun "false") (chainStates i) :=
  ⟨by decide +kernel,
    run_completes (chainRun_wellFormed "false") chainRun_acyclic (by decide) (by decide)
      chainStates_fair⟩

end PipelineOperator.Controller
