import PipelineOperator.Controller.RunMachine
import PipelineOperator.Controller.StatusAggregate
import Mathlib

/-!
# Every job is accounted for

The status of a run lists its kubernetes jobs and counts the states that are
recorded on them.  A job has no state recorded when it is created; the pass
that finds it stored records one.  So the status that is written after the
creating pass counts less than it lists, and its state is not one of a run.
The same state comes of a run that has no job at all.

## Main results

* `accounted_nextStatus_iff`: when the status of some stored jobs accounts for
  all of them.
* `accounted_of_reach`: along every run of the machine whose writes find a job
  stored and on each one a state recorded, the written status accounts for
  every job; and no other write does.
-/

namespace PipelineOperator.Controller

open PipelineOperator.Lib
open PipelineOperator.Api

/-! ## Accounts -/

/-- The declared states of a run. -/
def declaredRunStates : List RunState :=
  [.initializing, .waiting, .stopping, .running, .deleting, .completed, .deleted, .failed]

/-- The sum of the eight counters. -/
def counterSum (status : RunStatus) : Nat :=
  (declaredStates.map fun state => (status.counter state).getD 0).sum

/-- The status counts every job that it lists, and has a declared state. -/
structure Accounted (status : RunStatus) : Prop where
  counters : counterSum status = status.jobStates.length
  runState : status.runState ∈ declaredRunStates

/-- Some job of the run is stored, and on each one a state is recorded. -/
def AllRecorded (run : Run) (c : Cluster) : Prop :=
  c.listRunKJobs run.ns run.name ≠ [] ∧
    ∀ kjob ∈ c.listRunKJobs run.ns run.name, kjob.annotations.status ≠ ""

instance (run : Run) (c : Cluster) : Decidable (AllRecorded run c) := by
  unfold AllRecorded
  infer_instance

/-- The status is written only where a state is recorded on every job. -/
def RecordedFirst (run : Run) (s : RunWorld) (a : RunAction) : Prop :=
  match a with
  | .updateStatus _ => AllRecorded run s.cluster
  | _ => True

instance (run : Run) (s : RunWorld) (a : RunAction) : Decidable (RecordedFirst run s a) :=
  match a with
  | .updateStatus _ => inferInstanceAs (Decidable (AllRecorded run s.cluster))
  | .begin | .process | .abort | .report _ _ _ | .markDeleted _ _ _ | .setPods _ =>
      .isTrue trivial

/-! ## The counters -/

/-- A job is counted once if its state is declared, and else not at all. -/
theorem sum_countState_cons (kjob : KJob) (kjobs : List KJob) :
    (declaredStates.map fun state => countState state (kjob :: kjobs)).sum =
      (declaredStates.map fun state => countState state kjobs).sum +
        if kjob.recorded.Declared then 1 else 0 := by
  simp only [declaredStates, countState, List.countP_cons, List.map_cons, List.map_nil,
    List.sum_cons, List.sum_nil, JobState.Declared, List.mem_cons, List.not_mem_nil, or_false]
  cases kjob.recorded <;> simp <;> omega

/-- The counters count the jobs whose state is declared. -/
theorem sum_countState (kjobs : List KJob) :
    (declaredStates.map fun state => countState state kjobs).sum =
      kjobs.countP fun kjob => kjob.recorded.Declared := by
  induction kjobs with
  | nil => rfl
  | cons kjob kjobs ih =>
      rw [sum_countState_cons, ih, List.countP_cons]
      simp

theorem counterSum_runStatusFrom (lib : Externals) (run : Run) (kjobs : List KJob) (now : Time) :
    counterSum (runStatusFrom lib run kjobs now) =
      kjobs.countP fun kjob => kjob.recorded.Declared := by
  have hcounters : (declaredStates.map fun state =>
      ((runStatusFrom lib run kjobs now).counter state).getD 0) =
        declaredStates.map fun state => countState state kjobs := by
    apply List.map_congr_left
    intro state hstate
    rw [counter_runStatusFrom lib run kjobs now hstate, Option.getD_some]
  rw [counterSum, hcounters, sum_countState]

/-- The state of a run is a declared one if the aggregate is. -/
theorem ofJobState_mem_declaredRunStates {state : JobState} :
    RunState.ofJobState state ∈ declaredRunStates ↔ state.Declared := by
  cases state <;> simp [RunState.ofJobState, declaredRunStates, JobState.Declared, declaredStates]

/-- The status of some jobs accounts for them when there is one, and the
states of all of them are declared. -/
theorem accounted_runStatusFrom_iff {lib : Externals} (hsorts : Sorts lib.sortSlice) (run : Run)
    (kjobs : List KJob) (now : Time) :
    Accounted (runStatusFrom lib run kjobs now) ↔
      kjobs ≠ [] ∧ ∀ kjob ∈ kjobs, kjob.recorded.Declared := by
  have hlength : (runStatusFrom lib run kjobs now).jobStates.length = kjobs.length := by
    rw [(jobStates_arranged hsorts run kjobs now).1.length_eq, List.length_map]
  constructor
  · intro haccounted
    have hcounters := haccounted.counters
    rw [counterSum_runStatusFrom, hlength, List.countP_eq_length] at hcounters
    constructor
    · rintro rfl
      have hunknown : RunState.ofJobState .unknown ∉ declaredRunStates := by decide
      exact hunknown haccounted.runState
    · intro kjob hkjob
      exact of_decide_eq_true (hcounters kjob hkjob)
  · rintro ⟨hne, hdeclared⟩
    refine
      { counters := ?_
        runState := ?_ }
    · rw [counterSum_runStatusFrom, hlength, List.countP_eq_length]
      intro kjob hkjob
      exact decide_eq_true (hdeclared kjob hkjob)
    · have hstates : ∀ state ∈ kjobs.map KJob.recorded, state.Declared := by
        simpa using hdeclared
      exact ofJobState_mem_declaredRunStates.mpr
        (hstates _ (aggregate_mem (by simpa using hne) hstates))

/-! ## What is recorded on the stored jobs -/

/-- The classifier declares nothing new. -/
theorem declared_determineJobStateFrom (kjob : KJob) (pod : Pod) :
    (determineJobStateFrom kjob pod).Declared := by
  unfold determineJobStateFrom
  repeat' split
  all_goals decide

theorem mem_listRunKJobs {c : Cluster} {ns runName : String} {kjob : KJob} :
    kjob ∈ c.listRunKJobs ns runName ↔
      kjob ∈ c.kjobs ∧ kjob.ns = ns ∧ kjob.labels.runName = runName := by
  simp [Cluster.listRunKJobs]

/-- On each job of the run nothing is recorded yet, or a declared state. -/
structure DeclaredOrNew (lib : Externals) (run : Run) (s : RunWorld) : Prop
    extends Tracked lib run s where
  states : ∀ kjob ∈ s.cluster.listRunKJobs run.ns run.name,
    kjob.annotations.status = "" ∨ kjob.recorded.Declared

section Invariant

variable {lib : Externals} {run : Run} {s t : RunWorld}

/-- With such jobs a write accounts for all of them exactly if a state is
recorded on each. -/
theorem accounted_nextStatus_iff (hsorts : Sorts lib.sortSlice) (hinv : DeclaredOrNew lib run s)
    (now : Time) : Accounted (s.nextStatus lib run now) ↔ AllRecorded run s.cluster := by
  rw [RunWorld.nextStatus, accounted_runStatusFrom_iff hsorts, AllRecorded]
  have hempty : ¬ (JobState.ofText "").Declared := by decide
  refine and_congr_right fun _ => forall₂_congr fun kjob hkjob => ?_
  constructor
  · intro hdeclared hstatus
    rw [KJob.recorded, hstatus] at hdeclared
    exact hempty hdeclared
  · intro hstatus
    exact (hinv.states kjob hkjob).resolve_left hstatus

/-- Replacing a job of the store by one with the same key and labels. -/
private theorem DeclaredOrNew.replaced (hinv : DeclaredOrNew lib run s)
    (htracked : Tracked lib run t) {ns name : String} {old updated : KJob}
    (hget : s.cluster.getKJob ns name = some old)
    (hcluster : t.cluster = s.cluster.updateKJob updated)
    (hkey : kjobKey updated = kjobKey old) (hlabels : updated.labels = old.labels)
    (hstates : (old.annotations.status = "" ∨ old.recorded.Declared) →
      updated.annotations.status = "" ∨ updated.recorded.Declared) :
    DeclaredOrNew lib run t := by
  refine
    { toTracked := htracked
      states := ?_ }
  intro kjob hkjob
  obtain ⟨hmem, hns, hrunName⟩ := mem_listRunKJobs.mp hkjob
  rw [hcluster, Cluster.updateKJob] at hmem
  obtain ⟨k, hk, rfl⟩ := List.mem_map.mp hmem
  by_cases hsame : kjobKey k = kjobKey updated
  · simp only [if_pos hsame] at hns hrunName ⊢
    refine hstates (hinv.states old (mem_listRunKJobs.mpr ⟨(Cluster.mem_of_getKJob hget).1, ?_⟩))
    exact ⟨(Prod.mk.inj hkey).1.symm.trans hns, hlabels ▸ hrunName⟩
  · simp only [if_neg hsame] at hns hrunName ⊢
    exact hinv.states k (mem_listRunKJobs.mpr ⟨hk, hns, hrunName⟩)

theorem DeclaredOrNew.init (h : (runMachine lib run).init s) : DeclaredOrNew lib run s := by
  refine
    { toTracked := Tracked.init h
      states := ?_ }
  intro kjob hkjob
  obtain ⟨hmem, hns, hrunName⟩ := mem_listRunKJobs.mp hkjob
  exact absurd hrunName (h.1.runName kjob hmem hns)

/-- One step keeps the recorded states declared. -/
theorem DeclaredOrNew.step (hinv : DeclaredOrNew lib run s) {a : RunAction}
    (hstep : s.step lib run a = some t) : DeclaredOrNew lib run t := by
  have htracked := hinv.toTracked.step hstep
  cases RunWorld.step_effect hinv.toTracked hstep with
  | quiet hkjobs =>
      refine
        { toTracked := htracked
          states := ?_ }
      rw [Cluster.listRunKJobs, hkjobs, ← Cluster.listRunKJobs]
      exact hinv.states
  | created _ _ hdesired _ hcluster =>
      refine
        { toTracked := htracked
          states := ?_ }
      intro kjob hkjob
      obtain ⟨hmem, hlisted⟩ := mem_listRunKJobs.mp hkjob
      rw [hcluster, Cluster.createKJob] at hmem
      rcases List.mem_append.mp hmem with hbefore | hnew
      · exact hinv.states kjob (mem_listRunKJobs.mpr ⟨hbefore, hlisted⟩)
      · rw [List.mem_singleton.mp hnew]
        exact Or.inl hdesired.status
  | updated _ _ _ hget _ hcluster =>
      refine hinv.replaced htracked hget hcluster (kjobKey_updatedKJob _ _ _ _)
        (labels_updatedKJob _ _ _ _) fun _ => Or.inr ?_
      rw [recorded_updatedKJob]
      exact declared_determineJobStateFrom _ _
  | reported hget _ hcluster => exact hinv.replaced htracked hget hcluster rfl rfl id
  | marked hget hcluster => exact hinv.replaced htracked hget hcluster rfl rfl id
  | wrote hcluster =>
      refine
        { toTracked := htracked
          states := ?_ }
      rw [hcluster]
      exact hinv.states

/-! ## The written status -/

/-- A step leaves the status as it is, or writes the next one. -/
theorem RunWorld.status_step {a : RunAction} (hstep : s.step lib run a = some t) :
    (t.status = s.status ∧ t.written = s.written) ∨
      ∃ now, a = .updateStatus now ∧ t.status = s.nextStatus lib run now := by
  cases a with
  | begin =>
      simp only [RunWorld.step] at hstep
      split at hstep
      · cases hstep
        exact Or.inl ⟨rfl, rfl⟩
      · cases hstep
  | process =>
      simp only [RunWorld.step] at hstep
      split at hstep
      · cases hstep
        exact Or.inl ⟨rfl, rfl⟩
      · split at hstep <;> cases hstep <;> exact Or.inl ⟨rfl, rfl⟩
      · cases hstep
  | abort =>
      cases hstep
      exact Or.inl ⟨rfl, rfl⟩
  | updateStatus now =>
      simp only [RunWorld.step] at hstep
      split at hstep
      · cases hstep
        exact Or.inr ⟨now, rfl, rfl⟩
      · cases hstep
  | report ns name counts =>
      simp only [RunWorld.step] at hstep
      split at hstep
      · cases hstep
      · split at hstep
        · cases hstep
          exact Or.inl ⟨rfl, rfl⟩
        · cases hstep
  | markDeleted ns name date =>
      simp only [RunWorld.step] at hstep
      split at hstep
      · cases hstep
      · cases hstep
        exact Or.inl ⟨rfl, rfl⟩
  | setPods pods =>
      cases hstep
      exact Or.inl ⟨rfl, rfl⟩

/-- The recorded states are declared in every state that some run reaches. -/
theorem declaredOrNew_of_reach {ok : RunWorld → RunAction → Prop}
    (h : (runMachine lib run).Reach ok s) : DeclaredOrNew lib run s :=
  h.invariant (fun _ hinit => DeclaredOrNew.init hinit)
    fun _ _ _ hinv _ hstep => hinv.step hstep

/-- **Every job is accounted for.**  In every run of the machine whose writes
find a job stored and on each one a state recorded, the status last written
accounts for every job; and a write in any state that some run reaches does
so exactly if it meets this condition. -/
theorem accounted_of_reach (hsorts : Sorts lib.sortSlice) :
    (∀ s, (runMachine lib run).Reach (RecordedFirst run) s → s.written ≠ [] →
      Accounted s.status) ∧
    (∀ s t now, (runMachine lib run).Reachable s →
      s.step lib run (.updateStatus now) = some t →
        (Accounted t.status ↔ AllRecorded run s.cluster)) := by
  constructor
  · intro s h
    have hinv : DeclaredOrNew lib run s ∧ (s.written ≠ [] → Accounted s.status) := by
      refine Machine.Reach.invariant
        (I := fun s => DeclaredOrNew lib run s ∧ (s.written ≠ [] → Accounted s.status)) ?_ ?_ h
      · intro s hinit
        exact ⟨DeclaredOrNew.init hinit, fun hwritten => absurd hinit.2.2 hwritten⟩
      · rintro s a t ⟨hinv, haccounted⟩ hok hstep
        refine ⟨hinv.step hstep, ?_⟩
        intro hwritten
        rcases RunWorld.status_step hstep with ⟨hstatus, hsame⟩ | ⟨now, rfl, hstatus⟩
        · rw [hstatus]
          exact haccounted (hsame ▸ hwritten)
        · rw [hstatus]
          exact (accounted_nextStatus_iff hsorts hinv now).mpr hok
    exact hinv.2
  · intro s t now h hstep
    have hstatus : t.status = s.nextStatus lib run now := by
      simp only [RunWorld.step] at hstep
      split at hstep
      · cases hstep
        rfl
      · cases hstep
    rw [hstatus]
    exact accounted_nextStatus_iff hsorts (declaredOrNew_of_reach h) now

end Invariant

/-! ## A run of two reconciles -/

/-- A run of two jobs. -/
def twoJobRun : Run where
  name := "weekly"
  ns := "team"
  spec := { jobs := [
    { name := "fetch", ns := "team", image := "fetch", trigger := "false" },
    { name := "fit", ns := "team", image := "fit", trigger := "false" }] }

/-- The first pass creates the jobs and breaks off before the status; the
second one records their states. -/
def createThenRecord : List RunAction :=
  [.begin, .process, .process, .abort, .begin, .process, .process, .process, .updateStatus 0]

def recordedWorld : RunWorld :=
  ((runMachine Externals.plain twoJobRun).exec (RecordedFirst twoJobRun) {}
    createThenRecord).getD {}

theorem accounted_of_reach_twoJobs : Accounted recordedWorld.status := by
  have hinit : (runMachine Externals.plain twoJobRun).init {} := ⟨fresh_empty _ _, rfl, rfl⟩
  have hexec : (runMachine Externals.plain twoJobRun).exec (RecordedFirst twoJobRun) {}
      createThenRecord = some recordedWorld := by
    decide +kernel
  exact (accounted_of_reach insertionSort_sorts).1 _ (Machine.reach_of_exec _ hinit hexec)
    (by decide +kernel)

/-- Without a break the status comes right after the creation. -/
def createThenWrite : List RunAction := [.begin, .process, .process, .process, .updateStatus 0]

def unrecordedWorld : RunWorld :=
  ((runMachine Externals.plain twoJobRun).exec (fun _ _ => True) {} createThenWrite).getD {}

/-- The first reconcile of a run lists two jobs, counts none, and writes an
empty state. -/
theorem created_unaccounted :
    (runMachine Externals.plain twoJobRun).Reachable unrecordedWorld ∧
      unrecordedWorld.written = [.undeclared ""] ∧ unrecordedWorld.status.jobStates.length = 2 ∧
      counterSum unrecordedWorld.status = 0 ∧ ¬ Accounted unrecordedWorld.status := by
  have hinit : (runMachine Externals.plain twoJobRun).init {} := ⟨fresh_empty _ _, rfl, rfl⟩
  have hexec : (runMachine Externals.plain twoJobRun).exec (fun _ _ => True) {}
      createThenWrite = some unrecordedWorld := by
    decide +kernel
  refine ⟨Machine.reach_of_exec _ hinit hexec, by decide +kernel, by decide +kernel,
    by decide +kernel, ?_⟩
  intro haccounted
  exact absurd haccounted.counters (by decide +kernel)

end PipelineOperator.Controller
