import PipelineOperator.Controller.RunStatus
import PipelineOperator.Lib.Arrange
import PipelineOperator.Lib.Keyed
import Mathlib.Data.List.Induction

/-!
# The status of a run as a summary of its jobs

One loop of `updateRunStatus` goes over the listed kubernetes jobs: it takes
their states together, appends them to a list and counts them.  The list is
then sorted by a map from job names to positions, with a sort that need not be
stable.  This file says what comes out: what the loop computes, that the
order of the listing does not matter, and how the state of the run relates to
the categories of the states of its jobs.

## Main results

* `statusLoop_eq`: the loop counts the states, maps the jobs and aggregates.
* `runStatusFrom_order_free`: permutations of the listed jobs give one status,
  which counts the states, follows the order of the spec and has the state of
  the highest order.
* `respectsCategories_iff`: when the state of a run respects the order of the
  categories.
-/

namespace PipelineOperator.Controller

open PipelineOperator.Lib
open PipelineOperator.Api

/-! ## The loop -/

/-- The variables of the loop. -/
structure StatusLoop where
  jobState : JobState := .unknown
  runJobStateList : List RunJobState := []
  init : Nat := 0
  wait : Nat := 0
  stop : Nat := 0
  run : Nat := 0
  deleting : Nat := 0
  complete : Nat := 0
  deleted : Nat := 0
  failed : Nat := 0
  deriving Repr, DecidableEq

/-- The body of the loop; each branch is one that ends in `continue`. -/
def StatusLoop.visit (s : StatusLoop) (kjob : KJob) : StatusLoop :=
  let kjobState := kjob.recorded
  let s := { s with
    jobState := determineJobStateFromOrder s.jobState kjobState
    runJobStateList := s.runJobStateList ++ [runJobStateOf kjob] }
  if kjobState = .initializing then { s with init := s.init + 1 }
  else if kjobState = .waiting then { s with wait := s.wait + 1 }
  else if kjobState = .stopping then { s with stop := s.stop + 1 }
  else if kjobState = .running then { s with run := s.run + 1 }
  else if kjobState = .deleting then { s with deleting := s.deleting + 1 }
  else if kjobState = .completed then { s with complete := s.complete + 1 }
  else if kjobState = .deleted then { s with deleted := s.deleted + 1 }
  else if kjobState = .failed then { s with failed := s.failed + 1 }
  else s

def statusLoop (kjobs : List KJob) : StatusLoop := kjobs.foldl StatusLoop.visit {}

/-- Where the loop stands after some jobs. -/
def StatusLoop.after (kjobs : List KJob) : StatusLoop where
  jobState := aggregate (kjobs.map KJob.recorded)
  runJobStateList := kjobs.map runJobStateOf
  init := countState .initializing kjobs
  wait := countState .waiting kjobs
  stop := countState .stopping kjobs
  run := countState .running kjobs
  deleting := countState .deleting kjobs
  complete := countState .completed kjobs
  deleted := countState .deleted kjobs
  failed := countState .failed kjobs

theorem countState_concat (state : JobState) (kjobs : List KJob) (kjob : KJob) :
    countState state (kjobs ++ [kjob]) =
      countState state kjobs + if kjob.recorded = state then 1 else 0 := by
  simp [countState, List.countP_append, List.countP_cons]

theorem aggregate_concat (states : List JobState) (state : JobState) :
    aggregate (states ++ [state]) = determineJobStateFromOrder (aggregate states) state := by
  simp [aggregate]

/-- One more job. -/
theorem StatusLoop.visit_after (kjobs : List KJob) (kjob : KJob) :
    (StatusLoop.after kjobs).visit kjob = StatusLoop.after (kjobs ++ [kjob]) := by
  unfold StatusLoop.visit StatusLoop.after
  simp only [countState_concat, List.map_append, List.map_cons, List.map_nil, aggregate_concat]
  cases kjob.recorded <;> simp

/-- The loop counts the states, maps the jobs and aggregates. -/
theorem statusLoop_eq (kjobs : List KJob) : statusLoop kjobs = StatusLoop.after kjobs := by
  induction kjobs using List.reverseRecOn with
  | nil => rfl
  | append_singleton kjobs kjob ih =>
      rw [statusLoop, List.foldl_append, ← statusLoop, ih]
      exact StatusLoop.visit_after kjobs kjob

/-- The status is written from the variables of the loop. -/
theorem runStatusFrom_eq_loop (lib : Externals) (run : Run) (kjobs : List KJob) (now : Time) :
    runStatusFrom lib run kjobs now =
      { run.status with
        jobStates := lib.sortSlice (byKey fun entry => jobIndex run entry.runJobName)
          (statusLoop kjobs).runJobStateList
        initializing := some (statusLoop kjobs).init
        waiting := some (statusLoop kjobs).wait
        stopping := some (statusLoop kjobs).stop
        running := some (statusLoop kjobs).run
        deleting := some (statusLoop kjobs).deleting
        completed := some (statusLoop kjobs).complete
        deleted := some (statusLoop kjobs).deleted
        failed := some (statusLoop kjobs).failed
        runState := RunState.ofJobState (statusLoop kjobs).jobState
        createdDate := some run.creationTimestamp
        lastUpdatedDate := some now } := by
  rw [statusLoop_eq]
  rfl

/-! ## The states of a run -/

/-- The aggregate of declared states is the one of the highest order. -/
theorem aggregate_mem {states : List JobState} (hne : states ≠ [])
    (hdeclared : ∀ state ∈ states, state.Declared) : aggregate states ∈ states := by
  rcases aggregate_recorded states with hunknown | hmem
  · obtain ⟨state, rest, rfl⟩ := List.exists_cons_of_ne_nil hne
    have hle := stateOrder_le_aggregate (List.mem_cons_self (a := state) (l := rest))
    have hpos := stateOrder_pos (hdeclared state List.mem_cons_self)
    rw [hunknown] at hle
    exact absurd hle (by rw [stateOrder]; omega)
  · exact hmem

theorem aggregate_perm {states states' : List JobState} (hne : states ≠ [])
    (hdeclared : ∀ state ∈ states, state.Declared) (hperm : states'.Perm states) :
    aggregate states' = aggregate states := by
  have hne' : states' ≠ [] := fun hnil => hne (by simpa [hnil] using hperm.symm)
  have hdeclared' : ∀ state ∈ states', state.Declared :=
    fun state hstate => hdeclared state (hperm.mem_iff.mp hstate)
  have hmem := aggregate_mem hne hdeclared
  have hmem' := aggregate_mem hne' hdeclared'
  have hle := stateOrder_le_aggregate (hperm.mem_iff.mpr hmem)
  have hle' := stateOrder_le_aggregate (hperm.mem_iff.mp hmem')
  exact stateOrder_inj (hdeclared' _ hmem') (hdeclared _ hmem) (Nat.le_antisymm hle' hle)

/-! ## The positions of the jobs -/

/-- A name that no job has leaves the map as it is. -/
theorem foldl_index_of_notMem {jobs : List Job} {name : String}
    (hname : name ∉ jobs.map Job.name) (start m : Nat) :
    (jobs.zipIdx start).foldl (fun m entry => if entry.1.name = name then entry.2 else m) m =
      m := by
  induction jobs generalizing start m with
  | nil => rfl
  | cons job jobs ih =>
      rw [List.map_cons, List.mem_cons, not_or] at hname
      rw [List.zipIdx_cons, List.foldl_cons, if_neg fun h => hname.1 h.symm]
      exact ih hname.2 (start + 1) m

/-- Jobs with different names have their own positions in the map. -/
theorem foldl_index_of_getElem {jobs : List Job} (hnames : Keyed Job.name jobs) {i : Nat}
    (hi : i < jobs.length) (start m : Nat) :
    (jobs.zipIdx start).foldl
      (fun m entry => if entry.1.name = jobs[i].name then entry.2 else m) m = start + i := by
  induction jobs generalizing i start m with
  | nil => simp at hi
  | cons job jobs ih =>
      obtain ⟨hfirst, hrest⟩ := List.nodup_cons.mp hnames
      rw [List.zipIdx_cons, List.foldl_cons]
      cases i with
      | zero =>
          rw [List.getElem_cons_zero, if_pos rfl]
          exact foldl_index_of_notMem hfirst (start + 1) start
      | succ i =>
          have hlt : i < jobs.length := by
            rw [List.length_cons] at hi
            omega
          rw [List.getElem_cons_succ, ih hrest hlt]
          omega

theorem jobIndex_getElem {run : Run} (hnames : Keyed Job.name run.spec.jobs) {i : Nat}
    (hi : i < run.spec.jobs.length) : jobIndex run run.spec.jobs[i].name = i := by
  rw [jobIndex, foldl_index_of_getElem hnames hi, Nat.zero_add]

/-- The spec lists its names by their positions. -/
theorem names_arranged {run : Run} (hnames : Keyed Job.name run.spec.jobs) :
    (run.spec.jobs.map Job.name).Pairwise fun a b => jobIndex run a < jobIndex run b := by
  refine List.pairwise_iff_getElem.mpr ?_
  intro i j hi hj hlt
  rw [List.length_map] at hi hj
  rw [List.getElem_map, List.getElem_map, jobIndex_getElem hnames hi, jobIndex_getElem hnames hj]
  exact hlt

theorem jobIndex_inj {run : Run} (hnames : Keyed Job.name run.spec.jobs) {a b : String}
    (ha : a ∈ run.spec.jobs.map Job.name) (hb : b ∈ run.spec.jobs.map Job.name)
    (hindex : jobIndex run a = jobIndex run b) : a = b :=
  List.inj_on_of_nodup_map
    (List.pairwise_map.mpr ((names_arranged hnames).imp Nat.ne_of_lt)) ha hb hindex

/-! ## The status -/

/-- What the status says about the listed jobs. -/
structure Summarises (run : Run) (kjobs : List KJob) (status : RunStatus) : Prop where
  counters : ∀ state, state.Declared →
    status.counter state = some ((kjobs.map KJob.recorded).count state)
  entries : status.jobStates.Perm (kjobs.map runJobStateOf)
  order : (status.jobStates.map RunJobState.runJobName).Sublist (run.spec.jobs.map Job.name)
  runState : ∃ state ∈ kjobs.map KJob.recorded, status.runState = RunState.ofJobState state ∧
    ∀ other ∈ kjobs.map KJob.recorded, stateOrder other ≤ stateOrder state
  failed : status.runState = .failed ↔ JobState.failed ∈ kjobs.map KJob.recorded

section Summary

variable {lib : Externals} {run : Run} {kjobs : List KJob}

theorem countState_eq_count (state : JobState) (kjobs : List KJob) :
    countState state kjobs = (kjobs.map KJob.recorded).count state := by
  rw [List.count, List.countP_map, countState]
  apply List.countP_congr
  intro kjob _
  simp

theorem counter_runStatusFrom (lib : Externals) (run : Run) (kjobs : List KJob) (now : Time)
    {state : JobState} (hdeclared : state.Declared) :
    (runStatusFrom lib run kjobs now).counter state = some (countState state kjobs) := by
  unfold JobState.Declared declaredStates at hdeclared
  simp only [List.mem_cons, List.not_mem_nil, or_false] at hdeclared
  rcases hdeclared with rfl | rfl | rfl | rfl | rfl | rfl | rfl | rfl <;> rfl

/-- The state of a run is failed exactly if the aggregate is. -/
theorem ofJobState_eq_failed {state : JobState} :
    RunState.ofJobState state = .failed ↔ state = .failed := by
  cases state <;> simp [RunState.ofJobState]

/-- No state has a higher order than failed. -/
theorem aggregate_eq_failed {states : List JobState} (hne : states ≠ [])
    (hdeclared : ∀ state ∈ states, state.Declared) :
    aggregate states = .failed ↔ JobState.failed ∈ states := by
  have hmem := aggregate_mem hne hdeclared
  constructor
  · intro hfailed
    rw [← hfailed]
    exact hmem
  · intro hfailed
    have hhighest : ∀ state ∈ declaredStates, stateOrder state ≤ stateOrder .failed := by decide
    exact stateOrder_inj (hdeclared _ hmem) (hdeclared _ hfailed)
      (Nat.le_antisymm (hhighest _ (hdeclared _ hmem)) (stateOrder_le_aggregate hfailed))

/-- The entries of the status are arranged by the positions of their jobs. -/
theorem jobStates_arranged (hsorts : Sorts lib.sortSlice) (run : Run) (kjobs : List KJob)
    (now : Time) :
    (runStatusFrom lib run kjobs now).jobStates.Perm (kjobs.map runJobStateOf) ∧
      (runStatusFrom lib run kjobs now).jobStates.Pairwise fun a b =>
        jobIndex run a.runJobName ≤ jobIndex run b.runJobName :=
  hsorts.byKey (fun entry => jobIndex run entry.runJobName) (kjobs.map runJobStateOf)

/-- **The order of the listing does not matter.**  Kubernetes jobs of different
jobs of the spec, in states that are declared, are summed up in the same status
in whatever order they come, and with whatever sort. -/
theorem runStatusFrom_order_free (hsorts : Sorts lib.sortSlice)
    (hnames : Keyed Job.name run.spec.jobs) (hne : kjobs ≠ [])
    (hlabels : Keyed (fun kjob => kjob.labels.runJobName) kjobs)
    (hlisted : ∀ kjob ∈ kjobs, kjob.labels.runJobName ∈ run.spec.jobs.map Job.name)
    (hdeclared : ∀ kjob ∈ kjobs, kjob.recorded.Declared) (now : Time) :
    Summarises run kjobs (runStatusFrom lib run kjobs now) ∧
      ∀ kjobs', kjobs'.Perm kjobs →
        runStatusFrom lib run kjobs' now = runStatusFrom lib run kjobs now := by
  have hstates : kjobs.map KJob.recorded ≠ [] := by simpa using hne
  have hdeclaredStates : ∀ state ∈ kjobs.map KJob.recorded, state.Declared := by
    simpa using hdeclared
  have hentries : ((kjobs.map runJobStateOf).map RunJobState.runJobName).Nodup := by
    rw [List.map_map]
    exact hlabels
  have hlistedEntries : ∀ entry ∈ kjobs.map runJobStateOf,
      entry.runJobName ∈ run.spec.jobs.map Job.name := by
    intro entry hentry
    obtain ⟨kjob, hkjob, rfl⟩ := List.mem_map.mp hentry
    exact hlisted kjob hkjob
  obtain ⟨hperm, harranged⟩ := jobStates_arranged hsorts run kjobs now
  constructor
  · refine
      { counters := ?_
        entries := hperm
        order := ?_
        runState := ?_
        failed := ofJobState_eq_failed.trans (aggregate_eq_failed hstates hdeclaredStates) }
    · intro state hstate
      rw [counter_runStatusFrom lib run kjobs now hstate, countState_eq_count]
    · refine sublist_of_arranged (names_arranged hnames) (List.pairwise_map.mpr harranged)
        ((hperm.map RunJobState.runJobName).nodup_iff.mpr hentries) ?_
      intro name hname
      obtain ⟨entry, hentry, rfl⟩ := List.mem_map.mp hname
      exact hlistedEntries entry (hperm.mem_iff.mp hentry)
    · exact ⟨aggregate (kjobs.map KJob.recorded), aggregate_mem hstates hdeclaredStates, rfl,
        fun other hother => stateOrder_le_aggregate hother⟩
  · intro kjobs' hlist
    have hsame : lib.sortSlice (byKey fun entry => jobIndex run entry.runJobName)
          (kjobs'.map runJobStateOf) =
        lib.sortSlice (byKey fun entry => jobIndex run entry.runJobName)
          (kjobs.map runJobStateOf) := by
      refine hsorts.eq_of_perm (hlist.map runJobStateOf) ?_
      intro a ha b hb hindex
      exact List.inj_on_of_nodup_map hentries ha hb
        (jobIndex_inj hnames (hlistedEntries a ha) (hlistedEntries b hb) hindex)
    have hcounts : ∀ state, countState state kjobs' = countState state kjobs :=
      fun state => hlist.countP_eq _
    have haggregate := aggregate_perm hstates hdeclaredStates (hlist.map KJob.recorded)
    rw [runStatusFrom_eq_loop, runStatusFrom_eq_loop, statusLoop_eq, statusLoop_eq]
    simp only [StatusLoop.after, hsame, hcounts, haggregate]

end Summary

/-- A run of three jobs, and its kubernetes jobs in another order. -/
def threeJobRun : Run where
  name := "train-1"
  ns := "team"
  spec.jobs := [{ name := "fetch" }, { name := "fit" }, { name := "report" }]

def kjobIn (runJobName status : String) : KJob where
  name := runJobName
  ns := "team"
  labels := { runName := "train-1", runJobName := runJobName }
  annotations := { status := status }

def threeKJobs : List KJob :=
  [kjobIn "report" "waiting", kjobIn "fetch" "completed", kjobIn "fit" "running"]

theorem runStatusFrom_order_free_threeJobs :
    Summarises threeJobRun threeKJobs
        (runStatusFrom Externals.plain threeJobRun threeKJobs 0) ∧
      ∀ kjobs', kjobs'.Perm threeKJobs →
        runStatusFrom Externals.plain threeJobRun kjobs' 0 =
          runStatusFrom Externals.plain threeJobRun threeKJobs 0 :=
  @runStatusFrom_order_free Externals.plain threeJobRun threeKJobs insertionSort_sorts
    (by decide) (by decide) (by decide) (by decide) (by decide) 0

/-! ## Categories -/

/-- Some job is in the category. -/
def SomeIn (category : JobCategory) (states : List JobState) : Prop :=
  ∃ state ∈ states, jobCategory state = some category

/-- The state of a run respects the order run, pre-run, post-run of the
categories of its jobs. -/
structure RespectsCategories (states : List JobState) (runState : RunState) : Prop where
  run : SomeIn .run states → runCategory runState = some .run
  preRun : ¬ SomeIn .run states → SomeIn .preRun states → runCategory runState = some .preRun
  postRun : runCategory runState = some .postRun →
    ∀ state ∈ states, jobCategory state = some .postRun

/-- A job that is about to go has a state of a lower order than one of a later
category: deleting than initializing, waiting and completed, or stopping than
completed.  No job of a higher order outweighs it. -/
def Masked (states : List JobState) : Prop :=
  .running ∉ states ∧
    ((.deleting ∈ states ∧
        (.initializing ∈ states ∨ .waiting ∈ states ∨ .completed ∈ states)) ∨
      (.stopping ∈ states ∧ .completed ∈ states ∧
        .initializing ∉ states ∧ .waiting ∉ states))

section Categories

variable {states : List JobState}

theorem someIn_run_iff : SomeIn .run states ↔ .running ∈ states ∨ .deleting ∈ states := by
  constructor
  · rintro ⟨state, hstate, hcategory⟩
    cases state <;> simp [jobCategory] at hcategory <;> simp [hstate]
  · rintro (hstate | hstate)
    · exact ⟨_, hstate, rfl⟩
    · exact ⟨_, hstate, rfl⟩

theorem someIn_preRun_iff : SomeIn .preRun states ↔
    .initializing ∈ states ∨ .waiting ∈ states ∨ .stopping ∈ states := by
  constructor
  · rintro ⟨state, hstate, hcategory⟩
    cases state <;> simp [jobCategory] at hcategory <;> simp [hstate]
  · rintro (hstate | hstate | hstate)
    · exact ⟨_, hstate, rfl⟩
    · exact ⟨_, hstate, rfl⟩
    · exact ⟨_, hstate, rfl⟩

/-- Declared states are post-run unless some are in another category. -/
theorem forall_postRun_iff (hdeclared : ∀ state ∈ states, state.Declared) :
    (∀ state ∈ states, jobCategory state = some .postRun) ↔
      ¬ SomeIn .run states ∧ ¬ SomeIn .preRun states := by
  have hall : ∀ state ∈ declaredStates, jobCategory state = some .postRun ∨
      jobCategory state = some .run ∨ jobCategory state = some .preRun := by decide
  constructor
  · intro hpostRun
    constructor
    · rintro ⟨state, hstate, hcategory⟩
      rw [hpostRun state hstate] at hcategory
      cases hcategory
    · rintro ⟨state, hstate, hcategory⟩
      rw [hpostRun state hstate] at hcategory
      cases hcategory
  · rintro ⟨hrun, hpreRun⟩ state hstate
    rcases hall state (hdeclared state hstate) with hcategory | hcategory | hcategory
    · exact hcategory
    · exact absurd ⟨state, hstate, hcategory⟩ hrun
    · exact absurd ⟨state, hstate, hcategory⟩ hpreRun

/-- What the aggregate has to be in the category of, in terms of the states of
the jobs. -/
theorem respectsCategories_aggregate (hne : states ≠ [])
    (hdeclared : ∀ state ∈ states, state.Declared) (hfailed : JobState.failed ∉ states) :
    RespectsCategories states (RunState.ofJobState (aggregate states)) ↔ ¬ Masked states := by
  have hmem := aggregate_mem hne hdeclared
  have hhighest : ∀ state, stateOrder (aggregate states) < stateOrder state → state ∉ states :=
    fun state hlt hstate => absurd (stateOrder_le_aggregate hstate) (by omega)
  have hfields : RespectsCategories states (RunState.ofJobState (aggregate states)) ↔
      (SomeIn .run states → jobCategory (aggregate states) = some .run) ∧
        (¬ SomeIn .run states → SomeIn .preRun states →
          jobCategory (aggregate states) = some .preRun) ∧
        (jobCategory (aggregate states) = some .postRun →
          ¬ SomeIn .run states ∧ ¬ SomeIn .preRun states) := by
    rw [← forall_postRun_iff hdeclared, ← runCategory_ofJobState]
    exact ⟨fun h => ⟨h.run, h.preRun, h.postRun⟩, fun h => ⟨h.1, h.2.1, h.2.2⟩⟩
  rw [hfields, someIn_run_iff, someIn_preRun_iff, Masked]
  have hrunning := hhighest .running
  have hinitializing := hhighest .initializing
  have hwaiting := hhighest .waiting
  have hcompleted := hhighest .completed
  have hdeleting := hhighest .deleting
  have hstopping := hhighest .stopping
  have hdeclaredMem := hdeclared _ hmem
  generalize aggregate states = state at *
  cases state with
  | running => simp [jobCategory, hmem]
  | initializing => simp_all [jobCategory, stateOrder]
  | waiting => simp_all [jobCategory, stateOrder]
  | completed => simp_all [jobCategory, stateOrder]
  | deleting => simp_all [jobCategory, stateOrder]
  | stopping => simp_all [jobCategory, stateOrder]
  | deleted => simp_all [jobCategory, stateOrder]
  | failed => exact absurd hmem hfailed
  | unknown => exact absurd hdeclaredMem (by decide)
  | undeclared text => simp [JobState.Declared, declaredStates] at hdeclaredMem

/-- **Categories.**  The state of a run without a failed job respects the order
of the categories exactly when no state is masked. -/
theorem respectsCategories_iff (lib : Externals) (run : Run) {kjobs : List KJob} (now : Time)
    (hne : kjobs ≠ []) (hdeclared : ∀ kjob ∈ kjobs, kjob.recorded.Declared)
    (hfailed : ∀ kjob ∈ kjobs, kjob.recorded ≠ .failed) :
    RespectsCategories (kjobs.map KJob.recorded) (runStatusFrom lib run kjobs now).runState ↔
      ¬ Masked (kjobs.map KJob.recorded) := by
  refine respectsCategories_aggregate (by simpa using hne) (by simpa using hdeclared) ?_
  intro hmem
  obtain ⟨kjob, hkjob, hrecorded⟩ := List.mem_map.mp hmem
  exact hfailed kjob hkjob hrecorded

theorem respectsCategories_iff_threeJobs :
    RespectsCategories (threeKJobs.map KJob.recorded)
        (runStatusFrom Externals.plain threeJobRun threeKJobs 0).runState ↔
      ¬ Masked (threeKJobs.map KJob.recorded) :=
  respectsCategories_iff Externals.plain threeJobRun 0 (by decide) (by decide) (by decide)

/-- A run whose first job is done while the second one is being deleted counts
as completed. -/
theorem deleting_masked :
    ¬ ∀ (run : Run) (kjobs : List KJob), kjobs ≠ [] →
      (∀ kjob ∈ kjobs, kjob.recorded.Declared) → (∀ kjob ∈ kjobs, kjob.recorded ≠ .failed) →
      RespectsCategories (kjobs.map KJob.recorded)
        (runStatusFrom Externals.plain run kjobs 0).runState := by
  intro hall
  have hrespects := hall threeJobRun [kjobIn "fetch" "completed", kjobIn "fit" "deleting"]
    (by decide) (by decide) (by decide)
  exact absurd (hrespects.run ⟨.deleting, by decide, rfl⟩) (by decide)

end Categories

end PipelineOperator.Controller
