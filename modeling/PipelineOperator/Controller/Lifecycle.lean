import PipelineOperator.Controller.RunMachine

/-!
# The lifecycle of a run

The comment on `RunState` says that a run that has been running ends up
completed or failed, and that one that has been deleting ends up deleted or
failed.  The state of a run is the state of the highest order among its jobs,
and initializing and waiting rank above completed.  So a run falls back from
running when the jobs that ran are done while another one has still to start.
Where every write of the status finds a job running or failed, or none that
has still to start, the lifecycle is as documented.

## Main results

* `lifecycle_of_reach`: the documented lifecycle, along every run of the
  machine whose jobs only move forward and whose writes meet this condition.
-/

namespace PipelineOperator.Controller

open PipelineOperator.Lib
open PipelineOperator.Api

/-! ## Forward moves -/

/-- What may be recorded of a job after a state.  A job waits, initializes,
runs, and completes or fails; instead of running it may be deleted.  Nothing
leads back. -/
def Forward : JobState → JobState → Prop
  | .initializing, next => next ≠ .waiting
  | .running, next => next = .running ∨ next = .completed ∨ next = .failed
  | .deleting, next => next = .deleting ∨ next = .deleted ∨ next = .failed
  | .completed, next => next = .completed
  | .deleted, next => next = .deleted
  | .failed, next => next = .failed
  | _, _ => True

instance (prev next : JobState) : Decidable (Forward prev next) := by
  unfold Forward
  split <;> infer_instance

/-- The states of a job that has started to run. -/
def ranStates : List JobState := [.running, .completed, .failed]

/-- The states of a job that has started to be deleted. -/
def goneStates : List JobState := [.deleting, .deleted, .failed]

theorem Forward.ran {prev next : JobState} (h : Forward prev next) (hprev : prev ∈ ranStates) :
    next ∈ ranStates := by
  simp only [ranStates, List.mem_cons, List.not_mem_nil, or_false] at hprev ⊢
  rcases hprev with rfl | rfl | rfl
  · exact h
  · exact Or.inr (Or.inl h)
  · exact Or.inr (Or.inr h)

theorem Forward.gone {prev next : JobState} (h : Forward prev next)
    (hprev : prev ∈ goneStates) : next ∈ goneStates := by
  simp only [goneStates, List.mem_cons, List.not_mem_nil, or_false] at hprev ⊢
  rcases hprev with rfl | rfl | rfl
  · exact h
  · exact Or.inr (Or.inl h)
  · exact Or.inr (Or.inr h)

/-- A step that updates a job records a state that lies forward. -/
def MovesForward (s : RunWorld) (a : RunAction) : Prop :=
  s.OnProcess a fun desiredkjob found => ∀ currentKjob ∈ found,
    Forward currentKjob.recorded (determineJobStateFrom currentKjob
      (firstPod s.cluster desiredkjob.ns currentKjob.name))

instance (s : RunWorld) (a : RunAction) : Decidable (MovesForward s a) := by
  unfold MovesForward
  infer_instance

/-! ## The lifecycle -/

/-- What the lifecycle allows to be written after an earlier state. -/
def Follows (later earlier : RunState) : Prop :=
  (earlier = .running → later = .running ∨ later = .completed ∨ later = .failed) ∧
  (earlier = .deleting → later = .deleting ∨ later = .deleted ∨ later = .failed)

instance (later earlier : RunState) : Decidable (Follows later earlier) := by
  unfold Follows
  infer_instance

/-- The documented lifecycle of the written states, the latest one first. -/
def Lifecycle (written : List RunState) : Prop := written.Pairwise Follows

instance (written : List RunState) : Decidable (Lifecycle written) := by
  unfold Lifecycle
  infer_instance

/-- The states recorded of the jobs of the run. -/
def RunWorld.recorded (run : Run) (s : RunWorld) : List JobState :=
  (s.cluster.listRunKJobs run.ns run.name).map KJob.recorded

/-- The condition on a write of the status.  After running has been written,
some job is running or failed, or none has still to start; after deleting has
been written, some job has failed, or each is being deleted, deleted or not
recorded yet. -/
def KeepsUp (run : Run) (s : RunWorld) (a : RunAction) : Prop :=
  match a with
  | .updateStatus _ =>
      (.running ∈ s.written →
        (.running ∈ s.recorded run ∨ .failed ∈ s.recorded run) ∨
          (.initializing ∉ s.recorded run ∧ .waiting ∉ s.recorded run)) ∧
      (.deleting ∈ s.written →
        .failed ∈ s.recorded run ∨
          (.running ∉ s.recorded run ∧ .initializing ∉ s.recorded run ∧
            .waiting ∉ s.recorded run ∧ .completed ∉ s.recorded run))
  | _ => True

instance (run : Run) (s : RunWorld) (a : RunAction) : Decidable (KeepsUp run s a) := by
  unfold KeepsUp
  split <;> infer_instance

/-! ## The aggregate of the recorded states -/

/-- With a job that has started to run, an aggregate that meets the condition
follows running. -/
theorem aggregate_of_ran {states : List JobState} (hran : ∃ state ∈ states, state ∈ ranStates)
    (hcond : (.running ∈ states ∨ .failed ∈ states) ∨
      (.initializing ∉ states ∧ .waiting ∉ states)) :
    RunState.ofJobState (aggregate states) = .running ∨
      RunState.ofJobState (aggregate states) = .completed ∨
      RunState.ofJobState (aggregate states) = .failed := by
  obtain ⟨state, hstate, hmem⟩ := hran
  have hle := stateOrder_le_aggregate hstate
  have horder : 4 ≤ stateOrder state := by
    simp only [ranStates, List.mem_cons, List.not_mem_nil, or_false] at hmem
    rcases hmem with rfl | rfl | rfl <;> decide
  have hbusy : ∀ other, (other = .running ∨ other = .failed) → other ∈ states →
      7 ≤ stateOrder (aggregate states) := by
    intro other hother hin
    have hle' := stateOrder_le_aggregate hin
    rcases hother with rfl | rfl
    · exact hle'
    · exact Nat.le_trans (by decide) hle'
  have hfrom := aggregate_recorded states
  cases haggregate : aggregate states with
  | running => exact Or.inl rfl
  | completed => exact Or.inr (Or.inl rfl)
  | failed => exact Or.inr (Or.inr rfl)
  | initializing | waiting =>
      rw [haggregate] at hfrom hbusy
      rcases hcond with (hrunning | hfailed) | ⟨hinit, hwait⟩
      · exact absurd (hbusy _ (Or.inl rfl) hrunning) (by decide)
      · exact absurd (hbusy _ (Or.inr rfl) hfailed) (by decide)
      · rcases hfrom with hunknown | hin
        · cases hunknown
        · first
          | exact absurd hin hinit
          | exact absurd hin hwait
  | stopping | deleting | deleted | unknown | undeclared =>
      rw [haggregate] at hle
      have hlow := Nat.le_trans horder hle
      simp [stateOrder] at hlow

/-- With a job that has started to be deleted, an aggregate that meets the
condition follows deleting.  A job that is recorded as stopping would
outrank a deleted one, but no such job is ever recorded. -/
theorem aggregate_of_gone {states : List JobState}
    (hgone : ∃ state ∈ states, state ∈ goneStates) (hstopping : .stopping ∉ states)
    (hcond : .failed ∈ states ∨ (.running ∉ states ∧ .initializing ∉ states ∧
      .waiting ∉ states ∧ .completed ∉ states)) :
    RunState.ofJobState (aggregate states) = .deleting ∨
      RunState.ofJobState (aggregate states) = .deleted ∨
      RunState.ofJobState (aggregate states) = .failed := by
  obtain ⟨state, hstate, hmem⟩ := hgone
  have hle := stateOrder_le_aggregate hstate
  have horder : 1 ≤ stateOrder state := by
    simp only [goneStates, List.mem_cons, List.not_mem_nil, or_false] at hmem
    rcases hmem with rfl | rfl | rfl <;> decide
  have hfrom := aggregate_recorded states
  have hfailed : .failed ∈ states → 8 ≤ stateOrder (aggregate states) :=
    fun hin => stateOrder_le_aggregate hin
  cases haggregate : aggregate states with
  | deleting => exact Or.inl rfl
  | deleted => exact Or.inr (Or.inl rfl)
  | failed => exact Or.inr (Or.inr rfl)
  | running | initializing | waiting | completed | stopping =>
      rw [haggregate] at hfrom hfailed
      rcases hfrom with hunknown | hin
      · cases hunknown
      · rcases hcond with hin' | ⟨hrunning, hinit, hwait, hcompleted⟩
        · exact absurd (hfailed hin') (by decide)
        · first
          | exact absurd hin hrunning
          | exact absurd hin hinit
          | exact absurd hin hwait
          | exact absurd hin hcompleted
          | exact absurd hin hstopping
  | unknown | undeclared =>
      rw [haggregate] at hle
      have hlow := Nat.le_trans horder hle
      simp [stateOrder] at hlow

/-! ## The invariant -/

/-- No job is recorded as stopping; once running has been written some job has
started to run, once deleting has been written some job has started to be
deleted; and the lifecycle has been kept so far. -/
structure Lived (lib : Externals) (run : Run) (s : RunWorld) : Prop
    extends Tracked lib run s where
  stopping : .stopping ∉ s.recorded run
  ran : .running ∈ s.written → ∃ state ∈ s.recorded run, state ∈ ranStates
  gone : .deleting ∈ s.written → ∃ state ∈ s.recorded run, state ∈ goneStates
  lifecycle : Lifecycle s.written

section Invariant

variable {lib : Externals} {run : Run} {s t : RunWorld}

/-- The classifier never says stopping: that case of its switch comes after
the one for active jobs. -/
theorem determineJobStateFrom_ne_stopping (kjob : KJob) (pod : Pod) :
    determineJobStateFrom kjob pod ≠ .stopping := by
  by_cases hheld : kjob.Held
  · rw [determineJobStateFrom_of_held pod hheld]
    decide
  · by_cases hactive : 0 < kjob.status.active
    · rw [determineJobStateFrom_of_active pod hheld hactive]
      repeat' split
      all_goals decide
    · have hidle : kjob.status.active = 0 := by omega
      rw [determineJobStateFrom_of_idle pod hheld hidle]
      repeat' split
      all_goals decide

/-- The recorded states after a replacement: each of them was there before,
or is that of the new job in the place of the old one. -/
theorem recorded_replaced (htracked : Tracked lib run s) {ns name : String}
    {old updated : KJob} (hget : s.cluster.getKJob ns name = some old)
    (hcluster : t.cluster = s.cluster.updateKJob updated)
    (hkey : kjobKey updated = kjobKey old) (hlabels : updated.labels = old.labels) :
    t.recorded run = (s.cluster.listRunKJobs run.ns run.name).map fun k =>
      if k = old then updated.recorded else k.recorded := by
  have hmem := (Cluster.mem_of_getKJob hget).1
  have hns : updated.ns = old.ns := (Prod.mk.inj hkey).1
  have hlisted : (s.cluster.updateKJob updated).listRunKJobs run.ns run.name =
      (s.cluster.listRunKJobs run.ns run.name).map fun k =>
        if kjobKey k = kjobKey updated then updated else k := by
    refine filter_updateKJob htracked.keys hmem hkey ?_
    simp only [hns, hlabels]
  rw [RunWorld.recorded, hcluster, hlisted, List.map_map]
  apply List.map_congr_left
  intro k hk
  have hkmem := (List.mem_filter.mp hk).1
  simp only [Function.comp_apply]
  by_cases hold : k = old
  · rw [if_pos (by rw [hold, hkey]), if_pos hold]
  · have hne : kjobKey k ≠ kjobKey updated := by
      intro hsame
      exact hold (htracked.keys.eq_of_key hkmem hmem (hsame.trans hkey))
    rw [if_neg hne, if_neg hold]

/-- A set of states that the new job does not leave is still met after a
replacement. -/
private theorem exists_replaced {listed : List KJob} {old updated : KJob}
    {states : List JobState} (hkeeps : old.recorded ∈ states → updated.recorded ∈ states)
    (h : ∃ state ∈ listed.map KJob.recorded, state ∈ states) :
    ∃ state ∈ listed.map (fun k => if k = old then updated.recorded else k.recorded),
      state ∈ states := by
  obtain ⟨state, hstate, hmem⟩ := h
  obtain ⟨k, hk, rfl⟩ := List.mem_map.mp hstate
  refine ⟨_, List.mem_map.mpr ⟨k, hk, rfl⟩, ?_⟩
  split
  · next hold =>
      rw [hold] at hmem
      exact hkeeps hmem
  · exact hmem

/-- A step that writes no status, and after which the jobs have still started
to run or to be deleted. -/
private theorem Lived.unwritten (hinv : Lived lib run s) (htracked : Tracked lib run t)
    (hwritten : t.written = s.written) (hstopping : .stopping ∉ t.recorded run)
    (hran : (∃ state ∈ s.recorded run, state ∈ ranStates) →
      ∃ state ∈ t.recorded run, state ∈ ranStates)
    (hgone : (∃ state ∈ s.recorded run, state ∈ goneStates) →
      ∃ state ∈ t.recorded run, state ∈ goneStates) : Lived lib run t := by
  refine
    { toTracked := htracked
      stopping := hstopping
      ran := ?_
      gone := ?_
      lifecycle := ?_ }
  · rw [hwritten]
    exact fun hrunning => hran (hinv.ran hrunning)
  · rw [hwritten]
    exact fun hdeleting => hgone (hinv.gone hdeleting)
  · rw [hwritten]
    exact hinv.lifecycle

/-- Replacing a job by one whose recorded state lies forward. -/
private theorem Lived.replaced (hinv : Lived lib run s) (htracked : Tracked lib run t)
    {ns name : String} {old updated : KJob} (hget : s.cluster.getKJob ns name = some old)
    (hcluster : t.cluster = s.cluster.updateKJob updated)
    (hkey : kjobKey updated = kjobKey old) (hlabels : updated.labels = old.labels)
    (hwritten : t.written = s.written)
    (hran : old.recorded ∈ ranStates → updated.recorded ∈ ranStates)
    (hgone : old.recorded ∈ goneStates → updated.recorded ∈ goneStates)
    (hstopping : updated.recorded = .stopping → old.recorded = .stopping) :
    Lived lib run t := by
  have hrecorded := recorded_replaced hinv.toTracked hget hcluster hkey hlabels
  apply hinv.unwritten htracked hwritten
  · intro hin
    rw [hrecorded] at hin
    obtain ⟨k, hk, hstate⟩ := List.mem_map.mp hin
    apply hinv.stopping
    refine List.mem_map.mpr ⟨k, hk, ?_⟩
    split at hstate
    · next hold =>
        rw [hold]
        exact hstopping hstate
    · exact hstate
  · rw [hrecorded]
    exact exists_replaced hran
  · rw [hrecorded]
    exact exists_replaced hgone

/-- Creating a job, which has nothing recorded yet. -/
private theorem Lived.created (hinv : Lived lib run s) (htracked : Tracked lib run t)
    {job : Job} {desiredkjob : KJob} (hdesired : Desired lib run job desiredkjob)
    (hcluster : t.cluster =
      s.cluster.createKJob { desiredkjob with owner := some ⟨.run, run.name⟩ })
    (hwritten : t.written = s.written) : Lived lib run t := by
  have hrecorded : ∃ new : List JobState, .stopping ∉ new ∧
      t.recorded run = s.recorded run ++ new := by
    have hempty : JobState.ofText "" = .undeclared "" := by decide
    by_cases hns : desiredkjob.ns = run.ns
    · refine ⟨[.undeclared ""], by simp, ?_⟩
      simp [RunWorld.recorded, Cluster.listRunKJobs, hcluster, Cluster.createKJob,
        List.filter_append, hns, hdesired.runName, KJob.recorded, hdesired.status, hempty]
    · refine ⟨[], by simp, ?_⟩
      simp [RunWorld.recorded, Cluster.listRunKJobs, hcluster, Cluster.createKJob,
        List.filter_append, hns]
  obtain ⟨new, hnew, hrecorded⟩ := hrecorded
  have hkept : ∀ {states : List JobState}, (∃ state ∈ s.recorded run, state ∈ states) →
      ∃ state ∈ t.recorded run, state ∈ states := by
    rintro states ⟨state, hstate, hmem⟩
    exact ⟨state, by simp [hrecorded, hstate], hmem⟩
  apply hinv.unwritten htracked hwritten
  · rw [hrecorded, List.mem_append, not_or]
    exact ⟨hinv.stopping, hnew⟩
  · exact hkept
  · exact hkept

/-- What the lifecycle asks of a written state is what the aggregate gives. -/
private theorem Lived.wrote (hinv : Lived lib run s) {now : Time}
    (hkeeps : KeepsUp run s (.updateStatus now)) :
    ∀ earlier ∈ s.written,
      Follows (RunState.ofJobState (aggregate (s.recorded run))) earlier := by
  intro earlier hearlier
  constructor
  · rintro rfl
    exact aggregate_of_ran (hinv.ran hearlier) (hkeeps.1 hearlier)
  · rintro rfl
    exact aggregate_of_gone (hinv.gone hearlier) hinv.stopping (hkeeps.2 hearlier)

/-- A written state is recorded of some job. -/
private theorem recorded_of_wrote {state : JobState} {states : List JobState}
    (hstate : RunState.ofJobState (aggregate states) = RunState.ofJobState state)
    (hknown : state = .running ∨ state = .deleting) : state ∈ states := by
  have haggregate : aggregate states = state := by
    rcases hknown with rfl | rfl
    · cases h : aggregate states <;> simp [RunState.ofJobState, h] at hstate ⊢
    · cases h : aggregate states <;> simp [RunState.ofJobState, h] at hstate ⊢
  rcases aggregate_recorded states with hunknown | hin
  · rw [haggregate] at hunknown
    rcases hknown with rfl | rfl <;> cases hunknown
  · rwa [haggregate] at hin

theorem Lived.init (h : (runMachine lib run).init s) : Lived lib run s := by
  have hnone : s.recorded run = [] := by
    rw [RunWorld.recorded, List.map_eq_nil_iff, Cluster.listRunKJobs, List.filter_eq_nil_iff]
    intro kjob hmem hlisted
    have hparts := of_decide_eq_true hlisted
    exact h.1.runName kjob hmem hparts.1 hparts.2
  refine
    { toTracked := Tracked.init h
      stopping := ?_
      ran := ?_
      gone := ?_
      lifecycle := ?_ }
  · rw [hnone]
    exact List.not_mem_nil
  · intro hrunning
    rw [h.2.2] at hrunning
    cases hrunning
  · intro hdeleting
    rw [h.2.2] at hdeleting
    cases hdeleting
  · rw [h.2.2]
    exact List.Pairwise.nil

/-- One step keeps the invariant. -/
theorem Lived.step (hinv : Lived lib run s) {a : RunAction} (hforward : MovesForward s a)
    (hkeeps : KeepsUp run s a) (hstep : s.step lib run a = some t) : Lived lib run t := by
  have htracked := hinv.toTracked.step hstep
  cases RunWorld.step_effect hinv.toTracked hstep with
  | quiet hkjobs hwritten =>
      have hrecorded : t.recorded run = s.recorded run := by
        simp only [RunWorld.recorded, Cluster.listRunKJobs, hkjobs]
      apply hinv.unwritten htracked hwritten
      · rw [hrecorded]
        exact hinv.stopping
      · rw [hrecorded]
        exact id
      · rw [hrecorded]
        exact id
  | created _ _ hdesired _ hcluster hwritten =>
      exact hinv.created htracked hdesired hcluster hwritten
  | @updated job desiredkjob currentKjob todo suspending hjob hphase hdesired hget hsuspending
      hcluster hwritten =>
      have hmoves : Forward currentKjob.recorded (determineJobStateFrom currentKjob
          (firstPod s.cluster desiredkjob.ns currentKjob.name)) := by
        simp only [MovesForward, RunWorld.OnProcess, hphase, hget] at hforward
        exact hforward currentKjob rfl
      apply hinv.replaced htracked hget hcluster (kjobKey_updatedKJob _ _ _ _)
        (labels_updatedKJob _ _ _ _) hwritten
      · rw [recorded_updatedKJob]
        exact hmoves.ran
      · rw [recorded_updatedKJob]
        exact hmoves.gone
      · rw [recorded_updatedKJob]
        intro hstopping
        exact absurd hstopping (determineJobStateFrom_ne_stopping _ _)
  | @reported _ _ kjob _ hget _ hcluster hwritten =>
      exact hinv.replaced htracked hget hcluster rfl rfl hwritten id id id
  | @marked _ _ kjob _ hget hcluster hwritten =>
      exact hinv.replaced htracked hget hcluster rfl rfl hwritten id id id
  | @wrote now hcluster hwritten =>
      have hrecorded : t.recorded run = s.recorded run := by
        simp only [RunWorld.recorded, hcluster]
      refine
        { toTracked := htracked
          stopping := ?_
          ran := ?_
          gone := ?_
          lifecycle := ?_ }
      · rw [hrecorded]
        exact hinv.stopping
      · intro hrunning
        rw [hrecorded]
        rw [hwritten] at hrunning
        rcases List.mem_cons.mp hrunning with hnow | hbefore
        · exact ⟨.running, recorded_of_wrote hnow.symm (Or.inl rfl), by decide⟩
        · exact hinv.ran hbefore
      · intro hdeleting
        rw [hrecorded]
        rw [hwritten] at hdeleting
        rcases List.mem_cons.mp hdeleting with hnow | hbefore
        · exact ⟨.deleting, recorded_of_wrote hnow.symm (Or.inr rfl), by decide⟩
        · exact hinv.gone hbefore
      · rw [hwritten]
        exact List.Pairwise.cons (hinv.wrote hkeeps) hinv.lifecycle

/-- The documented lifecycle: in every run of the machine whose jobs only move
forward and whose writes meet the condition, once running has been written
every later state is running, completed or failed, and once deleting has been
written every later one is deleting, deleted or failed. -/
theorem lifecycle_of_reach
    (h : (runMachine lib run).Reach (fun s a => MovesForward s a ∧ KeepsUp run s a) s) :
    Lifecycle s.written := by
  have hinv : Lived lib run s :=
    h.invariant (fun _ hinit => Lived.init hinit)
      fun _ _ _ hinv hok hstep => hinv.step hok.1 hok.2 hstep
  exact hinv.lifecycle

end Invariant

/-! ## A run that falls back -/

/-- Two jobs that do not wait for each other. -/
def parallelRun : Run where
  name := "nightly"
  ns := "team"
  spec := { jobs := [
    { name := "lint", ns := "team", image := "lint", trigger := "false" },
    { name := "test", ns := "team", image := "test", trigger := "false" }] }

/-- One reconcile of it. -/
def reconcileBoth : List RunAction := [.begin, .process, .process, .process, .updateStatus 0]

/-- The jobs are created and both get a pod; the pod of `lint` runs, the one of
`test` is pending. -/
def lintRuns : List RunAction :=
  reconcileBoth ++
    [ .report "team" (kjobNameOf Externals.plain parallelRun
        { name := "lint" }) { active := 1 }
    , .report "team" (kjobNameOf Externals.plain parallelRun
        { name := "test" }) { active := 1 }
    , .setPods
        [ { ns := "team", phase := .running,
            jobName := kjobNameOf Externals.plain parallelRun { name := "lint" } }
        , { ns := "team", phase := .pending,
            jobName := kjobNameOf Externals.plain parallelRun { name := "test" } } ] ] ++
    reconcileBoth

def lintRunsWorld : RunWorld :=
  ((runMachine Externals.plain parallelRun).exec
    (fun s a => MovesForward s a ∧ KeepsUp parallelRun s a) {} lintRuns).getD {}

theorem lifecycle_of_reach_parallel : Lifecycle lintRunsWorld.written := by
  have hinit : (runMachine Externals.plain parallelRun).init {} :=
    ⟨fresh_empty _ _, rfl, rfl⟩
  have hexec : (runMachine Externals.plain parallelRun).exec
      (fun s a => MovesForward s a ∧ KeepsUp parallelRun s a) {} lintRuns =
        some lintRunsWorld := by
    decide +kernel
  exact lifecycle_of_reach (Machine.reach_of_exec _ hinit hexec)

/-- Then `lint` succeeds while the pod of `test` is still pending. -/
def lintDone : List RunAction :=
  lintRuns ++
    [.report "team" (kjobNameOf Externals.plain parallelRun { name := "lint" })
      { succeeded := 1 }] ++
    reconcileBoth

def lintDoneWorld : RunWorld :=
  ((runMachine Externals.plain parallelRun).exec (fun s a => MovesForward s a) {}
    lintDone).getD {}

/-- The run falls back from running to initializing. -/
theorem parallel_falls_back :
    (runMachine Externals.plain parallelRun).Reach (fun s a => MovesForward s a)
      lintDoneWorld ∧
    lintDoneWorld.written.take 2 = [.initializing, .running] ∧
    ¬ Lifecycle lintDoneWorld.written := by
  have hinit : (runMachine Externals.plain parallelRun).init {} :=
    ⟨fresh_empty _ _, rfl, rfl⟩
  have hexec : (runMachine Externals.plain parallelRun).exec (fun s a => MovesForward s a) {}
      lintDone = some lintDoneWorld := by
    decide +kernel
  exact ⟨Machine.reach_of_exec _ hinit hexec, by decide +kernel, by decide +kernel⟩

end PipelineOperator.Controller
