import PipelineOperator.Controller.Progress

/-!
# A run drives itself

The reconciler of runs is called when a run or a kubernetes job of it has
changed, and never asks to be called again.  Pods are not watched, though the
states of the jobs are read off them.  This is enough for a run to come to its
end: as long as it has not, there are reconciles again and again, or the last of
them and what has come after it have changed nothing.  In that case each job has
been visited without a change, so that it is released if those before it are
recorded as completed; and a released job succeeds, which is a change.

## Main results

* `Unchanging.recorded`: a job that is visited without a change is completed once
  those before it are.
* `watched_run_completes`: in the end the run is completed.
-/

namespace PipelineOperator.Controller

open PipelineOperator.Lib
open PipelineOperator.Api
open PipelineOperator.Go
open Filter

/-- What the manager watches of a run: its status and its kubernetes jobs. -/
def WatchedChange (lib : Externals) (run : Run) (s t : RunWorld) : Prop :=
  t.status ≠ s.status ∨ ∃ job ∈ run.spec.jobs, t.kjobOf lib run job ≠ s.kjobOf lib run job

/-- A reconcile begins at the one step and writes the status at the other. -/
structure ReconciledBetween (a : Nat → RunAction) (start stop : Nat) : Prop where
  le : start ≤ stop
  begins : a start = .begin
  writes : ∃ now, a stop = .updateStatus now

/-- An endless run in which a first reconcile gets through, and one after each
change that is watched, and a job that is not suspended from some moment on
succeeds at some time. -/
structure WatchedRun (lib : Externals) (run : Run) (s : Nat → RunWorld) (a : Nat → RunAction) :
    Prop where
  trace : (runMachine lib run).Trace s a
  first : ∃ start stop, ReconciledBetween a start stop
  watched : ∀ i, WatchedChange lib run (s i) (s (i + 1)) →
    ∃ start stop, i < start ∧ ReconciledBetween a start stop
  succeeds : ∀ job ∈ run.spec.jobs,
    (∀ᶠ i in atTop, ∃ kjob ∈ (s i).kjobOf lib run job, kjob.suspend = false) →
    ∃ i, HasSucceeded lib run (s i).cluster job

section Watched

variable {lib : Externals} {run : Run} {s : Nat → RunWorld} {a : Nat → RunAction} {job : Job}

/-- From the moment on nothing that is watched changes. -/
structure Unchanging (lib : Externals) (run : Run) (s : Nat → RunWorld) (start : Nat) : Prop where
  kjobOf : ∀ i, start ≤ i → ∀ job ∈ run.spec.jobs,
    (s i).kjobOf lib run job = (s start).kjobOf lib run job
  status : ∀ i, start ≤ i → (s i).status = (s start).status

theorem unchanging_of_steps {start : Nat}
    (hsteps : ∀ i, start ≤ i → ¬ WatchedChange lib run (s i) (s (i + 1))) :
    Unchanging lib run s start where
  kjobOf := by
    intro i hi job hjob
    refine kept_from (P := fun i => (s i).kjobOf lib run job = (s start).kjobOf lib run job) rfl
      (fun k hk hsame => ?_) i hi
    by_contra hchange
    exact hsteps k hk (Or.inr ⟨job, hjob, fun hkept => hchange (hkept.trans hsame)⟩)
  status := by
    intro i hi
    refine kept_from (P := fun i => (s i).status = (s start).status) rfl
      (fun k hk hsame => ?_) i hi
    by_contra hchange
    exact hsteps k hk (Or.inl fun hkept => hchange (hkept.trans hsame))

/-- If reconciles do not get through again and again, one of them is followed by
no change. -/
theorem WatchedRun.settles (h : WatchedRun lib run s a)
    (hnot : ¬ ∃ᶠ i in atTop, ∃ now, a i = .updateStatus now) :
    ∃ start stop, ReconciledBetween a start stop ∧ Unchanging lib run s start := by
  by_contra hnone
  -- Otherwise reconciles begin later than any moment.
  have hlater : ∀ n, ∃ start stop, n ≤ start ∧ ReconciledBetween a start stop := by
    intro n
    induction n with
    | zero =>
        obtain ⟨start, stop, hreconciled⟩ := h.first
        exact ⟨start, stop, Nat.zero_le start, hreconciled⟩
    | succ n ih =>
        obtain ⟨start, stop, hn, hreconciled⟩ := ih
        have hchange : ∃ i, start ≤ i ∧ WatchedChange lib run (s i) (s (i + 1)) := by
          by_contra hsteps
          refine hnone ⟨start, stop, hreconciled, unchanging_of_steps fun i hi hchange => ?_⟩
          exact hsteps ⟨i, hi, hchange⟩
        obtain ⟨i, hi, hchange⟩ := hchange
        obtain ⟨start', stop', hlt, hreconciled'⟩ := h.watched i hchange
        exact ⟨start', stop', by omega, hreconciled'⟩
  apply hnot
  rw [frequently_atTop]
  intro n
  obtain ⟨start, stop, hn, hreconciled⟩ := hlater n
  exact ⟨stop, Nat.le_trans hn hreconciled.le, hreconciled.writes⟩

/-! ## A fixed point -/

section FixedPoint

variable {start stop : Nat}

/-- A visit that changes nothing has found the job as it leaves it. -/
theorem Unchanging.visited (hsame : Unchanging lib run s start)
    (htrace : (runMachine lib run).Trace s a) (hrun : WellFormed run)
    (hreconciled : ReconciledBetween a start stop) (hjob : job ∈ run.spec.jobs) :
    ∃ i, start ≤ i ∧ ∃ kjob pod suspending, (s start).kjobOf lib run job = some kjob ∧
      isSuspending (s i).cluster run.ns job.trigger job.runBefore = .ok suspending ∧
      updatedKJob kjob pod job.trigger suspending = kjob := by
  have hidle : (s start).phase = .idle := by
    have hstep := htrace.step start
    rw [hreconciled.begins] at hstep
    cases hphase : (s start).phase with
    | idle => rfl
    | ensuring _ | updating => simp [runMachine, RunWorld.step, hphase] at hstep
  obtain ⟨now, hwrites⟩ := hreconciled.writes
  obtain ⟨i, hi, hvisit⟩ := visited_before_write htrace hjob hidle hreconciled.le hwrites
  have hbefore := hsame.kjobOf i hi job hjob
  have hafter := hsame.kjobOf (i + 1) (Nat.le_succ_of_le hi) job hjob
  rcases visit_step (underway_of_trace htrace hrun i) hrun hjob hvisit (htrace.step i) with
    ⟨hmissing, hcreated⟩ | ⟨kjob, pod, suspending, hkjob, hsuspending, hupdated⟩
  · rw [hafter, ← hbefore, hmissing] at hcreated
    cases hcreated
  · rw [hafter, ← hbefore, hkjob] at hupdated
    exact ⟨i, hi, kjob, pod, suspending, hbefore.symm.trans hkjob, hsuspending,
      (Option.some.inj hupdated).symm⟩

/-- What is recorded at some moment is at any other. -/
theorem Unchanging.recorded_iff (hsame : Unchanging lib run s start) {i : Nat} (hi : start ≤ i)
    (hjob : job ∈ run.spec.jobs) :
    RecordedCompleted lib run (s i) job ↔ RecordedCompleted lib run (s start) job := by
  rw [RecordedCompleted, RecordedCompleted, hsame.kjobOf i hi job hjob]

theorem Unchanging.succeeded_iff (hsame : Unchanging lib run s start) {i : Nat} (hi : start ≤ i)
    (hjob : job ∈ run.spec.jobs) :
    HasSucceeded lib run (s i).cluster job ↔ HasSucceeded lib run (s start).cluster job := by
  have hkjobOf := hsame.kjobOf i hi job hjob
  rw [RunWorld.kjobOf, RunWorld.kjobOf] at hkjobOf
  rw [HasSucceeded, HasSucceeded, hkjobOf]

/-- A job that is visited without a change is completed once those before it
are. -/
theorem Unchanging.recorded (hsame : Unchanging lib run s start) (h : WatchedRun lib run s a)
    (hrun : WellFormed run) (hreconciled : ReconciledBetween a start stop)
    (hjob : job ∈ run.spec.jobs) (htrigger : job.trigger ≠ formatBool true)
    (hbefore : ∀ b ∈ run.spec.jobs, b.name ∈ job.runBefore →
      RecordedCompleted lib run (s start) b) :
    RecordedCompleted lib run (s start) job ∧ HasSucceeded lib run (s start).cluster job := by
  obtain ⟨i, hi, kjob, pod, suspending, hkjob, hsuspending, hfixed⟩ :=
    hsame.visited h.trace hrun hreconciled hjob
  have hrelease := isSuspending_of_completed (underway_of_trace h.trace hrun i) hrun hjob htrigger
    fun b hb hwaits => by
      obtain ⟨found, hfound, -, hcompleted⟩ :=
        (hsame.recorded_iff hi hb).mpr (hbefore b hb hwaits)
      exact ⟨found, hfound, hcompleted⟩
  cases hsuspending.symm.trans hrelease
  have hreleased : kjob.suspend = false := by rw [← hfixed]; rfl
  -- A released job that stays released succeeds.
  obtain ⟨moment, hmoment⟩ := h.succeeds job hjob <|
    eventually_atTop.mpr ⟨start, fun k hk =>
      ⟨kjob, (hsame.kjobOf k hk job hjob).trans hkjob, hreleased⟩⟩
  have hforGood : ∀ᶠ k in atTop, HasSucceeded lib run (s k).cluster job :=
    eventually_of_kept hmoment fun k hk =>
      succeeded_step (underway_of_trace h.trace hrun k) hrun hjob hk (h.trace.step k)
  obtain ⟨k, hk, hsucceeded⟩ := (hforGood.and (eventually_ge_atTop start)).exists
  have hhere := (hsame.succeeded_iff hsucceeded hjob).mp hk
  have hcounts : kjob.status.Succeeded := by
    obtain ⟨found, hfound, hcounts⟩ := hhere
    cases hfound.symm.trans hkjob
    exact hcounts
  have hown := ((underway_of_trace h.trace hrun start).createdFor hrun hjob hkjob).trigger
  refine ⟨⟨kjob, hkjob, hreleased, ?_⟩, hhere⟩
  rw [← hfixed]
  exact recorded_of_visit hreleased (by rw [hown]; exact htrigger) hcounts pod _ _

/-- Then the run is completed. -/
theorem Unchanging.completed (hsame : Unchanging lib run s start) (h : WatchedRun lib run s a)
    (hrun : WellFormed run) (hacyclic : Acyclic (RunsBefore run)) (hjobs : run.spec.jobs ≠ [])
    (htriggers : ∀ job ∈ run.spec.jobs, job.trigger ≠ formatBool true)
    (hreconciled : ReconciledBetween a start stop) :
    ∀ᶠ i in atTop, RunCompleted lib run (s i) := by
  have hall := all_completed hrun hacyclic fun job hjob hbefore => by
    have hhere : ∀ b ∈ run.spec.jobs, b.name ∈ job.runBefore →
        RecordedCompleted lib run (s start) b := by
      intro b hb hwaits
      obtain ⟨i, hi, hlate⟩ := ((hbefore b hb hwaits).and (eventually_ge_atTop start)).exists
      exact (hsame.recorded_iff hlate hb).mp hi
    have hcompleted := hsame.recorded h hrun hreconciled hjob (htriggers job hjob) hhere
    refine (eventually_ge_atTop start).mono fun i hi => ?_
    exact ⟨(hsame.recorded_iff hi hjob).mpr hcompleted.1,
      (hsame.succeeded_iff hi hjob).mpr hcompleted.2⟩
  obtain ⟨n, hn⟩ := eventually_atTop.mp hall
  have hrecorded : ∀ i, start ≤ i → ∀ job ∈ run.spec.jobs, RecordedCompleted lib run (s i) job := by
    intro i hi job hjob
    have hlate := (hn (n + start) (Nat.le_add_right n start) job hjob).1
    rw [hsame.recorded_iff (Nat.le_add_left start n) hjob] at hlate
    exact (hsame.recorded_iff hi hjob).mpr hlate
  -- The last status write has seen all jobs completed.
  obtain ⟨now, hwrites⟩ := hreconciled.writes
  have hstep := h.trace.step stop
  rw [hwrites] at hstep
  have hwritten := (phase_updateStatus hstep).2.2
  have hstatus : (s start).status.runState = .completed := by
    rw [← hsame.status (stop + 1) (Nat.le_succ_of_le hreconciled.le), hwritten]
    exact aggregate_of_recorded (underway_of_trace h.trace hrun stop) hrun hjobs
      (hrecorded stop hreconciled.le) now
  refine (hall.and (eventually_ge_atTop start)).mono fun i hi => ?_
  exact
    { jobs := hi.1
      status := by rw [hsame.status i hi.2, hstatus]
      ends := ends_of_recorded (underway_of_trace h.trace hrun i) hrun (hrecorded i hi.2) }

end FixedPoint

/-- A run whose reconciles are only called by changes comes to its end all the
same. -/
theorem watched_run_completes (hrun : WellFormed run) (hacyclic : Acyclic (RunsBefore run))
    (hjobs : run.spec.jobs ≠ [])
    (htriggers : ∀ job ∈ run.spec.jobs, job.trigger ≠ formatBool true)
    (h : WatchedRun lib run s a) : ∀ᶠ i in atTop, RunCompleted lib run (s i) := by
  by_cases hoften : ∃ᶠ i in atTop, ∃ now, a i = .updateStatus now
  · have hfair : FairRun lib run s a :=
      { trace := h.trace
        reconciled := hoften
        succeeds := h.succeeds }
    exact hfair.completes hrun hacyclic hjobs htriggers
  · obtain ⟨start, stop, hreconciled, hsame⟩ := h.settles hoften
    exact hsame.completed h hrun hacyclic hjobs htriggers hreconciled

end Watched

/-! ## Two jobs that come to rest -/

/-- After one more reconcile, which changes nothing, there is only news of pods. -/
def chainRestLasso : Lasso RunAction where
  stem := chainStem ++ reconcileActions 2 0
  first := .setPods []
  rest := []

def chainRest : Nat → RunWorld :=
  (runMachine Externals.plain (chainRun "false")).follow {} chainRestLasso.action

theorem chainRest_trace :
    (runMachine Externals.plain (chainRun "false")).Trace chainRest chainRestLasso.action := by
  have hinit : (runMachine Externals.plain (chainRun "false")).init {} :=
    ⟨fresh_empty _ _, rfl, rfl⟩
  obtain ⟨t, hround, -, -⟩ :=
    exec_reconcileActions chainKJobs_listed (s := chainEnd) (by decide +kernel) chainEnd_pass 0
  have hstem : (runMachine Externals.plain (chainRun "false")).exec (fun _ _ => True) {}
      chainRestLasso.stem = some t := by
    show (runMachine Externals.plain (chainRun "false")).exec (fun _ _ => True) {}
      (chainStem ++ reconcileActions 2 0) = some t
    rw [Machine.exec_append, chainEnd_exec]
    exact hround
  exact Lasso.trace (J := fun _ => True) hinit hstem trivial fun s _ => ⟨_, rfl, trivial⟩

theorem chainRest_end : chainRest 25 = chainEnd :=
  (Machine.follow_of_exec (i := 0) (a := chainRestLasso.action) (by decide +kernel)
    chainEnd_exec).1

/-- From then on there is the last reconcile, and news of pods. -/
theorem chainRest_action {i : Nat} (hi : 25 ≤ i) :
    chainRestLasso.action i ∈ [.begin, .process, .updateStatus 0, .setPods []] := by
  by_cases hlast : i < 30
  · have hall : ∀ i < 30, 25 ≤ i →
        chainRestLasso.action i ∈ [.begin, .process, .updateStatus 0, .setPods []] := by
      decide +kernel
    exact hall i hlast hi
  · have hmem : chainRestLasso.action i ∈ [RunAction.setPods []] :=
      chainRestLasso.action_mem (Nat.not_lt.mp hlast)
    rw [List.mem_singleton.mp hmem]
    decide

/-- Neither changes what is watched. -/
theorem chainRest_rests (i : Nat) (hi : 25 ≤ i) :
    (chainRest i).cluster = chainEnd.cluster ∧ (chainRest i).status = chainEnd.status := by
  refine kept_from (P := fun i => (chainRest i).cluster = chainEnd.cluster ∧
    (chainRest i).status = chainEnd.status) ?_ (fun k hk hsame => ?_) i hi
  · rw [chainRest_end]
    exact ⟨rfl, rfl⟩
  obtain ⟨hcluster, hstatus⟩ := hsame
  have hstep := chainRest_trace.step k
  have haction := chainRest_action hk
  constructor
  · have hsettled : SettledGates Externals.plain (chainRun "false") (chainRest k).cluster :=
      hcluster ▸ chainEnd_settled
    have hpods : (chainRest k).cluster.pods = [] := by
      rw [hcluster]
      decide +kernel
    have hs := underway_of_trace chainRest_trace (chainRun_wellFormed "false") k
    rw [← hpods] at haction
    rw [hsettled.step hs.toTracked (chainRun_wellFormed "false") haction hstep, hcluster]
  · have hwritten : chainEnd.nextStatus Externals.plain (chainRun "false") 0 = chainEnd.status := by
      decide +kernel
    rcases status_step hstep with hkept | ⟨now, hnow, hnext⟩
    · rw [hkept, hstatus]
    · have hzero : now = 0 := by
        rw [hnow] at haction
        simpa using haction
      rw [hnext, hzero, RunWorld.nextStatus, hcluster, hstatus]
      exact hwritten

theorem chainRest_watched :
    WatchedRun Externals.plain (chainRun "false") chainRest chainRestLasso.action where
  trace := chainRest_trace
  first := ⟨0, 4, by decide, by decide +kernel, 0, by decide +kernel⟩
  watched := by
    intro i hchange
    refine ⟨25, 29, ?_, by decide, by decide +kernel, 0, by decide +kernel⟩
    -- The last reconcile and what comes after it change nothing.
    by_contra hlt
    have hi : 25 ≤ i := Nat.not_lt.mp hlt
    obtain ⟨hcluster, hstatus⟩ := chainRest_rests i hi
    obtain ⟨hcluster', hstatus'⟩ := chainRest_rests (i + 1) (Nat.le_succ_of_le hi)
    rcases hchange with hchange | ⟨job, -, hkjob⟩
    · exact hchange (hstatus'.trans hstatus.symm)
    · rw [RunWorld.kjobOf, RunWorld.kjobOf, hcluster', hcluster] at hkjob
      exact hkjob rfl
  succeeds := by
    intro job hjob _
    refine ⟨25, ?_⟩
    rw [chainRest_end]
    exact chainEnd_succeeded job hjob

/-- That `build` is recorded wakes the reconcile that releases `deploy`. -/
theorem watched_run_completes_chain :
    (chainKJob (chainRest 12) (chainBuild "false")).recorded = .completed ∧
      (chainKJob (chainRest 12) (chainDeploy "false")).suspend = true ∧
      ∀ᶠ i in atTop, RunCompleted Externals.plain (chainRun "false") (chainRest i) :=
  ⟨by decide +kernel, by decide +kernel,
    watched_run_completes (chainRun_wellFormed "false") chainRun_acyclic (by decide) (by decide)
      chainRest_watched⟩

end PipelineOperator.Controller
