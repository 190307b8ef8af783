import PipelineOperator.Controller.Progress

/-!
# Runs whose jobs are listed in order

If every job of a run is listed after those it waits for, a pass creates or finds
those before it comes to the job itself.  So no lookup of a predecessor fails:
whatever has been broken off before, and whatever the cluster does during a pass,
no visit ends in an error, and a pass that is not broken off gets through.

## Main results

* `InTurn.visit`: the visit of the next job meets no error.
* `visits_meet_no_error`: in every reachable state, neither does the next visit
  nor a whole pass.
-/

namespace PipelineOperator.Controller

open PipelineOperator.Lib
open PipelineOperator.Api

/-- Every job is listed after those it waits for. -/
def ListedInOrder (run : Run) : Prop :=
  ∀ front job back, run.spec.jobs = front ++ job :: back →
    ∀ name ∈ job.runBefore, ∃ before ∈ front, before.name = name

/-- What a pass has still to do are the last jobs of the run, and the jobs
before them have their kubernetes jobs. -/
structure InTurn (lib : Externals) (run : Run) (s : RunWorld) (front rest : List Job)
    (todo : List KJob) : Prop where
  jobs : run.spec.jobs = front ++ rest
  desired : List.Forall₂ (Desired lib run) rest todo
  done : ∀ job ∈ front, (s.kjobOf lib run job).isSome

/-- The pass under way does its work in turn. -/
def PassInTurn (lib : Externals) (run : Run) (s : RunWorld) : Prop :=
  ∀ todo, s.phase = .ensuring todo → ∃ front rest, InTurn lib run s front rest todo

section InOrder

variable {lib : Externals} {run : Run} {s t : RunWorld} {job : Job} {front rest : List Job}
  {desiredkjob : KJob} {todo : List KJob}

/-! ## One visit -/

/-- The visit of a job whose predecessors have their kubernetes jobs. -/
theorem exists_ensureKJob (hs : Underway lib run s) (hrun : WellFormed run)
    (hjob : job ∈ run.spec.jobs) (hdesired : Desired lib run job desiredkjob)
    (hbefore : ∀ name ∈ job.runBefore, ∃ b ∈ run.spec.jobs, b.name = name ∧
      (s.kjobOf lib run b).isSome) : ∃ next, ensureKJob run s.cluster desiredkjob = .ok next := by
  have hns : desiredkjob.ns = run.ns := hdesired.ns.trans (hrun.ns_eq job hjob)
  unfold ensureKJob
  cases hget : s.cluster.getKJob desiredkjob.ns desiredkjob.name with
  | none =>
      simp only [setControllerReference, validateOwner, hns, ne_eq, not_true_eq_false, and_false,
        if_false, bind, Except.bind, pure, Except.pure]
      exact ⟨_, rfl⟩
  | some kjob =>
      obtain ⟨-, -, hself⟩ := hs.found hrun hjob hdesired hget
      have hlisted : ∀ name ∈ job.runBefore, s.cluster.listKJobs run.ns name ≠ [] := by
        intro name hname
        obtain ⟨b, hb, rfl, hsome⟩ := hbefore name hname
        obtain ⟨found, hfound⟩ := Option.isSome_iff_exists.mp hsome
        rw [hs.labelled.listKJobs_eq hb hfound]
        exact List.cons_ne_nil found []
      simp only [hself, hrun.ns_eq job hjob, isSuspending_eq_any hlisted, bind, Except.bind, pure,
        Except.pure]
      exact ⟨_, rfl⟩

/-- The visit of the next job in turn. -/
theorem InTurn.visit (h : InTurn lib run s front (job :: rest) (desiredkjob :: todo))
    (hs : Underway lib run s) (hrun : WellFormed run) (horder : ListedInOrder run) :
    ∃ next, ensureKJob run s.cluster desiredkjob = .ok next := by
  have hjob : job ∈ run.spec.jobs := by
    rw [h.jobs]
    exact List.mem_append_right front List.mem_cons_self
  refine exists_ensureKJob hs hrun hjob (List.forall₂_cons.mp h.desired).1 fun name hname => ?_
  obtain ⟨b, hb, hsame⟩ := horder front job rest h.jobs name hname
  refine ⟨b, ?_, hsame, h.done b hb⟩
  rw [h.jobs]
  exact List.mem_append_left _ hb

/-! ## Steps -/

/-- Kubernetes jobs stay. -/
theorem kjobOf_isSome_step (hs : Underway lib run s) (hrun : WellFormed run)
    (hjob : job ∈ run.spec.jobs) (hsome : (s.kjobOf lib run job).isSome) {a : RunAction}
    (hstep : s.step lib run a = some t) : (t.kjobOf lib run job).isSome := by
  obtain ⟨kjob, hkjob⟩ := Option.isSome_iff_exists.mp hsome
  obtain ⟨kjob', hkjob', -⟩ := job_step hs hrun hjob hkjob hstep
  rw [hkjob']
  rfl

/-- A step beside the pass leaves it in turn. -/
private theorem InTurn.keep (h : InTurn lib run s front rest todo) (hs : Underway lib run s)
    (hrun : WellFormed run) {a : RunAction} (hstep : s.step lib run a = some t) :
    InTurn lib run t front rest todo := by
  refine { h with done := fun job hjob => kjobOf_isSome_step hs hrun ?_ (h.done job hjob) hstep }
  rw [h.jobs]
  exact List.mem_append_left rest hjob

/-- A visit brings the pass on to the next job. -/
private theorem InTurn.next (h : InTurn lib run s front (job :: rest) (desiredkjob :: todo))
    (hs : Underway lib run s) (hrun : WellFormed run)
    (hphase : s.phase = .ensuring (desiredkjob :: todo)) {next : Cluster}
    (hok : ensureKJob run s.cluster desiredkjob = .ok next) :
    InTurn lib run { s with cluster := next, phase := .ensuring todo } (front ++ [job]) rest
      todo := by
  have hstep : s.step lib run .process =
      some { s with cluster := next, phase := .ensuring todo } := by
    simp only [RunWorld.step, hphase, hok]
  have hdesired := List.forall₂_cons.mp h.desired
  have hjob : job ∈ run.spec.jobs := by
    rw [h.jobs]
    exact List.mem_append_right front List.mem_cons_self
  refine
    { jobs := by rw [h.jobs, List.append_assoc, List.singleton_append]
      desired := hdesired.2
      done := ?_ }
  intro other hother
  rcases List.mem_append.mp hother with hfront | hlast
  · exact (h.keep hs hrun hstep).done other hfront
  · rw [List.mem_singleton.mp hlast]
    have hvisit : Visits lib run s .process job :=
      ⟨rfl, desiredkjob, todo, next, hphase, hdesired.1, hok⟩
    rcases visit_step hs hrun hjob hvisit hstep with ⟨-, hcreated⟩ | ⟨_, _, _, -, -, hupdated⟩
    · exact hcreated
    · rw [hupdated]
      rfl

/-- Every step keeps the pass in turn. -/
theorem PassInTurn.step (h : PassInTurn lib run s) (hs : Underway lib run s)
    (hrun : WellFormed run) {a : RunAction} (hstep : s.step lib run a = some t) :
    PassInTurn lib run t := by
  intro todo' htodo
  have hsame : s.phase = .ensuring todo' → ∃ front rest, InTurn lib run t front rest todo' := by
    intro hphase
    obtain ⟨front, rest, hturn⟩ := h todo' hphase
    exact ⟨front, rest, hturn.keep hs hrun hstep⟩
  cases a with
  | begin =>
      rw [RunWorld.step] at hstep
      split at hstep
      · next kjobList _ hlist =>
          cases hstep
          cases htodo
          exact ⟨[], _, rfl, constructKjobListFromRun_desired hlist, by simp⟩
      · cases hstep
  | process =>
      rw [RunWorld.step] at hstep
      split at hstep
      · cases hstep
        cases htodo
      · next desiredkjob todo hphase =>
          split at hstep
          · next next hok =>
              cases hstep
              cases htodo
              obtain ⟨front, rest, hturn⟩ := h _ hphase
              cases rest with
              | nil => cases hturn.desired
              | cons job rest => exact ⟨_, rest, hturn.next hs hrun hphase hok⟩
          · cases hstep
            cases htodo
      · cases hstep
  | abort =>
      cases hstep
      cases htodo
  | updateStatus now =>
      rw [RunWorld.step] at hstep
      split at hstep
      · cases hstep
        cases htodo
      · cases hstep
  | report ns name counts =>
      have hphase : t.phase = s.phase := by
        rw [RunWorld.step] at hstep
        split at hstep
        · cases hstep
        · split at hstep
          · cases hstep
            rfl
          · cases hstep
      exact hsame (hphase.symm.trans htodo)
  | markDeleted ns name date =>
      have hphase : t.phase = s.phase := by
        rw [RunWorld.step] at hstep
        split at hstep
        · cases hstep
        · cases hstep
          rfl
      exact hsame (hphase.symm.trans htodo)
  | setPods pods =>
      cases hstep
      exact hsame htodo

/-! ## Passes -/

/-- The rest of a pass without anything in between gets through. -/
theorem InTurn.pass (hrun : WellFormed run) (horder : ListedInOrder run)
    (h : InTurn lib run s front rest todo) (hs : Underway lib run s)
    (hphase : s.phase = .ensuring todo) :
    ∃ next, ensureKJobs run todo s.cluster = (next, .ok ()) := by
  induction todo generalizing s front rest with
  | nil => exact ⟨s.cluster, rfl⟩
  | cons desiredkjob todo ih =>
      cases rest with
      | nil => cases h.desired
      | cons job rest =>
          obtain ⟨mid, hok⟩ := h.visit hs hrun horder
          have hstep : s.step lib run .process =
              some { s with cluster := mid, phase := .ensuring todo } := by
            simp only [RunWorld.step, hphase, hok]
          obtain ⟨next, hrest⟩ := ih (h.next hs hrun hphase hok) (hs.step hrun hstep) rfl
          refine ⟨next, ?_⟩
          rw [ensureKJobs, hok]
          exact hrest

/-- A whole pass of a run that is on its way gets through. -/
theorem Underway.pass (hs : Underway lib run s) (hrun : WellFormed run)
    (horder : ListedInOrder run) {kjobList : List KJob}
    (hlist : constructKjobListFromRun lib run = .ok kjobList) :
    ∃ next, ensureKJobList lib run s.cluster = (next, .ok ()) := by
  -- A pass of its own begins when the one under way is broken off.
  have habort : s.step lib run .abort = some { s with phase := .idle } := rfl
  have hidle := hs.step hrun habort
  have hbegin : RunWorld.step lib run { s with phase := .idle } .begin =
      some { s with phase := .ensuring kjobList } := by
    simp only [RunWorld.step, hlist]
  have hstart : InTurn lib run { s with phase := .ensuring kjobList } [] run.spec.jobs
      kjobList := ⟨rfl, constructKjobListFromRun_desired hlist, by simp⟩
  obtain ⟨next, hpass⟩ := hstart.pass hrun horder (hidle.step hrun hbegin) rfl
  refine ⟨next, ?_⟩
  rw [ensureKJobList, hlist]
  exact hpass

/-- In every state that a run listed in order can reach, however passes have
been broken off, the visit that is next meets no error, and neither does a whole
pass without anything in between. -/
theorem visits_meet_no_error (hrun : WellFormed run) (horder : ListedInOrder run)
    {kjobList : List KJob} (hlist : constructKjobListFromRun lib run = .ok kjobList)
    (h : (runMachine lib run).Reachable s) :
    (∀ desiredkjob todo, s.phase = .ensuring (desiredkjob :: todo) →
      ∃ next, ensureKJob run s.cluster desiredkjob = .ok next) ∧
      ∃ next, ensureKJobList lib run s.cluster = (next, .ok ()) := by
  have hinv : Underway lib run s ∧ PassInTurn lib run s := by
    refine h.invariant (I := fun s => Underway lib run s ∧ PassInTurn lib run s) ?_ ?_
    · intro s hinit
      refine ⟨Underway.init hinit, fun todo hphase => ?_⟩
      rw [hinit.2.1] at hphase
      cases hphase
    · intro s a t hinv _ hstep
      exact ⟨hinv.1.step hrun hstep, hinv.2.step hinv.1 hrun hstep⟩
  obtain ⟨hs, hturn⟩ := hinv
  refine ⟨?_, hs.pass hrun horder hlist⟩
  intro desiredkjob todo hphase
  obtain ⟨front, rest, hnext⟩ := hturn _ hphase
  cases rest with
  | nil => cases hnext.desired
  | cons job rest => exact hnext.visit hs hrun horder

/-! ## No cycles -/

theorem selfJobOf_mem {name before : String} (hbefore : RunsBefore run name before) :
    selfJobOf run name ∈ run.spec.jobs ∧ (selfJobOf run name).name = name := by
  unfold RunsBefore selfJobOf at hbefore
  unfold selfJobOf
  cases hfind : run.spec.jobs.find? fun job => name = job.name with
  | none =>
      rw [hfind] at hbefore
      cases hbefore
  | some job =>
      have hname : name = job.name := by simpa using List.find?_some hfind
      exact ⟨List.mem_of_find?_eq_some hfind, hname.symm⟩

/-- A run that is listed in order has no cycles: what a job waits for has an
earlier place. -/
theorem ListedInOrder.acyclic (horder : ListedInOrder run) (hrun : WellFormed run) :
    Acyclic (RunsBefore run) := by
  apply acyclic_of_measure fun name => (jobNames run).idxOf name
  intro name before hbefore
  obtain ⟨hmem, hname⟩ := selfJobOf_mem hbefore
  obtain ⟨front, back, hjobs⟩ := List.append_of_mem hmem
  obtain ⟨earlier, hearlier, rfl⟩ := horder front _ back hjobs before hbefore
  have hnames : jobNames run = front.map Job.name ++ name :: back.map Job.name := by
    rw [jobNames, hjobs, List.map_append, List.map_cons, hname]
  have hin : earlier.name ∈ front.map Job.name := List.mem_map_of_mem hearlier
  have hnot : name ∉ front.map Job.name := by
    have hkeys : (jobNames run).Nodup := hrun.names
    rw [hnames] at hkeys
    intro hfront
    exact (List.nodup_append.mp hkeys).2.2 name hfront name List.mem_cons_self rfl
  show (jobNames run).idxOf earlier.name < (jobNames run).idxOf name
  rw [hnames, List.idxOf_append_of_mem hin, List.idxOf_append_of_notMem hnot]
  exact Nat.lt_of_lt_of_le (List.idxOf_lt_length_of_mem hin) (Nat.le_add_right _ _)

end InOrder

/-! ## The chain, listed in order -/

def orderedRun : Run :=
  { chainRun "false" with spec := { jobs := [chainBuild "false", chainDeploy "false"] } }

theorem orderedRun_wellFormed : WellFormed orderedRun where
  names := by simp [Keyed, orderedRun, chainDeploy, chainBuild]
  ns_eq := by simp [orderedRun, chainRun, chainDeploy, chainBuild]
  before_mem := by simp [orderedRun, chainDeploy, chainBuild]

theorem orderedRun_listedInOrder : ListedInOrder orderedRun := by
  intro front job back hjobs name hname
  rcases front with _ | ⟨first, _ | ⟨second, front⟩⟩
  · obtain ⟨rfl, -⟩ := List.cons.inj hjobs
    cases hname
  · obtain ⟨rfl, hrest⟩ := List.cons.inj hjobs
    obtain ⟨rfl, -⟩ := List.cons.inj hrest
    exact ⟨_, List.mem_cons_self, (List.mem_singleton.mp hname).symm⟩
  · have hlength := congrArg List.length hjobs
    simp [orderedRun] at hlength

/-- The first pass has been broken off after one job. -/
def orderedBrokenOff : RunWorld :=
  ((runMachine Externals.plain orderedRun).exec (fun _ _ => True)
    {} [.begin, .process, .abort]).getD {}

theorem visits_meet_no_error_ordered :
    ∃ next, ensureKJobList Externals.plain orderedRun orderedBrokenOff.cluster =
      (next, .ok ()) := by
  have hinit : (runMachine Externals.plain orderedRun).init {} := ⟨fresh_empty _ _, rfl, rfl⟩
  have hexec : (runMachine Externals.plain orderedRun).exec (fun _ _ => True)
      {} [.begin, .process, .abort] = some orderedBrokenOff := by decide +kernel
  have hsome : (constructKjobListFromRun Externals.plain orderedRun).isOk = true := by
    decide +kernel
  cases hlist : constructKjobListFromRun Externals.plain orderedRun with
  | ok kjobList =>
      exact (visits_meet_no_error orderedRun_wellFormed orderedRun_listedInOrder hlist
        (Machine.reach_of_exec _ hinit hexec)).2
  | error e =>
      rw [hlist] at hsome
      cases hsome

end PipelineOperator.Controller
