import PipelineOperator.Controller.Progress

/-!
# Runs that a broken-off pass leaves stranded

The first pass over a run creates its kubernetes jobs one by one, without a look
at what they wait for.  If it breaks off between a job and a later one that the
job waits for first, no pass gets beyond the earlier job any more: it exists now,
so its predecessors are looked up, and the one that has not been created yet
ends the pass with an error, before its turn comes.  The run stays as it is,
whatever the cluster does and however often it is reconciled.

## Main results

* `stranded_for_good`: no reconcile gets through, creates the missing job or
  writes the status of the run again.
-/

namespace PipelineOperator.Controller

open PipelineOperator.Lib
open PipelineOperator.Api

/-- The kubernetes job of one job exists, and that of the job it waits for first
does not, although it is listed later. -/
structure Stranded (lib : Externals) (run : Run) (waiting missing : Job) (c : Cluster) :
    Prop where
  listed : ∃ front back, run.spec.jobs = front ++ waiting :: back ∧
    ∀ job ∈ front, job.name ≠ missing.name
  first : waiting.runBefore.head? = some missing.name
  present : ∃ kjob, c.getKJob run.ns (kjobNameOf lib run waiting) = some kjob
  absent : ∀ kjob ∈ c.kjobs, kjob.ns = run.ns → kjob.labels.runJobName ≠ missing.name

/-- The pass under way comes to the waiting job before the missing one. -/
def MeetsFirst (lib : Externals) (run : Run) (waiting missing : Job) : RunPhase → Prop
  | .idle => True
  | .updating => False
  | .ensuring todo => ∃ front desiredkjob back, todo = front ++ desiredkjob :: back ∧
      Desired lib run waiting desiredkjob ∧
      ∀ kjob ∈ front, kjob.labels.runJobName ≠ missing.name

section Step

variable {lib : Externals} {run : Run} {waiting missing : Job} {s t : RunWorld} {c : Cluster}

theorem Stranded.waiting_mem (hc : Stranded lib run waiting missing c) :
    waiting ∈ run.spec.jobs := by
  obtain ⟨front, back, hjobs, -⟩ := hc.listed
  rw [hjobs]
  exact List.mem_append_right front List.mem_cons_self

/-- The pass ends at the waiting job. -/
theorem Stranded.error (hs : Underway lib run s) (hrun : WellFormed run)
    (hc : Stranded lib run waiting missing s.cluster) {desiredkjob : KJob}
    (hdesired : Desired lib run waiting desiredkjob) :
    ∃ e, ensureKJob run s.cluster desiredkjob = .error e := by
  obtain ⟨kjob, hkjob⟩ := hc.present
  have hwaiting := hc.waiting_mem
  have hget : s.cluster.getKJob desiredkjob.ns desiredkjob.name = some kjob := by
    rw [hdesired.ns, hrun.ns_eq waiting hwaiting, hdesired.name]
    exact hkjob
  obtain ⟨-, -, hself⟩ := hs.found hrun hwaiting hdesired hget
  have hnone : s.cluster.listKJobs run.ns missing.name = [] := by
    refine List.filter_eq_nil_iff.mpr fun k hk hlabel => ?_
    obtain ⟨hns, hname⟩ := of_decide_eq_true hlabel
    exact hc.absent k hk hns hname
  obtain ⟨rest, hbefore⟩ := List.head?_eq_some_iff.mp hc.first
  have herror : ∃ e, isSuspending s.cluster run.ns kjob.annotations.trigger
      (missing.name :: rest) = .error e := by
    unfold isSuspending
    rw [hnone]
    exact ⟨_, rfl⟩
  obtain ⟨e, he⟩ := herror
  refine ⟨e, ?_⟩
  unfold ensureKJob
  simp only [hget, hself, hrun.ns_eq waiting hwaiting, hbefore, he, bind, Except.bind]

/-- A pass takes up the jobs in the order of the spec. -/
theorem Stranded.begin (hc : Stranded lib run waiting missing c) {kjobList : List KJob}
    (hlist : constructKjobListFromRun lib run = .ok kjobList) :
    MeetsFirst lib run waiting missing (.ensuring kjobList) := by
  obtain ⟨front, back, hjobs, hfront⟩ := hc.listed
  have hall := constructKjobListFromRun_desired hlist
  rw [hjobs] at hall
  clear hjobs hlist
  induction front generalizing kjobList with
  | nil =>
      cases hall with
      | cons hdesired _ => exact ⟨[], _, _, rfl, hdesired, by simp⟩
  | cons job front ih =>
      cases hall with
      | @cons _ first _ rest hfirst hrest =>
          obtain ⟨front', desiredkjob, back', rfl, hdesired, hnames⟩ :=
            ih (fun other hother => hfront other (List.mem_cons_of_mem job hother)) hrest
          refine ⟨first :: front', desiredkjob, back', rfl, hdesired, ?_⟩
          intro kjob hkjob
          rcases List.mem_cons.mp hkjob with rfl | hkjob
          · rw [hfirst.runJobName]
            exact hfront job List.mem_cons_self
          · exact hnames kjob hkjob

/-- The stored jobs and labels that a step leaves. -/
theorem Stranded.step (hs : Underway lib run s) (hrun : WellFormed run)
    (hphase : MeetsFirst lib run waiting missing s.phase)
    (hc : Stranded lib run waiting missing s.cluster) {a : RunAction}
    (hstep : s.step lib run a = some t) : Stranded lib run waiting missing t.cluster := by
  obtain ⟨kjob, hkjob⟩ := hc.present
  obtain ⟨kjob', hkjob', -⟩ := job_step hs hrun hc.waiting_mem hkjob hstep
  refine { hc with present := ⟨kjob', hkjob'⟩, absent := ?_ }
  have hreplaced : ∀ {old updated : KJob}, old ∈ s.cluster.kjobs →
      t.cluster = s.cluster.updateKJob updated → kjobKey updated = kjobKey old →
      updated.labels = old.labels →
      ∀ k ∈ t.cluster.kjobs, k.ns = run.ns → k.labels.runJobName ≠ missing.name := by
    intro old updated hold hcluster hkey hlabels k hk hns
    rw [hcluster] at hk
    obtain ⟨kept, hkept, rfl⟩ := List.mem_map.mp hk
    by_cases hsame : kjobKey kept = kjobKey updated
    · rw [if_pos hsame] at hns ⊢
      rw [hlabels]
      exact hc.absent old hold ((Prod.mk.inj hkey).1.symm.trans hns)
    · rw [if_neg hsame] at hns ⊢
      exact hc.absent kept hkept hns
  cases RunWorld.step_effect hs.toTracked hstep with
  | quiet hkjobs =>
      rw [hkjobs]
      exact hc.absent
  | wrote hcluster =>
      rw [hcluster]
      exact hc.absent
  | @created _ desiredHead _ _ htodo _ hmissing hcluster =>
      rw [htodo] at hphase
      obtain ⟨front, desiredkjob, back, hsplit, hwaiting, hfront⟩ := hphase
      intro k hk hns
      rw [hcluster] at hk
      rcases List.mem_append.mp hk with hk | hk
      · exact hc.absent k hk hns
      · rw [List.mem_singleton.mp hk]
        cases front with
        | nil =>
            -- The waiting job is there, so it is not created.
            obtain ⟨rfl, -⟩ := List.cons.inj hsplit
            rw [hwaiting.ns, hrun.ns_eq waiting hc.waiting_mem, hwaiting.name, hkjob] at hmissing
            cases hmissing
        | cons first front =>
            obtain ⟨hfirst, -⟩ := List.cons.inj hsplit
            show desiredHead.labels.runJobName ≠ missing.name
            rw [hfirst]
            exact hfront first List.mem_cons_self
  | updated _ _ _ hget _ hcluster =>
      exact hreplaced (Cluster.mem_of_getKJob hget).1 hcluster rfl rfl
  | reported hget _ hcluster => exact hreplaced (Cluster.mem_of_getKJob hget).1 hcluster rfl rfl
  | marked hget hcluster => exact hreplaced (Cluster.mem_of_getKJob hget).1 hcluster rfl rfl

/-- No pass gets beyond the waiting job, and nothing is written. -/
theorem MeetsFirst.step (hs : Underway lib run s) (hrun : WellFormed run)
    (hphase : MeetsFirst lib run waiting missing s.phase)
    (hc : Stranded lib run waiting missing s.cluster) {a : RunAction}
    (hstep : s.step lib run a = some t) :
    MeetsFirst lib run waiting missing t.phase ∧ t.status = s.status := by
  cases a with
  | begin =>
      rw [RunWorld.step] at hstep
      split at hstep
      · next kjobList _ hlist =>
          cases hstep
          exact ⟨hc.begin hlist, rfl⟩
      · cases hstep
  | process =>
      rw [RunWorld.step] at hstep
      split at hstep
      · next hempty =>
          rw [hempty] at hphase
          obtain ⟨front, desiredkjob, back, hsplit, -⟩ := hphase
          cases front <;> cases hsplit
      · next first todo htodo =>
          rw [htodo] at hphase
          obtain ⟨front, desiredkjob, back, hsplit, hwaiting, hfront⟩ := hphase
          cases front with
          | nil =>
              obtain ⟨rfl, -⟩ := List.cons.inj hsplit
              obtain ⟨e, he⟩ := hc.error hs hrun hwaiting
              rw [he] at hstep
              cases hstep
              exact ⟨trivial, rfl⟩
          | cons kjob front =>
              obtain ⟨rfl, rfl⟩ := List.cons.inj hsplit
              split at hstep
              · cases hstep
                refine ⟨⟨front, desiredkjob, back, rfl, hwaiting, ?_⟩, rfl⟩
                exact fun k hk => hfront k (List.mem_cons_of_mem _ hk)
              · cases hstep
                exact ⟨trivial, rfl⟩
      · cases hstep
  | abort =>
      cases hstep
      exact ⟨trivial, rfl⟩
  | updateStatus now =>
      rw [RunWorld.step] at hstep
      split at hstep
      · next hupdating =>
          rw [hupdating] at hphase
          exact absurd hphase id
      · cases hstep
  | report ns name counts =>
      rw [RunWorld.step] at hstep
      split at hstep
      · cases hstep
      · split at hstep
        · cases hstep
          exact ⟨hphase, rfl⟩
        · cases hstep
  | markDeleted ns name date =>
      rw [RunWorld.step] at hstep
      split at hstep
      · cases hstep
      · cases hstep
        exact ⟨hphase, rfl⟩
  | setPods pods =>
      cases hstep
      exact ⟨hphase, rfl⟩

end Step

/-- Once stranded, always stranded: whatever is done to a run from there, it
has no kubernetes job for the missing job, no pass gets through, and its status
is never written again. -/
theorem stranded_for_good {lib : Externals} {run : Run} (hrun : WellFormed run)
    {waiting missing : Job} {s t : RunWorld} (hs : (runMachine lib run).Reachable s)
    (hidle : s.phase = .idle) (hstranded : Stranded lib run waiting missing s.cluster)
    {as : List RunAction} (hexec : (runMachine lib run).exec (fun _ _ => True) s as = some t) :
    Stranded lib run waiting missing t.cluster ∧ t.phase ≠ .updating ∧ t.status = s.status := by
  have hunder : Underway lib run s :=
    hs.invariant (fun _ => Underway.init) fun _ _ _ hu _ hstep => hu.step hrun hstep
  have hphase : MeetsFirst lib run waiting missing s.phase := by
    rw [hidle]
    trivial
  clear hs hidle
  induction as generalizing s with
  | nil =>
      cases hexec
      refine ⟨hstranded, ?_, rfl⟩
      intro hupdating
      rw [hupdating] at hphase
      exact hphase
  | cons a as ih =>
      rw [Machine.exec, if_pos trivial] at hexec
      obtain ⟨u, hstep, hrest⟩ := Option.bind_eq_some_iff.mp hexec
      obtain ⟨hphase', hstatus⟩ := hphase.step hunder hrun hstranded hstep
      obtain ⟨hend, hnot, hlast⟩ := ih (hstranded.step hunder hrun hphase hstep) hrest
        (hunder.step hrun hstep) hphase'
      exact ⟨hend, hnot, hlast.trans hstatus⟩

/-- The first pass over the chain is broken off after one job. -/
def brokenOffWorld : RunWorld :=
  ((runMachine Externals.plain (chainRun "false")).exec (fun _ _ => True)
    {} [.begin, .process, .abort]).getD {}

/-- The next pass fails, and so does the one behind it. -/
def failedPasses : List RunAction := [.begin, .process, .begin, .process]

theorem brokenOff_stranded :
    Stranded Externals.plain (chainRun "false") (chainDeploy "false") (chainBuild "false")
      brokenOffWorld.cluster where
  listed := ⟨[], [chainBuild "false"], rfl, by simp⟩
  first := rfl
  present := by
    refine Option.isSome_iff_exists.mp ?_
    decide +kernel
  absent := by decide +kernel

theorem stranded_for_good_chain :
    ∃ t, (runMachine Externals.plain (chainRun "false")).exec (fun _ _ => True)
        brokenOffWorld failedPasses = some t ∧
      t.phase ≠ .updating ∧ t.status = brokenOffWorld.status := by
  have hinit : (runMachine Externals.plain (chainRun "false")).init {} :=
    ⟨fresh_empty _ _, rfl, rfl⟩
  have hexec : (runMachine Externals.plain (chainRun "false")).exec (fun _ _ => True)
      {} [.begin, .process, .abort] = some brokenOffWorld := by decide +kernel
  have hsome : ((runMachine Externals.plain (chainRun "false")).exec (fun _ _ => True)
      brokenOffWorld failedPasses).isSome := by decide +kernel
  obtain ⟨t, ht⟩ := Option.isSome_iff_exists.mp hsome
  have hlast := stranded_for_good (chainRun_wellFormed "false")
    (Machine.reach_of_exec _ hinit hexec) (by decide +kernel) brokenOff_stranded ht
  exact ⟨t, ht, hlast.2⟩

end PipelineOperator.Controller
