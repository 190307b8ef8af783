import PipelineOperator.Controller.Gating

/-!
# Settling: repeated passes and their fixed points

With the cluster's side held fixed, repeated passes over a run are repeated
sweeps of one rule.  The rule reads the own gate and the recorded states of
the jobs named in `RunBefore`, so along an acyclic graph the gates settle
level by level: a trigger is handed over in the first sweep, the suspend flag
of a job follows the states before it one sweep later, and its own state
follows its suspend flag one sweep after that.

## Main results

* `gate_settles`: two sweeps for every level of depth.
* `passes_settled`: `2 n` passes settle an acyclic run of `n` jobs.
* `contained_iff`: at a fixed point every job on a chain before an unsuspended one
  is done and is not suspended itself, as long as the labels find what they mean.
-/

namespace PipelineOperator.Controller

open PipelineOperator.Lib
open PipelineOperator.Api
open PipelineOperator.Go

/-- The job named `a` waits for the job named `b`. -/
def RunsBefore (run : Run) (a b : String) : Prop := b ∈ (selfJobOf run a).runBefore

/-! ## What the rule reads -/

section Rule

variable {run : Run} {around : Surroundings}

/-- The status that the rule asks for depends on the suspend flag and the
trigger of the job, and on no other gate. -/
theorem gateRule_status_congr {n : String} {g h : String → Gate}
    (hsuspend : (g n).suspend = (h n).suspend) (htrigger : (g n).trigger = (h n).trigger) :
    (gateRule run around n g).status = (gateRule run around n h).status := by
  have hheld : (setGate (around.side n).1 (g n)).Held ↔ (setGate (around.side n).1 (h n)).Held := by
    simp only [KJob.Held, setGate, hsuspend, htrigger]
  simp only [gateRule, determineJobStateFrom, hheld]
  rfl

/-- The suspend flag that the rule asks for depends on the trigger of the job
and on the recorded states before it. -/
theorem gateRule_suspend_congr {n : String} {g h : String → Gate}
    (htrigger : (g n).trigger = (h n).trigger)
    (hbefore : ∀ b, RunsBefore run n b → (g b).status = (h b).status) :
    (gateRule run around n g).suspend = (gateRule run around n h).suspend := by
  have hdone : ∀ b ∈ (selfJobOf run n).runBefore,
      ((around.read g b).Done ↔ (around.read h b).Done) := by
    intro b hb
    rw [Surroundings.read, Surroundings.read]
    cases around.foreign b with
    | none => simp only [Option.getD_none, Gate.Done, Gate.state, hbefore b hb]
    | some _ => exact Iff.rfl
  rw [Bool.eq_iff_iff]
  simp only [gateRule, List.any_eq_true, decide_eq_true_eq, htrigger]
  constructor
  · rintro ⟨b, hb, hheld⟩
    exact ⟨b, hb, by rwa [← hdone b hb]⟩
  · rintro ⟨b, hb, hheld⟩
    exact ⟨b, hb, by rwa [hdone b hb]⟩

/-- A job with nothing before it is released. -/
theorem gateRule_suspend_of_first {n : String} (hfirst : ∀ b, ¬ RunsBefore run n b)
    (g : String → Gate) : (gateRule run around n g).suspend = false := by
  have hnil : (selfJobOf run n).runBefore = [] :=
    List.eq_nil_iff_forall_not_mem.mpr hfirst
  simp [gateRule, hnil]

end Rule

/-! ## Repeated sweeps -/

section Settle

variable {run : Run} (around : Surroundings) (s : String → Gate)

/-- The gates after a number of sweeps. -/
private abbrev gatesAt (run : Run) (around : Surroundings) (s : String → Gate) (p : Nat) :
    String → Gate :=
  iterateSweep (gateRule run around) (jobNames run) s p

/-- The next gate of a job is its rule on a mixture of the gates before and
after the sweep. -/
private theorem gatesAt_succ (hrun : WellFormed run) {n : String} (hn : n ∈ jobNames run)
    (p : Nat) :
    ∃ mix : String → Gate, mix n = gatesAt run around s p n ∧
      (∀ k, mix k = gatesAt run around s p k ∨ mix k = gatesAt run around s (p + 1) k) ∧
      gatesAt run around s (p + 1) n = gateRule run around n mix :=
  iterate_sweep_apply hrun.jobNames_nodup s p hn

/-- From the first sweep on the reasons are those of the pods. -/
private theorem reason_settles (hrun : WellFormed run) {n : String} (hn : n ∈ jobNames run)
    (p : Nat) : (gatesAt run around s (p + 1) n).reason = (around.side n).2.reason := by
  obtain ⟨mix, -, -, hfinal⟩ := gatesAt_succ around s hrun hn p
  rw [hfinal]
  rfl

/-- The trigger after a sweep. -/
private theorem trigger_step (hrun : WellFormed run) {n : String} (hn : n ∈ jobNames run)
    (p : Nat) : (gatesAt run around s (p + 1) n).trigger =
      handOver (gatesAt run around s p n).trigger (selfJobOf run n).trigger := by
  obtain ⟨mix, hown, -, hfinal⟩ := gatesAt_succ around s hrun hn p
  rw [hfinal, ← hown]
  rfl

/-- From the first sweep on the triggers stay. -/
private theorem trigger_settles (hrun : WellFormed run) {n : String} (hn : n ∈ jobNames run)
    {p : Nat} (hp : 1 ≤ p) :
    (gatesAt run around s (p + 1) n).trigger = (gatesAt run around s p n).trigger := by
  obtain ⟨q, rfl⟩ : ∃ q, p = q + 1 := ⟨p - 1, by omega⟩
  rw [trigger_step around s hrun hn (q + 1), trigger_step around s hrun hn q, handOver_handOver]

/-- A suspend flag stays when the trigger and the states before the job have
stood still for two sweeps: the mixtures of both sweeps then agree. -/
private theorem suspend_stays (hrun : WellFormed run) {n : String} (hn : n ∈ jobNames run)
    {q : Nat} (htrigger : (gatesAt run around s (q + 1) n).trigger = (gatesAt run around s q n).trigger)
    (hfirst : ∀ b, RunsBefore run n b →
      (gatesAt run around s (q + 1) b).status = (gatesAt run around s q b).status)
    (hsecond : ∀ b, RunsBefore run n b →
      (gatesAt run around s (q + 2) b).status = (gatesAt run around s (q + 1) b).status) :
    (gatesAt run around s (q + 2) n).suspend = (gatesAt run around s (q + 1) n).suspend := by
  obtain ⟨mix, hown, hmix, hfinal⟩ := gatesAt_succ around s hrun hn q
  obtain ⟨mix', hown', hmix', hfinal'⟩ :=
    gatesAt_succ around s hrun hn (q + 1)
  rw [hfinal, hfinal']
  apply gateRule_suspend_congr
  · rw [hown, hown', htrigger]
  · intro b hb
    have hold : (mix b).status = (gatesAt run around s q b).status := by
      rcases hmix b with hb' | hb'
      · rw [hb']
      · rw [hb', hfirst b hb]
    have hnew : (mix' b).status = (gatesAt run around s (q + 1) b).status := by
      rcases hmix' b with hb' | hb'
      · rw [hb']
      · rw [hb', hsecond b hb]
    rw [hold, hnew, hfirst b hb]

/-- A recorded state stays when the suspend flag and the trigger have stood
still for one sweep. -/
private theorem status_stays (hrun : WellFormed run) {n : String} (hn : n ∈ jobNames run)
    {q : Nat} (htrigger : (gatesAt run around s (q + 1) n).trigger = (gatesAt run around s q n).trigger)
    (hsuspend : (gatesAt run around s (q + 1) n).suspend = (gatesAt run around s q n).suspend) :
    (gatesAt run around s (q + 2) n).status = (gatesAt run around s (q + 1) n).status := by
  obtain ⟨mix, hown, -, hfinal⟩ := gatesAt_succ around s hrun hn q
  obtain ⟨mix', hown', -, hfinal'⟩ := gatesAt_succ around s hrun hn (q + 1)
  rw [hfinal, hfinal']
  apply gateRule_status_congr
  · rw [hown, hown', hsuspend]
  · rw [hown, hown', htrigger]

/-- The rank of a job: how many jobs it waits for, directly or not. -/
private noncomputable abbrev depth (run : Run) (n : String) : Nat :=
  rank (jobNames run).toFinset (RunsBefore run) n

private theorem runsBefore_mem (hrun : WellFormed run) {n b : String} (hn : n ∈ jobNames run)
    (hb : RunsBefore run n b) : b ∈ jobNames run := by
  obtain ⟨job, hjob, rfl⟩ := List.mem_map.mp hn
  rw [RunsBefore, hrun.selfJobOf hjob] at hb
  obtain ⟨before, hbefore, rfl⟩ := hrun.before_mem job hjob b hb
  exact List.mem_map_of_mem hbefore

/-- Two sweeps for every level of depth: from sweep `2 d + 1` on the suspend
flag of a job of depth `d` stays, from sweep `2 d + 2` on its recorded state.
The induction is on the depth, for all later sweeps at once. -/
theorem gate_settles (hrun : WellFormed run) (hacyclic : Acyclic (RunsBefore run)) (d : Nat) :
    ∀ n ∈ jobNames run, depth run n = d →
      (∀ p, 2 * d + 1 ≤ p →
        (gatesAt run around s (p + 1) n).suspend = (gatesAt run around s p n).suspend) ∧
      (∀ p, 2 * d + 2 ≤ p →
        (gatesAt run around s (p + 1) n).status = (gatesAt run around s p n).status) := by
  induction d using Nat.strong_induction_on with
  | _ d ih =>
      intro n hn hdepth
      have hbelow : ∀ b, RunsBefore run n b → ∃ d', d' < d ∧ ∀ p, 2 * d' + 2 ≤ p →
          (gatesAt run around s (p + 1) b).status = (gatesAt run around s p b).status := by
        intro b hb
        have hmem := runsBefore_mem hrun hn hb
        have hlt := rank_lt_of_edge hacyclic (List.mem_toFinset.mpr hmem) hb
        rw [← hdepth]
        exact ⟨_, hlt, (ih _ (hdepth ▸ hlt) b hmem rfl).2⟩
      have hsuspend : ∀ p, 2 * d + 1 ≤ p →
          (gatesAt run around s (p + 1) n).suspend = (gatesAt run around s p n).suspend := by
        intro p hp
        obtain ⟨q, rfl⟩ : ∃ q, p = q + 1 := ⟨p - 1, by omega⟩
        by_cases hfirst : ∀ b, ¬ RunsBefore run n b
        · obtain ⟨mix, -, -, hfinal⟩ := gatesAt_succ around s hrun hn q
          obtain ⟨mix', -, -, hfinal'⟩ :=
            gatesAt_succ around s hrun hn (q + 1)
          rw [hfinal, hfinal', gateRule_suspend_of_first hfirst,
            gateRule_suspend_of_first hfirst]
        · -- A job before this one has a smaller depth, so this depth is not zero.
          simp only [not_forall, not_not] at hfirst
          obtain ⟨b, hb⟩ := hfirst
          obtain ⟨d', hd', -⟩ := hbelow b hb
          apply suspend_stays around s hrun hn
          · exact trigger_settles around s hrun hn (by omega)
          · intro b hb
            obtain ⟨d', hd', hstays⟩ := hbelow b hb
            exact hstays q (by omega)
          · intro b hb
            obtain ⟨d', hd', hstays⟩ := hbelow b hb
            exact hstays (q + 1) (by omega)
      refine ⟨hsuspend, ?_⟩
      intro p hp
      obtain ⟨q, rfl⟩ : ∃ q, p = q + 1 := ⟨p - 1, by omega⟩
      exact status_stays around s hrun hn (trigger_settles around s hrun hn (by omega))
        (hsuspend q (by omega))

/-- After `2 n` sweeps over `n` jobs every further sweep changes nothing. -/
theorem gates_settled (hrun : WellFormed run) (hacyclic : Acyclic (RunsBefore run))
    (hjobs : 1 ≤ run.spec.jobs.length) :
    sweep (gateRule run around) (jobNames run)
      (iterateSweep (gateRule run around) (jobNames run) s (2 * run.spec.jobs.length)) =
      iterateSweep (gateRule run around) (jobNames run) s (2 * run.spec.jobs.length) := by
  funext n
  by_cases hn : n ∈ jobNames run
  · have hcard : (jobNames run).toFinset.card = run.spec.jobs.length := by
      rw [List.toFinset_card_of_nodup hrun.jobNames_nodup, jobNames, List.length_map]
    have hlt : depth run n < (jobNames run).toFinset.card :=
      rank_lt_card hacyclic (List.mem_toFinset.mpr hn)
    rw [hcard] at hlt
    obtain ⟨hsuspend, hstatus⟩ := gate_settles around s hrun hacyclic _ n hn rfl
    have htrigger := trigger_settles around s hrun hn
      (show 1 ≤ 2 * run.spec.jobs.length by omega)
    obtain ⟨q, hq⟩ : ∃ q, 2 * run.spec.jobs.length = q + 1 :=
      ⟨2 * run.spec.jobs.length - 1, by omega⟩
    have hreason : (gatesAt run around s (2 * run.spec.jobs.length + 1) n).reason =
        (gatesAt run around s (2 * run.spec.jobs.length) n).reason := by
      rw [reason_settles around s hrun hn, hq, reason_settles around s hrun hn]
    have hsus := hsuspend (2 * run.spec.jobs.length) (by omega)
    have hsta := hstatus (2 * run.spec.jobs.length) (by omega)
    change gatesAt run around s (2 * run.spec.jobs.length + 1) n = _
    exact Gate.ext hsus htrigger hsta hreason
  · exact sweep_of_notMem _ _ hn

end Settle

/-! ## Repeated passes -/

section Passes

variable {lib : Externals} {run : Run} {c : Cluster}

/-- A pass over a deployed run whose rules ask for no change succeeds and
changes nothing, if its list of jobs can be constructed at all. -/
theorem ensureKJobList_eq_self (hrun : WellFormed run) (hdep : Deployed lib run c)
    {kjobList : List KJob} (hlist : constructKjobListFromRun lib run = .ok kjobList)
    (hfixed : ∀ n ∈ jobNames run,
      gateRule run (surroundingsOf lib run c) n (ownGates lib run c) = ownGates lib run c n) :
    ensureKJobList lib run c = (c, .ok ()) := by
  obtain ⟨next, hnext, -, -, -, hsame⟩ :=
    ensureKJobs_sweeps hrun hdep (fun _ hjob => hjob) (constructKjobListFromRun_desired hlist)
  have heq : next = c := hsame fun job hjob => hfixed job.name (List.mem_map_of_mem hjob)
  simp only [ensureKJobList, hlist, hnext, heq]

/-- Once a pass changes nothing, no later one does. -/
theorem passes_eq_self (h : ensureKJobList lib run c = (c, .ok ())) (m : Nat) :
    passes lib run m c = some c := by
  induction m with
  | zero => rfl
  | succ m ih =>
      rw [passes, ih, Option.bind_some]
      exact ensureKJobList?_eq_some.mpr h

/-- Gating converges: after `2 n` error-free passes over an acyclic run of
`n` jobs, in whatever order the spec lists them and whatever stood on their
kubernetes jobs before, every further pass changes nothing. -/
theorem passes_settled (hrun : WellFormed run) (hacyclic : Acyclic (RunsBefore run))
    (hjobs : 1 ≤ run.spec.jobs.length) (hdep : Deployed lib run c) {next : Cluster}
    (hpasses : passes lib run (2 * run.spec.jobs.length) c = some next) (m : Nat) :
    passes lib run m next = some next := by
  obtain ⟨hnextDep, haround, hgates⟩ := passes_sweep hrun hdep hpasses
  have hsettled := gates_settled (surroundingsOf lib run c) (ownGates lib run c) hrun hacyclic hjobs
  rw [← hgates, ← haround] at hsettled
  have hfixed := (sweep_eq_self_iff hrun.jobNames_nodup).mp hsettled
  obtain ⟨q, hq⟩ : ∃ q, 2 * run.spec.jobs.length = q + 1 :=
    ⟨2 * run.spec.jobs.length - 1, by omega⟩
  rw [hq, passes, Option.bind_eq_some_iff] at hpasses
  obtain ⟨_, -, hlast⟩ := hpasses
  obtain ⟨kjobList, hlist⟩ := exists_kjobList (ensureKJobList?_eq_some.mp hlast)
  exact passes_eq_self (ensureKJobList_eq_self hrun hnextDep hlist hfixed) m

end Passes

/-! The kubernetes jobs of the run of two jobs, as the first pass creates them
and after the earlier one has succeeded. -/

def chainCluster : Cluster := (ensureKJobList Externals.plain (chainRun "false") {}).1

theorem chainRun_acyclic : Acyclic (RunsBefore (chainRun "false")) := by
  apply acyclic_of_measure fun n => (selfJobOf (chainRun "false") n).runBefore.length
  intro a b hedge
  have hdeploy : a = "deploy" ∧ b = "build" := by
    unfold RunsBefore selfJobOf at hedge
    by_cases ha : a = "deploy"
    · simpa [chainRun, chainDeploy, ha] using hedge
    · by_cases ha' : a = "build"
      · simp [chainRun, chainDeploy, chainBuild, ha'] at hedge
      · simp [chainRun, chainDeploy, chainBuild, ha, ha'] at hedge
  rw [hdeploy.1, hdeploy.2]
  decide

theorem chainCluster_deployed : Deployed Externals.plain (chainRun "false") chainCluster where
  keys := by decide +kernel
  present := by decide +kernel

theorem passes_settled_chain :
    passes Externals.plain (chainRun "false") 3
      ((passes Externals.plain (chainRun "false") 4 chainCluster).getD {}) =
        some ((passes Externals.plain (chainRun "false") 4 chainCluster).getD {}) :=
  passes_settled (chainRun_wellFormed "false") chainRun_acyclic (by decide) chainCluster_deployed
    (by decide +kernel) 3

/-! ## Fixed points -/

/-- Failure containment: every job on a chain before a released one is recorded as
completed or deleted and is released itself.  So a job that is not recorded so
keeps every job behind it suspended. -/
def ContainsFailures (lib : Externals) (run : Run) (c : Cluster) : Prop :=
  ∀ a ∈ run.spec.jobs, ∀ b ∈ run.spec.jobs, Relation.TransGen (RunsBefore run) a.name b.name →
    ∀ kjob ∈ c.getKJob run.ns (kjobNameOf lib run a),
      ∀ before ∈ c.getKJob run.ns (kjobNameOf lib run b),
        (kjob.suspend = false →
          (before.recorded = .completed ∨ before.recorded = .deleted) ∧ before.suspend = false) ∧
        (before.recorded ≠ .completed → before.recorded ≠ .deleted → kjob.suspend = true)

/-- Where the first kubernetes jobs under the labels of all predecessors of a job
are done, so are the ones that the run has for them. -/
def LabelsSpeak (lib : Externals) (run : Run) (c : Cluster) : Prop :=
  ∀ a ∈ run.spec.jobs, ∀ kjob ∈ c.getKJob run.ns (kjobNameOf lib run a),
    kjob.annotations.trigger ≠ formatBool true →
      (∀ b ∈ a.runBefore, (gatesOf c run.ns b).Done) →
        ∀ b ∈ a.runBefore, (ownGates lib run c b).Done

instance (lib : Externals) (run : Run) (c : Cluster) : Decidable (LabelsSpeak lib run c) := by
  unfold LabelsSpeak
  infer_instance

section Fixed

variable {lib : Externals} {run : Run} {c : Cluster} {around : Surroundings} {g : String → Gate}

/-- A fixed point releases a job exactly when it is not triggered and what is read
for those before it is done; one with nothing before it is always released. -/
private theorem released_iff (hfixed : ∀ n ∈ jobNames run, gateRule run around n g = g n)
    {a : String} (ha : a ∈ jobNames run) :
    (g a).suspend = false ↔
      ∀ b, RunsBefore run a b → (g a).trigger ≠ formatBool true ∧ (around.read g b).Done := by
  have hrule : (gateRule run around a g).suspend = (g a).suspend := by rw [hfixed a ha]
  rw [← hrule]
  simp only [gateRule, List.any_eq_false, decide_eq_true_eq, not_or, not_not]
  exact Iff.rfl

/-- A job that is done at a fixed point is released: it is recorded as post-run, and
a suspended or triggered job would be recorded as waiting. -/
private theorem released_of_done (hfixed : ∀ n ∈ jobNames run, gateRule run around n g = g n)
    {b : String} (hb : b ∈ jobNames run) (hdone : (g b).Done) : (g b).suspend = false := by
  have hstatus : (gateRule run around b g).status = (g b).status := by rw [hfixed b hb]
  have hpost :
      (determineJobStateFrom (setGate (around.side b).1 (g b)) (around.side b).2).PostRun := by
    rw [← ofText_determineJobStateFrom]
    change (JobState.ofText (gateRule run around b g).status).PostRun
    rw [hstatus, JobState.postRun_iff]
    rcases hdone with hcompleted | hdeleted
    · exact Or.inl hcompleted
    · exact Or.inr (Or.inr hdeleted)
  have hheld := not_held_of_postRun _ hpost
  simp only [KJob.Held, not_or, setGate, Bool.not_eq_true] at hheld
  exact hheld.1

/-- Along a chain of any length. -/
private theorem released_chain (hrun : WellFormed run)
    (hfixed : ∀ n ∈ jobNames run, gateRule run around n g = g n)
    (hedges : ∀ a ∈ jobNames run, (g a).suspend = false → ∀ b, RunsBefore run a b → (g b).Done)
    {a b : String} (ha : a ∈ jobNames run) (hreleased : (g a).suspend = false)
    (hchain : Relation.TransGen (RunsBefore run) a b) :
    b ∈ jobNames run ∧ (g b).Done ∧ (g b).suspend = false := by
  induction hchain with
  | single hedge =>
      have hb := runsBefore_mem hrun ha hedge
      have hdone := hedges a ha hreleased _ hedge
      exact ⟨hb, hdone, released_of_done hfixed hb hdone⟩
  | tail _ hedge ih =>
      obtain ⟨hmid, -, hmidReleased⟩ := ih
      have hb := runsBefore_mem hrun hmid hedge
      have hdone := hedges _ hmid hmidReleased _ hedge
      exact ⟨hb, hdone, released_of_done hfixed hb hdone⟩

/-- The gate of a stored kubernetes job of the run. -/
theorem ownGates_of_getKJob {job : Job} {kjob : KJob}
    (hget : c.getKJob run.ns (kjobNameOf lib run job) = some kjob) :
    ownGates lib run c job.name = gateOf kjob := by
  have hown : ownKJob lib run c job.name = some kjob := hget
  rw [ownGates, hown, Option.map_some, Option.getD_some]

/-- What a fixed point contains, edge by edge. -/
private theorem contained_iff_edges (hrun : WellFormed run) (hdep : Deployed lib run c)
    (hfixed : ∀ n ∈ jobNames run,
      gateRule run (surroundingsOf lib run c) n (ownGates lib run c) = ownGates lib run c n) :
    ContainsFailures lib run c ↔ ∀ a ∈ jobNames run, (ownGates lib run c a).suspend = false →
      ∀ b, RunsBefore run a b → (ownGates lib run c b).Done := by
  constructor
  · intro hcontains n hn hreleased m hedge
    obtain ⟨a, ha, rfl⟩ := List.mem_map.mp hn
    obtain ⟨b, hb, rfl⟩ := List.mem_map.mp (runsBefore_mem hrun hn hedge)
    obtain ⟨kjob, -, -, hkjob, -⟩ := hdep.lookup ha
    obtain ⟨before, -, -, hbefore, -⟩ := hdep.lookup hb
    rw [ownGates_of_getKJob hkjob] at hreleased
    rw [ownGates_of_getKJob hbefore]
    exact ((hcontains a ha b hb (.single hedge) kjob hkjob before hbefore).1 hreleased).1
  · intro hedges a ha b hb hchain kjob hkjob before hbefore
    have hdone : kjob.suspend = false →
        (gateOf before).Done ∧ (gateOf before).suspend = false := by
      intro hreleased
      rw [← ownGates_of_getKJob hbefore]
      refine (released_chain hrun hfixed hedges (List.mem_map_of_mem ha) ?_ hchain).2
      rw [ownGates_of_getKJob hkjob]
      exact hreleased
    refine ⟨hdone, ?_⟩
    intro hcompleted hdeleted
    by_contra hreleased
    rcases (hdone (by simpa using hreleased)).1 with hstate | hstate
    · exact hcompleted hstate
    · exact hdeleted hstate

private theorem runsBefore_iff (hrun : WellFormed run) {a : Job} (ha : a ∈ run.spec.jobs)
    {b : String} : RunsBefore run a.name b ↔ b ∈ a.runBefore := by
  rw [RunsBefore, hrun.selfJobOf ha]

/-- Where a pass changes nothing, failures are contained exactly when the labels
speak for the kubernetes jobs of the run. -/
theorem contained_iff (hrun : WellFormed run) (hdep : Deployed lib run c)
    (hfix : ensureKJobList lib run c = (c, .ok ())) :
    ContainsFailures lib run c ↔ LabelsSpeak lib run c := by
  have hfixed := (ensureKJobList_fixed_iff hrun hdep hfix).mp rfl
  -- What is read for a predecessor is the first gate under its label.
  have hread : ∀ a ∈ run.spec.jobs, ∀ b ∈ a.runBefore,
      (surroundingsOf lib run c).read (ownGates lib run c) b = gatesOf c run.ns b := by
    intro a ha b hb
    obtain ⟨before, hbefore, rfl⟩ := hrun.before_mem a ha b hb
    exact hdep.read_eq hbefore
  rw [contained_iff_edges hrun hdep hfixed]
  constructor
  · intro hedges a ha kjob hkjob htrigger hdone b hb
    refine hedges a.name (List.mem_map_of_mem ha) ?_ b ((runsBefore_iff hrun ha).mpr hb)
    rw [released_iff hfixed (List.mem_map_of_mem ha)]
    intro name hedge
    have hname := (runsBefore_iff hrun ha).mp hedge
    rw [hread a ha name hname, ownGates_of_getKJob hkjob]
    exact ⟨htrigger, hdone name hname⟩
  · intro hspeak n hn hreleased b hedge
    obtain ⟨a, ha, rfl⟩ := List.mem_map.mp hn
    obtain ⟨kjob, -, -, hkjob, -⟩ := hdep.lookup ha
    have hreads := (released_iff hfixed hn).mp hreleased
    have htrigger := (hreads b hedge).1
    rw [ownGates_of_getKJob hkjob] at htrigger
    have hdone : ∀ name ∈ a.runBefore, (gatesOf c run.ns name).Done := by
      intro name hname
      rw [← hread a ha name hname]
      exact (hreads name ((runsBefore_iff hrun ha).mpr hname)).2
    exact hspeak a ha kjob hkjob htrigger hdone b ((runsBefore_iff hrun ha).mp hedge)

/-- They do where no other kubernetes job carries one of the labels. -/
theorem Labelled.labelsSpeak (hlab : Labelled lib run c) (hrun : WellFormed run)
    (hdep : Deployed lib run c) : LabelsSpeak lib run c := by
  intro a ha kjob _ _ hdone b hb
  obtain ⟨before, hbefore, rfl⟩ := hrun.before_mem a ha b hb
  obtain ⟨own, -, -, hown, -⟩ := hdep.lookup hbefore
  have hfirst := hdone before.name hb
  rw [gatesOf, hlab.listKJobs_eq hbefore hown] at hfirst
  rw [ownGates_of_getKJob hown]
  exact hfirst

end Fixed

/-- The store once the job `build` has succeeded and the passes have settled. -/
def chainFinished : Cluster :=
  (passes Externals.plain (chainRun "false") 4
    { chainCluster with
      kjobs := chainCluster.kjobs.map fun kjob =>
        if kjob.labels.runJobName = "build" then { kjob with status := { succeeded := 1 } }
        else kjob }).getD {}

def chainFinishedKJob (job : Job) : KJob :=
  (chainFinished.getKJob "team" (kjobNameOf Externals.plain (chainRun "false") job)).getD {}

theorem chainFinished_deployed : Deployed Externals.plain (chainRun "false") chainFinished where
  keys := by decide +kernel
  present := by decide +kernel

theorem contained_iff_chain :
    ContainsFailures Externals.plain (chainRun "false") chainFinished ∧
      (chainFinishedKJob (chainDeploy "false")).suspend = false :=
  ⟨(contained_iff (chainRun_wellFormed "false") chainFinished_deployed (by decide +kernel)).mpr
    (by decide +kernel), by decide +kernel⟩

/-! Another run of the namespace whose jobs have the same names: its `build`
succeeds, and the one of the run fails. -/

def otherChainRun : Run := { chainRun "false" with name := "weekly" }

/-- What the cluster reports of the two kubernetes jobs. -/
def chainReport (kjob : KJob) : KJob :=
  if kjob.labels.runJobName = "build" then
    { kjob with status := if kjob.labels.runName = "weekly" then { succeeded := 1 }
        else { failed := 1 } }
  else kjob

/-- Both runs have created their kubernetes jobs. -/
def sharedCluster : Cluster :=
  (ensureKJobList Externals.plain (chainRun "false")
    (ensureKJobList Externals.plain otherChainRun {}).1).1

/-- Then the cluster has reported, and the passes of both runs have settled. -/
def sharedSettled : Cluster :=
  (passes Externals.plain (chainRun "false") 4
    ((passes Externals.plain otherChainRun 4
      { sharedCluster with kjobs := sharedCluster.kjobs.map chainReport }).getD {})).getD {}

theorem sharedSettled_deployed :
    Deployed Externals.plain (chainRun "false") sharedSettled where
  keys := by decide +kernel
  present := by decide +kernel

theorem sharedSettled_fixed :
    ensureKJobList Externals.plain (chainRun "false") sharedSettled = (sharedSettled, .ok ()) := by
  have hlist : constructKjobListFromRun Externals.plain (chainRun "false") =
      .ok ((constructKjobListFromRun Externals.plain (chainRun "false")).toOption.getD []) := by
    decide +kernel
  exact ensureKJobList_eq_self (chainRun_wellFormed "false") sharedSettled_deployed hlist
    (by decide +kernel)

def sharedKJob (job : Job) : KJob :=
  (sharedSettled.getKJob "team" (kjobNameOf Externals.plain (chainRun "false") job)).getD {}

/-- `build` has failed, and `deploy` is released at a fixed point. -/
theorem shared_not_contained :
    WellFormed (chainRun "false") ∧ Deployed Externals.plain (chainRun "false") sharedSettled ∧
      ensureKJobList Externals.plain (chainRun "false") sharedSettled = (sharedSettled, .ok ()) ∧
      (sharedKJob (chainBuild "false")).recorded = .failed ∧
      (sharedKJob (chainDeploy "false")).suspend = false ∧
      ¬ ContainsFailures Externals.plain (chainRun "false") sharedSettled := by
  have hbuild : (sharedKJob (chainBuild "false")).recorded = .failed := by decide +kernel
  have hdeploy : (sharedKJob (chainDeploy "false")).suspend = false := by decide +kernel
  refine ⟨chainRun_wellFormed "false", sharedSettled_deployed, sharedSettled_fixed, hbuild, hdeploy,
    ?_⟩
  intro hcontains
  have hedge : RunsBefore (chainRun "false") "deploy" "build" := by
    unfold RunsBefore
    decide
  have hedges := hcontains (chainDeploy "false") (by decide) (chainBuild "false") (by decide)
    (.single hedge) (sharedKJob (chainDeploy "false")) (by decide +kernel)
    (sharedKJob (chainBuild "false")) (by decide +kernel)
  rcases (hedges.1 hdeploy).1 with hstate | hstate
  · rw [hbuild] at hstate
    cases hstate
  · rw [hbuild] at hstate
    cases hstate

end PipelineOperator.Controller
