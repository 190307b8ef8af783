import PipelineOperator.Controller.KJobList
import PipelineOperator.Lib.Keyed
import PipelineOperator.Lib.Rank
import PipelineOperator.Lib.Sweep

/-!
# Gating: what a pass does to the jobs of a run

A pass of `ensureKJobList` rewrites four things on each existing job of the
run: the suspend flag and the trigger, status and reason annotations.  This
file calls them the *gate* of the job.  Seen from the gates alone a pass is a
sweep: it visits the jobs in the order of the spec, and replaces each gate by
a rule applied to all gates as they are at that moment.  Everything else (the
counters, the deletion marks, the pods) is the cluster's side and is read only.

A predecessor is looked up by its name as a label, in the whole namespace.  So
the gate that is read for it may be that of a kubernetes job of another run,
which the pass does not change either.

## Main results

* `ensureKJob_visits`: one step is one visit.
* `ensureKJobList_sweeps`: an error-free pass is one sweep.
* `ensureKJobList_fixed_iff`: a pass changes nothing exactly when no rule asks
  for a change.
* `passes_sweep`: passes one after another are repeated sweeps.
-/

namespace PipelineOperator.Controller

open PipelineOperator.Lib
open PipelineOperator.Api
open PipelineOperator.Go

/-! ## Runs and stores in good order -/

/-- What `newRunJobFromPipeline` gives the jobs of a run, and what gating
relies on: different names, the namespace of the run, and predecessors that
are jobs of the run. -/
structure WellFormed (run : Run) : Prop where
  names : Keyed Job.name run.spec.jobs
  ns_eq : ∀ job ∈ run.spec.jobs, job.ns = run.ns
  before_mem : ∀ job ∈ run.spec.jobs, ∀ b ∈ job.runBefore,
    ∃ before ∈ run.spec.jobs, before.name = b

/-- The kubernetes jobs are stored under different keys, and those of the
namespace of the run that carry the label of one of its jobs are exactly those
that have its name. -/
structure Labelled (lib : Externals) (run : Run) (c : Cluster) : Prop where
  keys : Keyed kjobKey c.kjobs
  label_iff : ∀ kjob ∈ c.kjobs, ∀ job ∈ run.spec.jobs, kjob.ns = run.ns →
    (kjob.labels.runJobName = job.name ↔ kjob.name = kjobNameOf lib run job)

/-- The kubernetes jobs are stored under different keys, and every job of the
run has its own one among them, under its label.  There may be others under this
label. -/
structure Deployed (lib : Externals) (run : Run) (c : Cluster) : Prop where
  keys : Keyed kjobKey c.kjobs
  present : ∀ job ∈ run.spec.jobs, ∃ kjob ∈ c.kjobs,
    kjob.ns = run.ns ∧ kjob.name = kjobNameOf lib run job ∧ kjob.labels.runJobName = job.name

theorem WellFormed.selfJobOf {run : Run} (hrun : WellFormed run) {job : Job}
    (hjob : job ∈ run.spec.jobs) : selfJobOf run job.name = job := by
  have hfind : run.spec.jobs.find? (fun other => job.name = other.name) = some job := by
    apply hrun.names.find?_eq hjob
    · simp
    · intro other _ hname
      exact (of_decide_eq_true hname).symm
  rw [Controller.selfJobOf, hfind, Option.getD_some]

/-! ## Gates -/

/-- The part of a kubernetes job that a pass rewrites. -/
@[ext] structure Gate where
  suspend : Bool := false
  trigger : String := ""
  status : String := ""
  reason : String := ""
  deriving Repr, DecidableEq

/-- The gate of a job. -/
def gateOf (kjob : KJob) : Gate where
  suspend := kjob.suspend
  trigger := kjob.annotations.trigger
  status := kjob.annotations.status
  reason := kjob.annotations.reason

/-- The job with another gate. -/
def setGate (kjob : KJob) (g : Gate) : KJob :=
  { kjob with
    suspend := g.suspend
    annotations := { kjob.annotations with
      trigger := g.trigger, status := g.status, reason := g.reason } }

@[simp] theorem gateOf_setGate (kjob : KJob) (g : Gate) : gateOf (setGate kjob g) = g := rfl

@[simp] theorem setGate_setGate (kjob : KJob) (g h : Gate) :
    setGate (setGate kjob g) h = setGate kjob h := rfl

@[simp] theorem setGate_gateOf (kjob : KJob) : setGate kjob (gateOf kjob) = kjob := rfl

@[simp] theorem kjobKey_setGate (kjob : KJob) (g : Gate) :
    kjobKey (setGate kjob g) = kjobKey kjob := rfl

@[simp] theorem labels_setGate (kjob : KJob) (g : Gate) :
    (setGate kjob g).labels = kjob.labels := rfl

/-- The state recorded on a gate. -/
def Gate.state (g : Gate) : JobState := JobState.ofText g.status

/-- The gate releases the jobs behind it: completed or deleted, that is
post-run and not failed. -/
def Gate.Done (g : Gate) : Prop := g.state = .completed ∨ g.state = .deleted

instance (g : Gate) : Decidable g.Done := by
  unfold Gate.Done
  infer_instance

theorem Gate.not_done_iff {g : Gate} :
    ¬ g.Done ↔ g.state = .failed ∨ ¬ g.state.PostRun := by
  rw [JobState.postRun_iff]
  unfold Gate.Done
  cases g.state <;> simp

/-- The gate of the first kubernetes job under a label; the empty gate where there
is none. -/
def gatesOf (c : Cluster) (ns n : String) : Gate :=
  match c.listKJobs ns n with
  | [] => {}
  | kjob :: _ => gateOf kjob

/-- The kubernetes job that the run has for a job name. -/
def ownKJob (lib : Externals) (run : Run) (c : Cluster) (n : String) : Option KJob :=
  c.getKJob run.ns (kjobNameOf lib run { name := n })

/-- Its gate; the empty gate where there is none. -/
def ownGates (lib : Externals) (run : Run) (c : Cluster) (n : String) : Gate :=
  ((ownKJob lib run c n).map gateOf).getD {}

/-- What passes of a run leave alone: for a job name the cluster's side, which is
the job without its gate and its first pod, and the gate of another kubernetes
job if such a one comes first under the label. -/
structure Surroundings where
  side : String → KJob × Pod
  foreign : String → Option Gate

def surroundingsOf (lib : Externals) (run : Run) (c : Cluster) : Surroundings where
  side := fun n =>
    match ownKJob lib run c n with
    | none => ({}, {})
    | some kjob => (setGate kjob {}, firstPod c run.ns kjob.name)
  foreign := fun n =>
    match c.listKJobs run.ns n with
    | [] => none
    | kjob :: _ =>
        if kjob.name = kjobNameOf lib run { name := n } then none else some (gateOf kjob)

/-- The gate that is read for a predecessor. -/
def Surroundings.read (around : Surroundings) (g : String → Gate) (b : String) : Gate :=
  (around.foreign b).getD (g b)

/-! ## The rule -/

/-- What a pass makes of the gate of job `n`, given the gates of the run and what
it leaves alone. -/
def gateRule (run : Run) (around : Surroundings) (n : String) (g : String → Gate) : Gate where
  suspend := (selfJobOf run n).runBefore.any fun b =>
    (g n).trigger = formatBool true ∨ ¬ (around.read g b).Done
  trigger := handOver (g n).trigger (selfJobOf run n).trigger
  status := (determineJobStateFrom (setGate (around.side n).1 (g n)) (around.side n).2).text
  reason := (around.side n).2.reason

/-- The jobs of a run in the order of its spec. -/
def jobNames (run : Run) : List String := run.spec.jobs.map Job.name

/-! ## A step is a visit -/

section Step

variable {lib : Externals} {run : Run} {c : Cluster}

/-- A stored job is found under its key. -/
theorem getKJob_of_mem (hkeys : Keyed kjobKey c.kjobs) {kjob : KJob} (hmem : kjob ∈ c.kjobs) :
    c.getKJob kjob.ns kjob.name = some kjob := by
  apply hkeys.find?_eq hmem
  · simp
  · intro other _ hother
    have hparts := of_decide_eq_true hother
    rw [kjobKey, kjobKey, hparts.1, hparts.2]

theorem Labelled.getKJob_eq (hlab : Labelled lib run c) {kjob : KJob} (hmem : kjob ∈ c.kjobs) :
    c.getKJob kjob.ns kjob.name = some kjob := getKJob_of_mem hlab.keys hmem

/-- The kubernetes job of a job is the only one its label finds. -/
theorem Labelled.listKJobs_eq (hlab : Labelled lib run c) {job : Job}
    (hjob : job ∈ run.spec.jobs) {kjob : KJob}
    (hget : c.getKJob run.ns (kjobNameOf lib run job) = some kjob) :
    c.listKJobs run.ns job.name = [kjob] := by
  obtain ⟨hmem, hns, hname⟩ := Cluster.mem_of_getKJob hget
  have hlabel := (hlab.label_iff kjob hmem job hjob hns).mpr hname
  apply hlab.keys.filter_eq_singleton hmem
  · simp [hns, hlabel]
  · intro other hmem' hother
    have hparts := of_decide_eq_true hother
    have hname' := (hlab.label_iff other hmem' job hjob hparts.1).mp hparts.2
    rw [kjobKey, kjobKey, hparts.1, hname', hns, hname]

/-- What the label of a job finds is its kubernetes job. -/
theorem Labelled.getKJob_of_listed (hlab : Labelled lib run c) {job : Job}
    (hjob : job ∈ run.spec.jobs) {kjob : KJob} (hlisted : kjob ∈ c.listKJobs run.ns job.name) :
    c.getKJob run.ns (kjobNameOf lib run job) = some kjob := by
  obtain ⟨hmem, htest⟩ := List.mem_filter.mp hlisted
  have hparts := of_decide_eq_true htest
  have hname := (hlab.label_iff kjob hmem job hjob hparts.1).mp hparts.2
  rw [← hname, ← hparts.1]
  exact hlab.getKJob_eq hmem

/-- The kubernetes job of a job of a deployed run is found under its key, and
listed under its label. -/
theorem Deployed.lookup (hdep : Deployed lib run c) {job : Job}
    (hjob : job ∈ run.spec.jobs) :
    ∃ kjob ∈ c.kjobs, kjob.labels.runJobName = job.name ∧
      ownKJob lib run c job.name = some kjob ∧ kjob ∈ c.listKJobs run.ns job.name := by
  obtain ⟨kjob, hmem, hns, hname, hlabel⟩ := hdep.present job hjob
  have hget : ownKJob lib run c job.name = some kjob := by
    show c.getKJob run.ns (kjobNameOf lib run job) = some kjob
    rw [← hname, ← hns]
    exact getKJob_of_mem hdep.keys hmem
  exact ⟨kjob, hmem, hlabel, hget, List.mem_filter.mpr ⟨hmem, by simp [hns, hlabel]⟩⟩

/-- The gate that is read for a job is the first one under its label. -/
theorem Deployed.read_eq (hdep : Deployed lib run c) {job : Job} (hjob : job ∈ run.spec.jobs) :
    (surroundingsOf lib run c).read (ownGates lib run c) job.name =
      gatesOf c run.ns job.name := by
  obtain ⟨own, -, -, hget, hlisted⟩ := hdep.lookup hjob
  cases hlist : c.listKJobs run.ns job.name with
  | nil =>
      rw [hlist] at hlisted
      cases hlisted
  | cons first rest =>
      have hfirst : first ∈ c.listKJobs run.ns job.name := by
        rw [hlist]
        exact List.mem_cons_self
      obtain ⟨hmem, htest⟩ := List.mem_filter.mp hfirst
      have hns := (of_decide_eq_true htest).1
      simp only [Surroundings.read, surroundingsOf, gatesOf, hlist]
      split
      · next hname =>
          have hown : ownKJob lib run c job.name = some first := by
            rw [ownKJob, ← hname, ← hns]
            exact getKJob_of_mem hdep.keys hmem
          rw [Option.getD_none, ownGates, hown, Option.map_some, Option.getD_some]
      · rfl

/-- Deciding whether to suspend, in terms of gates. -/
theorem isSuspending_eq_any {ns currentTrigger : String} {runBefore : List String}
    (hlist : ∀ b ∈ runBefore, c.listKJobs ns b ≠ []) :
    isSuspending c ns currentTrigger runBefore =
      .ok (runBefore.any fun b =>
        currentTrigger = formatBool true ∨ ¬ (gatesOf c ns b).Done) := by
  induction runBefore with
  | nil => rfl
  | cons before runBefore ih =>
      have hrest := ih fun b hb => hlist b (by simp [hb])
      unfold isSuspending
      cases hbefore : c.listKJobs ns before with
      | nil => exact absurd hbefore (hlist before (by simp))
      | cons beforeKjob rest =>
          have hgate : gatesOf c ns before = gateOf beforeKjob := by
            simp [gatesOf, hbefore]
          have hnot : ¬ (gateOf beforeKjob).Done ↔
              JobState.ofText beforeKjob.annotations.status = .failed ∨
                ¬ (JobState.ofText beforeKjob.annotations.status).PostRun :=
            Gate.not_done_iff
          simp only [List.any_cons, hgate, hnot, hrest]
          split
          · next hheld => simp [hheld]
          · next hheld => simp [hheld]

/-- Listing after one job has been replaced, by a test that the new job passes
exactly when the old one did. -/
theorem filter_updateKJob (hkeys : Keyed kjobKey c.kjobs) {old updated : KJob}
    (hmem : old ∈ c.kjobs) (hkey : kjobKey updated = kjobKey old) {test : KJob → Bool}
    (htest : test updated = test old) :
    (c.updateKJob updated).kjobs.filter test =
      (c.kjobs.filter test).map fun k => if kjobKey k = kjobKey updated then updated else k := by
  simp only [Cluster.updateKJob, List.filter_map]
  congr 1
  apply List.filter_congr
  intro k hk
  simp only [Function.comp_apply]
  split
  · next hsame =>
      rw [hkeys.eq_of_key hk hmem (hsame.trans hkey)]
      exact htest
  · rfl

/-- Listing by a label after one job has been given another gate. -/
theorem listKJobs_updateKJob (hkeys : Keyed kjobKey c.kjobs) {kjob : KJob}
    (hmem : kjob ∈ c.kjobs) (g : Gate) (ns n : String) :
    (c.updateKJob (setGate kjob g)).listKJobs ns n =
      (c.listKJobs ns n).map fun k =>
        if kjobKey k = kjobKey kjob then setGate kjob g else k := by
  have hkey : kjobKey (setGate kjob g) = kjobKey kjob := rfl
  exact filter_updateKJob hkeys hmem hkey rfl

/-- Writing back what is there changes nothing. -/
theorem updateKJob_self (hkeys : Keyed kjobKey c.kjobs) {kjob : KJob}
    (hmem : kjob ∈ c.kjobs) : c.updateKJob kjob = c := by
  have hmap : c.kjobs.map (fun k => if kjobKey k = kjobKey kjob then kjob else k) =
      c.kjobs.map id := by
    apply List.map_congr_left
    intro k hk
    split
    · next hkey => exact (hkeys.eq_of_key hk hmem hkey).symm
    · rfl
  simp only [Cluster.updateKJob, hmap, List.map_id]

/-- The kubernetes jobs of the run after the gate of one of them has been set. -/
theorem ownKJob_updateKJob {kjob : KJob} {n : String} (hget : ownKJob lib run c n = some kjob)
    (g : Gate) (m : String) :
    ownKJob lib run (c.updateKJob (setGate kjob g)) m =
      if m = n then some (setGate kjob g) else ownKJob lib run c m := by
  split
  · next hm =>
      rw [hm]
      exact Cluster.getKJob_updateKJob_self hget rfl
  · next hm =>
      rw [ownKJob, Cluster.getKJob_updateKJob]
      cases hother : c.getKJob run.ns (kjobNameOf lib run { name := m }) with
      | none => exact hother.symm
      | some other =>
          rw [Option.map_some, if_neg]
          · exact hother.symm
          · intro hkey
            have hname := (Prod.mk.inj hkey).2
            rw [(Cluster.mem_of_getKJob hother).2.2, show (setGate kjob g).name = kjob.name from rfl,
              (Cluster.mem_of_getKJob hget).2.2] at hname
            exact hm (getShortHashPostFix_inj hname).1

theorem ownGates_updateKJob {kjob : KJob} {n : String} (hget : ownKJob lib run c n = some kjob)
    (g : Gate) :
    ownGates lib run (c.updateKJob (setGate kjob g)) =
      Function.update (ownGates lib run c) n g := by
  funext m
  rw [ownGates, ownKJob_updateKJob hget, Function.update_apply]
  split
  · rfl
  · rfl

/-- What comes first under a label and is not the run's own is no kubernetes job of
the run at all: those carry their own labels. -/
theorem foreign_updateKJob (hkeys : Keyed kjobKey c.kjobs) {kjob : KJob} {n : String}
    (hget : ownKJob lib run c n = some kjob) (hlabel : kjob.labels.runJobName = n) (g : Gate)
    (m : String) :
    (surroundingsOf lib run (c.updateKJob (setGate kjob g))).foreign m =
      (surroundingsOf lib run c).foreign m := by
  obtain ⟨hmem, -, hname⟩ := Cluster.mem_of_getKJob hget
  simp only [surroundingsOf, listKJobs_updateKJob hkeys hmem]
  cases hlist : c.listKJobs run.ns m with
  | nil => rfl
  | cons first rest =>
      rw [List.map_cons]
      simp only
      by_cases hkey : kjobKey first = kjobKey kjob
      · -- The job itself comes first, under its own label.
        have hfirst : first ∈ c.listKJobs run.ns m := by
          rw [hlist]
          exact List.mem_cons_self
        obtain ⟨hfirstMem, htest⟩ := List.mem_filter.mp hfirst
        have hsame := hkeys.eq_of_key hfirstMem hmem hkey
        have hm : n = m := by
          rw [← hlabel, ← hsame]
          exact (of_decide_eq_true htest).2
        rw [if_pos hkey, if_pos (show (setGate kjob g).name = _ from hm ▸ hname), hsame,
          if_pos (hm ▸ hname)]
      · rw [if_neg hkey]

theorem surroundingsOf_updateKJob (hkeys : Keyed kjobKey c.kjobs) {kjob : KJob} {n : String}
    (hget : ownKJob lib run c n = some kjob) (hlabel : kjob.labels.runJobName = n) (g : Gate) :
    surroundingsOf lib run (c.updateKJob (setGate kjob g)) = surroundingsOf lib run c := by
  have hside : (surroundingsOf lib run (c.updateKJob (setGate kjob g))).side =
      (surroundingsOf lib run c).side := by
    funext m
    simp only [surroundingsOf, ownKJob_updateKJob hget]
    by_cases hm : m = n
    · rw [if_pos hm, hm, hget]
      rfl
    · rw [if_neg hm]
      rfl
  have hforeign := funext (foreign_updateKJob hkeys hget hlabel g)
  cases hbefore : surroundingsOf lib run c
  cases hafter : surroundingsOf lib run (c.updateKJob (setGate kjob g))
  rw [hbefore, hafter] at hside hforeign
  cases hside
  cases hforeign
  rfl

/-- Replacing a job by one with the same key and the same labels. -/
private theorem same_key_labels (hkeys : Keyed kjobKey c.kjobs) {old updated : KJob}
    (hmem : old ∈ c.kjobs) (hkey : kjobKey updated = kjobKey old)
    (hlabels : updated.labels = old.labels) {k : KJob} (hk : k ∈ c.kjobs) :
    kjobKey (if kjobKey k = kjobKey updated then updated else k) = kjobKey k ∧
      (if kjobKey k = kjobKey updated then updated else k).labels = k.labels := by
  split
  · next heq =>
      have hsame := hkeys.eq_of_key hk hmem (heq.trans hkey)
      subst hsame
      exact ⟨hkey, hlabels⟩
  · exact ⟨rfl, rfl⟩

theorem Labelled.updateKJob (hlab : Labelled lib run c) {old updated : KJob}
    (hmem : old ∈ c.kjobs) (hkey : kjobKey updated = kjobKey old)
    (hlabels : updated.labels = old.labels) : Labelled lib run (c.updateKJob updated) := by
  refine
    { keys := hlab.keys.map fun k hk => (same_key_labels hlab.keys hmem hkey hlabels hk).1
      label_iff := ?_ }
  intro k hk job hjob hns
  obtain ⟨kept, hkept, rfl⟩ := List.mem_map.mp hk
  obtain ⟨hsame, hsameLabels⟩ := same_key_labels hlab.keys hmem hkey hlabels hkept
  have hparts := Prod.mk.inj hsame
  rw [hsameLabels, hparts.2]
  exact hlab.label_iff kept hkept job hjob (hparts.1.symm.trans hns)

theorem Deployed.updateKJob (hdep : Deployed lib run c) {old updated : KJob}
    (hmem : old ∈ c.kjobs) (hkey : kjobKey updated = kjobKey old)
    (hlabels : updated.labels = old.labels) : Deployed lib run (c.updateKJob updated) := by
  refine
    { keys := hdep.keys.map fun k hk => (same_key_labels hdep.keys hmem hkey hlabels hk).1
      present := ?_ }
  intro job hjob
  obtain ⟨kept, hkept, hns, hname, hlabel⟩ := hdep.present job hjob
  obtain ⟨hsame, hsameLabels⟩ := same_key_labels hdep.keys hmem hkey hlabels hkept
  have hparts := Prod.mk.inj hsame
  refine ⟨_, List.mem_map.mpr ⟨kept, hkept, rfl⟩, hparts.1.trans hns, hparts.2.trans hname, ?_⟩
  rw [hsameLabels]
  exact hlabel

/-- One step of a pass over a deployed run sets the gate of its job to what
the rule asks for. -/
theorem ensureKJob_eq (hrun : WellFormed run) (hdep : Deployed lib run c) {job : Job}
    (hjob : job ∈ run.spec.jobs) {desiredkjob kjob : KJob}
    (hdesired : Desired lib run job desiredkjob) (hlabel : kjob.labels.runJobName = job.name)
    (hget : ownKJob lib run c job.name = some kjob) :
    ensureKJob run c desiredkjob =
      .ok (c.updateKJob (setGate kjob
        (gateRule run (surroundingsOf lib run c) job.name (ownGates lib run c)))) := by
  have hns := hrun.ns_eq job hjob
  have hgate : ownGates lib run c job.name = gateOf kjob := by simp [ownGates, hget]
  have hside : (surroundingsOf lib run c).side job.name =
      (setGate kjob {}, firstPod c run.ns kjob.name) := by simp [surroundingsOf, hget]
  have hself := hrun.selfJobOf hjob
  have hlisted : ∀ b ∈ job.runBefore, c.listKJobs run.ns b ≠ [] := by
    intro b hb
    obtain ⟨before, hbefore, rfl⟩ := hrun.before_mem job hjob b hb
    obtain ⟨k, -, -, -, hk⟩ := hdep.lookup hbefore
    exact List.ne_nil_of_mem hk
  have hread : (job.runBefore.any fun b =>
        kjob.annotations.trigger = formatBool true ∨ ¬ (gatesOf c run.ns b).Done) =
      job.runBefore.any fun b => kjob.annotations.trigger = formatBool true ∨
        ¬ ((surroundingsOf lib run c).read (ownGates lib run c) b).Done := by
    rw [Bool.eq_iff_iff, List.any_eq_true, List.any_eq_true]
    refine exists_congr fun b => and_congr_right fun hb => ?_
    obtain ⟨before, hbefore, rfl⟩ := hrun.before_mem job hjob b hb
    rw [hdep.read_eq hbefore]
  have hget' : c.getKJob desiredkjob.ns desiredkjob.name = some kjob := by
    rw [hdesired.ns, hns, hdesired.name]
    exact hget
  unfold ensureKJob
  simp only [hget', hlabel, hself, hns, isSuspending_eq_any hlisted, hread, bind, Except.bind,
    pure, Except.pure]
  simp only [gateRule, hgate, hside, hself, setGate_setGate, setGate_gateOf,
    hdesired.trigger, hdesired.ns, hns]
  rfl

/-- One step of a pass over a deployed run visits the gate of its job.  The
surroundings stay as they were, and a visit that asks for nothing new leaves
the whole store as it was. -/
theorem ensureKJob_visits (hrun : WellFormed run) (hdep : Deployed lib run c) {job : Job}
    (hjob : job ∈ run.spec.jobs) {desiredkjob : KJob}
    (hdesired : Desired lib run job desiredkjob) :
    ∃ next, ensureKJob run c desiredkjob = .ok next ∧ Deployed lib run next ∧
      surroundingsOf lib run next = surroundingsOf lib run c ∧
      ownGates lib run next =
        visit (gateRule run (surroundingsOf lib run c)) (ownGates lib run c) job.name ∧
      (gateRule run (surroundingsOf lib run c) job.name (ownGates lib run c) =
        ownGates lib run c job.name → next = c) := by
  obtain ⟨kjob, hmem, hlabel, hget, -⟩ := hdep.lookup hjob
  refine ⟨_, ensureKJob_eq hrun hdep hjob hdesired hlabel hget,
    hdep.updateKJob hmem rfl rfl, surroundingsOf_updateKJob hdep.keys hget hlabel _,
    ownGates_updateKJob hget _, ?_⟩
  intro hsame
  have hgate : ownGates lib run c job.name = gateOf kjob := by simp [ownGates, hget]
  rw [hsame, hgate, setGate_gateOf]
  exact updateKJob_self hdep.keys hmem

/-! ## A pass is a sweep -/

/-- What a pass over some jobs of the run does: it succeeds, visits their
gates in order, and does not touch the store if no rule asks for a change. -/
theorem ensureKJobs_sweeps (hrun : WellFormed run) (hdep : Deployed lib run c)
    {jobs : List Job} {kjobList : List KJob} (hjobs : ∀ job ∈ jobs, job ∈ run.spec.jobs)
    (hdesired : List.Forall₂ (Desired lib run) jobs kjobList) :
    ∃ next, ensureKJobs run kjobList c = (next, .ok ()) ∧ Deployed lib run next ∧
      surroundingsOf lib run next = surroundingsOf lib run c ∧
      ownGates lib run next =
        sweep (gateRule run (surroundingsOf lib run c)) (jobs.map Job.name) (ownGates lib run c) ∧
      ((∀ job ∈ jobs, gateRule run (surroundingsOf lib run c) job.name (ownGates lib run c) =
        ownGates lib run c job.name) → next = c) := by
  induction hdesired generalizing c with
  | nil => exact ⟨c, rfl, hdep, rfl, rfl, fun _ => rfl⟩
  | @cons job desiredkjob jobs kjobList hjob _ ih =>
      obtain ⟨mid, hmid, hmidDep, hmidSide, hmidGates, hmidSame⟩ :=
        ensureKJob_visits hrun hdep (hjobs job (by simp)) hjob
      obtain ⟨next, hnext, hnextDep, hnextSide, hnextGates, hnextSame⟩ :=
        ih hmidDep fun other hother => hjobs other (by simp [hother])
      refine ⟨next, ?_, hnextDep, hnextSide.trans hmidSide, ?_, ?_⟩
      · simp only [ensureKJobs, hmid, hnext]
      · rw [hnextGates, hmidSide, hmidGates]
        rfl
      · intro hsame
        have hmidEq : mid = c := hmidSame (hsame job (by simp))
        subst hmidEq
        exact hnextSame fun other hother => hsame other (by simp [hother])

/-- An error-free pass over a deployed run is one sweep over its jobs. -/
theorem ensureKJobList_sweeps (hrun : WellFormed run) (hdep : Deployed lib run c)
    {next : Cluster} (hpass : ensureKJobList lib run c = (next, .ok ())) :
    Deployed lib run next ∧ surroundingsOf lib run next = surroundingsOf lib run c ∧
      ownGates lib run next =
        sweep (gateRule run (surroundingsOf lib run c)) (jobNames run) (ownGates lib run c) ∧
      ((∀ n ∈ jobNames run, gateRule run (surroundingsOf lib run c) n (ownGates lib run c) =
        ownGates lib run c n) → next = c) := by
  unfold ensureKJobList at hpass
  cases hlist : constructKjobListFromRun lib run with
  | error e => simp [hlist] at hpass
  | ok kjobList =>
      simp only [hlist] at hpass
      obtain ⟨end', hend, hdep', hside, hgates, hsame⟩ :=
        ensureKJobs_sweeps hrun hdep (fun _ hjob => hjob) (constructKjobListFromRun_desired hlist)
      have heq : end' = next := by
        rw [hpass] at hend
        exact (Prod.mk.inj hend).1.symm
      subst heq
      refine ⟨hdep', hside, hgates, fun hfixed => hsame ?_⟩
      intro job hjob
      exact hfixed job.name (List.mem_map_of_mem hjob)

/-- The job names of a run in good order are different. -/
theorem WellFormed.jobNames_nodup (hrun : WellFormed run) : (jobNames run).Nodup := hrun.names

/-- A pass leaves a deployed run alone exactly when no rule asks for a
change. -/
theorem ensureKJobList_fixed_iff (hrun : WellFormed run) (hdep : Deployed lib run c)
    {next : Cluster} (hpass : ensureKJobList lib run c = (next, .ok ())) :
    next = c ↔ ∀ n ∈ jobNames run,
      gateRule run (surroundingsOf lib run c) n (ownGates lib run c) = ownGates lib run c n := by
  obtain ⟨-, -, hgates, hsame⟩ := ensureKJobList_sweeps hrun hdep hpass
  constructor
  · intro hfix
    subst hfix
    exact (sweep_eq_self_iff hrun.jobNames_nodup).mp hgates.symm
  · exact hsame

/-- Error-free passes one after another are repeated sweeps. -/
theorem passes_sweep (hrun : WellFormed run) (hdep : Deployed lib run c) {n : Nat}
    {next : Cluster} (hpasses : passes lib run n c = some next) :
    Deployed lib run next ∧ surroundingsOf lib run next = surroundingsOf lib run c ∧
      ownGates lib run next =
        iterateSweep (gateRule run (surroundingsOf lib run c)) (jobNames run) (ownGates lib run c) n := by
  induction n generalizing next with
  | zero =>
      cases hpasses
      exact ⟨hdep, rfl, rfl⟩
  | succ n ih =>
      simp only [passes, Option.bind_eq_some_iff] at hpasses
      obtain ⟨mid, hmid, hlast⟩ := hpasses
      obtain ⟨hmidDep, hmidSide, hmidGates⟩ := ih hmid
      have hpass := ensureKJobList?_eq_some.mp hlast
      obtain ⟨hnextDep, hnextSide, hnextGates, -⟩ := ensureKJobList_sweeps hrun hmidDep hpass
      refine ⟨hnextDep, hnextSide.trans hmidSide, ?_⟩
      rw [hnextGates, hmidSide, hmidGates]
      rfl

end Step

/-! A run of two jobs, the later one listed first. -/

def chainDeploy (trigger : String) : Job where
  name := "deploy"
  ns := "team"
  image := "deploy"
  trigger := trigger
  runBefore := ["build"]

def chainBuild (trigger : String) : Job where
  name := "build"
  ns := "team"
  image := "build"
  trigger := trigger

def chainRun (trigger : String) : Run where
  name := "nightly"
  ns := "team"
  spec := { jobs := [chainDeploy trigger, chainBuild trigger] }

theorem chainRun_wellFormed (trigger : String) : WellFormed (chainRun trigger) where
  names := by simp [Keyed, chainRun, chainDeploy, chainBuild]
  ns_eq := by simp [chainRun, chainDeploy, chainBuild]
  before_mem := by simp [chainRun, chainDeploy, chainBuild]

end PipelineOperator.Controller
