import PipelineOperator.Controller.Overlap
import PipelineOperator.Controller.Wedge

/-!
# The runs of scheduled executions

Every execution of a schedule constructs a run from the pipeline that its
goroutine has read.  The name hashes a text of the spec.  While nobody edits
the spec, that text differs between two executions in the address of the
schedule alone, where the decoder has put it.  So two executions construct
runs of different names as long as their addresses are different; a decoder
that gets an address again gives the name again.  Then the run cannot be
created, and the error of the goroutine is dropped.

The executions whose runs exist are kept beside the state of the schedule.  An
execution is noted when it constructs its run, so that one whose run cannot be
created stands there with the run that has taken its name.

## Main results

* `hashedText_inj`: the text that is hashed determines the address.
* `Named.step`: what one step preserves.
* `own_names_iff`: the executions have runs of their own exactly when their
  addresses are different.
* `address_reused`: two executions at one address.
-/

namespace PipelineOperator.Controller

open PipelineOperator.Lib
open PipelineOperator.Api
open PipelineOperator.Go

/-! ## Executions -/

/-- An execution: where the schedule lay that its goroutine had decoded, and
the run that it constructed. -/
structure Execution where
  address : Nat
  run : Run
  deriving Repr, DecidableEq

/-- The execution that falls due in a step: that of a goroutine which has
passed the comparisons, and whose end date is not over. -/
def dueExecution (lib : Externals) (s : ScheduleWorld) : ScheduleAction → Option Execution
  | .create i address now =>
      match s.goroutines[i]? with
      | some ⟨copy, .checked read⟩ =>
          if ∃ endDate ∈ copy.status.schedule.bind Schedule.endDate, endDate < now then none
          else match constructRunFromPipeline lib address read.val with
            | .error _ => none
            | .ok run => some ⟨address, run⟩
      | _ => none
  | _ => none

/-- The executions whose runs exist after a step. -/
def noteExecution (lib : Externals) (s : ScheduleWorld) (a : ScheduleAction) (t : ScheduleWorld)
    (executions : List Execution) : List Execution :=
  ((dueExecution lib s a).toList ++ executions).filter fun execution => t.hasRun execution.run

/-- The machine of a repeating schedule, with its executions. -/
def executionMachine (lib : Externals) :
    Machine (ScheduleWorld × List Execution) ScheduleAction :=
  (scheduleMachine lib Repeating).withHistory [] (noteExecution lib)

/-- The text whose hash ends the name of the run. -/
def hashedText (lib : Externals) (address : Nat) (pipeline : Pipeline) : String :=
  pipeline.ns ++ pipeline.name ++ pipeline.spec.format lib address

/-- The hash tells the texts of these executions apart. -/
def NoCollision (lib : Externals) (pipeline : Pipeline) (executions : List Execution) : Prop :=
  ∀ e ∈ executions, ∀ e' ∈ executions,
    lib.hashString (hashedText lib e.address pipeline) =
        lib.hashString (hashedText lib e'.address pipeline) →
      hashedText lib e.address pipeline = hashedText lib e'.address pipeline

instance (lib : Externals) (pipeline : Pipeline) (executions : List Execution) :
    Decidable (NoCollision lib pipeline executions) := by
  unfold NoCollision
  infer_instance

/-- No two of the executions have constructed runs of one name. -/
def OwnNames (executions : List Execution) : Prop :=
  (executions.map fun execution => execution.run.name).Nodup

instance (executions : List Execution) : Decidable (OwnNames executions) := by
  unfold OwnNames
  infer_instance

/-- No two of the executions have decoded their schedule at one address. -/
def OwnAddresses (executions : List Execution) : Prop :=
  (executions.map Execution.address).Nodup

instance (executions : List Execution) : Decidable (OwnAddresses executions) := by
  unfold OwnAddresses
  infer_instance

/-- An execution that falls due has decoded its schedule at an address of its
own. -/
def FreshAddress (lib : Externals) (x : ScheduleWorld × List Execution) (a : ScheduleAction) :
    Prop :=
  ∀ e ∈ dueExecution lib x.1 a, ∀ e' ∈ x.2, e'.address ≠ e.address

/-- The run is created in the step. -/
def Creates (lib : Externals) (s : ScheduleWorld) (a : ScheduleAction) (run : Run) : Prop :=
  ∃ t, s.step lib a = some t ∧ t.runs = s.runs ++ [run]

/-- Only executions have given the name of the run to runs that exist. -/
def NamedByExecutions (s : ScheduleWorld) (executions : List Execution) (run : Run) : Prop :=
  ∀ other ∈ s.runs, other.ns = run.ns → other.name = run.name →
    ∃ e ∈ executions, e.run.name = other.name

instance (s : ScheduleWorld) (executions : List Execution) (run : Run) :
    Decidable (NamedByExecutions s executions run) := by
  unfold NamedByExecutions
  infer_instance

/-! ## Names -/

/-- The pipelines agree in what the names of their runs are made from. -/
structure SameNames (before after : Pipeline) : Prop where
  ns : after.ns = before.ns
  name : after.name = before.name
  spec : after.spec = before.spec

section Names

variable {lib : Externals} {pipeline : Pipeline}

theorem SameNames.runNameOf {before after : Pipeline} (h : SameNames before after)
    (address : Nat) : runNameOf lib address after = runNameOf lib address before := by
  rw [Api.runNameOf, Api.runNameOf, h.ns, h.name, h.spec]

/-- The text determines the address of the schedule that is in it. -/
theorem hashedText_inj (hschedule : pipeline.spec.schedule.isSome) {address address' : Nat}
    (h : hashedText lib address pipeline = hashedText lib address' pipeline) :
    address = address' := by
  obtain ⟨schedule, hsome⟩ := Option.isSome_iff_exists.mp hschedule
  simp only [hashedText, PipelineSpec.format, hsome, Option.map_some, fmtPointer, fmtStruct,
    spaced, PipelineSpec.formatTail, join, String.append_assoc, String.append_right_inj,
    String.append_left_inj] at h
  exact hex_inj h

/-- Of two executions in the list, the runs have one name only if the
addresses are the same. -/
theorem names_eq_iff {executions : List Execution} (hschedule : pipeline.spec.schedule.isSome)
    (hnames : ∀ e ∈ executions, e.run.name = runNameOf lib e.address pipeline)
    (hcollision : NoCollision lib pipeline executions) {e e' : Execution}
    (he : e ∈ executions) (he' : e' ∈ executions) :
    e.run.name = e'.run.name ↔ e.address = e'.address := by
  rw [hnames e he, hnames e' he']
  constructor
  · intro hname
    obtain ⟨-, hhash⟩ := getShortHashPostFix_inj hname
    exact hashedText_inj hschedule (hcollision e he e' he' hhash)
  · intro haddress
    rw [haddress]

end Names

/-! ## What steps keep -/

section Steps

variable {lib : Externals} {s t : ScheduleWorld} {a : ScheduleAction}

/-- No step renames the pipeline. -/
theorem ScheduleWorld.step_key (hstep : s.step lib a = some t) :
    t.pipeline.val.ns = s.pipeline.val.ns ∧ t.pipeline.val.name = s.pipeline.val.name := by
  cases hof : a.ofRuns with
  | false =>
      cases ScheduleWorld.step_runs hof hstep with
      | same hsame => exact ⟨hsame.ns, hsame.name⟩
      | created _ _ _ _ hpipeline _ _ => exact ⟨by rw [hpipeline], by rw [hpipeline]⟩
  | true =>
      cases a with
      | finishRun name now =>
          simp only [ScheduleWorld.step] at hstep
          split at hstep
          · cases hstep
            have hwrite := SameStore.writeStatus s
              { s.status with scheduleLastExecutionEndDate := some now.stored }
            exact ⟨hwrite.ns, hwrite.name⟩
          · cases hstep
      | setRuns runs =>
          cases hstep
          exact ⟨rfl, rfl⟩
      | setKJobs kjobs =>
          cases hstep
          exact ⟨rfl, rfl⟩
      | edit | touch | countRuns | reconcile | wake | create | breakOff | record => cases hof

/-- While nobody edits the spec, the names of the runs stay the same. -/
theorem ScheduleWorld.step_names (hkeeps : KeepsSpec s a) (hstep : s.step lib a = some t) :
    SameNames s.pipeline.val t.pipeline.val where
  ns := (ScheduleWorld.step_key hstep).1
  name := (ScheduleWorld.step_key hstep).2
  spec := (ScheduleWorld.step_effect hstep).spec hkeeps

/-- What an execution is that falls due. -/
theorem dueExecution_eq_some {e : Execution} (hdue : dueExecution lib s a = some e) :
    ∃ i now copy read, a = .create i e.address now ∧
      s.goroutines[i]? = some ⟨copy, .checked read⟩ ∧
      (¬ ∃ endDate ∈ copy.status.schedule.bind Schedule.endDate, endDate < now) ∧
      constructRunFromPipeline lib e.address read.val = .ok e.run := by
  cases a with
  | create i address now =>
      simp only [dueExecution] at hdue
      split at hdue
      · next copy read hg =>
          split at hdue
          · cases hdue
          · next hend =>
              split at hdue
              · cases hdue
              · next run hrun =>
                  cases hdue
                  exact ⟨i, now, copy, read, rfl, hg, hend, hrun⟩
      · cases hdue
  | edit | touch | countRuns | reconcile | finishRun | wake | breakOff | record | setRuns
  | setKJobs => cases hdue

/-- An execution that falls due creates its run unless the name is taken. -/
theorem creates_iff {e : Execution} (hdue : dueExecution lib s a = some e) :
    Creates lib s a e.run ↔ s.hasRun e.run = false := by
  obtain ⟨i, now, copy, read, rfl, hg, hend, hrun⟩ := dueExecution_eq_some hdue
  have hstep : s.step lib (.create i e.address now) =
      if s.hasRun e.run then some (s.setPhase i copy .done)
      else some { (s.setPhase i copy (.created read now)).addEvent (.created i e.run) with
        runs := s.runs ++ [e.run] } := by
    simp only [ScheduleWorld.step, hg, if_neg hend, hrun]
  rw [Creates, hstep]
  cases htaken : s.hasRun e.run with
  | true => simp [ScheduleWorld.setPhase]
  | false => simp

/-- The schedule is there, goroutines have read pipelines that give the runs
the same names, and those are the names of the executions, whose runs exist. -/
structure Named (lib : Externals) (s : ScheduleWorld) (executions : List Execution) : Prop where
  scheduled : s.pipeline.val.spec.schedule.isSome
  reads : ∀ g ∈ s.goroutines, ∀ read ∈ g.phase.read, SameNames s.pipeline.val read.val
  constructed : ∀ e ∈ executions, e.run.ns = s.pipeline.val.ns ∧
    e.run.name = runNameOf lib e.address s.pipeline.val
  stored : ∀ e ∈ executions, s.hasRun e.run

/-- The execution that falls due is constructed like those before. -/
theorem Named.due {executions : List Execution} (hnamed : Named lib s executions)
    {e : Execution} (hdue : dueExecution lib s a = some e) :
    e.run.ns = s.pipeline.val.ns ∧ e.run.name = runNameOf lib e.address s.pipeline.val := by
  obtain ⟨i, now, copy, read, -, hg, -, hrun⟩ := dueExecution_eq_some hdue
  have hsame := hnamed.reads _ (List.mem_of_getElem? hg) read rfl
  obtain ⟨hname, hns, -, -⟩ := constructRunFromPipeline_ok hrun
  exact ⟨hns.trans hsame.ns, hname.trans (hsame.runNameOf e.address)⟩

/-- One step keeps the names. -/
theorem Named.step {executions : List Execution} (hnamed : Named lib s executions)
    (hkeeps : KeepsSpec s a) (hstep : s.step lib a = some t) :
    Named lib t (noteExecution lib s a t executions) := by
  have hsame := ScheduleWorld.step_names hkeeps hstep
  refine
    { scheduled := ?_
      reads := ?_
      constructed := ?_
      stored := ?_ }
  · rw [hsame.spec]
    exact hnamed.scheduled
  · intro g hg read hread
    rcases (ScheduleWorld.step_effect hstep).read_before hg hread with
      ⟨before, hbefore, hkept⟩ | hcurrent
    · have hread := hnamed.reads before hbefore read hkept
      exact ⟨hread.ns.trans hsame.ns.symm, hread.name.trans hsame.name.symm,
        hread.spec.trans hsame.spec.symm⟩
    · rw [hcurrent]
      exact ⟨rfl, rfl, rfl⟩
  · intro e he
    have hbefore : e.run.ns = s.pipeline.val.ns ∧
        e.run.name = runNameOf lib e.address s.pipeline.val := by
      rcases List.mem_append.mp (List.mem_filter.mp he).1 with hnew | hold
      · exact hnamed.due (Option.mem_toList.mp hnew)
      · exact hnamed.constructed e hold
    rw [hsame.ns, hsame.runNameOf]
    exact hbefore
  · intro e he
    exact (List.mem_filter.mp he).2

/-- Whose runs have the name of the execution that falls due. -/
theorem Named.hasRun_iff {executions : List Execution} (hnamed : Named lib s executions)
    {e : Execution} (hdue : dueExecution lib s a = some e)
    (hnames : NamedByExecutions s executions e.run) :
    s.hasRun e.run = true ↔ ∃ e' ∈ executions, e'.run.name = e.run.name := by
  rw [ScheduleWorld.hasRun, List.any_eq_true]
  constructor
  · rintro ⟨other, hother, hkey⟩
    simp only [decide_eq_true_eq] at hkey
    obtain ⟨e', he', hname⟩ := hnames other hother hkey.1 hkey.2
    exact ⟨e', he', hname.trans hkey.2⟩
  · rintro ⟨e', he', hname⟩
    obtain ⟨other, hother, hkey⟩ := List.any_eq_true.mp (hnamed.stored e' he')
    simp only [decide_eq_true_eq] at hkey
    have hns := (hnamed.constructed e' he').1.trans (hnamed.due hdue).1.symm
    refine ⟨other, hother, ?_⟩
    simp only [decide_eq_true_eq]
    exact ⟨hkey.1.trans hns, hkey.2.trans hname⟩

theorem named_of_reach {x : ScheduleWorld × List Execution}
    (h : (executionMachine lib).Reach (fun x a => KeepsSpec x.1 a) x) : Named lib x.1 x.2 := by
  apply h.invariant (I := fun x : ScheduleWorld × List Execution => Named lib x.1 x.2)
  · rintro ⟨s, executions⟩ ⟨⟨hrepeating, hgoroutines, -⟩, rfl⟩
    obtain ⟨schedule, hschedule, -⟩ := hrepeating
    refine
      { scheduled := Option.isSome_of_mem hschedule
        reads := ?_
        constructed := by simp
        stored := by simp }
    intro g hg
    rw [hgoroutines] at hg
    cases hg
  · rintro ⟨s, executions⟩ a y hnamed hkeeps hstep
    obtain ⟨t, hnext, rfl⟩ := Option.map_eq_some_iff.mp hstep
    exact hnamed.step hkeeps hnext

/-- The executions restrict no run of the schedule. -/
theorem exists_executions (h : (scheduleMachine lib Repeating).Reach KeepsSpec s) :
    ∃ executions, (executionMachine lib).Reach (fun x a => KeepsSpec x.1 a) (s, executions) :=
  h.exists_history [] (noteExecution lib)

/-- Noting an execution at an address of its own keeps the addresses
different. -/
theorem OwnAddresses.note {executions : List Execution} (hown : OwnAddresses executions)
    (hfresh : FreshAddress lib (s, executions) a) :
    OwnAddresses (noteExecution lib s a t executions) := by
  have hall : OwnAddresses ((dueExecution lib s a).toList ++ executions) := by
    cases hdue : dueExecution lib s a with
    | none => exact hown
    | some e =>
        rw [OwnAddresses, Option.toList_some, List.singleton_append, List.map_cons,
          List.nodup_cons]
        refine ⟨?_, hown⟩
        intro hmem
        obtain ⟨e', he', haddress⟩ := List.mem_map.mp hmem
        exact hfresh e hdue e' he' haddress
  exact hall.sublist (List.filter_sublist.map Execution.address)

/-- Runs in which every execution has an address of its own. -/
theorem own_addresses_of_reach {x : ScheduleWorld × List Execution}
    (h : (executionMachine lib).Reach (fun x a => KeepsSpec x.1 a ∧ FreshAddress lib x a) x) :
    OwnAddresses x.2 := by
  apply h.invariant (I := fun x : ScheduleWorld × List Execution => OwnAddresses x.2)
  · rintro ⟨s, executions⟩ ⟨-, rfl⟩
    exact List.nodup_nil
  · rintro ⟨s, executions⟩ a y hown ⟨-, hfresh⟩ hstep
    obtain ⟨t, -, rfl⟩ := Option.map_eq_some_iff.mp hstep
    exact hown.note hfresh

/-- While nobody edits the spec of a repeating schedule, its executions have
constructed runs of different names exactly when their schedules have been
decoded at different addresses, as they are when each falls due at an address
of its own; and the next one creates its run exactly when its address is none
of those. -/
theorem own_names_iff {x : ScheduleWorld × List Execution}
    (h : (executionMachine lib).Reach (fun x a => KeepsSpec x.1 a) x) :
    (NoCollision lib x.1.pipeline.val x.2 → (OwnNames x.2 ↔ OwnAddresses x.2)) ∧
      ((executionMachine lib).Reach (fun x a => KeepsSpec x.1 a ∧ FreshAddress lib x a) x →
        OwnAddresses x.2) ∧
      ∀ a e, dueExecution lib x.1 a = some e → NoCollision lib x.1.pipeline.val (e :: x.2) →
        NamedByExecutions x.1 x.2 e.run →
          (Creates lib x.1 a e.run ↔ ∀ e' ∈ x.2, e'.address ≠ e.address) := by
  have hnamed := named_of_reach h
  refine ⟨?_, own_addresses_of_reach, ?_⟩
  · intro hcollision
    rw [OwnNames, OwnAddresses, List.Nodup, List.Nodup, List.pairwise_map, List.pairwise_map]
    apply List.Pairwise.iff_of_mem
    intro e e' he he'
    have hiff := names_eq_iff hnamed.scheduled (fun e he => (hnamed.constructed e he).2)
      hcollision he he'
    exact not_congr hiff
  · intro a e hdue hcollision hnames
    have hall : ∀ e' ∈ e :: x.2, e'.run.name = runNameOf lib e'.address x.1.pipeline.val := by
      intro e' he'
      rcases List.mem_cons.mp he' with rfl | hold
      · exact (hnamed.due hdue).2
      · exact (hnamed.constructed e' hold).2
    rw [creates_iff hdue, ← Bool.not_eq_true, hnamed.hasRun_iff hdue hnames]
    push Not
    apply forall₂_congr
    intro e' he'
    have hiff := names_eq_iff hnamed.scheduled hall hcollision (List.mem_cons_of_mem e he')
      List.mem_cons_self
    exact not_congr hiff

end Steps

/-! ## An address that is used again -/

/-- After the first execution has ended, the goroutine of the second has passed
its comparisons. -/
def secondDue : List ScheduleAction :=
  firstExecution ++ [.reconcile (3800 * Time.second) true, .wake 1]

/-- The state in which the second execution falls due. -/
def secondDueWorld : ScheduleWorld × List Execution :=
  ((executionMachine Externals.plain).exec (fun x a => KeepsSpec x.1 a) (hourlyWorld true, [])
    secondDue).getD (hourlyWorld true, [])

/-- At another address the second execution creates its run. -/
theorem own_names_secondDue :
    OwnNames secondDueWorld.2 ∧
      Creates Externals.plain secondDueWorld.1 (.create 1 otherAddress (7400 * Time.second))
        (hourlyRun otherAddress) := by
  have hinit : (executionMachine Externals.plain).init (hourlyWorld true, []) :=
    ⟨⟨by decide, rfl, rfl⟩, rfl⟩
  have hexec : (executionMachine Externals.plain).exec (fun x a => KeepsSpec x.1 a)
      (hourlyWorld true, []) secondDue = some secondDueWorld := by
    decide +kernel
  obtain ⟨hnames, -, hnext⟩ := own_names_iff (Machine.reach_of_exec _ hinit hexec)
  constructor
  · exact (hnames (by decide +kernel)).mpr (by decide +kernel)
  · exact (hnext _ ⟨otherAddress, hourlyRun otherAddress⟩ (by decide +kernel)
      (by decide +kernel) (by decide +kernel)).mpr (by decide +kernel)

/-- The state after the second execution, whose schedule has been decoded at
the address of the first. -/
def sharedWorld : ScheduleWorld × List Execution :=
  ((executionMachine Externals.plain).exec (fun x a => KeepsSpec x.1 a) (hourlyWorld true, [])
    (secondDue ++ [.create 1 someAddress (7400 * Time.second)])).getD (hourlyWorld true, [])

/-- Both executions have constructed a run of one name, and only the first has
created it. -/
theorem address_reused :
    (executionMachine Externals.plain).Reach (fun x a => KeepsSpec x.1 a) sharedWorld ∧
      NoCollision Externals.plain sharedWorld.1.pipeline.val sharedWorld.2 ∧
      ¬ OwnNames sharedWorld.2 ∧ sharedWorld.1.runs = [hourlyRun someAddress] := by
  have hinit : (executionMachine Externals.plain).init (hourlyWorld true, []) :=
    ⟨⟨by decide, rfl, rfl⟩, rfl⟩
  have hexec : (executionMachine Externals.plain).exec (fun x a => KeepsSpec x.1 a)
      (hourlyWorld true, []) (secondDue ++ [.create 1 someAddress (7400 * Time.second)]) =
        some sharedWorld := by
    decide +kernel
  exact ⟨Machine.reach_of_exec _ hinit hexec, by decide +kernel, by decide +kernel,
    by decide +kernel⟩

end PipelineOperator.Controller
