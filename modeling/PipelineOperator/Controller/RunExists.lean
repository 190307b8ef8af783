import PipelineOperator.Controller.KJobList

/-!
# `ensureRunExists`

A reconcile of a pipeline that is not scheduled makes sure that the run of
its spec exists: it constructs the run, looks its name up, and creates it
when there is none.  Whether this creates one run or many depends on whether
the name is the same each time, and the name hashes a text of the spec that
holds the address of the schedule.  Every reconcile decodes the pipeline
anew, so each has an address of its own.

## Main results

* `reconciles_one_run`: without a schedule, any number of reconciles create
  one run.
* `runNameOf_ne`: with a schedule, two addresses give two names.
-/

namespace PipelineOperator.Controller

open PipelineOperator.Lib
open PipelineOperator.Api
open PipelineOperator.Go

/-- The runs the API server holds. -/
abbrev RunStore := List Run

def getRun (runs : RunStore) (ns name : String) : Option Run :=
  runs.find? fun run => run.ns = ns ∧ run.name = name

def getPipeline (pipelines : List Pipeline) (ns name : String) : Option Pipeline :=
  pipelines.find? fun pipeline => pipeline.ns = ns ∧ pipeline.name = name

theorem getRun_key {runs : RunStore} {ns name : String} {run : Run}
    (hget : getRun runs ns name = some run) : run.ns = ns ∧ run.name = name := by
  simpa using List.find?_some hget

/-- Looking up a key after a run has been created. -/
theorem getRun_append (runs : RunStore) (run : Run) (ns name : String) :
    getRun (runs ++ [run]) ns name =
      (getRun runs ns name).or (if run.ns = ns ∧ run.name = name then some run else none) := by
  unfold getRun
  rw [List.find?_append]
  congr 1
  by_cases hkey : run.ns = ns ∧ run.name = name
  · simp [hkey]
  · simp [hkey]

theorem getPipeline_key {pipelines : List Pipeline} {ns name : String} {pipeline : Pipeline}
    (hget : getPipeline pipelines ns name = some pipeline) :
    pipeline.ns = ns ∧ pipeline.name = name := by
  simpa using List.find?_some hget

/-- The pipeline's own schedule creates its runs, so `ensureRunExists` leaves
it alone. -/
def Scheduled (pipeline : Pipeline) : Prop :=
  ∃ schedule, pipeline.spec.schedule = some schedule ∧ schedule.scheduleDate ≠ ""

instance (pipeline : Pipeline) : Decidable (Scheduled pipeline) :=
  match h : pipeline.spec.schedule with
  | none => .isFalse fun hscheduled => by simp [Scheduled, h] at hscheduled
  | some schedule =>
      decidable_of_iff (schedule.scheduleDate ≠ "") (by simp [Scheduled, h])

/-- `ensureRunExists` on a pipeline whose schedule lies at `address`. -/
def ensureRunExists (lib : Externals) (address : Nat) (pipeline : Pipeline)
    (runs : RunStore) : Except String RunStore :=
  if Scheduled pipeline then .ok runs
  else do
    let run ← constructRunFromPipeline lib address pipeline
    match getRun runs run.ns run.name with
    | some _ => return runs
    | none =>
        validateOwner pipeline.ns run.ns
        return runs ++ [{ run with owner := some ⟨.pipeline, pipeline.name⟩ }]

/-- Reconciles one after another, each with the address of its own decoding. -/
def reconciles (lib : Externals) (pipeline : Pipeline) :
    List Nat → RunStore → Except String RunStore
  | [], runs => .ok runs
  | address :: addresses, runs => do
      let next ← ensureRunExists lib address pipeline runs
      reconciles lib pipeline addresses next

/-- The run was constructed from another pipeline. -/
def OfOther (lib : Externals) (pipeline : Pipeline) (run : Run) : Prop :=
  ∃ address other, (other.ns, other.name) ≠ (pipeline.ns, pipeline.name) ∧
    run.ns = other.ns ∧ run.name = runNameOf lib address other

/-- One run per spec: the name does not depend on where the pipeline was
decoded, and one or more reconciles from a store without runs of the pipeline
create exactly one. -/
def OneRun (lib : Externals) (pipeline : Pipeline) : Prop :=
  (∀ address address', runNameOf lib address pipeline = runNameOf lib address' pipeline) ∧
  ∀ runs : RunStore, (∀ run ∈ runs, OfOther lib pipeline run) →
    ∀ addresses : List Nat, addresses ≠ [] →
      ∃ run, reconciles lib pipeline addresses runs = .ok (runs ++ [run]) ∧
        run.labels.pipelineName = pipeline.name

section Unscheduled

variable {lib : Externals} {pipeline : Pipeline}

/-- A run of another pipeline does not have the name looked up. -/
theorem getRun_of_other {runs : RunStore} (hother : ∀ run ∈ runs, OfOther lib pipeline run)
    (address : Nat) : getRun runs pipeline.ns (runNameOf lib address pipeline) = none := by
  rw [getRun, List.find?_eq_none]
  intro run hrun hfound
  obtain ⟨address', other, hne, hns, hname⟩ := hother run hrun
  simp only [decide_eq_true_eq] at hfound
  apply hne
  rw [← hns, hfound.1, Prod.mk.injEq]
  refine ⟨rfl, ?_⟩
  rw [hname] at hfound
  exact (getShortHashPostFix_inj hfound.2).1

/-- Without a schedule the address does not enter the name. -/
theorem runNameOf_of_unscheduled (hnone : pipeline.spec.schedule = none)
    (address address' : Nat) :
    runNameOf lib address pipeline = runNameOf lib address' pipeline := by
  simp only [runNameOf, PipelineSpec.format, hnone, Option.map_none]

/-- A step that finds the run leaves the store alone. -/
theorem ensureRunExists_of_found {address : Nat} {run found : Run} {runs : RunStore}
    (hconstruct : constructRunFromPipeline lib address pipeline = .ok run)
    (hfound : getRun runs run.ns run.name = some found) :
    ensureRunExists lib address pipeline runs = .ok runs := by
  unfold ensureRunExists
  split
  · rfl
  · simp only [hconstruct, hfound, bind, Except.bind, pure, Except.pure]

/-- A step that succeeds leaves the store alone, or creates a run under a free
key, owned by the pipeline. -/
theorem ensureRunExists_ok {address : Nat} {runs after : RunStore}
    (hstep : ensureRunExists lib address pipeline runs = .ok after) :
    after = runs ∨ ∃ run, run.ns = pipeline.ns ∧
      run.owner = some ⟨.pipeline, pipeline.name⟩ ∧ getRun runs run.ns run.name = none ∧
      after = runs ++ [run] := by
  unfold ensureRunExists at hstep
  split at hstep
  · cases hstep
    exact .inl rfl
  · obtain ⟨run, hrun, hstep⟩ := bind_ok hstep
    obtain ⟨-, hns, -, -⟩ := constructRunFromPipeline_ok hrun
    split at hstep
    · cases hstep
      exact .inl rfl
    · next hmissing =>
        obtain ⟨_, -, hstep⟩ := bind_ok hstep
        cases hstep
        exact .inr ⟨{ run with owner := some ⟨.pipeline, pipeline.name⟩ }, hns, rfl, hmissing, rfl⟩

/-- Once a step has succeeded, the run is there. -/
theorem ensureRunExists_present {address : Nat} {runs after : RunStore}
    (hunscheduled : ¬ Scheduled pipeline)
    (hstep : ensureRunExists lib address pipeline runs = .ok after) :
    ∃ found, getRun after pipeline.ns (runNameOf lib address pipeline) = some found := by
  rw [ensureRunExists, if_neg hunscheduled] at hstep
  obtain ⟨run, hrun, hstep⟩ := bind_ok hstep
  obtain ⟨hname, hns, -, -⟩ := constructRunFromPipeline_ok hrun
  rw [← hname, ← hns]
  split at hstep
  · next found hfound =>
      cases hstep
      exact ⟨found, hfound⟩
  · next hmissing =>
      obtain ⟨_, -, hstep⟩ := bind_ok hstep
      cases hstep
      refine ⟨{ run with owner := some ⟨.pipeline, pipeline.name⟩ }, ?_⟩
      rw [getRun_append, hmissing, Option.none_or]
      exact if_pos ⟨rfl, rfl⟩

/-- Once the run is there, no reconcile creates another one. -/
theorem reconciles_of_found (hnone : pipeline.spec.schedule = none) {runs : RunStore}
    {found : Run} {address : Nat}
    (hfound : getRun runs pipeline.ns (runNameOf lib address pipeline) = some found)
    (addresses : List Nat) : reconciles lib pipeline addresses runs = .ok runs := by
  induction addresses with
  | nil => rfl
  | cons address' addresses ih =>
      obtain ⟨run, hrun⟩ := constructRunFromPipeline_of_unscheduled lib address' hnone
      obtain ⟨hname, hns, -, -⟩ := constructRunFromPipeline_ok hrun
      have hget : getRun runs run.ns run.name = some found := by
        rw [hns, hname, runNameOf_of_unscheduled hnone address' address, hfound]
      simp only [reconciles, ensureRunExists_of_found hrun hget, bind, Except.bind, ih]

/-- Without a schedule any number of reconciles create one run. -/
theorem reconciles_one_run (hnone : pipeline.spec.schedule = none) : OneRun lib pipeline := by
  refine ⟨runNameOf_of_unscheduled hnone, ?_⟩
  intro runs hother addresses haddresses
  obtain ⟨address, rest, rfl⟩ := List.exists_cons_of_ne_nil haddresses
  obtain ⟨run, hrun⟩ := constructRunFromPipeline_of_unscheduled lib address hnone
  obtain ⟨hname, hns, hlabel, -⟩ := constructRunFromPipeline_ok hrun
  have hmissing : getRun runs run.ns run.name = none := by
    rw [hns, hname]
    exact getRun_of_other hother address
  have howner : validateOwner pipeline.ns run.ns = .ok () := by simp [validateOwner, hns]
  have hscheduled : ¬ Scheduled pipeline := by simp [Scheduled, hnone]
  have hcreate : ensureRunExists lib address pipeline runs =
      .ok (runs ++ [{ run with owner := some ⟨.pipeline, pipeline.name⟩ }]) := by
    rw [ensureRunExists, if_neg hscheduled]
    simp only [hrun, hmissing, howner, bind, Except.bind, pure, Except.pure]
  have hfound : getRun (runs ++ [{ run with owner := some ⟨.pipeline, pipeline.name⟩ }])
      pipeline.ns (runNameOf lib address pipeline) =
        some { run with owner := some ⟨.pipeline, pipeline.name⟩ } := by
    rw [hns, hname] at hmissing
    unfold getRun at hmissing ⊢
    rw [List.find?_append, hmissing]
    simp [hns, hname]
  refine ⟨{ run with owner := some ⟨.pipeline, pipeline.name⟩ }, ?_, hlabel⟩
  simp only [reconciles, hcreate, bind, Except.bind]
  exact reconciles_of_found hnone hfound rest

end Unscheduled

/-! ## Two addresses, two names -/

/-- The bytes that `hashString` feeds to the hash. -/
theorem fnvHash_append_ne {front tail : String} {middle middle' : String} {b b' : UInt8}
    (hmiddle : middle.toByteArray.data.toList = [b])
    (hmiddle' : middle'.toByteArray.data.toList = [b']) (hne : b ≠ b') :
    fnvHash (front ++ (middle ++ tail)) ≠ fnvHash (front ++ (middle' ++ tail)) := by
  intro heq
  simp only [fnvHash, String.toByteArray_append, ByteArray.toList_data_append, hmiddle,
    hmiddle', List.singleton_append] at heq
  exact hne (Fnv.sum64a_inj_byte heq)

/-- Where a decoder may put a schedule: two addresses of the heap whose
spelling differs in one digit. -/
def someAddress : Nat := 0xc000010000

def otherAddress : Nat := 0xc000020000

/-- The texts that are hashed for the two addresses differ in one digit. -/
theorem format_of_schedule (lib : Externals) {pipeline : Pipeline} {schedule : Schedule}
    (hschedule : pipeline.spec.schedule = some schedule) :
    ∃ front tail,
      pipeline.ns ++ pipeline.name ++ pipeline.spec.format lib someAddress =
        front ++ ("1" ++ tail) ∧
      pipeline.ns ++ pipeline.name ++ pipeline.spec.format lib otherAddress =
        front ++ ("2" ++ tail) := by
  have hsome : hex someAddress = "c0000" ++ ("1" ++ "0000") := by decide
  have hother : hex otherAddress = "c0000" ++ ("2" ++ "0000") := by decide
  refine ⟨pipeline.ns ++ pipeline.name ++ "\x7b" ++ "0x" ++ "c0000",
    "0000" ++ " " ++ join (pipeline.spec.formatTail lib) " " ++ "\x7d", ?_, ?_⟩
  · simp only [PipelineSpec.format, hschedule, Option.map_some, fmtPointer, fmtStruct, spaced,
      PipelineSpec.formatTail, join, hsome, String.append_assoc]
  · simp only [PipelineSpec.format, hschedule, Option.map_some, fmtPointer, fmtStruct, spaced,
      PipelineSpec.formatTail, join, hother, String.append_assoc]

/-- With a schedule the name of the run depends on where the pipeline was
decoded. -/
theorem runNameOf_ne (lib : Externals) {pipeline : Pipeline} {schedule : Schedule}
    (hschedule : pipeline.spec.schedule = some schedule) :
    runNameOf lib.withFnv someAddress pipeline ≠ runNameOf lib.withFnv otherAddress pipeline := by
  intro heq
  obtain ⟨front, tail, hsome, hother⟩ := format_of_schedule lib.withFnv hschedule
  have hhash : fnvHash (front ++ ("1" ++ tail)) = fnvHash (front ++ ("2" ++ tail)) := by
    rw [← hsome, ← hother]
    exact (getShortHashPostFix_inj heq).2
  have hone : "1".toByteArray.data.toList = [49] := rfl
  have htwo : "2".toByteArray.data.toList = [50] := rfl
  exact fnvHash_append_ne hone htwo (by decide) hhash

/-- One run per spec holds exactly of the pipelines without a schedule; in
particular it fails of those that `ensureRunExists` does not skip although
they have one. -/
theorem oneRun_iff (lib : Externals) (pipeline : Pipeline) :
    OneRun lib.withFnv pipeline ↔ pipeline.spec.schedule = none := by
  constructor
  · intro hone
    cases hschedule : pipeline.spec.schedule with
    | none => rfl
    | some schedule =>
        exact absurd (hone.1 someAddress otherAddress) (runNameOf_ne lib hschedule)
  · exact reconciles_one_run

/-- A pipeline whose schedule has been emptied. -/
def emptiedPipeline : Pipeline where
  name := "nightly"
  ns := "team"
  spec := { schedule := some {}, tasks := [{ name := "build", image := "build" }] }

/-- Two reconciles of it create two runs. -/
theorem emptied_two_runs :
    ¬ Scheduled emptiedPipeline ∧ ¬ OneRun Externals.plain.withFnv emptiedPipeline := by
  refine ⟨by decide, ?_⟩
  intro hone
  obtain ⟨run, hrun, -⟩ := hone.2 [] (by simp) [someAddress, otherAddress] (by simp)
  have htwo : (reconciles Externals.plain.withFnv emptiedPipeline
      [someAddress, otherAddress] []).map List.length = .ok 2 := by decide +kernel
  rw [hrun] at htwo
  cases htwo

end PipelineOperator.Controller
