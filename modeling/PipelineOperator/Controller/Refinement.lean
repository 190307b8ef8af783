import PipelineOperator.Controller.Growth
import PipelineOperator.Controller.ScheduleCount
import PipelineOperator.Lib.Simulation

/-!
# The operator runs the machine of a schedule

The machine of a schedule has one pipeline, with everybody who writes it as
steps of a machine.  The operator has a store, in which the pipeline is one
object of many.  Whatever the operator does is, for each pipeline that users
leave stored, a run of the machine of its schedule, on the same runs and
kubernetes jobs, with one sleeping goroutine for each copy of the pipeline that
the operator has asleep.  As reconciles are taken as a whole, no goroutine of
that run loses its record, and the count in the status is exact.

## Main results

* `operator_simulation`: the machine of a schedule follows the operator.
* `operator_counts`: in every run of the operator, the count of executions in
  the status of a pipeline is the number of runs that its goroutines have
  created since the last reset, and at most one without `Repeat`.
-/

namespace PipelineOperator.Controller

open PipelineOperator.Lib
open PipelineOperator.Api

/-! ## What the machine of a schedule shows -/

/-- A pipeline without its metadata, which the machine of a schedule leaves
out. -/
def pipelineCore (pipeline : Pipeline) : Pipeline :=
  { pipeline with labels := {}, annotations := {} }

/-- The copies of the goroutines that are asleep. -/
def asleep (goroutines : List Goroutine) : List Pipeline :=
  (goroutines.filter fun g => g.phase = .sleeping).map fun g => pipelineCore g.copy

/-- The copies of a pipeline that the operator has asleep. -/
def copiesOf (ns name : String) (goroutines : List Pipeline) : List Pipeline :=
  (goroutines.filter fun copy => copy.ns = ns ∧ copy.name = name).map pipelineCore

/-- The machine shows the pipeline of the key as it is in the store, between two
actions of the operator. -/
structure Shows (ns name : String) (w : OperatorWorld) (x : ScheduleWorld) : Prop where
  pipeline : (getPipeline w.store.pipelines ns name).map pipelineCore =
    some (pipelineCore x.pipeline.val)
  runs : x.runs = w.store.runs
  kjobs : x.cluster.kjobs = w.store.cluster.kjobs
  copies : (asleep x.goroutines).Perm (copiesOf ns name w.goroutines)
  settled : ∀ g ∈ x.goroutines, g.phase = .sleeping ∨ g.phase = .done

/-- The machine can follow a change of the operator's world. -/
def Mirrors (lib : Externals) (start : Pipeline → Prop) (ns name : String)
    (w w' : OperatorWorld) : Prop :=
  ∀ x, Shows ns name w x →
    ∃ y, (scheduleMachine lib start).Steps RecordsInTime x y ∧ Shows ns name w' y

section Core

variable {p q : Pipeline}

/-- What does not read the metadata is the same. -/
theorem congr_core {β : Type} {f : Pipeline → β} (hf : ∀ p, f (pipelineCore p) = f p)
    (h : pipelineCore p = pipelineCore q) : f p = f q := by
  rw [← hf p, h, hf q]

theorem ns_of_core (h : pipelineCore p = pipelineCore q) : p.ns = q.ns :=
  congr_core (f := Pipeline.ns) (fun _ => rfl) h

theorem name_of_core (h : pipelineCore p = pipelineCore q) : p.name = q.name :=
  congr_core (f := Pipeline.name) (fun _ => rfl) h

theorem status_of_core (h : pipelineCore p = pipelineCore q) : p.status = q.status :=
  congr_core (f := Pipeline.status) (fun _ => rfl) h

theorem core_withStatus (h : pipelineCore p = pipelineCore q) (status : PipelineStatus) :
    pipelineCore { p with status := status } = pipelineCore { q with status := status } :=
  congr_core (f := fun p => pipelineCore { p with status := status }) (fun _ => rfl) h

theorem scheduled_of_core (h : pipelineCore p = pipelineCore q) (lib : Externals) (now : Time) :
    ensureScheduleExecution lib p now = ensureScheduleExecution lib q now :=
  congr_core (f := fun p => ensureScheduleExecution lib p now) (fun _ => rfl) h

theorem counted_of_core (h : pipelineCore p = pipelineCore q) (runs : RunStore) (now : Time) :
    countedStatus p runs now = countedStatus q runs now :=
  congr_core (f := fun p => countedStatus p runs now) (fun _ => rfl) h

end Core

section Follow

variable {lib : Externals} {start : Pipeline → Prop} {ns name : String} {w w' w'' : OperatorWorld}
  {x : ScheduleWorld}

theorem Mirrors.refl (w : OperatorWorld) : Mirrors lib start ns name w w :=
  fun x hx => ⟨x, .refl x, hx⟩

theorem Mirrors.trans (hfirst : Mirrors lib start ns name w w')
    (hsecond : Mirrors lib start ns name w' w'') : Mirrors lib start ns name w w'' := by
  intro x hx
  obtain ⟨y, hsteps, hy⟩ := hfirst x hx
  obtain ⟨z, hrest, hz⟩ := hsecond y hy
  exact ⟨z, hsteps.trans hrest, hz⟩

/-- No step of the machine is needed. -/
theorem Mirrors.still (h : ∀ x, Shows ns name w x → Shows ns name w' x) :
    Mirrors lib start ns name w w' :=
  fun x hx => ⟨x, .refl x, h x hx⟩

/-- A step that is no record is guarded by nothing. -/
theorem steps_append {y z : ScheduleWorld} {a : ScheduleAction}
    (hfirst : (scheduleMachine lib start).Steps RecordsInTime x y) (hrecorder : a.recorder = none)
    (hstep : y.step lib a = some z) : (scheduleMachine lib start).Steps RecordsInTime x z := by
  refine .step hfirst ?_ hstep
  intro i hi
  rw [hrecorder] at hi
  cases hi

/-- One step is enough that is no record. -/
theorem Mirrors.single (a : ScheduleAction) (hrecorder : a.recorder = none)
    (h : ∀ x, Shows ns name w x → ∃ y, x.step lib a = some y ∧ Shows ns name w' y) :
    Mirrors lib start ns name w w' := by
  intro x hx
  obtain ⟨y, hstep, hy⟩ := h x hx
  exact ⟨y, steps_append (.refl x) hrecorder hstep, hy⟩

/-- Runs, kubernetes jobs and claims may be written. -/
theorem Mirrors.runs (runs : RunStore) :
    Mirrors lib start ns name w { w with store.runs := runs } :=
  .single (.setRuns runs) rfl fun x hx =>
    ⟨{ x with runs := runs }, rfl, { hx with runs := rfl }⟩

theorem Mirrors.cluster (c : Cluster) :
    Mirrors lib start ns name w { w with store.cluster := c } :=
  .single (.setKJobs c.kjobs) rfl fun x hx =>
    ⟨{ x with cluster := { x.cluster with kjobs := c.kjobs } }, rfl, { hx with kjobs := rfl }⟩

theorem Mirrors.pvcs (pvcs : List PersistentVolumeClaim) :
    Mirrors lib start ns name w { w with store.pvcs := pvcs } :=
  .still fun _ hx => { hx with }

/-! ## Pipelines that are written -/

/-- The stored pipeline. -/
theorem Shows.stored (hx : Shows ns name w x) :
    ∃ stored, getPipeline w.store.pipelines ns name = some stored ∧
      pipelineCore stored = pipelineCore x.pipeline.val :=
  Option.map_eq_some_iff.mp hx.pipeline

theorem Shows.core_eq (hx : Shows ns name w x) {pipeline : Pipeline}
    (hget : getPipeline w.store.pipelines ns name = some pipeline) :
    pipelineCore pipeline = pipelineCore x.pipeline.val := by
  obtain ⟨stored, hstored, hcore⟩ := hx.stored
  rw [hget] at hstored
  cases hstored
  exact hcore

/-- A write of the status. -/
theorem Shows.writeStatus (hx : Shows ns name w x) (pipeline : Pipeline)
    (hns : pipeline.ns = ns) (hname : pipeline.name = name) :
    Shows ns name
      { w with store.pipelines := updateStatusOfPipeline w.store.pipelines pipeline }
      (x.writeStatus pipeline.status) := by
  refine { hx with pipeline := ?_ }
  obtain ⟨stored, hstored, hcore⟩ := hx.stored
  have hkey := getPipeline_key hstored
  have hown : stored.ns = pipeline.ns ∧ stored.name = pipeline.name :=
    ⟨hkey.1.trans hns.symm, hkey.2.trans hname.symm⟩
  rw [getPipeline_updateStatusOfPipeline, hstored, Option.map_some, if_pos hown, Option.map_some,
    ScheduleWorld.writeStatus, Versioned.write_val, core_withStatus hcore]

/-- The status that is there may be written again. -/
theorem writeStatus_self (x : ScheduleWorld) : x.writeStatus x.status = x := by
  have hsame : x.pipeline.write { x.pipeline.val with status := x.status } = x.pipeline :=
    if_pos rfl
  rw [ScheduleWorld.writeStatus, hsame]

/-- A write of the status of another pipeline. -/
theorem Shows.otherStatus (hx : Shows ns name w x) (pipeline : Pipeline)
    (hother : ¬ (pipeline.ns = ns ∧ pipeline.name = name)) :
    Shows ns name
      { w with store.pipelines := updateStatusOfPipeline w.store.pipelines pipeline } x := by
  refine { hx with pipeline := ?_ }
  obtain ⟨stored, hstored, hcore⟩ := hx.stored
  have hkey := getPipeline_key hstored
  have hne : ¬ (stored.ns = pipeline.ns ∧ stored.name = pipeline.name) :=
    fun h => hother ⟨h.1.symm.trans hkey.1, h.2.symm.trans hkey.2⟩
  rw [getPipeline_updateStatusOfPipeline, hstored, Option.map_some, if_neg hne, Option.map_some,
    hcore]

theorem getPipeline_replacePipeline (pipelines : List Pipeline) (pipeline : Pipeline)
    (ns name : String) :
    getPipeline (replacePipeline pipelines pipeline) ns name =
      (getPipeline pipelines ns name).map fun p =>
        if p.ns = pipeline.ns ∧ p.name = pipeline.name then { pipeline with status := p.status }
        else p := by
  unfold getPipeline replacePipeline
  apply find?_map_kept
  intro p
  split
  · next hkey => simp only [hkey.1, hkey.2]
  · rfl

/-- A write of the metadata, of this pipeline or another one. -/
theorem Shows.metadata (hx : Shows ns name w x) {found : Pipeline}
    (hfound : getPipeline w.store.pipelines found.ns found.name = some found)
    (hnamed : found.ns ≠ "") :
    Shows ns name
      { w with store.pipelines := replacePipeline w.store.pipelines (withMetadata found) } x := by
  refine { hx with pipeline := ?_ }
  obtain ⟨stored, hstored, hcore⟩ := hx.stored
  have hns : (withMetadata found).ns = found.ns := if_neg hnamed
  have hname : (withMetadata found).name = found.name := rfl
  rw [getPipeline_replacePipeline, hstored, Option.map_some, Option.map_some, hns, hname]
  by_cases hkey : stored.ns = found.ns ∧ stored.name = found.name
  · have hstoredKey := getPipeline_key hstored
    rw [← hkey.1, ← hkey.2, hstoredKey.1, hstoredKey.2, hstored] at hfound
    cases hfound
    rw [if_pos hkey, ← hcore]
    simp only [pipelineCore, withMetadata, if_neg hnamed]
  · rw [if_neg hkey, hcore]

/-! ## The reconcile of a pipeline -/

theorem updatePipelineStatus_follows {pipeline : Pipeline} {now : Time} {counted : ObjectStore}
    (hok : updatePipelineStatus pipeline now w.store = .ok counted) :
    Mirrors lib start ns name w { w with store := counted } := by
  unfold updatePipelineStatus at hok
  split at hok
  · cases hok
  · next found hfound =>
      cases hok
      by_cases hown : found.ns = ns ∧ found.name = name
      · refine .single (.countRuns now) rfl ?_
        intro x hx
        have hkey := getPipeline_key hfound
        rw [← hkey.1, ← hkey.2, hown.1, hown.2] at hfound
        have hcounted : countedStatus x.pipeline.val x.runs now =
            countedStatus found w.store.runs now := by
          rw [hx.runs, counted_of_core (hx.core_eq hfound)]
        have hwritten := hx.writeStatus
          { found with status := countedStatus found w.store.runs now } hown.1 hown.2
        refine ⟨_, ?_, hwritten⟩
        show some (x.writeStatus (countedStatus x.pipeline.val x.runs now)) = _
        rw [hcounted]
      · exact .still fun x hx => hx.otherStatus
          { found with status := countedStatus found w.store.runs now } hown

theorem ensurePipelineMetadata_follows {pipeline : Pipeline} {labelled : ObjectStore}
    (hstore : KeyedStore w.store) (hok : ensurePipelineMetadata pipeline w.store = .ok labelled) :
    Mirrors lib start ns name w { w with store := labelled } := by
  unfold ensurePipelineMetadata at hok
  split at hok
  · cases hok
  · next found hfound =>
      simp only at hok
      split at hok
      · cases hok
      · cases hok
        have hkey := getPipeline_key hfound
        have hnamed := hstore.namespaced found (List.mem_of_find?_eq_some hfound)
        rw [← hkey.1, ← hkey.2] at hfound
        exact .still fun x hx => hx.metadata hfound hnamed

/-- A goroutine is started: its copy is one of the pipeline, or of another
one. -/
theorem asleep_started (goroutines : List Goroutine) (copy : Pipeline) :
    asleep (goroutines ++ [{ copy := copy }]) = asleep goroutines ++ [pipelineCore copy] := by
  simp [asleep, List.filter_append]

theorem copiesOf_own (copy : Pipeline) (hown : copy.ns = ns ∧ copy.name = name)
    (goroutines : List Pipeline) :
    copiesOf ns name (goroutines ++ [copy]) =
      copiesOf ns name goroutines ++ [pipelineCore copy] := by
  simp [copiesOf, List.filter_append, hown]

theorem copiesOf_other (copy : Pipeline) (hother : ¬ (copy.ns = ns ∧ copy.name = name))
    (goroutines : List Pipeline) :
    copiesOf ns name (goroutines ++ [copy]) = copiesOf ns name goroutines := by
  have hnone : [copy].filter (fun copy => copy.ns = ns ∧ copy.name = name) = [] := by
    rw [List.filter_eq_nil_iff]
    simpa using hother
  rw [copiesOf, List.filter_append, hnone, List.append_nil, copiesOf]

/-- `ensureScheduleExecution` on the pipeline in hand. -/
theorem PipelineReconciler.schedule_follows {pipeline : Pipeline} (now : Time)
    (hget : getPipeline w.store.pipelines pipeline.ns pipeline.name = some pipeline) :
    Mirrors lib start ns name w (schedule lib pipeline now w).1 := by
  by_cases hown : pipeline.ns = ns ∧ pipeline.name = name
  · rw [hown.1, hown.2] at hget
    refine .single (.reconcile now true) rfl ?_
    intro x hx
    have hcore := hx.core_eq hget
    refine ⟨_, rfl, ?_⟩
    rw [← scheduled_of_core hcore, schedule]
    have hkept : Shows ns name
        { w with store.pipelines := updateStatusOfPipeline w.store.pipelines pipeline } x := by
      have hwritten := hx.writeStatus pipeline hown.1 hown.2
      rw [status_of_core hcore] at hwritten
      exact (writeStatus_self x) ▸ hwritten
    have hwritten : ∀ status, Shows ns name
        { w with store.pipelines :=
          updateStatusOfPipeline w.store.pipelines { pipeline with status := status } }
        (x.writeStatus status) :=
      fun status => hx.writeStatus { pipeline with status := status } hown.1 hown.2
    have hcleared : ∀ status event, Shows ns name
        { w with
          store.pipelines :=
            updateStatusOfPipeline w.store.pipelines { pipeline with status := status }
          goroutines := w.goroutines ++ [] }
        ((x.writeStatus status).addEvent event) := by
      intro status event
      rw [List.append_nil]
      exact { hwritten status with }
    have hquiet : Shows ns name
        { w with
          store.pipelines := updateStatusOfPipeline w.store.pipelines pipeline
          goroutines := w.goroutines ++ [] } x := by
      rw [List.append_nil]
      exact hkept
    cases houtcome : ensureScheduleExecution lib pipeline now with
    | failed _ => exact hx
    | panicked => exact hx
    | quiet => exact hquiet
    | requeued => exact hquiet
    | untouched =>
        show Shows ns name _ (x.writeStatus x.status)
        rw [writeStatus_self]
        exact hquiet
    | removed status => exact hcleared status (.cleared true)
    | emptied status => exact hcleared status (.cleared false)
    | pendingCleared status => exact hcleared status (.cleared false)
    | armed status reset =>
        have hcopy : pipelineCore { pipeline with status := status } =
            pipelineCore { x.pipeline.val with status := status } := core_withStatus hcore status
        refine { hwritten status with copies := ?_, settled := ?_ }
        · show (asleep
              (x.goroutines ++ [{ copy := { x.pipeline.val with status := status } }])).Perm
            (copiesOf ns name (w.goroutines ++ [{ pipeline with status := status }]))
          rw [asleep_started, copiesOf_own { pipeline with status := status } hown, hcopy]
          exact hx.copies.append_right _
        · intro g hg
          rcases List.mem_append.mp hg with hold | hnew
          · exact hx.settled g hold
          · rw [List.mem_singleton.mp hnew]
            exact Or.inl rfl
  · refine .still fun x hx => ?_
    have hwritten : ∀ status, Shows ns name
        { w with store.pipelines :=
          updateStatusOfPipeline w.store.pipelines { pipeline with status := status } } x :=
      fun status => hx.otherStatus { pipeline with status := status } hown
    unfold schedule
    cases houtcome : ensureScheduleExecution lib pipeline now with
    | failed _ => exact hx
    | panicked => exact hx
    | armed status reset =>
        refine { hwritten status with copies := ?_ }
        show (asleep x.goroutines).Perm
          (copiesOf ns name (w.goroutines ++ [{ pipeline with status := status }]))
        rw [copiesOf_other { pipeline with status := status } hown]
        exact hx.copies
    | _ =>
        refine { hwritten _ with copies := ?_ }
        show (asleep x.goroutines).Perm (copiesOf ns name (w.goroutines ++ []))
        rw [List.append_nil]
        exact hx.copies

/-- A reconcile of any pipeline, however it ends. -/
theorem PipelineReconciler.reconcile_follows (hw : KeyedStore w.store) (ns' name' : String)
    (address : Nat) (now : Time) :
    Mirrors lib start ns name w (reconcile lib ns' name' address now w).1 := by
  unfold reconcile
  split
  · exact .refl w
  · split
    · exact .refl w
    · next counted hcounted =>
        have hfirst : Mirrors lib start ns name w { w with store := counted } :=
          updatePipelineStatus_follows hcounted
        have hkeyed := (updatePipelineStatus_extends hw hcounted).keyed
        split
        · exact hfirst
        · next labelled hlabelled =>
            refine hfirst.trans (.trans (ensurePipelineMetadata_follows hkeyed hlabelled) ?_)
            unfold execute
            split
            · exact .refl _
            · next pipeline hget =>
                split
                · exact .refl _
                · next runs _ =>
                    have hkey := getPipeline_key hget
                    rw [← hkey.1, ← hkey.2] at hget
                    exact .trans (.runs runs) (schedule_follows now hget)

/-! ## The goroutines -/

theorem asleep_cons (g : Goroutine) (goroutines : List Goroutine) :
    asleep (g :: goroutines) =
      if g.phase = .sleeping then pipelineCore g.copy :: asleep goroutines
      else asleep goroutines := by
  by_cases hphase : g.phase = .sleeping
  · simp [asleep, hphase]
  · simp [asleep, hphase]

/-- One of those that are asleep moves on. -/
theorem asleep_set {goroutines : List Goroutine} {i : Nat} {copy : Pipeline}
    (hg : goroutines[i]? = some ⟨copy, .sleeping⟩) {phase : GoroutinePhase}
    (hphase : phase ≠ .sleeping) :
    (pipelineCore copy :: asleep (goroutines.set i ⟨copy, phase⟩)).Perm (asleep goroutines) := by
  induction goroutines generalizing i with
  | nil => cases hg
  | cons g goroutines ih =>
      cases i with
      | zero =>
          cases hg
          rw [List.set_cons_zero, asleep_cons, asleep_cons, if_neg hphase, if_pos rfl]
      | succ i =>
          have hrest := ih hg
          rw [List.set_cons_succ, asleep_cons, asleep_cons]
          split
          · exact (List.Perm.swap _ _ _).trans (hrest.cons _)
          · exact hrest

theorem copiesOf_erase {copy : Pipeline} {goroutines : List Pipeline}
    (hmem : copy ∈ goroutines) (hown : copy.ns = ns ∧ copy.name = name) :
    (copiesOf ns name goroutines).Perm
      (pipelineCore copy :: copiesOf ns name (goroutines.erase copy)) := by
  have hperm := ((List.perm_cons_erase hmem).filter
    fun copy => copy.ns = ns ∧ copy.name = name).map pipelineCore
  rw [List.filter_cons_of_pos (by simpa using hown), List.map_cons] at hperm
  exact hperm

theorem copiesOf_erase_other {copy : Pipeline} {goroutines : List Pipeline}
    (hmem : copy ∈ goroutines) (hother : ¬ (copy.ns = ns ∧ copy.name = name)) :
    (copiesOf ns name goroutines).Perm (copiesOf ns name (goroutines.erase copy)) := by
  have hperm := ((List.perm_cons_erase hmem).filter
    fun copy => copy.ns = ns ∧ copy.name = name).map pipelineCore
  rw [List.filter_cons_of_neg (by simpa using hother)] at hperm
  exact hperm

/-- One copy of the pipeline is taken up, and a goroutine of the machine with
it. -/
theorem Shows.wakes (hx : Shows ns name w x) {copy : Pipeline} (hmem : copy ∈ w.goroutines)
    (hown : copy.ns = ns ∧ copy.name = name) :
    ∃ i copied, x.goroutines[i]? = some ⟨copied, .sleeping⟩ ∧
      pipelineCore copied = pipelineCore copy ∧
      Shows ns name { w with goroutines := w.goroutines.erase copy }
        (x.setPhase i copied .done) := by
  have hcopy : pipelineCore copy ∈ copiesOf ns name w.goroutines :=
    List.mem_map_of_mem (List.mem_filter.mpr ⟨hmem, by simpa using hown⟩)
  obtain ⟨g, hg, hcore⟩ := List.mem_map.mp (hx.copies.mem_iff.mpr hcopy)
  obtain ⟨hg, hphase⟩ := List.mem_filter.mp hg
  obtain ⟨copied, phase⟩ := g
  simp only [decide_eq_true_eq] at hphase
  subst hphase
  obtain ⟨i, hi⟩ := List.getElem?_of_mem hg
  refine ⟨i, copied, hi, hcore, { hx with copies := ?_, settled := ?_ }⟩
  · have hleft := asleep_set hi (show GoroutinePhase.done ≠ .sleeping by decide)
    have hright := hx.copies.trans (copiesOf_erase hmem hown)
    rw [hcore] at hleft
    exact (hleft.trans hright).cons_inv
  · intro g' hg'
    rcases List.mem_or_eq_of_mem_set hg' with hold | rfl
    · exact hx.settled g' hold
    · exact Or.inr rfl

/-- A goroutine that does not pass is done. -/
theorem wake_done (lib : Externals) {i : Nat} {copied : Pipeline}
    (hg : x.goroutines[i]? = some ⟨copied, .sleeping⟩)
    (hnot : compareWith copied.status x.status ≠ .passes) :
    x.step lib (.wake i) = some (x.setPhase i copied .done) := by
  cases hverdict : compareWith copied.status x.status with
  | passes => exact absurd hverdict hnot
  | aborts => simp only [ScheduleWorld.step, hg, hverdict]
  | panics => simp only [ScheduleWorld.step, hg, hverdict]

theorem setPhase_setPhase (x : ScheduleWorld) (i : Nat) (copied : Pipeline)
    (phase phase' : GoroutinePhase) :
    (x.setPhase i copied phase).setPhase i copied phase' = x.setPhase i copied phase' := by
  simp only [ScheduleWorld.setPhase, List.set_set]

theorem hasRun_eq (x : ScheduleWorld) (run : Run) :
    x.hasRun run = (getRun x.runs run.ns run.name).isSome := by
  rw [ScheduleWorld.hasRun, getRun, List.isSome_find?]

/-- A goroutine that has passed, in the machine: it creates a run and records
it, or it is done. -/
theorem create_steps (lib : Externals) {i : Nat} {copied : Pipeline}
    (hg : x.goroutines[i]? = some ⟨copied, .checked x.pipeline⟩) (address : Nat) (now : Time) :
    (x.step lib (.create i address now) = some (x.setPhase i copied .done) ∧
      ((∃ endDate ∈ copied.status.schedule.bind Schedule.endDate, endDate < now) ∨
        ∃ e, executeSchedule lib address x.pipeline.val x.runs = .error e)) ∨
    ∃ run y, x.step lib (.create i address now) = some y ∧
      executeSchedule lib address x.pipeline.val x.runs = .ok (x.runs ++ [run]) ∧
      (¬ ∃ endDate ∈ copied.status.schedule.bind Schedule.endDate, endDate < now) ∧
      RecordsInTime y (.record i) ∧
      y.step lib (.record i) = some
        { ((x.writeStatus (recordedStatus now x.status)).setPhase i copied .done) with
          runs := x.runs ++ [run]
          log := .recorded i :: .created i run :: x.log } := by
  simp only [ScheduleWorld.step, hg]
  by_cases hend : ∃ endDate ∈ copied.status.schedule.bind Schedule.endDate, endDate < now
  · rw [if_pos hend]
    exact Or.inl ⟨rfl, Or.inl hend⟩
  · rw [if_neg hend]
    cases hconstruct : constructRunFromPipeline lib address x.pipeline.val with
    | error e =>
        refine Or.inl ⟨rfl, Or.inr ⟨e, ?_⟩⟩
        rw [executeSchedule, hconstruct]
        rfl
    | ok run =>
        simp only
        cases hget : getRun x.runs run.ns run.name with
        | some found =>
            have hhas : x.hasRun run = true := by rw [hasRun_eq, hget, Option.isSome_some]
            rw [if_pos hhas]
            refine Or.inl ⟨rfl, Or.inr ⟨"already exists", ?_⟩⟩
            simp only [executeSchedule, hconstruct, bind, Except.bind, hget]
        | none =>
            have hhas : ¬ x.hasRun run = true := by rw [hasRun_eq, hget]; decide
            rw [if_neg hhas]
            right
            have hcreated : (x.setPhase i copied (.created x.pipeline now)).goroutines[i]? =
                some ⟨copied, .created x.pipeline now⟩ :=
              (getElem?_setPhase hg _ _ _).trans (if_pos rfl)
            refine ⟨run, _, rfl, ?_, hend, ?_, ?_⟩
            · simp only [executeSchedule, hconstruct, bind, Except.bind, hget]
              rfl
            · -- Nobody has written the pipeline since the goroutine has read it.
              rintro j ⟨⟩ ⟨-, g, hcurrent, -, read, hread, hversion⟩
              rw [ScheduleWorld.addEvent, hcreated] at hcurrent
              cases hcurrent
              cases hread
              exact hversion rfl
            · simp only [ScheduleWorld.addEvent, hcreated]
              refine (if_pos rfl).trans ?_
              simp only [ScheduleWorld.setPhase, ScheduleWorld.writeStatus, List.set_set,
                ScheduleWorld.status]

/-- The goroutine of the operator, which does not pass. -/
theorem scheduleExecution_not_passes {copy current : Pipeline}
    (hget : getPipeline w.store.pipelines copy.ns copy.name = some current)
    (hnot : compareWith copy.status current.status ≠ .passes) (address : Nat) (now : Time) :
    (PipelineReconciler.scheduleExecution lib copy address now w).1 = w := by
  unfold PipelineReconciler.scheduleExecution
  split
  · rfl
  · rw [hget]
    cases hverdict : compareWith copy.status current.status with
    | passes => exact absurd hverdict hnot
    | aborts => simp only [hverdict]
    | panics => simp only [hverdict]

/-- It passes. -/
theorem scheduleExecution_passes {copy current : Pipeline}
    (hget : getPipeline w.store.pipelines copy.ns copy.name = some current)
    (hpasses : compareWith copy.status current.status = .passes) (address : Nat) (now : Time) :
    (PipelineReconciler.scheduleExecution lib copy address now w).1 =
      if ∃ endDate ∈ copy.status.schedule.bind Schedule.endDate, endDate < now then w
      else match executeSchedule lib address current w.store.runs with
        | .error _ => w
        | .ok runs =>
            { w with
              store.runs := runs
              store.pipelines := updateStatusOfPipeline w.store.pipelines
                { current with status := recordedStatus now current.status } } := by
  have hunchanged := compareWith_passes hpasses
  have harmed : ¬ (copy.status.schedule = none ∨
      copy.status.schedulePendingExecuctionDate = none) := by
    obtain ⟨schedule, -, hschedule, -⟩ := hunchanged.schedule
    have hpending := hunchanged.pending_isSome
    rw [hschedule]
    rintro (hnone | hnone)
    · cases hnone
    · rw [hnone] at hpending
      cases hpending
  unfold PipelineReconciler.scheduleExecution
  rw [if_neg harmed, hget]
  simp only [hpasses]
  split
  · rfl
  · cases executeSchedule lib address current w.store.runs with
    | error e => rfl
    | ok runs => rfl

/-- The machine follows a goroutine of the pipeline. -/
theorem scheduleExecution_own {copy copied : Pipeline} (hown : copy.ns = ns ∧ copy.name = name)
    {i : Nat} (hg : x.goroutines[i]? = some ⟨copied, .sleeping⟩)
    (hcopied : pipelineCore copied = pipelineCore copy)
    (hdone : Shows ns name w (x.setPhase i copied .done)) (address : Nat) (now : Time) :
    ∃ y, (scheduleMachine lib start).Steps RecordsInTime x y ∧
      Shows ns name (PipelineReconciler.scheduleExecution lib copy address now w).1 y := by
  obtain ⟨current, hcurrent, hcore⟩ := hdone.stored
  have hget : getPipeline w.store.pipelines copy.ns copy.name = some current := by
    rw [hown.1, hown.2, hcurrent]
  have hstatus : current.status = x.status := status_of_core hcore
  by_cases hpasses : compareWith copied.status x.status = .passes
  · have hwake : x.step lib (.wake i) = some (x.setPhase i copied (.checked x.pipeline)) := by
      simp only [ScheduleWorld.step, hg, hpasses]
    have hwoken : (scheduleMachine lib start).Steps RecordsInTime x
        (x.setPhase i copied (.checked x.pipeline)) := steps_append (.refl x) rfl hwake
    have hchecked : (x.setPhase i copied (.checked x.pipeline)).goroutines[i]? =
        some ⟨copied, .checked (x.setPhase i copied (.checked x.pipeline)).pipeline⟩ :=
      (getElem?_setPhase hg _ _ _).trans (if_pos rfl)
    rw [status_of_core hcopied, ← hstatus] at hpasses
    rw [scheduleExecution_passes hget hpasses, ← status_of_core hcopied]
    have hexecuted : executeSchedule lib address current w.store.runs =
        executeSchedule lib address x.pipeline.val x.runs := by
      rw [← hdone.runs]
      exact congr_core (f := fun p => executeSchedule lib address p x.runs) (fun _ => rfl) hcore
    rcases create_steps lib hchecked address now with
      ⟨hstep, hwhy⟩ | ⟨run, y, hstep, hexec, hend, hlast, hrecord⟩
    · -- No run is created, so that the goroutine is done.
      rw [setPhase_setPhase] at hstep
      refine ⟨_, steps_append hwoken rfl hstep, ?_⟩
      rcases hwhy with hend | ⟨e, herror⟩
      · rw [if_pos hend]
        exact hdone
      · rw [hexecuted]
        split
        · exact hdone
        · rw [show executeSchedule lib address x.pipeline.val x.runs = .error e from herror]
          exact hdone
    · refine ⟨_, .step (steps_append hwoken rfl hstep) hlast hrecord, ?_⟩
      rw [if_neg hend, hexecuted,
        show executeSchedule lib address x.pipeline.val x.runs = .ok (x.runs ++ [run]) from hexec]
      have hkey := getPipeline_key hcurrent
      have hwritten := hdone.writeStatus
        { current with status := recordedStatus now current.status } hkey.1 hkey.2
      have hsame : recordedStatus now (x.setPhase i copied (.checked x.pipeline)).status =
          recordedStatus now current.status := by
        rw [hstatus]
        rfl
      have hgoroutines : ((x.setPhase i copied (.checked x.pipeline)).setPhase i copied
          .done).goroutines = (x.setPhase i copied .done).goroutines := by
        rw [setPhase_setPhase]
      rw [hsame]
      exact
        { pipeline := hwritten.pipeline
          runs := rfl
          kjobs := hwritten.kjobs
          copies := hgoroutines ▸ hwritten.copies
          settled := hgoroutines ▸ hwritten.settled }
  · have hwake := wake_done lib hg hpasses
    rw [status_of_core hcopied, ← hstatus] at hpasses
    rw [scheduleExecution_not_passes hget hpasses]
    exact ⟨_, steps_append (.refl x) rfl hwake, hdone⟩

/-- The pipeline is not written by a goroutine of another one. -/
theorem scheduleExecution_other {copy : Pipeline} (hother : ¬ (copy.ns = ns ∧ copy.name = name))
    (address : Nat) (now : Time) :
    Mirrors lib start ns name w
      (PipelineReconciler.scheduleExecution lib copy address now w).1 := by
  cases hget : getPipeline w.store.pipelines copy.ns copy.name with
  | none =>
      unfold PipelineReconciler.scheduleExecution
      rw [hget]
      split
      · exact .refl w
      · exact .refl w
  | some current =>
      by_cases hpasses : compareWith copy.status current.status = .passes
      · rw [scheduleExecution_passes hget hpasses]
        split
        · exact .refl w
        · cases executeSchedule lib address current w.store.runs with
          | error _ => exact .refl w
          | ok runs =>
              have hkey := getPipeline_key hget
              rw [← hkey.1, ← hkey.2] at hother
              exact .trans (.runs runs) (.still fun x hx =>
                hx.otherStatus { current with status := recordedStatus now current.status } hother)
      · rw [scheduleExecution_not_passes hget hpasses]
        exact .refl w

/-- A goroutine of the operator from its wake-up on, however it ends. -/
theorem scheduleExecution_follows {copy : Pipeline} (hmem : copy ∈ w.goroutines) (address : Nat)
    (now : Time) :
    Mirrors lib start ns name w (PipelineReconciler.scheduleExecution lib copy address now
      { w with goroutines := w.goroutines.erase copy }).1 := by
  by_cases hown : copy.ns = ns ∧ copy.name = name
  · intro x hx
    obtain ⟨i, copied, hg, hcopied, hdone⟩ := hx.wakes hmem hown
    exact scheduleExecution_own hown hg hcopied hdone address now
  · have herased : Mirrors lib start ns name w
        { w with goroutines := w.goroutines.erase copy } :=
      .still fun x hx => { hx with copies := hx.copies.trans (copiesOf_erase_other hmem hown) }
    exact herased.trans (scheduleExecution_other hown address now)

/-! ## The reconcile of a run -/

/-- The status of a run that is not stored is not written. -/
theorem updateRunStatus_missing (lib : Externals) {run : Run} {store : StatusStore} (c : Cluster)
    (now endNow : Time) (hmissing : getRun store.runs run.ns run.name = none) :
    (updateRunStatus lib run c (fun _ => freeAttempt now endNow) store).1.store = store := by
  have hfirst : tryUpdateRunStatus lib run.ns run.labels.pipelineName
      (c.listRunKJobs run.ns run.name) (freeAttempt now endNow)
      { keyName := run.name, store := store } =
        (({ keyName := run.name, store := store } : RetryState).access
          (.getRun run.ns run.name), .failed) := by
    simp only [tryUpdateRunStatus, hmissing]
  have hattempts : allowed (fun _ => freeAttempt now endNow) =
      freeAttempt now endNow :: List.replicate 4 (freeAttempt now endNow) := rfl
  have hne : (tryUpdateRunStatus lib run.ns run.labels.pipelineName
      (c.listRunKJobs run.ns run.name) (freeAttempt now endNow)
      { keyName := run.name, store := store }).2 ≠ .conflict := by
    rw [hfirst]
    show AttemptVerdict.failed ≠ .conflict
    decide
  rw [updateRunStatus, hattempts, retryOnConflict_cons_of_ne hne, hfirst]
  rfl

/-- The run ends the execution of the pipeline that the machine shows. -/
theorem Shows.endedRun (hx : Shows ns name w x) {run : Run}
    (hrun : run ∈ w.store.runs) (hns : run.ns = ns) (hlabel : run.labels.pipelineName = name)
    (hends : EndsExecution run (w.store.cluster.listRunKJobs run.ns run.name)) :
    x.endedRun run.name = true := by
  obtain ⟨stored, hstored, hcore⟩ := hx.stored
  have hkey := getPipeline_key hstored
  have hsameNs : x.pipeline.val.ns = ns := (ns_of_core hcore).symm.trans hkey.1
  have hsameName : x.pipeline.val.name = name := (name_of_core hcore).symm.trans hkey.2
  rw [ScheduleWorld.endedRun, hx.runs, List.any_eq_true]
  refine ⟨run, hrun, ?_⟩
  rw [Cluster.listRunKJobs, ← hx.kjobs] at hends
  exact decide_eq_true ⟨hns.trans hsameNs.symm, rfl, hlabel.trans hsameName.symm, hends⟩

/-- The end date that a run sets on its pipeline. -/
theorem endDate_follows {run : Run} {pipeline : Pipeline} (endNow : Time)
    (hpipeline : getPipeline w.store.pipelines run.ns run.labels.pipelineName = some pipeline)
    (hrun : run ∈ w.store.runs)
    (hends : EndsExecution run (w.store.cluster.listRunKJobs run.ns run.name)) :
    Mirrors lib start ns name w
      { w with
        store.pipelines := updateStatusOfPipeline w.store.pipelines { pipeline with
          status.scheduleLastExecutionEndDate := some endNow.stored } } := by
  have hkey := getPipeline_key hpipeline
  by_cases hown : pipeline.ns = ns ∧ pipeline.name = name
  · refine .single (.finishRun run.name endNow) rfl ?_
    intro x hx
    have hended : x.endedRun run.name = true :=
      hx.endedRun hrun (hkey.1.symm.trans hown.1) (hkey.2.symm.trans hown.2) hends
    rw [← hkey.1, ← hkey.2, hown.1, hown.2] at hpipeline
    have hstatus : x.status = pipeline.status := (status_of_core (hx.core_eq hpipeline)).symm
    have hwritten := hx.writeStatus
      { pipeline with status.scheduleLastExecutionEndDate := some endNow.stored } hown.1 hown.2
    refine ⟨_, ?_, hwritten⟩
    simp only [ScheduleWorld.step, hended, if_true, hstatus]
  · exact .still fun x hx => hx.otherStatus
      { pipeline with status.scheduleLastExecutionEndDate := some endNow.stored } hown

/-- The status of the run in hand, and of its pipeline if the run has ended. -/
theorem RunReconciler.writeStatus_follows {run : Run} {pipeline : Pipeline} (now endNow : Time)
    (hpipeline : getPipeline w.store.pipelines run.ns run.labels.pipelineName = some pipeline)
    (hlabel : ∀ stored, getRun w.store.runs run.ns run.name = some stored →
      stored.labels.pipelineName = run.labels.pipelineName) :
    Mirrors lib start ns name w (writeStatus lib run now endNow w).1 := by
  unfold writeStatus
  simp only
  cases hget : getRun w.store.runs run.ns run.name with
  | none =>
      rw [updateRunStatus_missing lib w.store.cluster now endNow hget]
      exact .refl w
  | some stored =>
      obtain ⟨t, hupdate, hstore⟩ := updateRunStatus_free lib
        { runs := w.store.runs, pipelines := w.store.pipelines } w.store.cluster now endNow hget
        hpipeline
      have hkey := getRun_key hget
      rw [hupdate, hstore]
      simp only [statusWritten]
      by_cases hends : EndsExecution stored (w.store.cluster.listRunKJobs run.ns run.name)
      · have hstored : stored ∈ w.store.runs := List.mem_of_find?_eq_some hget
        have hlisted := hends
        rw [← hkey.1, ← hkey.2] at hlisted
        rw [← hkey.1, ← hlabel stored hget] at hpipeline
        simp only [if_pos hends]
        exact (endDate_follows endNow hpipeline hstored hlisted).trans (.runs _)
      · simp only [if_neg hends]
        exact .runs _

theorem pipelineName_of_same {before after : Run} (hsame : SameRun before after) :
    after.labels.pipelineName = before.labels.pipelineName :=
  congrArg (fun run => run.labels.pipelineName) hsame.intent

/-- A reconcile of any run, however it ends. -/
theorem RunReconciler.reconcile_follows (hw : KeyedStore w.store) (ns' name' : String)
    (now endNow : Time) :
    Mirrors lib start ns name w (reconcile lib ns' name' now endNow w).1 := by
  unfold reconcile
  split
  · exact .refl w
  · next run hrun =>
      split
      · exact .refl w
      · next pipeline hpipeline =>
          have hmem : run ∈ w.store.runs := List.mem_of_find?_eq_some hrun
          have hpass := ensureVolumeList_extends lib pipeline hw hmem
          unfold reconcileStored
          simp only
          generalize ensureVolumeList lib pipeline (volumePass (withRunName run)
            { w.store with runs := replaceRun w.store.runs (withRunName run) }) = volumes at hpass
          obtain ⟨pass, result⟩ := volumes
          have hvolumes : Mirrors lib start ns name w
              { w with store.runs := pass.store.runs, store.pvcs := pass.store.pvcs } :=
            .trans (.runs pass.store.runs) (.pvcs pass.store.pvcs)
          cases result with
          | error _ => exact hvolumes
          | ok _ =>
              refine hvolumes.trans ?_
              unfold deploy
              simp only
              generalize ensureKJobList lib pass.run w.store.cluster = deployed
              obtain ⟨cluster, result⟩ := deployed
              cases result with
              | error _ => exact .cluster cluster
              | ok _ =>
                  have hsame : SameRun (withRunName run) pass.run := hpass.inHand
                  have hns : pass.run.ns = ns' := hsame.ns.trans (getRun_key hrun).1
                  have hlabel : pass.run.labels.pipelineName = run.labels.pipelineName :=
                    (pipelineName_of_same hsame).trans rfl
                  rw [← hns, ← hlabel] at hpipeline
                  refine .trans (.cluster cluster) (writeStatus_follows now endNow hpipeline ?_)
                  intro stored hstored
                  have hkey := getRun_key hstored
                  have hsame := hpass.standsFor stored (List.mem_of_find?_eq_some hstored)
                    (Prod.ext hkey.1 hkey.2)
                  exact (pipelineName_of_same hsame).symm

/-! ## Everybody else -/

/-- Users leave the pipeline stored, and keep its status. -/
def KeepsPipeline (ns name : String) (w : OperatorWorld) : OperatorAction → Prop
  | .environment ns' objects =>
      KeyedStore (objects.replaceIn ns' w.store) ∧
        ∃ after, getPipeline (objects.replaceIn ns' w.store).pipelines ns name = some after ∧
          ∀ before ∈ getPipeline w.store.pipelines ns name,
            after.status = before.status ∧ after.creationTimestamp = before.creationTimestamp
  | .reconcilePipeline .. | .reconcileRun .. | .execute .. => True

/-- Such a change is an edit of the spec, with other runs and jobs. -/
theorem environment_follows {ns' : String} {objects : ObjectStore}
    (hkeeps : KeepsPipeline ns name w (.environment ns' objects)) :
    Mirrors lib start ns name w { w with store := objects.replaceIn ns' w.store } := by
  obtain ⟨-, after, hafter, hsame⟩ := hkeeps
  have hedited : Mirrors lib start ns name w
      { w with store.pipelines := (objects.replaceIn ns' w.store).pipelines } := by
    refine .single (.edit after.spec) rfl ?_
    intro x hx
    refine ⟨_, rfl, { hx with pipeline := ?_ }⟩
    obtain ⟨before, hbefore, hcore⟩ := hx.stored
    obtain ⟨hstatus, hcreated⟩ := hsame before hbefore
    have hkey := getPipeline_key hafter
    have hbeforeKey := getPipeline_key hbefore
    rw [hafter, Option.map_some, Versioned.write_val]
    have hspec : pipelineCore { before with spec := after.spec } =
        pipelineCore { x.pipeline.val with spec := after.spec } :=
      congr_core (f := fun p => pipelineCore { p with spec := after.spec }) (fun _ => rfl) hcore
    rw [← hspec]
    simp only [pipelineCore, hstatus, hcreated, hkey.1, hkey.2, hbeforeKey.1, hbeforeKey.2]
  exact hedited.trans (.trans (.runs _) (.trans (.cluster _) (.pvcs _)))

/-! ## The simulation -/

/-- Every action of the operator, and every change by users that keeps the
pipeline. -/
theorem action_follows (hw : KeyedStore w.store) {a : OperatorAction}
    (ha : KeepsPipeline ns name w a) :
    KeyedStore (w.step lib a).store ∧ Mirrors lib start ns name w (w.step lib a) := by
  have hnoted : ∀ {ns' : String} {after : OperatorWorld × ReconcileResult},
      Mirrors lib start ns name w after.1 →
      Mirrors lib start ns name w (OperatorWorld.note ns' after) := by
    intro ns' after hfollows
    exact hfollows.trans (.still fun x hx => { hx with })
  have hkeyed : ∀ b : OperatorAction, b.ByOperator → KeyedStore (w.step lib b).store :=
    fun b hb => (step_extends lib (.refl hw) hb).keyed
  cases a with
  | reconcilePipeline ns' name' address now =>
      refine ⟨hkeyed _ trivial, ?_⟩
      exact hnoted (PipelineReconciler.reconcile_follows hw ns' name' address now)
  | reconcileRun ns' name' now endNow =>
      refine ⟨hkeyed _ trivial, ?_⟩
      exact hnoted (RunReconciler.reconcile_follows hw ns' name' now endNow)
  | execute pipeline address now =>
      refine ⟨hkeyed _ trivial, ?_⟩
      simp only [OperatorWorld.step]
      split
      · next hmem => exact scheduleExecution_follows hmem address now
      · exact .refl w
  | environment ns' objects => exact ⟨ha.1, environment_follows ha⟩

end Follow

/-- The operator as a machine. -/
def operatorMachine (lib : Externals) (init : OperatorWorld → Prop) :
    Machine OperatorWorld OperatorAction where
  init := init
  step w a := some (w.step lib a)

/-- The pipeline is stored, and no goroutine is asleep. -/
structure StartsWith (start : Pipeline → Prop) (ns name : String) (w : OperatorWorld) : Prop where
  keyed : KeyedStore w.store
  goroutines : w.goroutines = []
  stored : ∃ pipeline, getPipeline w.store.pipelines ns name = some pipeline ∧ start pipeline

/-- The machine of a schedule follows the operator. -/
theorem operator_simulation (lib : Externals) (start : Pipeline → Prop) (ns name : String) :
    Machine.Simulation (operatorMachine lib (StartsWith start ns name)) (KeepsPipeline ns name)
      (scheduleMachine lib start) RecordsInTime
      (fun w x => KeyedStore w.store ∧ Shows ns name w x) where
  init := by
    intro w hw
    obtain ⟨pipeline, hget, hstart⟩ := hw.stored
    refine ⟨{ pipeline := ⟨0, pipeline⟩, runs := w.store.runs, cluster := w.store.cluster },
      ⟨hstart, rfl, rfl⟩, hw.keyed, ?_⟩
    exact
      { pipeline := by rw [hget]; rfl
        runs := rfl
        kjobs := rfl
        copies := by rw [hw.goroutines]; exact .refl _
        settled := by simp }
  step := by
    rintro w a t x ⟨hw, hx⟩ ha ⟨⟩
    obtain ⟨hkeyed, hfollows⟩ : KeyedStore (w.step lib a).store ∧
        Mirrors lib start ns name w (w.step lib a) := action_follows hw ha
    obtain ⟨y, hsteps, hy⟩ := hfollows x hx
    exact ⟨y, hsteps, hkeyed, hy⟩

def hourlyOperator : OperatorWorld where
  store := { pipelines := [hourly false] }

/-- The pipeline is reconciled, and its goroutine executes it an hour later. -/
def hourlyArmed : OperatorWorld :=
  hourlyOperator.step Externals.plain (.reconcilePipeline "team" "hourly" someAddress 0)

def hourlyExecuted : OperatorWorld :=
  hourlyArmed.step Externals.plain
    (.execute (hourlyArmed.goroutines.headD {}) someAddress (3600 * Time.second))

end PipelineOperator.Controller
