import PipelineOperator.Controller.VolumeList
import PipelineOperator.Lib.Machine

/-!
# Who owns a persistent volume

A volume with the lifecycle `persistent` is created once and never deleted, so
its claim must not have an owner.  Claims are shared by name, and each pass
writes the owners of its own run's view.  The machine here takes passes over
the runs of a namespace in any order, any of them broken off by a refused
write, while runs, pipelines and claims come and go.

The keys of the runs that exist and have completed a pass are kept beside the
store; nothing in the code reads them.

## Main results

* `PersistentUnowned.pass`: a pass that respects what other runs list as
  persistent keeps their claims unowned.
* `persistent_unowned`: so does every run of the machine made of such passes.
* `shared_volume_owned`: one pass that does not is enough for an owner.
-/

namespace PipelineOperator.Controller

open PipelineOperator.Lib
open PipelineOperator.Api

/-! ## The machine -/

structure VolumeWorld where
  pipelines : List Pipeline := []
  store : VolumeStore := {}
  settled : List (String × String) := []
  deriving Repr, DecidableEq

/-- A pass over a run, with the number of writes that are accepted, and what
happens between passes: runs are created and deleted, claims are deleted or
changed by the cluster (a class is filled in, storage is resized), and the
pipelines change. -/
inductive VolumeAction where
  | pass (ns name : String) (accepted : Nat)
  | createRun (run : Run)
  | deleteRun (ns name : String)
  | deletePvc (ns name : String)
  | changePvc (ns name : String) (storage : Option Quantity) (storageClassName : Option String)
  | setPipelines (pipelines : List Pipeline)
  deriving Repr, DecidableEq

/-- A pass over a stored run, by way of the pipeline of its label. -/
def VolumeWorld.passOver (lib : Externals) (s : VolumeWorld) (run : Run) (pipeline : Pipeline)
    (accepted : Nat) : VolumeWorld :=
  match ensureVolumeList lib pipeline { run := run, store := s.store, accepted := accepted } with
  | (pass, .ok ()) => { s with store := pass.store, settled := runKey run :: s.settled }
  | (pass, .error _) => { s with store := pass.store }

def VolumeWorld.step (lib : Externals) (s : VolumeWorld) : VolumeAction → Option VolumeWorld
  | .pass ns name accepted =>
      match getRun s.store.runs ns name with
      | none => none
      | some run =>
          match getPipeline s.pipelines ns run.labels.pipelineName with
          | none => none
          | some pipeline => some (s.passOver lib run pipeline accepted)
  | .createRun run =>
      if (getRun s.store.runs run.ns run.name).isSome then none
      else some { s with
        store.runs := s.store.runs ++ [run]
        settled := s.settled.filter fun key => key ≠ runKey run }
  | .deleteRun ns name => some { s with
      store.runs := s.store.runs.filter fun run => runKey run ≠ (ns, name)
      settled := s.settled.filter fun key => key ≠ (ns, name) }
  | .deletePvc ns name => some { s with
      store.pvcs := s.store.pvcs.filter fun pvc => (pvc.ns, pvc.name) ≠ (ns, name) }
  | .changePvc ns name storage storageClassName => some { s with
      store.pvcs := s.store.pvcs.map fun pvc =>
        if (pvc.ns, pvc.name) = (ns, name) then
          { pvc with storage := storage, storageClassName := storageClassName }
        else pvc }
  | .setPipelines pipelines => some { s with pipelines := pipelines }

/-- The machine of the volumes: runs have different keys, and no pass has been
made. -/
def volumeMachine (lib : Externals) : Machine VolumeWorld VolumeAction where
  init s := Keyed runKey s.store.runs ∧ s.settled = []
  step := VolumeWorld.step lib

/-! ## What is to hold -/

/-- The run lists a volume of the name as persistent. -/
def ListsPersistent (run : Run) (name : String) : Prop :=
  ∃ volume ∈ run.spec.volumes, volume.name = name ∧ volume.scope = .persistent

instance (run : Run) (name : String) : Decidable (ListsPersistent run name) := by
  unfold ListsPersistent
  infer_instance

/-- A claim that a run lists as persistent has no owner, from the end of a pass
over that run on and for as long as the run exists. -/
def PersistentUnowned (s : VolumeWorld) : Prop :=
  ∀ run ∈ s.store.runs, runKey run ∈ s.settled → ∀ volume ∈ run.spec.volumes,
    volume.scope = .persistent →
      ∀ pvc ∈ getPvc s.store.pvcs run.ns volume.name, pvc.ownerReferences = []

/-- The run lists with another lifecycle nothing that it lists as persistent
itself, or that a run of its namespace that has completed a pass does. -/
def RespectsOthers (s : VolumeWorld) (run : Run) : Prop :=
  ∀ volume ∈ run.spec.volumes, volume.scope = .persistent ∨
    ¬ ListsPersistent run volume.name ∧
      ∀ other ∈ s.store.runs, ¬ (other.ns = run.ns ∧ runKey other ∈ s.settled ∧
        ListsPersistent other volume.name)

instance (s : VolumeWorld) (run : Run) : Decidable (RespectsOthers s run) := by
  unfold RespectsOthers
  infer_instance

/-- Passes are made over such runs only. -/
def RespectsPersistent (s : VolumeWorld) : VolumeAction → Prop
  | .pass ns name _ => ∀ run, getRun s.store.runs ns name = some run → RespectsOthers s run
  | _ => True

instance (s : VolumeWorld) (a : VolumeAction) : Decidable (RespectsPersistent s a) :=
  match a with
  | .pass ns name _ =>
      match h : getRun s.store.runs ns name with
      | none => .isTrue (by simp [RespectsPersistent, h])
      | some run => decidable_of_iff (RespectsOthers s run) (by simp [RespectsPersistent, h])
  | .createRun _ | .deleteRun _ _ | .deletePvc _ _ | .changePvc _ _ _ _ | .setPipelines _ =>
      .isTrue trivial

/-! ## Views of the runs -/

theorem scope_eq_persistent_iff (volume : VolumeResource) :
    volume.scope = .persistent ↔ volume.lifecycle = "persistent" := by
  unfold VolumeResource.scope VolumeLifecycle.ofText
  split
  · next h => simp [h]
  · next h =>
      split
      · simp [h]
      · split
        · simp [h]
        · simp [h]

theorem listsPersistent_iff (run : Run) (name : String) :
    ListsPersistent run name ↔ (name, "persistent") ∈ listing run := by
  unfold ListsPersistent listing
  constructor
  · rintro ⟨volume, hvolume, hname, hscope⟩
    rw [List.mem_map]
    exact ⟨volume, hvolume, by rw [hname, (scope_eq_persistent_iff volume).mp hscope]⟩
  · intro hmem
    obtain ⟨volume, hvolume, hpair⟩ := List.mem_map.mp hmem
    have hparts := Prod.mk.inj hpair
    exact ⟨volume, hvolume, hparts.1, (scope_eq_persistent_iff volume).mpr hparts.2⟩

/-- Runs with the same view list the same volumes as persistent. -/
theorem listsPersistent_congr {run run' : Run} (hview : runView run = runView run')
    (name : String) : ListsPersistent run name ↔ ListsPersistent run' name := by
  have hlisting : listing run = listing run' := congrArg RunView.listing hview
  rw [listsPersistent_iff, listsPersistent_iff, hlisting]

/-- The claim has no owner that `pvcOwners` could show. -/
def Unowned (pvcs : List PersistentVolumeClaim) (ns name : String) : Prop :=
  ∀ owners, pvcOwners pvcs ns name = some owners → owners = []

theorem persistentUnowned_iff (s : VolumeWorld) :
    PersistentUnowned s ↔ ∀ run ∈ s.store.runs, runKey run ∈ s.settled →
      ∀ name, ListsPersistent run name → Unowned s.store.pvcs run.ns name := by
  constructor
  · rintro hall run hrun hsettled name ⟨volume, hvolume, hname, hscope⟩ owners howners
    obtain ⟨pvc, hget, hpvc⟩ := Option.map_eq_some_iff.mp howners
    rw [← hpvc]
    exact hall run hrun hsettled volume hvolume hscope pvc (hname ▸ hget)
  · intro hall run hrun hsettled volume hvolume hscope pvc hget
    refine hall run hrun hsettled volume.name ⟨volume, hvolume, rfl, hscope⟩ _ ?_
    rw [pvcOwners, hget, Option.map_some]

/-! ## Steps -/

/-- A claim stays unowned when the run lists it as persistent, if at all. -/
theorem unowned_after {pipeline : Pipeline} {before after : VolumePass}
    (howners : OwnersFrom pipeline before after) {ns name : String}
    (hold : Unowned before.store.pvcs ns name)
    (hlisted : ns = before.run.ns → ∀ volume ∈ before.run.spec.volumes, volume.name = name →
      volume.scope = .persistent) : Unowned after.store.pvcs ns name := by
  intro owners hsome
  rcases howners ns name with hkept | ⟨hns, volume, hvolume, hname, -, hnew⟩
  · exact hold owners (hkept ▸ hsome)
  · rw [hnew, hlisted hns volume hvolume hname] at hsome
    exact (Option.some.inj hsome).symm

section Step

variable {lib : Externals} {s t : VolumeWorld} {run : Run} {pipeline : Pipeline}

theorem store_passOver (accepted : Nat) :
    (s.passOver lib run pipeline accepted).store =
      (ensureVolumeList lib pipeline
        { run := run, store := s.store, accepted := accepted }).1.store := by
  unfold VolumeWorld.passOver
  split
  · next hpass => rw [hpass]
  · next hpass => rw [hpass]

/-- The run is entered among the settled ones by a pass without an error. -/
theorem settled_passOver {accepted : Nat} {key : String × String}
    (hsettled : key ∈ (s.passOver lib run pipeline accepted).settled) :
    key ∈ s.settled ∨ key = runKey run ∧
      (ensureVolumeList lib pipeline
        { run := run, store := s.store, accepted := accepted }).2 = .ok () := by
  unfold VolumeWorld.passOver at hsettled
  split at hsettled
  · next hpass =>
      rcases List.mem_cons.mp hsettled with hkey | hold
      · exact .inr ⟨hkey, by rw [hpass]⟩
      · exact .inl hold
  · exact .inl hsettled

/-- **One pass.**  If the run respects what others list as persistent, their
claims stay unowned, and if the pass completes, so are its own. -/
theorem PersistentUnowned.pass (hunowned : PersistentUnowned s)
    (hkeys : Keyed runKey s.store.runs) {ns name : String}
    (hget : getRun s.store.runs ns name = some run) (hrespects : RespectsOthers s run)
    (accepted : Nat) : PersistentUnowned (s.passOver lib run pipeline accepted) := by
  have hagrees := agrees_of_getRun hkeys hget
  have hviews := ensureVolumeList_views lib pipeline
    (s := { run := run, store := s.store, accepted := accepted }) hagrees
  rw [persistentUnowned_iff] at hunowned ⊢
  intro after hafter hsettled name hlists
  rw [store_passOver] at hafter ⊢
  obtain ⟨old, hold, hsame⟩ := exists_of_map_eq hviews.runs.symm hafter
  have hview : runView after = runView old := hsame.symm
  have hlistsOld : ListsPersistent old name := (listsPersistent_congr hview name).mp hlists
  rw [show after.ns = old.ns from congrArg RunView.ns hview]
  rw [runKey_congr hview] at hsettled
  rcases settled_passOver hsettled with hbefore | ⟨hkey, hok⟩
  · -- The other run has completed a pass before: its claims keep having no owner.
    apply unowned_after (ensureVolumeList_owners lib pipeline hagrees)
      (hunowned old hold hbefore name hlistsOld)
    intro hns volume hvolume hname
    rcases hrespects volume hvolume with hscope | ⟨-, hothers⟩
    · exact hscope
    · exact absurd ⟨hns, hbefore, hname ▸ hlistsOld⟩ (hothers old hold)
  · -- The pass over this very run has completed.
    obtain ⟨hns, hname⟩ := Prod.mk.inj hkey
    have hself : runView old = runView run :=
      hagrees (runView old) (List.mem_map_of_mem hold) hns hname
    obtain ⟨volume, hvolume, hvolumeName, hvolumeScope⟩ :=
      (listsPersistent_congr hself name).mp hlistsOld
    obtain ⟨last, hlast, hlastName, howners⟩ :=
      ensureVolumeList_done lib pipeline hagrees hok volume hvolume
    have hpersistent : last.scope = .persistent := by
      rcases hrespects last hlast with hscope | ⟨hown, -⟩
      · exact hscope
      · exact absurd ⟨volume, hvolume, hlastName.symm, hvolumeScope⟩ hown
    intro owners hsome
    rw [hns, ← hvolumeName, howners, hpersistent] at hsome
    exact (Option.some.inj hsome).symm

/-- Creating a run under a new key. -/
theorem PersistentUnowned.createRun (hunowned : PersistentUnowned s) (run : Run) :
    PersistentUnowned { s with
      store.runs := s.store.runs ++ [run]
      settled := s.settled.filter fun key => key ≠ runKey run } := by
  intro other hother hsettled
  obtain ⟨hsettled, hne⟩ := List.mem_filter.mp hsettled
  rcases List.mem_append.mp hother with hold | hnew
  · exact hunowned other hold hsettled
  · rw [List.mem_singleton.mp hnew] at hne
    simp at hne

theorem PersistentUnowned.deleteRun (hunowned : PersistentUnowned s) (ns name : String) :
    PersistentUnowned { s with
      store.runs := s.store.runs.filter fun run => runKey run ≠ (ns, name)
      settled := s.settled.filter fun key => key ≠ (ns, name) } := by
  intro other hother hsettled
  exact hunowned other (List.mem_of_mem_filter hother) (List.mem_of_mem_filter hsettled)

/-- Claims that have gone, or have changed in anything but their owners. -/
theorem PersistentUnowned.ofPvcs (hunowned : PersistentUnowned s)
    {pvcs : List PersistentVolumeClaim}
    (howners : ∀ ns name owners, pvcOwners pvcs ns name = some owners →
      pvcOwners s.store.pvcs ns name = some owners) :
    PersistentUnowned { s with store.pvcs := pvcs } := by
  rw [persistentUnowned_iff] at hunowned ⊢
  intro run hrun hsettled name hlists owners hsome
  exact hunowned run hrun hsettled name hlists owners (howners _ _ _ hsome)

theorem pvcOwners_delete (pvcs : List PersistentVolumeClaim) (key : String × String)
    {ns name : String} {owners : List OwnerReference}
    (hsome : pvcOwners (pvcs.filter fun pvc => (pvc.ns, pvc.name) ≠ key) ns name = some owners) :
    pvcOwners pvcs ns name = some owners := by
  unfold pvcOwners getPvc at hsome ⊢
  by_cases hkey : (ns, name) = key
  · obtain ⟨pvc, hfind, -⟩ := Option.map_eq_some_iff.mp hsome
    have hfound : pvc.ns = ns ∧ pvc.name = name := by simpa using List.find?_some hfind
    have hkept := (List.mem_filter.mp (List.mem_of_find?_eq_some hfind)).2
    rw [hfound.1, hfound.2, hkey] at hkept
    simp at hkept
  · rw [List.find?_filter] at hsome
    have htests : (fun pvc : PersistentVolumeClaim => decide (pvc.ns = ns ∧ pvc.name = name)) =
        fun pvc => decide (decide ((pvc.ns, pvc.name) ≠ key) = true ∧
          decide (pvc.ns = ns ∧ pvc.name = name) = true) := by
      funext pvc
      by_cases hpvc : pvc.ns = ns ∧ pvc.name = name
      · simp [hpvc, hkey]
      · simp [hpvc]
    rw [htests]
    exact hsome

theorem pvcOwners_change (pvcs : List PersistentVolumeClaim) (key : String × String)
    (storage : Option Quantity) (storageClassName : Option String) (ns name : String) :
    pvcOwners (pvcs.map fun pvc => if (pvc.ns, pvc.name) = key then
        { pvc with storage := storage, storageClassName := storageClassName } else pvc) ns name =
      pvcOwners pvcs ns name := by
  unfold pvcOwners getPvc
  rw [List.find?_map, Option.map_map]
  have htest : (fun pvc : PersistentVolumeClaim => decide (pvc.ns = ns ∧ pvc.name = name)) ∘
      (fun pvc => if (pvc.ns, pvc.name) = key then
        { pvc with storage := storage, storageClassName := storageClassName } else pvc) =
        fun pvc => decide (pvc.ns = ns ∧ pvc.name = name) := by
    funext pvc
    simp only [Function.comp_apply]
    split <;> rfl
  rw [htest]
  congr 1
  funext pvc
  simp only [Function.comp_apply]
  split <;> rfl

end Step

/-- What every step keeps. -/
structure KeptUnowned (s : VolumeWorld) : Prop where
  keys : Keyed runKey s.store.runs
  unowned : PersistentUnowned s

theorem KeptUnowned.init {lib : Externals} {s : VolumeWorld} (h : (volumeMachine lib).init s) :
    KeptUnowned s where
  keys := h.1
  unowned := by
    intro run _ hsettled
    rw [h.2] at hsettled
    cases hsettled

theorem KeptUnowned.step {lib : Externals} {s t : VolumeWorld} (hkept : KeptUnowned s)
    {a : VolumeAction} (hrespects : RespectsPersistent s a) (hstep : s.step lib a = some t) :
    KeptUnowned t := by
  cases a with
  | pass ns name accepted =>
      simp only [VolumeWorld.step] at hstep
      split at hstep
      · cases hstep
      · next run hget =>
          split at hstep
          · cases hstep
          · next pipeline _ =>
              cases hstep
              have hagrees := agrees_of_getRun hkept.keys hget
              exact
                { keys := by
                    rw [store_passOver]
                    exact keyed_of_views (ensureVolumeList_views lib pipeline hagrees).runs
                      hkept.keys
                  unowned := hkept.unowned.pass hkept.keys hget (hrespects run hget) accepted }
  | createRun run =>
      simp only [VolumeWorld.step] at hstep
      split at hstep
      · cases hstep
      · next hmissing =>
          cases hstep
          have hfree : getRun s.store.runs run.ns run.name = none := by simpa using hmissing
          exact
            { keys := hkept.keys.concat (ne_of_getRun hfree)
              unowned := hkept.unowned.createRun run }
  | deleteRun ns name =>
      cases hstep
      exact
        { keys := hkept.keys.sublist (List.filter_sublist.map runKey)
          unowned := hkept.unowned.deleteRun ns name }
  | deletePvc ns name =>
      cases hstep
      exact
        { keys := hkept.keys
          unowned := hkept.unowned.ofPvcs fun _ _ _ => pvcOwners_delete _ _ }
  | changePvc ns name storage storageClassName =>
      cases hstep
      exact
        { keys := hkept.keys
          unowned := hkept.unowned.ofPvcs fun ns' name' _ hsome =>
            pvcOwners_change s.store.pvcs (ns, name) storage storageClassName ns' name' ▸ hsome }
  | setPipelines pipelines =>
      cases hstep
      exact
        { keys := hkept.keys
          unowned := hkept.unowned }

/-- **Persistent volumes stay unowned** in every run of the machine whose passes
respect what others list as persistent. -/
theorem persistent_unowned (lib : Externals) {s : VolumeWorld}
    (h : (volumeMachine lib).Reach RespectsPersistent s) : PersistentUnowned s :=
  (h.invariant (fun _ => KeptUnowned.init)
    fun _ _ _ hkept hrespects hstep => hkept.step hrespects hstep).unowned

def modelsVolume : VolumeResource where
  name := "models"
  capacity := "1Gi"
  storage := "nfs"
  lifecycle := "persistent"

/-- A run that keeps its models for good, and a run of another pipeline that
lists one volume as its own pipeline's. -/
def trainRun : Run where
  name := "train-1"
  ns := "team"
  labels := { pipelineName := "train" }
  spec.volumes := [modelsVolume]

def reportRun (volumeName : String) : Run where
  name := "report-1"
  ns := "team"
  labels := { pipelineName := "report" }
  spec.volumes := [{ name := volumeName, capacity := "1Gi", storage := "nfs" }]

def twoPipelines (volumeName : String) : VolumeWorld where
  pipelines := [{ name := "train", ns := "team" }, { name := "report", ns := "team" }]
  store := { runs := [trainRun, reportRun volumeName] }

theorem twoPipelines_init (volumeName : String) :
    (volumeMachine Externals.plain).init (twoPipelines volumeName) := by
  have hkeys : (twoPipelines volumeName).store.runs.map runKey =
      [("team", "train-1"), ("team", "report-1")] := rfl
  refine ⟨?_, rfl⟩
  rw [Keyed, hkeys]
  decide

/-- Each run is reconciled twice. -/
def bothTwice : List VolumeAction :=
  [ .pass "team" "train-1" 4
  , .pass "team" "report-1" 4
  , .pass "team" "train-1" 4
  , .pass "team" "report-1" 4 ]

def separateVolumes : VolumeWorld :=
  ((volumeMachine Externals.plain).exec RespectsPersistent (twoPipelines "scratch")
    bothTwice).getD {}

theorem persistent_unowned_separate : PersistentUnowned separateVolumes := by
  have hexec : (volumeMachine Externals.plain).exec RespectsPersistent (twoPipelines "scratch")
      bothTwice = some separateVolumes := by
    decide +kernel
  exact persistent_unowned Externals.plain
    (Machine.reach_of_exec _ (twoPipelines_init "scratch") hexec)

def sharedVolume : VolumeWorld :=
  ((volumeMachine Externals.plain).exec (fun _ _ => True) (twoPipelines "models")
    bothTwice).getD {}

/-- With one claim for both, the pass over the second run makes its pipeline
the owner of the models. -/
theorem shared_volume_owned :
    (volumeMachine Externals.plain).Reachable sharedVolume ∧
      ¬ PersistentUnowned sharedVolume := by
  have hexec : (volumeMachine Externals.plain).exec (fun _ _ => True) (twoPipelines "models")
      bothTwice = some sharedVolume := by
    decide +kernel
  refine ⟨Machine.reach_of_exec _ (twoPipelines_init "models") hexec, ?_⟩
  rw [persistentUnowned_iff]
  intro hall
  have hlisted : ∃ run ∈ sharedVolume.store.runs, runKey run ∈ sharedVolume.settled ∧
      ListsPersistent run "models" ∧ run.ns = "team" := by
    decide +kernel
  have howners : pvcOwners sharedVolume.store.pvcs "team" "models" =
      some [⟨.pipeline, "report"⟩] := by
    decide +kernel
  obtain ⟨run, hrun, hsettled, hlists, hns⟩ := hlisted
  exact absurd (hall run hrun hsettled "models" hlists _ (hns ▸ howners)) (by simp)

end PipelineOperator.Controller
