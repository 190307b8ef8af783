import PipelineOperator.Controller.RunExists
import PipelineOperator.Lib.Keyed
import PipelineOperator.Lib.Walk

/-!
# `ensureVolumeList`

A reconcile of a run walks over the volumes of its spec.  A volume whose
persistent volume claim is missing gets one; otherwise the volume is rewritten
from the claim, and the claim loses its owners and gets those that this run
has in mind.  Claims are found by the name of the volume alone, so runs of
different pipelines come across each other's claims.

The API server accepts some of the writes of a pass and then no more, which
ends the pass where it stands.  Passes do not run at the same time: one worker
reconciles the runs, and nobody else writes claims.

## Main results

* `VolumeEffect.owners`: the owners of a claim after one volume.
* `ensureVolumeList_views`: a pass changes of the stored runs no more than what
  their volumes say about the storage.
* `ensureVolumeList_owners`, `ensureVolumeList_done`: the owners of a claim
  after a pass, and after one without an error.
-/

namespace PipelineOperator.Controller

open PipelineOperator.Lib
open PipelineOperator.Api

/-! ## The store -/

/-- The runs and the persistent volume claims the API server holds. -/
structure VolumeStore where
  runs : RunStore := []
  pvcs : List PersistentVolumeClaim := []
  deriving Repr, DecidableEq

def getPvc (pvcs : List PersistentVolumeClaim) (ns name : String) :
    Option PersistentVolumeClaim :=
  pvcs.find? fun pvc => pvc.ns = ns ∧ pvc.name = name

/-- The key under which a claim is stored. -/
def pvcKey (pvc : PersistentVolumeClaim) : String × String := (pvc.ns, pvc.name)

def replacePvc (pvcs : List PersistentVolumeClaim) (pvc : PersistentVolumeClaim) :
    List PersistentVolumeClaim :=
  pvcs.map fun p => if p.ns = pvc.ns ∧ p.name = pvc.name then pvc else p

/-- An update of a run: everything but its status, which has a writer of its
own. -/
def replaceRun (runs : RunStore) (run : Run) : RunStore :=
  runs.map fun r => if r.ns = run.ns ∧ r.name = run.name then { run with status := r.status } else r

/-! ## The pass -/

/-- A pass: the run in the hands of the reconcile, the API server, and how many
more writes it accepts. -/
structure VolumePass where
  run : Run
  store : VolumeStore
  accepted : Nat
  deriving Repr, DecidableEq

/-- A write, if the API server accepts it. -/
def VolumePass.write (s : VolumePass) (change : VolumeStore → VolumeStore) :
    VolumePass × Except String Unit :=
  match s.accepted with
  | 0 => (s, .error "the API server has refused a write")
  | accepted + 1 => ({ s with store := change s.store, accepted := accepted }, .ok ())

/-- `ctrl.SetControllerReference` on a claim without owners, unless it is
persistent.  No owner is found for a lifecycle that is not declared. -/
def setPvcOwner (pipeline : Pipeline) (run : Run) (scope : VolumeLifecycle)
    (pvc : PersistentVolumeClaim) : Except String PersistentVolumeClaim :=
  match scope with
  | .persistent => return pvc
  | .pipelineScope => do
      validateOwner pipeline.ns pvc.ns
      return { pvc with ownerReferences := pvc.ownerReferences ++ [⟨.pipeline, pipeline.name⟩] }
  | .runScope => do
      validateOwner run.ns pvc.ns
      return { pvc with ownerReferences := pvc.ownerReferences ++ [⟨.run, run.name⟩] }
  | .undeclared =>
      .error "<nil> is not a runtime.Object, cannot call SetControllerReference"

/-- The claim that is created for a volume. -/
def newPvc (lib : Externals) (pipeline : Pipeline) (run : Run) (volume : VolumeResource) :
    Except String PersistentVolumeClaim := do
  let pvc ← parsePvcFromVolumeResourceWithMeta lib volume.name run.ns volume
  setPvcOwner pipeline run volume.scope pvc

/-- What the spec of the run says of a volume whose claim has been fetched. -/
def fetchedVolume (pvcQuery : PersistentVolumeClaim) (storage lifecycle : String) :
    VolumeResource where
  name := pvcQuery.name
  capacity := (pvcQuery.storage.getD .zero).canonical
  storage := storage
  lifecycle := lifecycle

/-- The run after a volume has been rewritten from its claim. -/
def withFetchedVolume (run : Run) (entry : VolumeResource × Nat)
    (pvcQuery : PersistentVolumeClaim) (storage : String) : Run :=
  { run with spec.volumes :=
      run.spec.volumes.set entry.2 (fetchedVolume pvcQuery storage entry.1.lifecycle) }

/-- The volume of a claim that exists: the run is updated, then the claim. -/
def reconcileVolume (pipeline : Pipeline) (entry : VolumeResource × Nat)
    (pvcQuery : PersistentVolumeClaim) (storage : String) (s : VolumePass) :
    VolumePass × Except String Unit :=
  let s := { s with run := withFetchedVolume s.run entry pvcQuery storage }
  match s.write fun store => { store with runs := replaceRun store.runs s.run } with
  | (s, .error e) => (s, .error e)
  | (s, .ok ()) =>
      match setPvcOwner pipeline s.run entry.1.scope { pvcQuery with ownerReferences := [] } with
      | .error e => (s, .error e)
      | .ok pvc => s.write fun store => { store with pvcs := replacePvc store.pvcs pvc }

/-- The error of an access through a nil pointer. -/
def nilDereference : String := "runtime error: invalid memory address or nil pointer dereference"

/-- The body of the loop, on a volume and its index. -/
def ensureVolume (lib : Externals) (pipeline : Pipeline) (entry : VolumeResource × Nat)
    (s : VolumePass) : VolumePass × Except String Unit :=
  match getPvc s.store.pvcs s.run.ns entry.1.name with
  | none =>
      match newPvc lib pipeline s.run entry.1 with
      | .error e => (s, .error e)
      | .ok pvc => s.write fun store => { store with pvcs := store.pvcs ++ [pvc] }
  | some pvcQuery =>
      match pvcQuery.storageClassName with
      | none => (s, .error nilDereference)
      | some storage => reconcileVolume pipeline entry pvcQuery storage s

def ensureVolumeList (lib : Externals) (pipeline : Pipeline) (s : VolumePass) :
    VolumePass × Except String Unit :=
  walk (ensureVolume lib pipeline) s.run.spec.volumes.zipIdx s

/-! ## Claims and their owners -/

/-- The owners that a run gives a claim. -/
def ownersOf (pipeline : Pipeline) (run : Run) : VolumeLifecycle → List OwnerReference
  | .persistent | .undeclared => []
  | .pipelineScope => [⟨.pipeline, pipeline.name⟩]
  | .runScope => [⟨.run, run.name⟩]

/-- The owners of a stored claim. -/
def pvcOwners (pvcs : List PersistentVolumeClaim) (ns name : String) :
    Option (List OwnerReference) :=
  (getPvc pvcs ns name).map PersistentVolumeClaim.ownerReferences

theorem getPvc_key {pvcs : List PersistentVolumeClaim} {ns name : String}
    {pvc : PersistentVolumeClaim} (hget : getPvc pvcs ns name = some pvc) :
    pvc.ns = ns ∧ pvc.name = name := by
  simpa using List.find?_some hget

theorem getPvc_append (pvcs : List PersistentVolumeClaim) (pvc : PersistentVolumeClaim)
    (ns name : String) :
    getPvc (pvcs ++ [pvc]) ns name =
      (getPvc pvcs ns name).or (if pvc.ns = ns ∧ pvc.name = name then some pvc else none) := by
  unfold getPvc
  rw [List.find?_append]
  congr 1
  by_cases hkey : pvc.ns = ns ∧ pvc.name = name
  · simp [hkey]
  · simp [hkey]

theorem getPvc_replacePvc (pvcs : List PersistentVolumeClaim) (pvc : PersistentVolumeClaim)
    (ns name : String) :
    getPvc (replacePvc pvcs pvc) ns name =
      (getPvc pvcs ns name).map fun p =>
        if p.ns = pvc.ns ∧ p.name = pvc.name then pvc else p := by
  unfold getPvc replacePvc
  apply find?_map_kept
  intro p
  split
  · next hkey => rw [hkey.1, hkey.2]
  · rfl

/-- An update changes the run of its key, up to the status. -/
theorem getRun_replaceRun (runs : RunStore) (run : Run) (ns name : String) :
    getRun (replaceRun runs run) ns name =
      (getRun runs ns name).map fun r =>
        if r.ns = run.ns ∧ r.name = run.name then { run with status := r.status } else r := by
  unfold getRun replaceRun
  apply find?_map_kept
  intro r
  split
  · next hkey => rw [hkey.1, hkey.2]
  · rfl

/-- In the namespace of its pipeline a run finds an owner for every declared
lifecycle. -/
theorem setPvcOwner_declared {pipeline : Pipeline} {run : Run} {scope : VolumeLifecycle}
    {pvc : PersistentVolumeClaim} (hscope : scope ≠ .undeclared) (hpipeline : pipeline.ns = run.ns)
    (hpvc : pvc.ns = run.ns) :
    setPvcOwner pipeline run scope { pvc with ownerReferences := [] } =
      .ok { pvc with ownerReferences := ownersOf pipeline run scope } := by
  cases scope with
  | persistent => rfl
  | pipelineScope =>
      simp [setPvcOwner, ownersOf, validateOwner, hpipeline, hpvc, bind, Except.bind, pure,
        Except.pure]
  | runScope =>
      simp [setPvcOwner, ownersOf, validateOwner, hpvc, bind, Except.bind, pure, Except.pure]
  | undeclared => exact absurd rfl hscope

theorem setPvcOwner_ok {pipeline : Pipeline} {run : Run} {scope : VolumeLifecycle}
    {pvc owned : PersistentVolumeClaim} (hnone : pvc.ownerReferences = [])
    (hset : setPvcOwner pipeline run scope pvc = .ok owned) :
    scope ≠ .undeclared ∧
      owned = { pvc with ownerReferences := ownersOf pipeline run scope } := by
  cases scope with
  | persistent =>
      cases hset
      rw [ownersOf, ← hnone]
      exact ⟨nofun, rfl⟩
  | pipelineScope =>
      obtain ⟨-, -, hset⟩ := bind_ok hset
      cases hset
      rw [hnone, List.nil_append, ownersOf]
      exact ⟨nofun, rfl⟩
  | runScope =>
      obtain ⟨-, -, hset⟩ := bind_ok hset
      cases hset
      rw [hnone, List.nil_append, ownersOf]
      exact ⟨nofun, rfl⟩
  | undeclared => cases hset

/-- A new claim has the key of the volume and the owners for its lifecycle,
which is declared. -/
theorem newPvc_ok {lib : Externals} {pipeline : Pipeline} {run : Run} {volume : VolumeResource}
    {pvc : PersistentVolumeClaim} (hnew : newPvc lib pipeline run volume = .ok pvc) :
    volume.scope ≠ .undeclared ∧ pvc.ns = run.ns ∧ pvc.name = volume.name ∧
      pvc.ownerReferences = ownersOf pipeline run volume.scope := by
  obtain ⟨parsed, hparse, hset⟩ := bind_ok hnew
  obtain ⟨capacity, -, hparse⟩ := bind_ok hparse
  cases hparse
  obtain ⟨hdeclared, rfl⟩ := setPvcOwner_ok rfl hset
  exact ⟨hdeclared, rfl, rfl, rfl⟩

/-! ## One volume -/

/-- What the visit of a volume does to the claims. -/
inductive VolumeEffect (pipeline : Pipeline) (volume : VolumeResource) (s t : VolumePass) :
    Except String Unit → Prop where
  | failed {e : String} (hpvcs : t.store.pvcs = s.store.pvcs) :
      VolumeEffect pipeline volume s t (.error e)
  | created {pvc : PersistentVolumeClaim} (hdeclared : volume.scope ≠ .undeclared)
      (hmissing : getPvc s.store.pvcs s.run.ns volume.name = none)
      (hns : pvc.ns = s.run.ns) (hname : pvc.name = volume.name)
      (howners : pvc.ownerReferences = ownersOf pipeline s.run volume.scope)
      (hpvcs : t.store.pvcs = s.store.pvcs ++ [pvc]) :
      VolumeEffect pipeline volume s t (.ok ())
  | reowned {pvcQuery : PersistentVolumeClaim} (hdeclared : volume.scope ≠ .undeclared)
      (hget : getPvc s.store.pvcs s.run.ns volume.name = some pvcQuery)
      (hpvcs : t.store.pvcs = replacePvc s.store.pvcs
        { pvcQuery with ownerReferences := ownersOf pipeline s.run volume.scope }) :
      VolumeEffect pipeline volume s t (.ok ())

section Volume

variable {lib : Externals} {pipeline : Pipeline} {entry : VolumeResource × Nat}
  {s : VolumePass}

theorem write_cases (s : VolumePass) (change : VolumeStore → VolumeStore) :
    (∃ e, s.write change = (s, .error e)) ∨
      ∃ accepted, s.write change =
        ({ s with store := change s.store, accepted := accepted }, .ok ()) := by
  unfold VolumePass.write
  split
  · exact .inl ⟨_, rfl⟩
  · exact .inr ⟨_, rfl⟩

theorem ownersOf_withFetchedVolume (pipeline : Pipeline) (run : Run)
    (entry : VolumeResource × Nat) (pvcQuery : PersistentVolumeClaim) (storage : String) :
    ownersOf pipeline (withFetchedVolume run entry pvcQuery storage) =
      ownersOf pipeline run := by
  funext scope
  cases scope <;> rfl

theorem reconcileVolume_effect (pipeline : Pipeline) (entry : VolumeResource × Nat)
    (s : VolumePass) {pvcQuery : PersistentVolumeClaim} (storage : String)
    (hget : getPvc s.store.pvcs s.run.ns entry.1.name = some pvcQuery) :
    VolumeEffect pipeline entry.1 s (reconcileVolume pipeline entry pvcQuery storage s).1
      (reconcileVolume pipeline entry pvcQuery storage s).2 := by
  unfold reconcileVolume
  simp only
  generalize hrun : withFetchedVolume s.run entry pvcQuery storage = run
  rcases write_cases { s with run := run }
      fun store => { store with runs := replaceRun store.runs run } with
    ⟨e, hwrite⟩ | ⟨accepted, hwrite⟩
  · rw [hwrite]
    exact .failed rfl
  · rw [hwrite]
    simp only
    split
    · exact .failed rfl
    · next pvc hset =>
        obtain ⟨hdeclared, hpvc⟩ := setPvcOwner_ok rfl hset
        rw [← hrun, ownersOf_withFetchedVolume] at hpvc
        generalize hmid : VolumePass.mk _ _ accepted = mid
        rcases write_cases mid fun store => { store with pvcs := replacePvc store.pvcs pvc } with
          ⟨e, hwrite⟩ | ⟨accepted, hwrite⟩
        · rw [hwrite, ← hmid]
          exact .failed rfl
        · rw [hwrite, ← hmid]
          exact .reowned hdeclared hget (by rw [hpvc])

/-- Every visit has one of the effects. -/
theorem ensureVolume_effect (lib : Externals) (pipeline : Pipeline)
    (entry : VolumeResource × Nat) (s : VolumePass) :
    VolumeEffect pipeline entry.1 s (ensureVolume lib pipeline entry s).1
      (ensureVolume lib pipeline entry s).2 := by
  unfold ensureVolume
  split
  · next hmissing =>
      split
      · exact .failed rfl
      · next pvc hnew =>
          obtain ⟨hdeclared, hns, hname, howners⟩ := newPvc_ok hnew
          rcases write_cases s fun store => { store with pvcs := store.pvcs ++ [pvc] } with
            ⟨e, hwrite⟩ | ⟨accepted, hwrite⟩
          · rw [hwrite]
            exact .failed rfl
          · rw [hwrite]
            exact .created hdeclared hmissing hns hname howners rfl
  · next pvcQuery hget =>
      split
      · exact .failed rfl
      · exact reconcileVolume_effect pipeline entry s _ hget

/-- The claim of the volume has the owners of the run's view when the visit
meets no error. -/
theorem VolumeEffect.owners_self {volume : VolumeResource} {t : VolumePass}
    (heffect : VolumeEffect pipeline volume s t (.ok ())) :
    volume.scope ≠ .undeclared ∧ pvcOwners t.store.pvcs s.run.ns volume.name =
      some (ownersOf pipeline s.run volume.scope) := by
  cases heffect with
  | created hdeclared hmissing hns hname howners hpvcs =>
      rw [pvcOwners, hpvcs, getPvc_append, hmissing, hns, hname]
      exact ⟨hdeclared, by simp [howners]⟩
  | reowned hdeclared hget hpvcs =>
      have hkey := getPvc_key hget
      rw [pvcOwners, hpvcs, getPvc_replacePvc, hget]
      exact ⟨hdeclared, by simp⟩

/-- The owners of a claim after a visit are what they were, unless it is the
claim of the volume. -/
theorem VolumeEffect.owners {volume : VolumeResource} {t : VolumePass}
    {verdict : Except String Unit} (heffect : VolumeEffect pipeline volume s t verdict)
    (ns name : String) :
    pvcOwners t.store.pvcs ns name = pvcOwners s.store.pvcs ns name ∨
      ns = s.run.ns ∧ name = volume.name ∧ volume.scope ≠ .undeclared ∧
        pvcOwners t.store.pvcs ns name = some (ownersOf pipeline s.run volume.scope) := by
  by_cases hkey : ns = s.run.ns ∧ name = volume.name
  · rw [hkey.1, hkey.2]
    cases verdict with
    | error e =>
        cases heffect with
        | failed hpvcs => exact .inl (by rw [hpvcs])
    | ok _ => exact .inr ⟨rfl, rfl, heffect.owners_self⟩
  · left
    cases heffect with
    | failed hpvcs => rw [hpvcs]
    | created _ _ hns hname _ hpvcs =>
        have hother : ¬ (s.run.ns = ns ∧ volume.name = name) :=
          fun h => hkey ⟨h.1.symm, h.2.symm⟩
        rw [pvcOwners, hpvcs, getPvc_append, hns, hname, if_neg hother, Option.or_none, pvcOwners]
    | reowned _ hget hpvcs =>
        have hquery := getPvc_key hget
        rw [pvcOwners, hpvcs, getPvc_replacePvc, pvcOwners]
        cases hfound : getPvc s.store.pvcs ns name with
        | none => rfl
        | some other =>
            have hfoundKey := getPvc_key hfound
            have hother : ¬ (ns = s.run.ns ∧ name = volume.name) := hkey
            simp [hfoundKey, hquery, hother]

end Volume

/-! ## What a pass leaves of the runs -/

/-- The key under which a run is stored. -/
def runKey (run : Run) : String × String := (run.ns, run.name)

/-- What a run lists: the names and lifecycles of its volumes. -/
def listing (run : Run) : List (String × String) :=
  run.spec.volumes.map fun volume => (volume.name, volume.lifecycle)

/-- The part of a run that no pass changes. -/
structure RunView where
  ns : String
  name : String
  labels : RunLabels
  owner : Option OwnerReference
  listing : List (String × String)
  deriving Repr, DecidableEq

def runView (run : Run) : RunView where
  ns := run.ns
  name := run.name
  labels := run.labels
  owner := run.owner
  listing := listing run

/-- The run in the hands of the reconcile is the stored one, as far as the view
goes. -/
def Agrees (run : Run) (runs : RunStore) : Prop :=
  ∀ view ∈ runs.map runView, view.ns = run.ns → view.name = run.name → view = runView run

theorem runKey_congr {run run' : Run} (hview : runView run = runView run') :
    runKey run = runKey run' := by
  have hns : run.ns = run'.ns := congrArg RunView.ns hview
  have hname : run.name = run'.name := congrArg RunView.name hview
  rw [runKey, runKey, hns, hname]

/-- Runs under different keys agree with the one that a lookup finds. -/
theorem agrees_of_getRun {runs : RunStore} (hkeys : Keyed runKey runs) {ns name : String}
    {run : Run} (hget : getRun runs ns name = some run) : Agrees run runs := by
  intro view hview hns hname
  obtain ⟨other, hother, rfl⟩ := List.mem_map.mp hview
  have hrun : run ∈ runs := List.mem_of_find?_eq_some hget
  have hkey : runKey other = runKey run := Prod.ext hns hname
  rw [hkeys.eq_of_key hother hrun hkey]

/-- No run is stored under a key that a lookup does not find. -/
theorem ne_of_getRun {runs : RunStore} {run : Run}
    (hfree : getRun runs run.ns run.name = none) : ∀ other ∈ runs, runKey other ≠ runKey run := by
  intro other hother hkey
  have hparts := Prod.mk.inj hkey
  have hnot := List.find?_eq_none.mp hfree other hother
  simp [hparts.1, hparts.2] at hnot

/-- A lookup sees the views only. -/
theorem map_runView_getRun (runs : RunStore) (ns name : String) :
    (getRun runs ns name).map runView =
      (runs.map runView).find? fun view => view.ns = ns ∧ view.name = name := by
  rw [List.find?_map]
  rfl

theorem keyed_of_views {before after : RunStore}
    (hviews : after.map runView = before.map runView) (hkeys : Keyed runKey before) :
    Keyed runKey after :=
  hkeys.of_map_eq hviews (fun view => (view.ns, view.name)) fun _ => rfl

/-- An update by what is stored changes nothing. -/
theorem replaceRun_self {runs : RunStore} (hkeys : Keyed runKey runs) {run : Run}
    (hrun : run ∈ runs) : replaceRun runs run = runs := by
  have hsame : ∀ r ∈ runs, (if r.ns = run.ns ∧ r.name = run.name then
      { run with status := r.status } else r) = r := by
    intro r hr
    split
    · next hkey => rw [hkeys.eq_of_key hr hrun (Prod.ext hkey.1 hkey.2)]
    · rfl
  rw [replaceRun, List.map_congr_left hsame, List.map_id']

theorem listing_withFetchedVolume {run : Run} {entry : VolumeResource × Nat}
    {pvcQuery : PersistentVolumeClaim} (storage : String)
    (hentry : (listing run)[entry.2]? = some (entry.1.name, entry.1.lifecycle))
    (hname : pvcQuery.name = entry.1.name) :
    listing (withFetchedVolume run entry pvcQuery storage) = listing run := by
  obtain ⟨hlt, hget⟩ := List.getElem?_eq_some_iff.mp hentry
  have hset : (listing run).set entry.2 (entry.1.name, entry.1.lifecycle) = listing run := by
    rw [← hget, List.set_getElem_self]
  rw [← hset]
  simp only [listing, withFetchedVolume, List.map_set, fetchedVolume, hname]

theorem map_runView_replaceRun {run : Run} {runs : RunStore} (hagrees : Agrees run runs) :
    (replaceRun runs run).map runView = runs.map runView := by
  unfold replaceRun
  rw [List.map_map]
  apply List.map_congr_left
  intro r hr
  simp only [Function.comp_apply]
  split
  · next hkey =>
      have hview := hagrees (runView r) (List.mem_map_of_mem hr) hkey.1 hkey.2
      rw [hview]
      rfl
  · rfl

/-- What a pass keeps, from its start on. -/
structure SameViews (before after : VolumePass) : Prop where
  run : runView after.run = runView before.run
  runs : after.store.runs.map runView = before.store.runs.map runView

section Views

variable {lib : Externals} {pipeline : Pipeline} {entry : VolumeResource × Nat}
  {before s : VolumePass}

theorem SameViews.refl (s : VolumePass) : SameViews s s := ⟨rfl, rfl⟩

theorem SameViews.agrees (hsame : SameViews before s)
    (hagrees : Agrees before.run before.store.runs) : Agrees s.run s.store.runs := by
  have hns : s.run.ns = before.run.ns := congrArg RunView.ns hsame.run
  have hname : s.run.name = before.run.name := congrArg RunView.name hsame.run
  rw [Agrees, hsame.runs, hsame.run, hns, hname]
  exact hagrees

/-- Writing claims changes nothing of the runs. -/
theorem SameViews.write_pvcs (hsame : SameViews before s)
    (change : List PersistentVolumeClaim → List PersistentVolumeClaim) :
    SameViews before (s.write fun store => { store with pvcs := change store.pvcs }).1 := by
  rcases write_cases s fun store => { store with pvcs := change store.pvcs } with
    ⟨e, hwrite⟩ | ⟨accepted, hwrite⟩
  · rw [hwrite]
    exact hsame
  · rw [hwrite]
    exact ⟨hsame.run, hsame.runs⟩

theorem listing_of_mem_zipIdx {run : Run} (hentry : entry ∈ run.spec.volumes.zipIdx) :
    (listing run)[entry.2]? = some (entry.1.name, entry.1.lifecycle) := by
  have hget : run.spec.volumes[entry.2]? = some entry.1 :=
    List.mem_zipIdx_iff_getElem?.mp hentry
  rw [listing, List.getElem?_map, hget, Option.map_some]

theorem reconcileVolume_views (hsame : SameViews before s)
    (hagrees : Agrees before.run before.store.runs)
    (hentry : entry ∈ before.run.spec.volumes.zipIdx) {pvcQuery : PersistentVolumeClaim}
    (storage : String) (hname : pvcQuery.name = entry.1.name) :
    SameViews before (reconcileVolume pipeline entry pvcQuery storage s).1 := by
  have hlisting : (listing s.run)[entry.2]? = some (entry.1.name, entry.1.lifecycle) := by
    rw [show listing s.run = listing before.run from congrArg RunView.listing hsame.run]
    exact listing_of_mem_zipIdx hentry
  have hview : runView (withFetchedVolume s.run entry pvcQuery storage) = runView s.run := by
    unfold runView
    rw [listing_withFetchedVolume storage hlisting hname]
    rfl
  have hwritten : Agrees (withFetchedVolume s.run entry pvcQuery storage) s.store.runs := by
    have hold := hsame.agrees hagrees
    unfold Agrees at hold ⊢
    rw [hview]
    exact hold
  unfold reconcileVolume
  simp only
  generalize hrun : withFetchedVolume s.run entry pvcQuery storage = run at *
  have hrunView : runView run = runView before.run := hview.trans hsame.run
  rcases write_cases { s with run := run }
      fun store => { store with runs := replaceRun store.runs run } with
    ⟨e, hwrite⟩ | ⟨accepted, hwrite⟩
  · rw [hwrite]
    exact ⟨hrunView, hsame.runs⟩
  · rw [hwrite]
    simp only
    have hmid : SameViews before
        { run := run
          store := { s.store with runs := replaceRun s.store.runs run }
          accepted := accepted } :=
      ⟨hrunView, (map_runView_replaceRun hwritten).trans hsame.runs⟩
    split
    · exact hmid
    · exact hmid.write_pvcs fun pvcs => replacePvc pvcs _

theorem ensureVolume_views (hsame : SameViews before s)
    (hagrees : Agrees before.run before.store.runs)
    (hentry : entry ∈ before.run.spec.volumes.zipIdx) :
    SameViews before (ensureVolume lib pipeline entry s).1 := by
  unfold ensureVolume
  split
  · split
    · exact hsame
    · exact hsame.write_pvcs fun pvcs => pvcs ++ [_]
  · next pvcQuery hget =>
      split
      · exact hsame
      · exact reconcileVolume_views hsame hagrees hentry _ (getPvc_key hget).2

/-- A pass, however it ends, leaves every run as far as its view goes. -/
theorem ensureVolumeList_views (lib : Externals) (pipeline : Pipeline)
    (hagrees : Agrees s.run s.store.runs) :
    SameViews s (ensureVolumeList lib pipeline s).1 :=
  walk_invariant (fun _ hentry _ hsame => ensureVolume_views hsame hagrees hentry)
    (SameViews.refl s)

end Views

/-! ## What a pass leaves of the claims -/

section Pass

variable {s : VolumePass}

theorem ownersOf_congr {run run' : Run} (pipeline : Pipeline) (hview : runView run = runView run') :
    ownersOf pipeline run = ownersOf pipeline run' := by
  have hname : run.name = run'.name := congrArg RunView.name hview
  funext scope
  cases scope <;> simp [ownersOf, hname]

/-- The owners of a claim are what they were, or those for a volume that the
run lists with a declared lifecycle. -/
def OwnersFrom (pipeline : Pipeline) (before after : VolumePass) : Prop :=
  ∀ ns name, pvcOwners after.store.pvcs ns name = pvcOwners before.store.pvcs ns name ∨
    ns = before.run.ns ∧ ∃ volume ∈ before.run.spec.volumes, volume.name = name ∧
      volume.scope ≠ .undeclared ∧
      pvcOwners after.store.pvcs ns name = some (ownersOf pipeline before.run volume.scope)

theorem ensureVolumeList_owners (lib : Externals) (pipeline : Pipeline)
    (hagrees : Agrees s.run s.store.runs) :
    OwnersFrom pipeline s (ensureVolumeList lib pipeline s).1 := by
  have hwalk : SameViews s (ensureVolumeList lib pipeline s).1 ∧
      OwnersFrom pipeline s (ensureVolumeList lib pipeline s).1 := by
    refine walk_invariant (I := fun t => SameViews s t ∧ OwnersFrom pipeline s t) ?_
      ⟨SameViews.refl s, fun _ _ => .inl rfl⟩
    rintro entry hentry t ⟨hsame, howners⟩
    refine ⟨ensureVolume_views hsame hagrees hentry, ?_⟩
    intro ns name
    rcases (ensureVolume_effect lib pipeline entry t).owners ns name with
      hkept | ⟨hns, hname, hdeclared, hnew⟩
    · rw [hkept]
      exact howners ns name
    · have hvolume : entry.1 ∈ s.run.spec.volumes := List.fst_mem_of_mem_zipIdx hentry
      have hrun : t.run.ns = s.run.ns := congrArg RunView.ns hsame.run
      rw [ownersOf_congr pipeline hsame.run] at hnew
      exact .inr ⟨hns.trans hrun, entry.1, hvolume, hname.symm, hdeclared, hnew⟩
  exact hwalk.2

/-- After a pass without an error every claim that the run lists has the
owners for one of the lifecycles that the run lists it with. -/
theorem ensureVolumeList_done (lib : Externals) (pipeline : Pipeline)
    (hagrees : Agrees s.run s.store.runs)
    (hok : (ensureVolumeList lib pipeline s).2 = .ok ()) :
    ∀ volume ∈ s.run.spec.volumes, ∃ last ∈ s.run.spec.volumes, last.name = volume.name ∧
      pvcOwners (ensureVolumeList lib pipeline s).1.store.pvcs s.run.ns volume.name =
        some (ownersOf pipeline s.run last.scope) := by
  -- `owned entry t`: the claim of the entry has such owners in `t`.
  let owned (entry : VolumeResource × Nat) (t : VolumePass) : Prop :=
    ∃ last ∈ s.run.spec.volumes, last.name = entry.1.name ∧
      pvcOwners t.store.pvcs s.run.ns entry.1.name = some (ownersOf pipeline s.run last.scope)
  have hall : ∀ entry ∈ s.run.spec.volumes.zipIdx,
      owned entry (ensureVolumeList lib pipeline s).1 := by
    refine walk_done (I := SameViews s) (Q := owned)
      (fun _ hentry _ hsame => ensureVolume_views hsame hagrees hentry) ?_ ?_
      (SameViews.refl s) hok
    · intro entry hentry t hsame hverdict
      have heffect := ensureVolume_effect lib pipeline entry t
      rw [hverdict] at heffect
      have hself := heffect.owners_self.2
      rw [show t.run.ns = s.run.ns from congrArg RunView.ns hsame.run,
        ownersOf_congr pipeline hsame.run] at hself
      exact ⟨entry.1, List.fst_mem_of_mem_zipIdx hentry, rfl, hself⟩
    · rintro entry hentry other t hsame ⟨last, hlast, hname, howners⟩
      rcases (ensureVolume_effect lib pipeline entry t).owners s.run.ns other.1.name with
        hkept | ⟨-, hsameName, -, hnew⟩
      · exact ⟨last, hlast, hname, hkept.trans howners⟩
      · rw [ownersOf_congr pipeline hsame.run] at hnew
        exact ⟨entry.1, List.fst_mem_of_mem_zipIdx hentry, hsameName.symm, hnew⟩
  intro volume hvolume
  obtain ⟨i, hi⟩ := List.mem_iff_getElem?.mp hvolume
  exact hall (volume, i) (List.mem_zipIdx_iff_getElem?.mpr hi)

end Pass

end PipelineOperator.Controller
