import PipelineOperator.Controller.Operator
import PipelineOperator.Controller.Quiescence
import PipelineOperator.Lib.Grown

/-!
# What the operator leaves alone

The operator creates runs, kubernetes jobs and claims, and never deletes
anything.  Of what is stored it writes the status and the metadata of
pipelines, the status, the run-name label and the storage of the volumes of
runs, the gate of kubernetes jobs and the owners of claims.  Everything else is
as the user, or the pass that created the object, has left it, in any order of
reconciles and goroutines and however these end.

## Main results

* `operator_extends`: any run of the operator, without the environment, leaves
  a store that extends the one it started from.
-/

namespace PipelineOperator.Controller

open PipelineOperator.Lib
open PipelineOperator.Api
open PipelineOperator.Go

/-! ## The objects -/

/-- What the user, or the creation, has put into a pipeline. -/
def pipelineIntent (pipeline : Pipeline) : Pipeline :=
  { pipeline with labels := {}, annotations := {}, status := {} }

/-- What the creation has put into a run; of its volumes, their names and
lifecycles. -/
def runIntent (run : Run) : Run :=
  { run with
    labels.runName := ""
    status := {}
    spec.volumes := (listing run).map fun entry => { name := entry.1, lifecycle := entry.2 } }

def SamePipeline (before after : Pipeline) : Prop := pipelineIntent after = pipelineIntent before

/-- The same run; its run-name label is what it was, or its name. -/
structure SameRun (before after : Run) : Prop where
  intent : runIntent after = runIntent before
  runName : after.labels.runName = before.labels.runName ∨ after.labels.runName = before.name

/-- The same job but for its gate; its trigger is what it was, or has been
handed over. -/
structure SameKJob (before after : KJob) : Prop where
  rest : setGate after {} = setGate before {}
  trigger : after.annotations.trigger = before.annotations.trigger ∨
    before.annotations.trigger = formatBool true ∧ after.annotations.trigger = formatBool false

def SamePvc (before after : PersistentVolumeClaim) : Prop := unowned after = unowned before

/-- Nothing is deleted, and what has been there is the same. -/
structure Extends (s t : ObjectStore) : Prop where
  keyed : KeyedStore t
  pipelines : Grown SamePipeline s.pipelines t.pipelines
  length : t.pipelines.length = s.pipelines.length
  runs : Grown SameRun s.runs t.runs
  kjobs : Grown SameKJob s.cluster.kjobs t.cluster.kjobs
  pods : t.cluster.pods = s.cluster.pods
  pvcs : Grown SamePvc s.pvcs t.pvcs

theorem SamePipeline.refl (pipeline : Pipeline) : SamePipeline pipeline pipeline := rfl

theorem SameRun.refl (run : Run) : SameRun run run := ⟨rfl, Or.inl rfl⟩

theorem SameKJob.refl (kjob : KJob) : SameKJob kjob kjob := ⟨rfl, Or.inl rfl⟩

theorem SamePvc.refl (pvc : PersistentVolumeClaim) : SamePvc pvc pvc := rfl

theorem SamePipeline.trans {a b c : Pipeline} (hab : SamePipeline a b) (hbc : SamePipeline b c) :
    SamePipeline a c := Eq.trans hbc hab

theorem SamePvc.trans {a b c : PersistentVolumeClaim} (hab : SamePvc a b) (hbc : SamePvc b c) :
    SamePvc a c := Eq.trans hbc hab

theorem SamePipeline.ns {a b : Pipeline} (hab : SamePipeline a b) : b.ns = a.ns := by
  show (pipelineIntent b).ns = (pipelineIntent a).ns
  rw [hab]

theorem SamePipeline.name {a b : Pipeline} (hab : SamePipeline a b) : b.name = a.name := by
  show (pipelineIntent b).name = (pipelineIntent a).name
  rw [hab]

theorem SameRun.name {a b : Run} (hab : SameRun a b) : b.name = a.name := by
  show (runIntent b).name = (runIntent a).name
  rw [hab.intent]

theorem SameRun.ns {a b : Run} (hab : SameRun a b) : b.ns = a.ns := by
  show (runIntent b).ns = (runIntent a).ns
  rw [hab.intent]

theorem SameRun.key {a b : Run} (hab : SameRun a b) : runKey b = runKey a :=
  Prod.ext hab.ns hab.name

theorem SameRun.trans {a b c : Run} (hab : SameRun a b) (hbc : SameRun b c) : SameRun a c := by
  refine ⟨hbc.intent.trans hab.intent, ?_⟩
  rcases hbc.runName with hkept | hnamed
  · rw [hkept]
    exact hab.runName
  · rw [hnamed, hab.name]
    exact Or.inr rfl

theorem SameKJob.trans {a b c : KJob} (hab : SameKJob a b) (hbc : SameKJob b c) :
    SameKJob a c := by
  refine ⟨hbc.rest.trans hab.rest, ?_⟩
  rcases hab.trigger with hkept | ⟨hset, hreleased⟩
  · rw [← hkept]
    exact hbc.trigger
  · rcases hbc.trigger with hkept | ⟨hset', -⟩
    · exact Or.inr ⟨hset, hkept.trans hreleased⟩
    · rw [hreleased] at hset'
      exact absurd hset' (by decide)

/-- The listing can be read off the intent. -/
theorem listing_runIntent (run : Run) : listing (runIntent run) = listing run := by
  unfold runIntent
  rw [listing, List.map_map]
  exact List.map_id' _

theorem SameRun.listing {a b : Run} (hab : SameRun a b) :
    Controller.listing b = Controller.listing a := by
  rw [← listing_runIntent b, hab.intent, listing_runIntent]

theorem Extends.refl {s : ObjectStore} (hs : KeyedStore s) : Extends s s where
  keyed := hs
  pipelines := .refl fun pipeline _ => .refl pipeline
  length := rfl
  runs := .refl fun run _ => .refl run
  kjobs := .refl fun kjob _ => .refl kjob
  pods := rfl
  pvcs := .refl fun pvc _ => .refl pvc

theorem Extends.trans {s t u : ObjectStore} (hst : Extends s t) (htu : Extends t u) :
    Extends s u where
  keyed := htu.keyed
  pipelines := hst.pipelines.trans (fun _ _ _ => SamePipeline.trans) htu.pipelines
  length := htu.length.trans hst.length
  runs := hst.runs.trans (fun _ _ _ => SameRun.trans) htu.runs
  kjobs := hst.kjobs.trans (fun _ _ _ => SameKJob.trans) htu.kjobs
  pods := htu.pods.trans hst.pods
  pvcs := hst.pvcs.trans (fun _ _ _ => SamePvc.trans) htu.pvcs

/-! ## The writes -/

section Writes

variable {s : ObjectStore}

/-- Pipelines that change by the relation and keep their keys. -/
theorem extends_pipelines (hs : KeyedStore s) {change : Pipeline → Pipeline}
    (hchange : ∀ pipeline ∈ s.pipelines, SamePipeline pipeline (change pipeline)) :
    Extends s { s with pipelines := s.pipelines.map change } := by
  have hkey : ∀ pipeline ∈ s.pipelines, pipelineKey (change pipeline) = pipelineKey pipeline :=
    fun pipeline hpipeline =>
      Prod.ext (hchange pipeline hpipeline).ns (hchange pipeline hpipeline).name
  refine { Extends.refl hs with
    keyed := { hs with namespaced := ?_, pipelines := hs.pipelines.map hkey }
    pipelines := .map hchange
    length := List.length_map _ }
  intro pipeline hpipeline
  obtain ⟨old, hold, rfl⟩ := List.mem_map.mp hpipeline
  rw [(hchange old hold).ns]
  exact hs.namespaced old hold

theorem extends_updateStatusOfPipeline (hs : KeyedStore s) (pipeline : Pipeline) :
    Extends s { s with pipelines := updateStatusOfPipeline s.pipelines pipeline } := by
  apply extends_pipelines hs
  intro p _
  split
  · rfl
  · exact .refl p

theorem extends_replacePipeline (hs : KeyedStore s) {found updated : Pipeline}
    (hfound : found ∈ s.pipelines) (hsame : SamePipeline found updated) :
    Extends s { s with pipelines := replacePipeline s.pipelines updated } := by
  apply extends_pipelines hs
  intro p hp
  split
  · next hkey =>
      have heq : p = found :=
        hs.pipelines.eq_of_key hp hfound
          (Prod.ext (hkey.1.trans hsame.ns) (hkey.2.trans hsame.name))
      rw [heq]
      exact hsame
  · exact .refl p

/-- Runs that change by the relation. -/
theorem extends_runs (hs : KeyedStore s) {change : Run → Run}
    (hchange : ∀ run ∈ s.runs, SameRun run (change run)) :
    Extends s { s with runs := s.runs.map change } :=
  { Extends.refl hs with
    keyed := { hs with runs := hs.runs.map fun run hrun => (hchange run hrun).key }
    runs := .map hchange }

theorem extends_updateStatusOfRun (hs : KeyedStore s) (run : Run) :
    Extends s { s with runs := updateStatusOfRun s.runs run } := by
  apply extends_runs hs
  intro r _
  split
  · exact ⟨rfl, Or.inl rfl⟩
  · exact .refl r

/-- The run in hand is the stored one, up to the relation. -/
def StandsFor (run : Run) (runs : RunStore) : Prop :=
  ∀ stored ∈ runs, runKey stored = runKey run → SameRun stored run

theorem extends_replaceRun (hs : KeyedStore s) {run : Run} (hrun : StandsFor run s.runs) :
    Extends s { s with runs := replaceRun s.runs run } := by
  apply extends_runs hs
  intro r hr
  split
  · next hkey =>
      have hsame := hrun r hr (Prod.ext hkey.1 hkey.2)
      exact ⟨hsame.intent, hsame.runName⟩
  · exact .refl r

theorem extends_createRun (hs : KeyedStore s) {run : Run}
    (hfree : getRun s.runs run.ns run.name = none) :
    Extends s { s with runs := s.runs ++ [run] } :=
  { Extends.refl hs with
    keyed := { hs with runs := hs.runs.concat (ne_of_getRun hfree) }
    runs := .append (fun run _ => .refl run) _ }

theorem extends_createPvc (hs : KeyedStore s) {pvc : PersistentVolumeClaim}
    (hmissing : getPvc s.pvcs pvc.ns pvc.name = none) :
    Extends s { s with pvcs := s.pvcs ++ [pvc] } :=
  { Extends.refl hs with
    keyed := { hs with pvcs := hs.pvcs.concat (getPvc_none_ne hmissing) }
    pvcs := .append (fun pvc _ => .refl pvc) _ }

/-- A stored claim gets other owners. -/
theorem extends_reownPvc (hs : KeyedStore s) {pvc : PersistentVolumeClaim} (hpvc : pvc ∈ s.pvcs)
    (owners : List OwnerReference) :
    Extends s { s with pvcs := replacePvc s.pvcs { pvc with ownerReferences := owners } } := by
  have hsame : ∀ p ∈ s.pvcs, SamePvc p
      (if p.ns = pvc.ns ∧ p.name = pvc.name then { pvc with ownerReferences := owners }
        else p) := by
    intro p hp
    split
    · next hkey =>
        rw [hs.pvcs.eq_of_key hp hpvc (Prod.ext hkey.1 hkey.2)]
        rfl
    · exact .refl p
  have hkey : ∀ p ∈ s.pvcs, pvcKey (if p.ns = pvc.ns ∧ p.name = pvc.name then
      { pvc with ownerReferences := owners } else p) = pvcKey p := by
    intro p _
    split
    · next hkey => exact (Prod.ext hkey.1 hkey.2).symm
    · rfl
  exact
    { Extends.refl hs with
      keyed := { hs with pvcs := hs.pvcs.map hkey }
      pvcs := .map hsame }

end Writes

/-! ## The volumes of a run -/

/-- A pass over the volumes of a run, on its way. -/
structure VolumesExtend (s : ObjectStore) (run : Run) (t : VolumePass) : Prop where
  store : Extends s { s with runs := t.store.runs, pvcs := t.store.pvcs }
  inHand : SameRun run t.run
  standsFor : StandsFor t.run t.store.runs
  statuses : ∀ ns name, (getRun t.store.runs ns name).map Run.status =
    (getRun s.runs ns name).map Run.status

section Volumes

variable {lib : Externals} {s : ObjectStore} {run : Run} {pipeline : Pipeline}
  {entry : VolumeResource × Nat} {t : VolumePass}

theorem sameRun_withFetchedVolume {pvcQuery : PersistentVolumeClaim} (storage : String)
    (hentry : (listing run)[entry.2]? = some (entry.1.name, entry.1.lifecycle))
    (hname : pvcQuery.name = entry.1.name) :
    SameRun run (withFetchedVolume run entry pvcQuery storage) := by
  refine ⟨?_, Or.inl rfl⟩
  unfold runIntent
  rw [listing_withFetchedVolume storage hentry hname]
  rfl

theorem StandsFor.mono {run' : Run} {runs : RunStore} (hstands : StandsFor run runs)
    (hsame : SameRun run run') : StandsFor run' runs := by
  intro stored hstored hkey
  exact (hstands stored hstored (hkey.trans hsame.key)).trans hsame

/-- A run that has been written stands for what is stored. -/
theorem standsFor_replaceRun (runs : RunStore) : StandsFor run (replaceRun runs run) := by
  intro stored hstored hkey
  obtain ⟨r, -, rfl⟩ := List.mem_map.mp hstored
  by_cases hwritten : r.ns = run.ns ∧ r.name = run.name
  · rw [if_pos hwritten]
    exact ⟨rfl, Or.inl rfl⟩
  · rw [if_neg hwritten] at hkey
    exact absurd ⟨congrArg Prod.fst hkey, congrArg Prod.snd hkey⟩ hwritten

/-- An update leaves the statuses. -/
theorem status_replaceRun (runs : RunStore) (run : Run) (ns name : String) :
    (getRun (replaceRun runs run) ns name).map Run.status =
      (getRun runs ns name).map Run.status := by
  rw [getRun_replaceRun, Option.map_map]
  congr 1
  funext r
  rw [Function.comp_apply]
  split
  · rfl
  · rfl

/-- The rewritten run is stored. -/
theorem VolumesExtend.replaceRun (hpass : VolumesExtend s run t) {updated : Run}
    (hsame : SameRun t.run updated) (accepted : Nat) :
    VolumesExtend s run
      { run := updated
        store := { t.store with runs := Controller.replaceRun t.store.runs updated }
        accepted := accepted } where
  store := hpass.store.trans
    (extends_replaceRun hpass.store.keyed (hpass.standsFor.mono hsame))
  inHand := hpass.inHand.trans hsame
  standsFor := standsFor_replaceRun t.store.runs
  statuses := fun ns name =>
    (status_replaceRun t.store.runs updated ns name).trans (hpass.statuses ns name)

theorem VolumesExtend.createPvc (hpass : VolumesExtend s run t) {pvc : PersistentVolumeClaim}
    (hmissing : getPvc t.store.pvcs pvc.ns pvc.name = none) :
    VolumesExtend s run
      (t.write fun store => { store with pvcs := store.pvcs ++ [pvc] }).1 := by
  rcases write_cases t fun store => { store with pvcs := store.pvcs ++ [pvc] } with
    ⟨e, hwrite⟩ | ⟨accepted, hwrite⟩
  · rw [hwrite]
    exact hpass
  · rw [hwrite]
    exact { hpass with
      store := hpass.store.trans (extends_createPvc hpass.store.keyed hmissing) }

theorem VolumesExtend.reownPvc (hpass : VolumesExtend s run t) {pvc : PersistentVolumeClaim}
    (hpvc : pvc ∈ t.store.pvcs) (owners : List OwnerReference) :
    VolumesExtend s run (t.write fun store =>
      { store with pvcs := replacePvc store.pvcs { pvc with ownerReferences := owners } }).1 := by
  rcases write_cases t fun store =>
      { store with pvcs := replacePvc store.pvcs { pvc with ownerReferences := owners } } with
    ⟨e, hwrite⟩ | ⟨accepted, hwrite⟩
  · rw [hwrite]
    exact hpass
  · rw [hwrite]
    exact { hpass with
      store := hpass.store.trans (extends_reownPvc hpass.store.keyed hpvc owners) }

theorem VolumesExtend.reconcileVolume (hpass : VolumesExtend s run t)
    (hentry : entry ∈ run.spec.volumes.zipIdx) {pvcQuery : PersistentVolumeClaim}
    (storage : String) (hget : getPvc t.store.pvcs t.run.ns entry.1.name = some pvcQuery) :
    VolumesExtend s run (reconcileVolume pipeline entry pvcQuery storage t).1 := by
  have hlisted : (listing t.run)[entry.2]? = some (entry.1.name, entry.1.lifecycle) := by
    rw [hpass.inHand.listing]
    exact listing_of_mem_zipIdx hentry
  have hsame : SameRun t.run (withFetchedVolume t.run entry pvcQuery storage) :=
    sameRun_withFetchedVolume storage hlisted (getPvc_key hget).2
  unfold Controller.reconcileVolume
  simp only
  generalize withFetchedVolume t.run entry pvcQuery storage = updated at hsame
  rcases write_cases { t with run := updated }
      fun store => { store with runs := Controller.replaceRun store.runs updated } with
    ⟨e, hwrite⟩ | ⟨accepted, hwrite⟩
  · rw [hwrite]
    exact { hpass with
      inHand := hpass.inHand.trans hsame
      standsFor := hpass.standsFor.mono hsame }
  · rw [hwrite]
    simp only
    have hwritten := hpass.replaceRun hsame accepted
    split
    · exact hwritten
    · next pvc hset =>
        obtain ⟨-, rfl⟩ := setPvcOwner_ok rfl hset
        exact hwritten.reownPvc (List.mem_of_find?_eq_some hget) _

theorem VolumesExtend.ensureVolume (hpass : VolumesExtend s run t)
    (hentry : entry ∈ run.spec.volumes.zipIdx) :
    VolumesExtend s run (ensureVolume lib pipeline entry t).1 := by
  unfold Controller.ensureVolume
  split
  · next hmissing =>
      split
      · exact hpass
      · next pvc hnew =>
          obtain ⟨-, hns, hname, -⟩ := newPvc_ok hnew
          apply hpass.createPvc
          rw [hns, hname]
          exact hmissing
  · next pvcQuery hget =>
      split
      · exact hpass
      · exact hpass.reconcileVolume hentry _ hget

/-- The pass starts with the stored run in hand. -/
theorem volumesExtend_start (hs : KeyedStore s) (hrun : run ∈ s.runs) :
    VolumesExtend s (withRunName run)
      (volumePass (withRunName run) { s with runs := replaceRun s.runs (withRunName run) }) where
  store := by
    refine extends_replaceRun hs fun stored hstored hkey => ?_
    rw [hs.runs.eq_of_key hstored hrun hkey]
    exact ⟨rfl, Or.inr rfl⟩
  inHand := .refl _
  standsFor := standsFor_replaceRun s.runs
  statuses := status_replaceRun s.runs (withRunName run)

/-- A pass over the volumes of a run that is stored, however it ends. -/
theorem ensureVolumeList_extends (lib : Externals) (pipeline : Pipeline) (hs : KeyedStore s)
    (hrun : run ∈ s.runs) :
    VolumesExtend s (withRunName run) (ensureVolumeList lib pipeline (volumePass (withRunName run)
      { s with runs := replaceRun s.runs (withRunName run) })).1 :=
  walk_invariant (fun _ hentry _ hvisited => hvisited.ensureVolume hentry)
    (volumesExtend_start hs hrun)

end Volumes

/-! ## The kubernetes jobs of a run -/

section KJobs

variable {lib : Externals} {s : ObjectStore} {run : Run} {c : Cluster}

theorem sameKJob_updatedKJob (kjob : KJob) (pod : Pod) (desiredTrigger : String)
    (suspending : Bool) : SameKJob kjob (updatedKJob kjob pod desiredTrigger suspending) := by
  refine ⟨rfl, ?_⟩
  show handOver kjob.annotations.trigger desiredTrigger = kjob.annotations.trigger ∨
    kjob.annotations.trigger = formatBool true ∧
      handOver kjob.annotations.trigger desiredTrigger = formatBool false
  unfold handOver
  by_cases hreleased : kjob.annotations.trigger = formatBool true ∧
      desiredTrigger = formatBool false
  · rw [if_pos hreleased]
    exact Or.inr ⟨hreleased.1, rfl⟩
  · rw [if_neg hreleased]
    exact Or.inl rfl

theorem extends_createKJob (hs : KeyedStore s) {kjob : KJob}
    (hmissing : s.cluster.getKJob kjob.ns kjob.name = none) :
    Extends s { s with cluster := s.cluster.createKJob kjob } :=
  { Extends.refl hs with
    keyed := { hs with kjobs := keyed_createKJob hs.kjobs hmissing }
    kjobs := .append (fun kjob _ => .refl kjob) _ }

theorem extends_updateKJob (hs : KeyedStore s) {kjob updated : KJob}
    (hkjob : kjob ∈ s.cluster.kjobs) (hkey : kjobKey updated = kjobKey kjob)
    (hsame : SameKJob kjob updated) :
    Extends s { s with cluster := s.cluster.updateKJob updated } := by
  refine { Extends.refl hs with
    keyed := { hs with kjobs := keyed_updateKJob hs.kjobs updated }
    kjobs := .map ?_ }
  intro k hk
  split
  · next hupdated =>
      rw [hs.kjobs.eq_of_key hk hkjob (hupdated.trans hkey)]
      exact hsame
  · exact .refl k

theorem visitKJob_extends (hc : Extends s { s with cluster := c }) (desiredkjob : KJob) :
    Extends s { s with cluster := (visitKJob run desiredkjob c).1 } := by
  unfold visitKJob
  split
  · exact hc
  · next next hstep =>
      cases hget : c.getKJob desiredkjob.ns desiredkjob.name with
      | none =>
          rw [ensureKJob_of_missing hget hstep]
          exact hc.trans (extends_createKJob hc.keyed hget)
      | some kjob =>
          obtain ⟨suspending, -, rfl⟩ := ensureKJob_of_exists hget hstep
          exact hc.trans (extends_updateKJob hc.keyed (Cluster.mem_of_getKJob hget).1 rfl
            (sameKJob_updatedKJob _ _ _ _))

/-- A pass over the kubernetes jobs of a run, however it ends. -/
theorem ensureKJobList_extends (lib : Externals) (run : Run) (hs : KeyedStore s) :
    Extends s { s with cluster := (ensureKJobList lib run s.cluster).1 } := by
  unfold ensureKJobList
  split
  · exact .refl hs
  · rw [ensureKJobs_eq_walk]
    exact walk_invariant (I := fun c => Extends s { s with cluster := c })
      (fun desiredkjob _ _ hc => visitKJob_extends hc desiredkjob) (.refl hs)

end KJobs

/-! ## The status of a run -/

section Status

variable {lib : Externals} {s : ObjectStore} {t : RetryState}

/-- The store with what a retry loop has written. -/
def StatusExtends (s : ObjectStore) (t : RetryState) : Prop :=
  Extends s { s with runs := t.store.runs, pipelines := t.store.pipelines }

theorem StatusExtends.writeRunStatus (ht : StatusExtends s t) (attempt : StatusAttempt)
    (run : Run) : StatusExtends s (writeRunStatus attempt run t).1 := by
  unfold Controller.writeRunStatus
  simp only [RetryState.access]
  split
  · exact ht
  · exact Extends.trans ht (extends_updateStatusOfRun (Extends.keyed ht) run)

theorem StatusExtends.endExecution (ht : StatusExtends s t) (ns pipelineName : String)
    (attempt : StatusAttempt) : StatusExtends s (endExecution ns pipelineName attempt t).1 := by
  unfold Controller.endExecution
  simp only [RetryState.access]
  split
  · exact ht
  · split
    · exact ht
    · exact Extends.trans ht (extends_updateStatusOfPipeline (Extends.keyed ht) _)

theorem StatusExtends.tryUpdate (ht : StatusExtends s t) (lib : Externals)
    (ns pipelineName : String) (kjobs : List KJob) (attempt : StatusAttempt) :
    StatusExtends s (tryUpdateRunStatus lib ns pipelineName kjobs attempt t).1 := by
  unfold tryUpdateRunStatus
  split
  · exact ht
  · next found _ =>
      have haccess : StatusExtends s (t.access (.getRun ns t.keyName)) := ht
      simp only
      split
      · have hended := haccess.endExecution ns pipelineName attempt
        split
        · next after hafter =>
            rw [hafter] at hended
            exact hended.writeRunStatus attempt _
        · next after verdict _ hafter =>
            rw [hafter] at hended
            exact hended
      · exact haccess.writeRunStatus attempt _

/-- Any attempts to write the status of a run. -/
theorem updateRunStatus_extends (lib : Externals) (run : Run) (c : Cluster)
    (attempts : Nat → StatusAttempt) (hs : KeyedStore s) :
    StatusExtends s
      (updateRunStatus lib run c attempts { runs := s.runs, pipelines := s.pipelines }).1 :=
  retryOnConflict_result (I := StatusExtends s) (fun _ ht => ht)
    (fun attempt _ _ ht => ht.tryUpdate lib _ _ _ attempt)
    (fun attempt _ _ ht _ => ht.tryUpdate lib _ _ _ attempt) (Extends.refl hs)

end Status

/-! ## The reconciles -/

section Reconciles

variable {lib : Externals} {s t : ObjectStore} {pipeline : Pipeline}

theorem sameWithMetadata (hns : pipeline.ns ≠ "") :
    SamePipeline pipeline (withMetadata pipeline) := by
  unfold SamePipeline pipelineIntent withMetadata
  rw [if_neg hns]

theorem updatePipelineStatus_extends {now : Time} (hs : KeyedStore s)
    (hok : updatePipelineStatus pipeline now s = .ok t) : Extends s t := by
  unfold updatePipelineStatus at hok
  split at hok
  · cases hok
  · cases hok
    exact extends_updateStatusOfPipeline hs _

theorem ensurePipelineMetadata_extends (hs : KeyedStore s)
    (hok : ensurePipelineMetadata pipeline s = .ok t) : Extends s t := by
  unfold ensurePipelineMetadata at hok
  split at hok
  · cases hok
  · next found hfound =>
      have hmem : found ∈ s.pipelines := List.mem_of_find?_eq_some hfound
      simp only at hok
      split at hok
      · cases hok
      · cases hok
        exact extends_replacePipeline hs hmem (sameWithMetadata (hs.namespaced found hmem))

theorem ensureRunExists_extends {address : Nat} {runs : RunStore} (hs : KeyedStore s)
    (hok : ensureRunExists lib address pipeline s.runs = .ok runs) :
    Extends s { s with runs := runs } := by
  rcases ensureRunExists_ok hok with rfl | ⟨run, -, -, hfree, rfl⟩
  · exact .refl hs
  · exact extends_createRun hs hfree

theorem executeSchedule_ok {address : Nat} {runs after : RunStore}
    (hok : executeSchedule lib address pipeline runs = .ok after) :
    ∃ run, constructRunFromPipeline lib address pipeline = .ok run ∧
      getRun runs run.ns run.name = none ∧ after = runs ++ [run] := by
  unfold executeSchedule at hok
  obtain ⟨run, hconstruct, hok⟩ := bind_ok hok
  split at hok
  · cases hok
  · next hfree =>
      cases hok
      exact ⟨run, hconstruct, hfree, rfl⟩

theorem executeSchedule_extends {address : Nat} {runs : RunStore} (hs : KeyedStore s)
    (hok : executeSchedule lib address pipeline s.runs = .ok runs) :
    Extends s { s with runs := runs } := by
  obtain ⟨run, -, hfree, rfl⟩ := executeSchedule_ok hok
  exact extends_createRun hs hfree

variable {w : OperatorWorld}

theorem PipelineReconciler.schedule_extends (hw : Extends s w.store) (lib : Externals)
    (pipeline : Pipeline) (now : Time) :
    Extends s (schedule lib pipeline now w).1.store := by
  unfold schedule
  simp only
  split
  · exact hw
  · exact hw.trans (extends_updateStatusOfPipeline hw.keyed _)

theorem PipelineReconciler.execute_extends (hw : Extends s w.store) (lib : Externals)
    (ns name : String) (address : Nat) (now : Time) :
    Extends s (execute lib ns name address now w).1.store := by
  unfold execute
  split
  · exact hw
  · split
    · exact hw
    · next runs hruns =>
        have hcreated := hw.trans (ensureRunExists_extends hw.keyed hruns)
        exact schedule_extends hcreated lib _ now

/-- A reconcile of a pipeline, however it ends. -/
theorem PipelineReconciler.reconcile_extends (hw : Extends s w.store) (lib : Externals)
    (ns name : String) (address : Nat) (now : Time) :
    Extends s (reconcile lib ns name address now w).1.store := by
  unfold reconcile
  split
  · exact hw
  · split
    · exact hw
    · next counted hcounted =>
        have hfirst := hw.trans (updatePipelineStatus_extends hw.keyed hcounted)
        split
        · exact hfirst
        · next labelled hlabelled =>
            exact execute_extends
              (hfirst.trans (ensurePipelineMetadata_extends hfirst.keyed hlabelled))
              lib ns name address now

/-- A goroutine, however it ends. -/
theorem PipelineReconciler.scheduleExecution_extends (hw : Extends s w.store) (lib : Externals)
    (pipeline : Pipeline) (address : Nat) (now : Time) :
    Extends s (scheduleExecution lib pipeline address now w).1.store := by
  unfold scheduleExecution
  split
  · exact hw
  · split
    · exact hw
    · split
      · exact hw
      · exact hw
      · split
        · exact hw
        · split
          · exact hw
          · next runs hruns =>
              have hcreated := hw.trans (executeSchedule_extends hw.keyed hruns)
              exact hcreated.trans (extends_updateStatusOfPipeline hcreated.keyed _)

theorem RunReconciler.writeStatus_extends (hw : Extends s w.store) (lib : Externals) (run : Run)
    (now endNow : Time) : Extends s (writeStatus lib run now endNow w).1.store :=
  hw.trans (updateRunStatus_extends lib run w.store.cluster _ hw.keyed)

theorem RunReconciler.deploy_extends (hw : Extends s w.store) (lib : Externals) (run : Run)
    (now endNow : Time) : Extends s (deploy lib run now endNow w).1.store := by
  have hdeployed := hw.trans (ensureKJobList_extends lib run hw.keyed)
  unfold deploy
  simp only
  split
  · exact hdeployed
  · exact writeStatus_extends hdeployed lib run now endNow

theorem RunReconciler.reconcileStored_extends (hw : Extends s w.store) (lib : Externals)
    {run : Run} (hrun : run ∈ w.store.runs) (pipeline : Pipeline) (now endNow : Time) :
    Extends s (reconcileStored lib run pipeline now endNow w).1.store := by
  have hpass := ensureVolumeList_extends lib pipeline hw.keyed hrun
  have hvolumes := hw.trans hpass.store
  unfold reconcileStored
  simp only
  split
  · exact hvolumes
  · exact deploy_extends hvolumes lib _ now endNow

/-- A reconcile of a run, however it ends. -/
theorem RunReconciler.reconcile_extends (hw : Extends s w.store) (lib : Externals)
    (ns name : String) (now endNow : Time) :
    Extends s (reconcile lib ns name now endNow w).1.store := by
  unfold reconcile
  split
  · exact hw
  · next run hrun =>
      split
      · exact hw
      · exact reconcileStored_extends hw lib (List.mem_of_find?_eq_some hrun) _ now endNow

end Reconciles

/-! ## The operator -/

/-- The action is one of the operator. -/
def OperatorAction.ByOperator : OperatorAction → Prop
  | .reconcilePipeline .. | .reconcileRun .. | .execute .. => True
  | .environment .. => False

instance : (a : OperatorAction) → Decidable a.ByOperator
  | .reconcilePipeline .. | .reconcileRun .. | .execute .. => .isTrue trivial
  | .environment .. => .isFalse id

theorem step_extends (lib : Externals) {s : ObjectStore} {w : OperatorWorld}
    (hw : Extends s w.store) {a : OperatorAction} (ha : a.ByOperator) :
    Extends s (w.step lib a).store := by
  cases a with
  | reconcilePipeline ns name address now =>
      exact PipelineReconciler.reconcile_extends hw lib ns name address now
  | reconcileRun ns name now endNow =>
      exact RunReconciler.reconcile_extends hw lib ns name now endNow
  | execute pipeline address now =>
      unfold OperatorWorld.step
      simp only
      split
      · exact PipelineReconciler.scheduleExecution_extends (by exact hw) lib pipeline address now
      · exact hw
  | environment ns objects => exact absurd ha id

/-- The steps of the operator one after another. -/
theorem run_extends (lib : Externals) {as : List OperatorAction}
    (has : ∀ a ∈ as, a.ByOperator) {s : ObjectStore} {w : OperatorWorld}
    (hw : Extends s w.store) : Extends s (w.run lib as).store := by
  induction as generalizing w with
  | nil => exact hw
  | cons a as ih =>
      exact ih (fun b hb => has b (List.mem_cons_of_mem a hb))
        (step_extends lib hw (has a List.mem_cons_self))

/-- Whatever the operator does between two changes by somebody else, no object
is lost, moved or hidden by another of its key, and of each one all but what is
the operator's to write is as it was. -/
theorem operator_extends (lib : Externals) {as : List OperatorAction}
    (has : ∀ a ∈ as, a.ByOperator) {s : OperatorWorld} (hs : KeyedStore s.store) :
    Extends s.store (s.run lib as).store :=
  run_extends lib has (.refl hs)

/-- The pipeline and its run are reconciled, and the run once more. -/
def unclaimedActions : List OperatorAction :=
  [ .reconcilePipeline "team" "build" 0 0
  , .reconcileRun "team" "nightly" 0 0
  , .reconcileRun "team" "nightly" Time.second Time.second ]

/-- The run gets a claim for its volume, and keeps the volume. -/
theorem operator_extends_unclaimed :
    Extends unclaimedStore
        (OperatorWorld.run Externals.plain { store := unclaimedStore } unclaimedActions).store ∧
      (OperatorWorld.run Externals.plain { store := unclaimedStore }
        unclaimedActions).store.pvcs.length = 1 :=
  ⟨operator_extends Externals.plain (show ∀ a ∈ unclaimedActions, a.ByOperator by decide)
    (s := { store := unclaimedStore }) unclaimedStore_keyed, by decide +kernel⟩

end PipelineOperator.Controller
