import PipelineOperator.Api.SubPaths
import PipelineOperator.Lib.Distinct

/-!
# Volumes and mounts agree

The volumes of a pod and the mounts of its container come from the same volume
specs, in two loops of their own.  One goes over all specs at once and keeps the
names it has met in a hash set, the other one goes over the four lists and
mounts every spec.  Both of them cut the name of a spec at its slashes, so they
fail on the same specs and meet the same volume names.

## Main results

* `claimVolumesIn_eq`: the loop with the hash set claims the distinct names.
* `parseVolumeWithPVCFromJobIn_eq`: which hash set it is makes no difference.
* `volumes_agree_with_mounts`: volumes and mounts are built for the same specs,
  and agree.
-/

namespace PipelineOperator.Api

open PipelineOperator.Lib
open PipelineOperator.Go

/-! ## The loop with a hash set -/

section HashSet

variable {σ : Type}

/-- The loop of `parseVolumeWithPVCFromJob`, with the hash set as it is left by
the specs before. -/
def claimVolumesIn (set : SetOps σ String) (hashSet : σ) :
    List IOVolumeSpec → Except String (List Volume)
  | [] => .ok []
  | e :: es => do
      let volumeCorpus ← splitVolumeCorpus e.name
      let volumeName := volumeCorpus.headD ""
      if ¬ set.contains hashSet volumeName then
        let rest ← claimVolumesIn set (set.add hashSet volumeName) es
        return { name := volumeName, source := .persistentVolumeClaim volumeName } :: rest
      else claimVolumesIn set hashSet es

/-- `parseVolumeWithPVCFromJob` with a given hash set. -/
def parseVolumeWithPVCFromJobIn (set : SetOps σ String) (run : Run) (job : Job) :
    Except String (List Volume) :=
  claimVolumesIn set set.empty (ioVolumeSpecs run job)

/-- The volume that a spec names. -/
def volumeNameOf (e : IOVolumeSpec) : Except String String :=
  (splitVolumeCorpus e.name).map fun volumeCorpus => volumeCorpus.headD ""

/-- A volume over the claim of its own name. -/
def pvcVolume (volumeName : String) : Volume where
  name := volumeName
  source := .persistentVolumeClaim volumeName

/-- The loop claims the distinct names, and fails if a spec names no volume. -/
theorem claimVolumesIn_eq (set : SetOps σ String) (hashSet : σ) (specs : List IOVolumeSpec) :
    claimVolumesIn set hashSet specs = (do
      let names ← specs.mapM volumeNameOf
      return (set.distinct hashSet names).map pvcVolume) := by
  induction specs generalizing hashSet with
  | nil => rfl
  | cons e es ih =>
      rw [claimVolumesIn, List.mapM_cons, volumeNameOf]
      cases hcorpus : splitVolumeCorpus e.name with
      | error err => rfl
      | ok volumeCorpus =>
          have hname : (Except.ok volumeCorpus : Except String (List String)).map
              (fun volumeCorpus => volumeCorpus.headD "") = .ok (volumeCorpus.headD "") := rfl
          rw [hname]
          simp only [bind, Except.bind, pure, Except.pure, ih]
          generalize volumeCorpus.headD "" = volumeName
          cases es.mapM volumeNameOf with
          | error err => split <;> rfl
          | ok names =>
              cases hseen : set.contains hashSet volumeName with
              | true => simp [SetOps.distinct_cons_of_contains hseen]
              | false => simp [SetOps.distinct_cons_of_not_contains hseen, pvcVolume]

end HashSet

section Agree

variable {σ : Type} {set : SetOps σ String} {run : Run} {job : Job}

/-- The loop on a list of names is the one with the list as its set. -/
theorem claimVolumes_eq_in (seen : List String) (specs : List IOVolumeSpec) :
    claimVolumes seen specs = claimVolumesIn (SetOps.list String) seen specs := by
  induction specs generalizing seen with
  | nil => rfl
  | cons e es ih =>
      rw [claimVolumes, claimVolumesIn]
      congr 1
      funext volumeCorpus
      simp only [ih]
      generalize volumeCorpus.headD "" = volumeName
      by_cases hseen : volumeName ∈ seen
      · simp [SetOps.list, hseen]
      · simp [SetOps.list, hseen]

/-- Which hash set it is makes no difference, as long as it is a set. -/
theorem parseVolumeWithPVCFromJobIn_eq (hset : set.Lawful) (run : Run) (job : Job) :
    parseVolumeWithPVCFromJobIn set run job = parseVolumeWithPVCFromJob run job := by
  have hlist : parseVolumeWithPVCFromJob run job =
      claimVolumesIn (SetOps.list String) (SetOps.list String).empty (ioVolumeSpecs run job) :=
    claimVolumes_eq_in [] (ioVolumeSpecs run job)
  rw [hlist, parseVolumeWithPVCFromJobIn, claimVolumesIn_eq, claimVolumesIn_eq]
  congr 1
  funext names
  rw [SetOps.distinct_empty_congr hset SetOps.list_lawful]

/-! ## Which specs are accepted -/

/-- A spec is accepted by both loops, or by neither. -/
theorem parseVolumeMount_ok_iff (run : Run) (readOnly : Bool) (e : IOVolumeSpec) :
    (∃ mount, parseVolumeMount run readOnly e = .ok mount) ↔
      ∃ volumeName, volumeNameOf e = .ok volumeName := by
  rw [parseVolumeMount, volumeNameOf]
  cases splitVolumeCorpus e.name with
  | error err => simp [bind, Except.bind, Except.map]
  | ok volumeCorpus => simp [bind, Except.bind, pure, Except.pure, Except.map]

/-- The mount has the name of the volume, and is read-only if it is told to be. -/
theorem parseVolumeMount_name {readOnly : Bool} {e : IOVolumeSpec} {mount : VolumeMount}
    (hparse : parseVolumeMount run readOnly e = .ok mount) :
    volumeNameOf e = .ok mount.name ∧ mount.readOnly = readOnly := by
  obtain ⟨mountCorpus, hcorpus, hparse⟩ := bind_ok hparse
  cases hparse
  rw [volumeNameOf, hcorpus]
  exact ⟨rfl, rfl⟩

/-- The specs in the order of the mounts, with what tells the inputs from the
outputs. -/
def taggedSpecs (run : Run) (job : Job) : List (Bool × IOVolumeSpec) :=
  run.spec.inputs.map (Prod.mk true) ++ run.spec.outputs.map (Prod.mk false) ++
    job.inputs.map (Prod.mk true) ++ job.outputs.map (Prod.mk false)

theorem taggedSpecs_snd (run : Run) (job : Job) :
    (taggedSpecs run job).map Prod.snd = ioVolumeSpecs run job := by
  simp [taggedSpecs, ioVolumeSpecs, Function.comp_def]

/-- The nested loops are one walk over these specs. -/
theorem parseVolumeMountList_eq (run : Run) (job : Job) :
    parseVolumeMountList run job =
      (taggedSpecs run job).mapM fun entry => parseVolumeMount run entry.1 entry.2 := by
  simp only [taggedSpecs, List.mapM_append, List.mapM_map, Function.comp_def,
    parseVolumeMountList, bind_assoc, pure_bind]

/-- The mounts exist exactly if every spec names a volume. -/
theorem parseVolumeMountList_ok_iff (run : Run) (job : Job) :
    (∃ mounts, parseVolumeMountList run job = .ok mounts) ↔
      ∀ e ∈ ioVolumeSpecs run job, ∃ volumeName, volumeNameOf e = .ok volumeName := by
  rw [parseVolumeMountList_eq, mapM_ok_iff, ← taggedSpecs_snd]
  simp only [parseVolumeMount_ok_iff, List.forall_mem_map]

/-- So do the volumes. -/
theorem parseVolumeWithPVCFromJobIn_ok_iff (set : SetOps σ String) (run : Run) (job : Job) :
    (∃ volumes, parseVolumeWithPVCFromJobIn set run job = .ok volumes) ↔
      ∀ e ∈ ioVolumeSpecs run job, ∃ volumeName, volumeNameOf e = .ok volumeName := by
  rw [parseVolumeWithPVCFromJobIn, claimVolumesIn_eq, ← mapM_ok_iff]
  cases (ioVolumeSpecs run job).mapM volumeNameOf with
  | error err => simp [bind, Except.bind]
  | ok names => simp [bind, Except.bind, pure, Except.pure]

/-! ## The agreement -/

/-- The volumes of a pod and the mounts of its container fit together. -/
structure Agree (run : Run) (job : Job) (volumes : List Volume) (mounts : List VolumeMount) :
    Prop where
  names : (volumes.map Volume.name).Nodup
  claims : ∀ volume ∈ volumes, volume.source = .persistentVolumeClaim volume.name
  mounted : ∀ mount ∈ mounts, volumes.countP (fun volume => volume.name = mount.name) = 1
  used : ∀ volume ∈ volumes, ∃ mount ∈ mounts, mount.name = volume.name
  order : List.Forall₂ (fun entry mount =>
    parseVolumeMount run entry.1 entry.2 = .ok mount ∧ mount.readOnly = entry.1)
      (taggedSpecs run job) mounts

/-- The names of the mounts are those that the specs name, in order. -/
theorem mount_names {mounts : List VolumeMount}
    (hmounts : parseVolumeMountList run job = .ok mounts) :
    (ioVolumeSpecs run job).mapM volumeNameOf = .ok (mounts.map VolumeMount.name) := by
  rw [parseVolumeMountList_eq] at hmounts
  apply mapM_of_forall₂
  rw [← taggedSpecs_snd, List.forall₂_map_left_iff, List.forall₂_map_right_iff]
  exact (mapM_forall₂ hmounts).imp fun _ _ hmount => (parseVolumeMount_name hmount).1

/-- A name that stands in a list without duplicates stands there once. -/
theorem countP_name_eq_one {names : List String} (hnodup : names.Nodup) {name : String}
    (hname : name ∈ names) :
    (names.map pvcVolume).countP (fun volume => volume.name = name) = 1 := by
  have hcount : (names.map pvcVolume).countP (fun volume => volume.name = name) =
      names.count name := by
    rw [List.countP_map, List.count]
    apply List.countP_congr
    intro other _
    rw [beq_iff_eq, Function.comp_apply]
    exact decide_eq_true_iff
  rw [hcount]
  exact List.count_eq_one_of_mem hnodup hname

/-- **Volumes and mounts agree.**  With any hash set that is a set, the volumes
of a job exist exactly if the mounts do, and then they agree. -/
theorem volumes_agree_with_mounts (hset : set.Lawful) (run : Run) (job : Job) :
    ((∃ volumes, parseVolumeWithPVCFromJobIn set run job = .ok volumes) ↔
        ∃ mounts, parseVolumeMountList run job = .ok mounts) ∧
      ∀ volumes mounts, parseVolumeWithPVCFromJobIn set run job = .ok volumes →
        parseVolumeMountList run job = .ok mounts → Agree run job volumes mounts := by
  constructor
  · rw [parseVolumeWithPVCFromJobIn_ok_iff, parseVolumeMountList_ok_iff]
  · intro volumes mounts hvolumes hmounts
    rw [parseVolumeWithPVCFromJobIn, claimVolumesIn_eq, mount_names hmounts] at hvolumes
    cases hvolumes
    have hnodup := SetOps.nodup_distinct hset set.empty (mounts.map VolumeMount.name)
    have hmem : ∀ name, name ∈ set.distinct set.empty (mounts.map VolumeMount.name) ↔
        name ∈ mounts.map VolumeMount.name := by
      intro name
      rw [SetOps.mem_distinct hset, hset.contains_empty]
      exact and_iff_left rfl
    refine
      { names := ?_
        claims := ?_
        mounted := ?_
        used := ?_
        order := ?_ }
    · have hnames : ((set.distinct set.empty (mounts.map VolumeMount.name)).map
          pvcVolume).map Volume.name =
            set.distinct set.empty (mounts.map VolumeMount.name) := by
        rw [List.map_map]
        exact List.map_id _
      rw [hnames]
      exact hnodup
    · intro volume hvolume
      obtain ⟨name, -, rfl⟩ := List.mem_map.mp hvolume
      rfl
    · intro mount hmount
      exact countP_name_eq_one hnodup ((hmem _).mpr (List.mem_map_of_mem hmount))
    · intro volume hvolume
      obtain ⟨name, hname, rfl⟩ := List.mem_map.mp hvolume
      exact List.mem_map.mp ((hmem name).mp hname)
    · rw [parseVolumeMountList_eq] at hmounts
      exact (mapM_forall₂ hmounts).imp fun _ _ hmount =>
        ⟨hmount, (parseVolumeMount_name hmount).2⟩

end Agree

/-- A run whose input is also an output of its job. -/
def reusingRun : Run where
  name := "train-1"
  spec.inputs := [{ name := "data/raw" }]
  spec.outputs := [{ name := "models" }]

def reusingJob : Job where
  name := "fit"
  outputs := [{ name := "/data/clean/" }]

theorem volumes_agree_reusing :
    Agree reusingRun reusingJob [pvcVolume "data", pvcVolume "models"]
      [ { name := "data", mountPath := "/data/pipeline/data/raw", subPath := "raw",
          readOnly := true }
      , { name := "models", mountPath := "/data/pipeline/models", subPath := "" }
      , { name := "data", mountPath := "/data/pipeline/data/clean", subPath := "clean" } ] :=
  (@volumes_agree_with_mounts _ (SetOps.list String) SetOps.list_lawful reusingRun
    reusingJob).2 _ _ (by decide +kernel) (by decide +kernel)

end PipelineOperator.Api
