import PipelineOperator.Api.Volumes
import PipelineOperator.Lib.Walk

/-!
# Runs keep apart on a shared volume

A volume spec with `useIntermediateDirectory` puts the name of its run before
its sub path.  The sub path has been cut at its slashes, joined again and
trimmed, and may start with empty segments; none of this reaches the name,
which stays the first segment of the path that is mounted.  Two runs then
work in two directories of the volume.

## Main results

* `subPath_of_intermediate`: the path is the name of the run, alone or with
  something after a slash.
* `subPaths_apart`: the paths of two runs are neither equal nor one inside the
  other.
-/

namespace PipelineOperator.Api

open PipelineOperator.Lib
open PipelineOperator.Go

/-! ## Which mount a spec gets -/

/-- The volume specs behind the mounts of a job, in the order in which
`parseVolumeMountList` walks them. -/
def ioVolumeSpecs (run : Run) (job : Job) : List IOVolumeSpec :=
  run.spec.inputs ++ run.spec.outputs ++ job.inputs ++ job.outputs

/-- The mount that `parseVolumeMountList` gives a spec: the one at the
position of the spec. -/
def MountOf (run : Run) (job : Job) (e : IOVolumeSpec) (mount : VolumeMount) : Prop :=
  ∃ mounts, parseVolumeMountList run job = .ok mounts ∧
    ∃ i : Nat, (ioVolumeSpecs run job)[i]? = some e ∧ mounts[i]? = some mount

/-- The mount is made from the spec, as one of an input or of an output. -/
def MountFrom (run : Run) (e : IOVolumeSpec) (mount : VolumeMount) : Prop :=
  ∃ readOnly, parseVolumeMount run readOnly e = .ok mount

theorem mountFrom_of_mapM {run : Run} {readOnly : Bool} {specs : List IOVolumeSpec}
    {mounts : List VolumeMount} (hwalk : specs.mapM (parseVolumeMount run readOnly) = .ok mounts) :
    List.Forall₂ (MountFrom run) specs mounts :=
  (mapM_forall₂ hwalk).imp fun _ _ h => ⟨readOnly, h⟩

/-- Every spec has its mount, at its own position. -/
theorem parseVolumeMountList_mountFrom {run : Run} {job : Job} {mounts : List VolumeMount}
    (hparse : parseVolumeMountList run job = .ok mounts) :
    List.Forall₂ (MountFrom run) (ioVolumeSpecs run job) mounts := by
  unfold parseVolumeMountList at hparse
  obtain ⟨runInputs, hrunInputs, hparse⟩ := bind_ok hparse
  obtain ⟨runOutputs, hrunOutputs, hparse⟩ := bind_ok hparse
  obtain ⟨jobInputs, hjobInputs, hparse⟩ := bind_ok hparse
  obtain ⟨jobOutputs, hjobOutputs, hparse⟩ := bind_ok hparse
  cases hparse
  have hrun := List.rel_append (mountFrom_of_mapM hrunInputs) (mountFrom_of_mapM hrunOutputs)
  have hinputs := List.rel_append hrun (mountFrom_of_mapM hjobInputs)
  exact List.rel_append hinputs (mountFrom_of_mapM hjobOutputs)

theorem MountOf.mountFrom {run : Run} {job : Job} {e : IOVolumeSpec} {mount : VolumeMount}
    (hmount : MountOf run job e mount) : MountFrom run e mount := by
  obtain ⟨mounts, hparse, i, he, hm⟩ := hmount
  obtain ⟨hi, he⟩ := List.getElem?_eq_some_iff.mp he
  obtain ⟨hi', hm⟩ := List.getElem?_eq_some_iff.mp hm
  have hfrom := (parseVolumeMountList_mountFrom hparse).get hi hi'
  rw [← he, ← hm]
  exact hfrom

/-! ## The path of a spec with an intermediate directory -/

/-- The sub path is the directory of the run, or lies in it. -/
theorem subPath_of_intermediate {run : Run} {e : IOVolumeSpec} {mount : VolumeMount}
    (hname : run.name ≠ "") (hslash : '/' ∉ run.name.toList)
    (huse : e.useIntermediateDirectory = true) (hmount : MountFrom run e mount) :
    mount.subPath = run.name ∨ ∃ rest, mount.subPath = run.name ++ "/" ++ rest := by
  obtain ⟨readOnly, hparse⟩ := hmount
  obtain ⟨mountCorpus, -, hparse⟩ := bind_ok hparse
  cases hparse
  simp only [huse, if_true]
  have hhead : ∀ rest, (run.name ++ "/" ++ rest).toList.head? ≠ some '/' := by
    intro rest
    cases hchars : run.name.toList with
    | nil => exact absurd (String.toList_eq_nil_iff.mp hchars) hname
    | cons c cs =>
        have hne : c ≠ '/' := fun h => hslash (by simp [hchars, h])
        simpa [hchars] using hne
  rw [trimPrefix_slash_of_head (hhead _)]
  exact trimSuffix_append_slash run.name _

/-- The name of the run is the first segment. -/
theorem head?_split_subPath {run : Run} {e : IOVolumeSpec} {mount : VolumeMount}
    (hname : run.name ≠ "") (hslash : '/' ∉ run.name.toList)
    (huse : e.useIntermediateDirectory = true) (hmount : MountFrom run e mount) :
    (split mount.subPath '/').head? = some run.name := by
  rcases subPath_of_intermediate hname hslash huse hmount with hpath | ⟨rest, hpath⟩
  · rw [hpath, split_of_notMem hslash, List.head?_cons]
  · rw [hpath, split_append_slash hslash, List.head?_cons]

/-! ## Directories -/

/-- The directories and the file that a path names, from the root of the
volume on; repeated slashes count once. -/
def pathSegments (path : String) : List String :=
  (split path '/').filter fun segment => segment ≠ ""

/-- The first path is the second one or a directory above it. -/
def IsDirPrefix (dir path : String) : Prop := pathSegments dir <+: pathSegments path

instance (dir path : String) : Decidable (IsDirPrefix dir path) := by
  unfold IsDirPrefix
  infer_instance

theorem head?_pathSegments {path segment : String} (hne : segment ≠ "")
    (hhead : (split path '/').head? = some segment) :
    (pathSegments path).head? = some segment := by
  obtain ⟨rest, hsplit⟩ := List.head?_eq_some_iff.mp hhead
  rw [pathSegments, hsplit, List.filter_cons_of_pos (by simpa using hne), List.head?_cons]

/-- Paths that start in different directories do not lie inside each other. -/
theorem not_isDirPrefix {dir path first first' : String} (hdiff : first ≠ first')
    (hdir : (pathSegments dir).head? = some first)
    (hpath : (pathSegments path).head? = some first') : ¬ IsDirPrefix dir path := by
  rintro ⟨rest, hrest⟩
  rw [← hrest, List.head?_append, hdir, Option.some_or] at hpath
  exact hdiff (Option.some.inj hpath)

/-- **Intermediate directories isolate runs.**  Mounts of two runs, of
whichever jobs and specs, on the same volume or not, start in the directories
named after the runs, and none of them reaches into the other. -/
theorem subPaths_apart {run run' : Run} {job job' : Job} {e e' : IOVolumeSpec}
    {mount mount' : VolumeMount} (hdiff : run.name ≠ run'.name)
    (hname : run.name ≠ "") (hslash : '/' ∉ run.name.toList)
    (hname' : run'.name ≠ "") (hslash' : '/' ∉ run'.name.toList)
    (huse : e.useIntermediateDirectory = true) (huse' : e'.useIntermediateDirectory = true)
    (hmount : MountOf run job e mount) (hmount' : MountOf run' job' e' mount') :
    (split mount.subPath '/').head? = some run.name ∧
      (split mount'.subPath '/').head? = some run'.name ∧
      mount.subPath ≠ mount'.subPath ∧
      ¬ IsDirPrefix mount.subPath mount'.subPath ∧
      ¬ IsDirPrefix mount'.subPath mount.subPath := by
  have hfirst := head?_split_subPath hname hslash huse hmount.mountFrom
  have hfirst' := head?_split_subPath hname' hslash' huse' hmount'.mountFrom
  have hdir := head?_pathSegments hname hfirst
  have hdir' := head?_pathSegments hname' hfirst'
  refine ⟨hfirst, hfirst', ?_, not_isDirPrefix hdiff hdir hdir',
    not_isDirPrefix hdiff.symm hdir' hdir⟩
  intro hsame
  rw [hsame, hfirst'] at hfirst
  exact hdiff (Option.some.inj hfirst).symm

/-- Two specs of one volume, the first with more slashes than it needs. -/
def slashedSpec : IOVolumeSpec where
  name := "/data///raw//"
  useIntermediateDirectory := true

def plainSpec : IOVolumeSpec where
  name := "data"
  useIntermediateDirectory := true

def slashedMount : VolumeMount where
  name := "data"
  mountPath := "/data/pipeline/data//raw"
  subPath := "train-tuesday//raw"
  readOnly := true

def plainMount : VolumeMount where
  name := "data"
  mountPath := "/data/pipeline/data"
  subPath := "train-wednesday"

def tuesdayRun : Run where
  name := "train-tuesday"
  spec.inputs := [slashedSpec]

def wednesdayRun : Run where
  name := "train-wednesday"
  spec.outputs := [plainSpec]

theorem slashed_mountOf : MountOf tuesdayRun {} slashedSpec slashedMount :=
  ⟨[slashedMount], rfl, 0, rfl, rfl⟩

theorem plain_mountOf : MountOf wednesdayRun {} plainSpec plainMount :=
  ⟨[plainMount], rfl, 0, rfl, rfl⟩

theorem subPaths_apart_slashed :
    (split slashedMount.subPath '/').head? = some "train-tuesday" ∧
      (split plainMount.subPath '/').head? = some "train-wednesday" ∧
      slashedMount.subPath ≠ plainMount.subPath ∧
      ¬ IsDirPrefix slashedMount.subPath plainMount.subPath ∧
      ¬ IsDirPrefix plainMount.subPath slashedMount.subPath :=
  @subPaths_apart tuesdayRun wednesdayRun {} {} slashedSpec plainSpec slashedMount plainMount
    (by decide) (by decide) (by decide) (by decide) (by decide) rfl rfl
    slashed_mountOf plain_mountOf

end PipelineOperator.Api
