import PipelineOperator.Api.Externals
import PipelineOperator.Go.Strings

/-!
# Volumes, mounts and containers of a job

How `run_types.go` turns the volume names, resources and environment of a job
into a container and its pod volumes.
-/

namespace PipelineOperator.Api

open PipelineOperator.Go

/-- Cut a volume name at its slashes: the first part names the claim, the
others are the sub path. -/
def splitVolumeCorpus (volumeString : String) : Except String (List String) :=
  let trimmed := trimSuffix (trimPrefix volumeString "/") "/"
  let volumeCorpus := split trimmed '/'
  match volumeCorpus with
  | [] => .error ("volumeString '" ++ trimmed ++ "' has no name")
  | name :: subPaths =>
      if name = "" then .error ("volumeString '" ++ trimmed ++ "' has no name")
      else .ok (name :: subPaths)

/-- The loop of `parseVolumeWithPVCFromJob`; `seen` is its hash set. -/
def claimVolumes (seen : List String) : List IOVolumeSpec → Except String (List Volume)
  | [] => .ok []
  | e :: es => do
      let volumeCorpus ← splitVolumeCorpus e.name
      let volumeName := volumeCorpus.headD ""
      if volumeName ∈ seen then claimVolumes seen es
      else
        let rest ← claimVolumes (volumeName :: seen) es
        return { name := volumeName, source := .persistentVolumeClaim volumeName } :: rest

def parseVolumeWithPVCFromJob (run : Run) (job : Job) : Except String (List Volume) :=
  claimVolumes [] (run.spec.inputs ++ run.spec.outputs ++ job.inputs ++ job.outputs)

def mountPathDefaultPrefix : String := "/data/pipeline"

/-- The mount of one volume spec. -/
def parseVolumeMount (run : Run) (readOnly : Bool) (e : IOVolumeSpec) :
    Except String VolumeMount := do
  let mountCorpus ← splitVolumeCorpus e.name
  let subPath := if 1 < mountCorpus.length then join mountCorpus.tail "/" else ""
  let subPath := trimSuffix (trimPrefix subPath "/") "/"
  let mountPathPrefix := if e.mountPrefix ≠ "" then e.mountPrefix else mountPathDefaultPrefix
  let mountPathPrefix :=
    if hasPrefix mountPathPrefix "/" then mountPathPrefix else "/" ++ mountPathPrefix
  let volumeName := mountCorpus.headD ""
  let mountPath :=
    if e.mountPathOverride ≠ "" then e.mountPathOverride else volumeName ++ "/" ++ subPath
  let mountPath := trimSuffix (trimPrefix mountPath "/") "/"
  let subPathWithIntermediateDirectory :=
    if e.useIntermediateDirectory then run.name ++ "/" ++ subPath else subPath
  let subPathWithIntermediateDirectory :=
    trimSuffix (trimPrefix subPathWithIntermediateDirectory "/") "/"
  return {
    name := volumeName
    mountPath := mountPathPrefix ++ "/" ++ mountPath
    subPath := subPathWithIntermediateDirectory
    readOnly := readOnly }

/-- Mounts of the inputs (read only) and the outputs of the run, then of
those of the job. -/
def parseVolumeMountList (run : Run) (job : Job) : Except String (List VolumeMount) := do
  let runInputs ← run.spec.inputs.mapM (parseVolumeMount run true)
  let runOutputs ← run.spec.outputs.mapM (parseVolumeMount run false)
  let jobInputs ← job.inputs.mapM (parseVolumeMount run true)
  let jobOutputs ← job.outputs.mapM (parseVolumeMount run false)
  return runInputs ++ runOutputs ++ jobInputs ++ jobOutputs

/-- `ParsePvcFromVolumeResourceWithMeta`; the class is left to the cluster when
the volume names none. -/
def parsePvcFromVolumeResourceWithMeta (lib : Externals) (name ns : String)
    (volumeResource : VolumeResource) : Except String PersistentVolumeClaim := do
  let capacity ← lib.parseQuantity volumeResource.capacity
  return {
    name := name
    ns := ns
    accessModes := volumeResource.accessModes
    storage := some capacity
    storageClassName :=
      if volumeResource.storage ≠ "" then some volumeResource.storage else none }

/-- One entry of a resource list: nothing for an empty text. -/
def parseResourceEntry (lib : Externals) (text : String) :
    Except String (Option Quantity) :=
  if text = "" then .ok none else (lib.parseQuantity text).map some

def parseComputingResource (lib : Externals) (computingResource : Resource) :
    Except String ResourceList := do
  let cpu ← parseResourceEntry lib computingResource.cpu
  let memory ← parseResourceEntry lib computingResource.memory
  return { cpu := cpu, memory := memory }

/-- The variables in the order in which the map is walked. -/
def parseContainerEnv (env : List (String × String)) : List EnvVar :=
  env.map fun entry => { name := entry.1, value := entry.2 }

def parseCommand (command : String) : List String :=
  if command ≠ "" then [command] else []

def defaultImageRegistry (imagePath : String) : String :=
  if (split (beforeFirst imagePath '/') '.').length ≤ 1 then "docker.io/" ++ imagePath
  else imagePath

/-- The single container of a job.  A failure to parse the limits is
impossible here, since the same text has just been parsed for the requests. -/
def parseContainerFromJob (lib : Externals) (run : Run) (job : Job) :
    Except String (List Container) := do
  let requests ← parseComputingResource lib job.resource
  let limits ← parseComputingResource lib job.resource
  let mountVolumeList ← parseVolumeMountList run job
  return [{
    name := job.name
    image := defaultImageRegistry job.image
    command := parseCommand job.command
    args := job.args
    resources := { requests := requests, limits := limits }
    volumeMounts := mountVolumeList
    env := parseContainerEnv job.env }]

end PipelineOperator.Api
