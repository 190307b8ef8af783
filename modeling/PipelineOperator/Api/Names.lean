import PipelineOperator.Api.Externals
import PipelineOperator.Go.Strings

/-!
# Generated names

Runs, jobs and kubernetes jobs are named `name-hash`, with the hash in
unpadded hexadecimal.  `%v` prints a whole pipeline spec; its schedule is a
pointer to a type without a `String` method, so where it is set the text
holds the address at which the decoded schedule lies.
-/

namespace PipelineOperator.Api

open PipelineOperator.Lib
open PipelineOperator.Go

/-- Generate a resource name with a short hash. -/
def getShortHashPostFix (lib : Externals) (name hashBy : String) : String :=
  tagged name (lib.hashString hashBy).toNat

/-- Equal generated names have equal bases and equal hashes. -/
theorem getShortHashPostFix_inj {lib : Externals} {name name' hashBy hashBy' : String}
    (h : getShortHashPostFix lib name hashBy = getShortHashPostFix lib name' hashBy') :
    name = name' ∧ lib.hashString hashBy = lib.hashString hashBy' := by
  obtain ⟨hname, hhash⟩ := tagged_inj h
  exact ⟨hname, UInt64.toNat_inj.mp hhash⟩

/-! ## `fmt.Sprintf("%v", pipeline.Spec)` -/

section Format

variable (lib : Externals)

def HistoryLimit.format (h : HistoryLimit) : String :=
  fmtStruct [toString h.amount, h.date]

def Resource.format (r : Resource) : String :=
  fmtStruct [r.cpu, r.memory, fmtStruct [r.gpu.gpuType, toString r.gpu.amount]]

def VolumeResource.format (v : VolumeResource) : String :=
  fmtStruct [v.name, v.capacity, v.storage, v.lifecycle, fmtSlice v.accessModes]

def IOVolumeSpec.format (v : IOVolumeSpec) : String :=
  fmtStruct [v.name, v.mountPathOverride, v.mountPrefix,
    formatBool v.useIntermediateDirectory]

/-- A schedule held by value, as in a task. -/
def Schedule.format (s : Schedule) : String :=
  fmtStruct [lib.timeString s.startDate, s.scheduleDate, lib.timeString s.endDate,
    formatBool s.repeats]

def PipelineTask.format (t : PipelineTask) : String :=
  fmtStruct
    [ fmtStruct [t.name, t.image, t.command, fmtSlice t.args]
    , t.schedule.format lib
    , t.resource.format
    , formatBool t.trigger
    , fmtSlice t.runBefore
    , fmtSlice (t.inputs.map IOVolumeSpec.format)
    , fmtSlice (t.outputs.map IOVolumeSpec.format)
    , fmtMap t.env
    , lib.containerString t.additionalContainerSpecs
    , lib.podSpecString t.additionalPodSpecs ]

/-- The fields of a pipeline spec behind its schedule. -/
def PipelineSpec.formatTail (spec : PipelineSpec) : List String :=
  [ fmtSlice (spec.volumes.map VolumeResource.format)
  , formatBool spec.trigger
  , spec.historyLimit.format
  , fmtSlice (spec.tasks.map (PipelineTask.format lib))
  , fmtSlice spec.runBefore
  , fmtSlice (spec.inputs.map IOVolumeSpec.format)
  , fmtSlice (spec.outputs.map IOVolumeSpec.format)
  , spec.resource.format
  , fmtMap spec.env
  , lib.containerString spec.additionalContainerSpecs
  , lib.podSpecString spec.additionalPodSpecs ]

/-- The whole spec, decoded with its schedule (if it has one) at `address`. -/
def PipelineSpec.format (address : Nat) (spec : PipelineSpec) : String :=
  fmtStruct (fmtPointer (spec.schedule.map fun _ => address) :: spec.formatTail lib)

end Format

end PipelineOperator.Api
