import PipelineOperator.Api.Types
import PipelineOperator.Lib.Fnv
import Mathlib.Data.List.Sort

/-!
# What the operator takes from other packages

The functions of third-party packages, and the Go library functions whose
result the documentation leaves open, are the fields of one record.  The
model is a function of that record, so that its theorems hold whatever these
functions return.
-/

namespace PipelineOperator.Api

open PipelineOperator.Lib

/-- The functions the operator calls and does not define. -/
structure Externals where
  /-- `hashString`; the operator's own choice is `fnvHash` below. -/
  hashString : String → UInt64
  /-- `resource.ParseQuantity` -/
  parseQuantity : String → Except String Quantity
  /-- `mergo.Merge` on containers, with override and slices appended -/
  mergeContainer : Container → Container → Except String Container
  /-- `mergo.Merge` on pod specs, with override and slices appended -/
  mergePodSpec : PodSpec → PodSpec → Except String PodSpec
  /-- the `String` method of `*corev1.Container` -/
  containerString : Option Container → String
  /-- the `String` method of `*corev1.PodSpec` -/
  podSpecString : Option PodSpec → String
  /-- the `String` method of `*metav1.Time` -/
  timeString : Option Time → String
  /-- `MarshalText` of a `metav1.Time` -/
  marshalTime : Time → Except String String
  /-- `cron.ParseStandard`, with the `Next` method of the schedule it parses -/
  parseCron : String → Except String (Time → Time)
  /-- `sort.Slice`, which is not stable -/
  sortSlice : (RunJobState → RunJobState → Bool) → List RunJobState → List RunJobState

/-- The hash of `run_types.go`: FNV-1a of the bytes of the string. -/
def fnvHash (s : String) : UInt64 := Fnv.sum64a s.toByteArray.data.toList

/-- The same functions with the operator's own hash. -/
def Externals.withFnv (lib : Externals) : Externals := { lib with hashString := fnvHash }

/-- Externals on which examples are evaluated: quantities are kept as they
are spelt, additional specs are ignored, and no string is a cron line. -/
def Externals.plain : Externals where
  hashString := fnvHash
  parseQuantity := fun s => .ok ⟨s⟩
  mergeContainer := fun container _ => .ok container
  mergePodSpec := fun podSpec _ => .ok podSpec
  containerString := fun _ => "nil"
  podSpecString := fun _ => "nil"
  timeString := fun t => (t.map toString).getD "<nil>"
  marshalTime := fun t => .ok (toString t)
  parseCron := fun s => .error s
  sortSlice := fun less l => l.insertionSort fun a b => less b a = false

end PipelineOperator.Api
