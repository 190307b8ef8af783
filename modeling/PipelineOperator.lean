import PipelineOperator.Api.Types
import PipelineOperator.Api.Externals
import PipelineOperator.Api.Names
import PipelineOperator.Lib.Machine
import PipelineOperator.Lib.Rank
import PipelineOperator.Lib.Sweep
import PipelineOperator.Lib.Versioned
import PipelineOperator.Api.Construct
import PipelineOperator.Api.ScheduleDate
import PipelineOperator.Api.JobState
import PipelineOperator.Controller.KJobList
import PipelineOperator.Lib.Keyed
import PipelineOperator.Controller.Gating
import PipelineOperator.Controller.Settling
import PipelineOperator.Controller.References
import PipelineOperator.Controller.RunExists
import PipelineOperator.Controller.RunStatus
import PipelineOperator.Controller.RunMachine
import PipelineOperator.Controller.Release
import PipelineOperator.Controller.Lifecycle
import PipelineOperator.Controller.Schedule
import PipelineOperator.Controller.ScheduleMachine
import PipelineOperator.Controller.Fence
import PipelineOperator.Controller.ScheduleCount
import PipelineOperator.Controller.Overlap
import PipelineOperator.Controller.NilAccess
import PipelineOperator.Controller.Rearm
import PipelineOperator.Controller.SuspendDecision
import PipelineOperator.Controller.SpecAgreement
import PipelineOperator.Api.SubPaths
import PipelineOperator.Controller.StatusRetry
import PipelineOperator.Controller.VolumeList
import PipelineOperator.Controller.PersistentVolumes
import PipelineOperator.Controller.Ownership
import PipelineOperator.Controller.Reconcile
import PipelineOperator.Controller.SecondPass
import PipelineOperator.Controller.Quiescence
import PipelineOperator.Controller.Completion
import PipelineOperator.Controller.Wedge
import PipelineOperator.Api.DateTokens
import PipelineOperator.Lib.Arrange
import PipelineOperator.Controller.StatusAggregate
import PipelineOperator.Lib.Cover
import PipelineOperator.Controller.EndDetection
import PipelineOperator.Controller.Accounting
import PipelineOperator.Lib.Distinct
import PipelineOperator.Api.Mounts
import PipelineOperator.Lib.Segments
import PipelineOperator.Api.MountPaths
import PipelineOperator.Controller.VolumeRoundTrip
import PipelineOperator.Controller.ScheduledRuns
import PipelineOperator.Api.DateGrammar
import PipelineOperator.Api.StartDates
import PipelineOperator.Controller.PendingDates
import PipelineOperator.Api.TaskResources
import PipelineOperator.Controller.Confined
import PipelineOperator.Controller.Isolation
import PipelineOperator.Controller.Growth
import PipelineOperator.Controller.Progress
import PipelineOperator.Controller.Stranded
import PipelineOperator.Controller.Pacing
import PipelineOperator.Controller.Refinement
import PipelineOperator.Controller.InOrder
import PipelineOperator.Controller.Recurrence
import PipelineOperator.Controller.WatchedRun
import PipelineOperator.Controller.RunRefinement
import PipelineOperator.Controller.OperatorProgress
