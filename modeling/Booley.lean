import Booley.Lib.Merge
import Booley.Goals.Spec
import Booley.Goals.Record
import Booley.Goals.State
import Booley.Goals.StateStore
import Booley.Goals.StateMerging
import Booley.TestRuns.Plan
import Booley.TestRuns.Resolution
import Booley.TestRuns.UpdateRule
import Booley.TestRuns.Outcomes
import Booley.Goals.Judging
import Booley.Goals.Verdicts
import Booley.Goals.RecordedVerdicts
import Booley.Lib.Prog
import Booley.Goals.RecordStore
import Booley.Goals.Proposals
import Booley.Goals.ApplyEffects
import Booley.Lib.History
import Booley.Goals.RecordHistory
import Booley.Goals.ChangeLog
import Booley.Goals.ProposalStore
import Booley.Goals.Apply
import Booley.Goals.ApplyPreparation
import Booley.Goals.ApplyPhases
import Booley.Goals.ApplyRecovery
import Booley.Goals.DecisionRuns
import Booley.Goals.Projection
import Booley.Goals.Publication
import Booley.Goals.Campaigns
import Booley.Goals.PublicationRuns
import Booley.Lib.Numerals
import Booley.Lib.BinarySearch
import Booley.Lib.Timeline
import Booley.Waves.Format
import Booley.Waves.Values
import Booley.Waves.Virtual
import Booley.Waves.StoredBits
import Booley.Waves.Slices
import Booley.Waves.Transitions
import Booley.Waves.PointReads
import Booley.Waves.VirtualTransitions
import Booley.Lib.Bounds
import Booley.Lib.Json
import Booley.Goals.Thresholds
import Booley.Goals.GoalArgs
import Booley.Goals.Merging
import Booley.Goals.MergedBounds
import Booley.Goals.MergedGoals
import Booley.Goals.MergeGroups
import Booley.Goals.MergeOrder
import Booley.Goals.MergeSpec
import Booley.Goals.GroupMerge
import Booley.Goals.WholeMerge
import Booley.Goals.NamedRuns
import Booley.Goals.GoalEvidence
import Booley.Goals.MergeMeet
import Booley.Goals.Freshness
import Booley.Goals.FreshnessAgreement
import Booley.Retention.Reports
import Booley.Retention.Dependents
import Booley.Retention.Pruning
import Booley.Retention.Effects
import Booley.Retention.Stranding
import Booley.Retention.Readiness
import Booley.Retention.Completion
import Booley.Coverage.Campaign
import Booley.Coverage.Policy
import Booley.Coverage.Rollups
import Booley.Coverage.Verdict
import Booley.Coverage.Acceptance
import Booley.Coverage.Reevaluation
import Booley.Coverage.CampaignStore
import Booley.Simulation.Observations
import Booley.Simulation.TestRunRows
import Booley.Simulation.GoalChanges
import Booley.Simulation.CampaignEvidence
import Booley.Simulation.RunBinding
import Booley.Lib.Runs
import Booley.Lib.Keyed
import Booley.Admission.Sandboxes
import Booley.Admission.Starts
import Booley.Admission.Reconciliation
import Booley.Admission.Occupancy
import Booley.Admission.Capacity
import Booley.Goals.WorktreeOccupancy
import Booley.Criteria.Evaluation
import Booley.Criteria.LiveState
import Booley.Criteria.Replay
import Booley.Criteria.Gate
import Booley.Lib.Decimals
import Booley.TestRuns.Selectors
import Booley.TestRuns.Documents
import Booley.Lib.TextOrder
import Booley.JobSlots.Names
import Booley.JobSlots.Directory
import Booley.JobSlots.Store
import Booley.JobSlots.Steps
import Booley.JobSlots.Admission
import Booley.JobSlots.Promotion
import Booley.JobSlots.Presence
import Booley.JobSlots.Cancellation
import Booley.JobSlots.Order
import Booley.JobSlots.LeaseRuns
import Booley.Executions.Endings
import Booley.Lib.Utf8
import Booley.Lib.JsonScalars
import Booley.Lib.JsonText
import Booley.Lib.JsonBytes
import Booley.Lib.LineFile
import Booley.Goals.StoredValues
import Booley.Goals.StoredSpec
import Booley.Goals.ChangeRecords
import Booley.Goals.ChangeFile
import Booley.Goals.ChangePolicy
import Booley.Goals.Relaxation
import Booley.Waves.CanonicalBits
import Booley.Waves.SlicedValues
import Booley.Waves.Toggles
import Booley.Waves.Literals
import Booley.Waves.TimeGrid
import Booley.Waves.DistanceSummaries
import Booley.Waves.ResetRelease
import Booley.Waves.SampledEvents
import Booley.Waves.Statistics
import Booley.Waves.VcdChunks
import Booley.Coverage.Incidence
import Booley.Campaigns.AttemptDirectories
import Booley.Campaigns.SimulationResults
import Booley.Campaigns.Workloads
import Booley.Coverage.StoredReevaluation
import Booley.Coverage.ProvisionalVerdict
import Booley.Waves.HeaderReading
import Booley.Waves.StoppedClock
import Booley.Files.GuardedEffects
import Booley.Simulation.SuiteEvidence
import Booley.Simulation.CycleVerdicts
import Booley.Simulation.CycleBounds
import Booley.Targets.SurfaceDeltas
import Booley.Targets.SelectedLines
import Booley.CommitPolicy.ReservedPlaceholders
import Booley.Waves.PackedBits
import Booley.Evidence.ReaderRuns
import Booley.Goals.RecordCodec
import Booley.Campaigns.SchedulingEnds
import Booley.Waves.VirtualGrammar
