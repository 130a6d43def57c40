import Taurus.Approval.Execution
import Taurus.Approval.Properties.ActivatedVersion
import Taurus.Approval.Properties.ChildCategories
import Taurus.Approval.Properties.Countersign
import Taurus.Approval.Properties.DecisionsKept
import Taurus.Approval.Properties.PendingLive
import Taurus.Approval.Properties.PendingStatus
import Taurus.Approval.Properties.RequestedMode
import Taurus.Approval.Rules
import Taurus.Editions.License
import Taurus.Editions.Properties.Clock
import Taurus.Editions.Properties.LicenseFiles
import Taurus.Engine.Concurrent.Properties.CancelKept
import Taurus.Engine.Concurrent.Properties.DispatchOnce
import Taurus.Engine.DagValidator.Places
import Taurus.Engine.Executor.Evaluation
import Taurus.Engine.Executor.Frames
import Taurus.Engine.Executor.Grammar
import Taurus.Engine.Properties.ConditionMeaning
import Taurus.Engine.Properties.ConditionSyntax
import Taurus.Engine.Properties.ConditionTotality
import Taurus.Engine.Properties.Connected
import Taurus.Engine.Properties.Defects
import Taurus.Engine.Properties.Dependency
import Taurus.Engine.Properties.DispatchIds
import Taurus.Engine.Properties.ElseEdges
import Taurus.Engine.Properties.FailFast
import Taurus.Engine.Properties.Finality
import Taurus.Engine.Properties.Finished
import Taurus.Engine.Properties.FirstRows
import Taurus.Engine.Properties.Healing
import Taurus.Engine.Properties.HostAgreement
import Taurus.Engine.Properties.HostOutputs
import Taurus.Engine.Properties.Interpolation
import Taurus.Engine.Properties.Isolation
import Taurus.Engine.Properties.KeptHosts
import Taurus.Engine.Properties.LastAttempt
import Taurus.Engine.Properties.LiveUnits
import Taurus.Engine.Properties.LoopConcurrency
import Taurus.Engine.Properties.LoopResults
import Taurus.Engine.Properties.MaskedView
import Taurus.Engine.Properties.Normalization
import Taurus.Engine.Properties.PlainEvaluation
import Taurus.Engine.Properties.PollPacing
import Taurus.Engine.Properties.Published
import Taurus.Engine.Properties.Reads
import Taurus.Engine.Properties.RegisteredTypes
import Taurus.Engine.Properties.Retries
import Taurus.Engine.Properties.RiskSeen
import Taurus.Engine.Properties.SecretsMask
import Taurus.Engine.Properties.Shorthand
import Taurus.Engine.Properties.SkipAgreement
import Taurus.Engine.Properties.TargetHosts
import Taurus.Engine.Properties.Templates
import Taurus.Engine.Risk
import Taurus.Engine.Runner.Runs
import Taurus.Engine.Steps.KeptByCalls
import Taurus.Engine.Steps.Polled
import Taurus.Engine.Steps.Resting
import Taurus.Engine.Tables
import Taurus.Lib.Descent
import Taurus.Lib.Dotted
import Taurus.Lib.Framing
import Taurus.Lib.History
import Taurus.Lib.Line
import Taurus.Lib.Loops
import Taurus.Lib.Memo
import Taurus.Lib.Saturation
import Taurus.Ops.Properties.ClaimedRuns
import Taurus.Ops.Properties.CommandOnce
import Taurus.Ops.Properties.RetryWriters
import Taurus.Ops.Properties.TerminalRows
import Taurus.Ops.Properties.WriteBackAgreement
import Taurus.Ops.System
import Taurus.OpsApproval.Entries
import Taurus.OpsApproval.Properties.Approvers
import Taurus.OpsApproval.Properties.OneRun
import Taurus.OpsApproval.Properties.Outcome
import Taurus.OpsApproval.Properties.Placeholders
import Taurus.OpsApproval.Properties.QuotaBound
import Taurus.OpsApproval.Properties.Reviewable
import Taurus.OpsApproval.Properties.SameRun
import Taurus.Programs.Policy
import Taurus.Programs.Properties.IpRanges
import Taurus.Python.Datetime
import Taurus.Python.Float
import Taurus.Scheduler.AdvanceRunning
import Taurus.Scheduler.Finalizing
import Taurus.Scheduler.Properties.Delivery
import Taurus.Scheduler.Properties.Pages
import Taurus.Scheduler.Properties.PilotVerdict
import Taurus.Scheduler.Properties.Starvation
import Taurus.Scheduler.Properties.Targets
import Taurus.Scheduler.Properties.TruthfulResults
import Taurus.Scheduler.Properties.Understood
import Taurus.Scheduler.Queue
import Taurus.Scheduler.ScriptTasks
import Taurus.Scheduler.UnifiedList
import Taurus.ScriptChecker.Properties.Occurrences
import Taurus.ScriptChecker.Service
import Taurus.Scripts.Properties.History
import Taurus.Scripts.Versions
import Taurus.Share.Departments
import Taurus.Share.Properties.Admissions
import Taurus.Share.Properties.LastActivation
import Taurus.Share.Properties.Listed
import Taurus.Share.Properties.MoreShares
import Taurus.Share.Properties.Subjects
import Taurus.Units.Approval
import Taurus.Units.Condition
import Taurus.Units.HttpCallback
import Taurus.Units.Loop
import Taurus.Units.Properties.ApprovalNodes
import Taurus.Units.Properties.Comparisons
import Taurus.Units.Properties.Nesting
import Taurus.Units.Properties.Waits
import Taurus.Units.SubWorkflow
import Taurus.Utils.CrlManager
import Taurus.Utils.Properties.Framing
import Taurus.Utils.Properties.Replays
import Taurus.Utils.Properties.RevokedCertificates
import Taurus.Utils.Signing
import Taurus.Views.Executions
import Taurus.Views.Properties.Callbacks
import Taurus.Views.Properties.Finished
import Taurus.Views.Properties.Stranded
import Taurus.Views.Untouchable
