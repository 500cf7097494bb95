import Shaula.Library.Outcome
import Shaula.Library.Table
import Shaula.Library.FileTree
import Shaula.Library.Run
import Shaula.Library.Program
import Shaula.Core.Lifecycle
import Shaula.Core.StateBackend
import Shaula.Core.Worker
import Shaula.Core.Records
import Shaula.Store.Schema
import Shaula.Store.Row
import Shaula.Store.Worker
import Shaula.Store.HttpState
import Shaula.Store.Request
import Shaula.Store.Completion
import Shaula.Store.Recovery
import Shaula.Store.Effect
import Shaula.Store.Ledger
import Shaula.Store.Change
import Shaula.System.Daemon
import Shaula.System.Step
import Shaula.System.Run
import Shaula.System.Script
import Shaula.System.Authority
import Shaula.System.Backend
import Shaula.System.Custody
import Shaula.System.Monotone
import Shaula.System.Fencing
import Shaula.System.Command
import Shaula.System.Create
import Shaula.System.Terminal
import Shaula.System.Cleanup
import Shaula.System.Conformance
import Shaula.System.Interleaving
import Shaula.RunnerOperation.Backoff
import Shaula.RunnerOperation.Effects
import Shaula.RunnerOperation.Checkpoints
import Shaula.RunnerOperation.Destroy
import Shaula.RunnerOperation.Lifetime
import Shaula.RunnerOperation.Knowledge
import Shaula.RunnerOperation.Ordering
import Shaula.Jobs.Observation
import Shaula.Jobs.Projection
import Shaula.Jobs.Surrogate
import Shaula.Jobs.Message
import Shaula.Jobs.Association
import Shaula.Jobs.Ingest
import Shaula.Jobs.Archive
import Shaula.Jobs.Refresh
import Shaula.Jobs.Ingestion
import Shaula.Jobs.Current
import Shaula.Jobs.Confluence
import Shaula.Jobs.Stability
import Shaula.Registry.AuthContext
import Shaula.Registry.Authority
import Shaula.Listener.Schema
import Shaula.Listener.Messages
import Shaula.Listener.Acquisitions
import Shaula.Listener.Broker
import Shaula.Listener.Step
import Shaula.Listener.Ingestion
import Shaula.Listener.AtMostOnce
import Shaula.Listener.Custody
import Shaula.Listener.SessionCustody
import Shaula.Listener.Delivery
import Shaula.Registry.Spec
import Shaula.Registry.AuthPolicy
import Shaula.Registry.Schema
import Shaula.Registry.Revision
import Shaula.Registry.Handoff
import Shaula.Registry.Mutation
import Shaula.Registry.Observed
import Shaula.Registry.Acknowledgement
import Shaula.Registry.HandoffRun
import Shaula.Registry.TemplatePool
import Shaula.Registry.RouteResolution
import Shaula.RunnerOperation.ScaleDown
import Shaula.Registry.TargetPolicy
import Shaula.Library.Json
import Shaula.Template.Manifest
import Shaula.Template.Result
import Shaula.Template.Plan
import Shaula.Template.PlanShape
import Shaula.Template.PlanDocument
import Shaula.Template.DestroyPlan
import Shaula.Library.Text
import Shaula.Template.GitlabBootstrap
import Shaula.Template.Selection
import Shaula.Template.Input
import Shaula.Template.ReadBack
import Shaula.Template.AppliedPlan
import Shaula.Template.VariablesSchema
import Shaula.Template.VariablesType
import Shaula.Template.ValidatorAgreement
import Shaula.ScaleSet.Adoption
import Shaula.ScaleSet.Recovery
import Shaula.Template.Sanitizer
import Shaula.Template.SyntaxGuard
import Shaula.Template.LockCommitment
import Shaula.Workers.Replay
import Shaula.Workers.Capacity
import Shaula.Workers.Conservation
import Shaula.Library.Quoting
import Shaula.Template.EngineState
import Shaula.Template.StateAgreement
import Shaula.Jobs.Forgejo
import Shaula.Jobs.Gitlab
import Shaula.Jobs.PoolResults
import Shaula.System.Recovery
import Shaula.Library.ReadWriteLock
import Shaula.Registry.Heads
import Shaula.System.HeadFence
import Shaula.Library.Execution
import Shaula.Library.Pool
import Shaula.OperationLogs.Statements
import Shaula.Library.Framing
import Shaula.Template.MaterialDigest
import Shaula.Template.Cleanup
import Shaula.Template.Reaping
import Shaula.Oidc.Sessions
import Shaula.Oidc.Renewal
import Shaula.Oidc.Login
import Shaula.Library.JsonObjects
import Shaula.Inputs.Schema
import Shaula.Inputs.Authority
import Shaula.Inputs.Projection
import Shaula.Inputs.Discovery
import Shaula.Inputs.WellTyped
import Shaula.Library.JsonText
import Shaula.Core.LockDocument
import Shaula.System.LockDocuments
import Shaula.Library.PoolHistory
import Shaula.AccessTokens.Records
import Shaula.AccessTokens.Service
import Shaula.Library.RateWindow
import Shaula.AccessTokens.Calls
import Shaula.AccessTokens.RequestHash
import Shaula.AccessTokens.Authority
import Shaula.Library.Keyset
import Shaula.OperationLogs.Calls
import Shaula.OperationLogs.Paging
import Shaula.OperationLogs.Capture
import Shaula.OperationLogs.Disk
import Shaula.OperationLogs.Honesty
