import AgentKernel.Lib.Runs
import AgentKernel.Lib.Lists
import AgentKernel.Lib.Firsts
import AgentKernel.Lib.Splitting
import AgentKernel.Lib.Regex
import AgentKernel.Lib.Merkle
import AgentKernel.Lib.Chains
import AgentKernel.Lib.Tables
import AgentKernel.Lib.Encodings
import AgentKernel.Lib.Doubles
import AgentKernel.Contracts.Json
import AgentKernel.Contracts.JsonText
import AgentKernel.Contracts.Events
import AgentKernel.Contracts.KeyOrder
import AgentKernel.Contracts.Stringify
import AgentKernel.Contracts.Canonical
import AgentKernel.Contracts.Whole
import AgentKernel.Contracts.Coercion
import AgentKernel.Contracts.Naming
import AgentKernel.Transition
import AgentKernel.Transition.Dag
import AgentKernel.Orchestrator.Types
import AgentKernel.Orchestrator.Dag
import AgentKernel.Orchestrator.Cycles
import AgentKernel.Orchestrator.Layers
import AgentKernel.Orchestrator.Bulkhead
import AgentKernel.Orchestrator.Seats
import AgentKernel.Orchestrator.Idempotency
import AgentKernel.Orchestrator.Joining
import AgentKernel.Orchestrator.Events
import AgentKernel.Orchestrator.Executor
import AgentKernel.Orchestrator.Machine
import AgentKernel.Orchestrator.Hydrate
import AgentKernel.Orchestrator.Keys
import AgentKernel.Orchestrator.Effects
import AgentKernel.Orchestrator.Spread
import AgentKernel.Orchestrator.Moves
import AgentKernel.Orchestrator.Sound
import AgentKernel.Orchestrator.Start
import AgentKernel.Orchestrator.Approval
import AgentKernel.Orchestrator.ForwardOnce
import AgentKernel.Orchestrator.LedgerOrder
import AgentKernel.Orchestrator.Failing
import AgentKernel.Orchestrator.Undo
import AgentKernel.Orchestrator.Rollback
import AgentKernel.Orchestrator.Reuse
import AgentKernel.Orchestrator.Cancel
import AgentKernel.Orchestrator.Tidy
import AgentKernel.Orchestrator.Rest
import AgentKernel.Orchestrator.Finish
import AgentKernel.Orchestrator.Waves
import AgentKernel.Orchestrator.Trace
import AgentKernel.Orchestrator.SweptOnce
import AgentKernel.Orchestrator.UndoOrder
import AgentKernel.Orchestrator.Legal
import AgentKernel.Orchestrator.Evaluate
import AgentKernel.Orchestrator.Progress
import AgentKernel.Orchestrator.Crashes
import AgentKernel.Orchestrator.Schedules
import AgentKernel.Orchestrator.Decided
import AgentKernel.Orchestrator.Branches
import AgentKernel.Orchestrator.Replay
import AgentKernel.Orchestrator.Attempts
import AgentKernel.Orchestrator.SharedQueue
import AgentKernel.Orchestrator.Mixed
import AgentKernel.Orchestrator.Replayed
import AgentKernel.Orchestrator.Retold
import AgentKernel.Orchestrator.Recovery
import AgentKernel.Events.Merkle
import AgentKernel.Storage.DurableLedger
import AgentKernel.Storage.TamperEvidence
import AgentKernel.Storage.Hydration
import AgentKernel.Storage.Projections
import AgentKernel.Storage.SqliteStores
import AgentKernel.Storage.KeyedStores
import AgentKernel.Immune.Types
import AgentKernel.Immune.Detector
import AgentKernel.Immune.Gate
import AgentKernel.Immune.Runtime
import AgentKernel.Immune.Containment
import AgentKernel.Immune.Persistence
import AgentKernel.Immune.Evidence
import AgentKernel.Immune.Restrictions
import AgentKernel.Immune.CircuitBreaker
import AgentKernel.Immune.Incidents
import AgentKernel.Immune.Recovery
import AgentKernel.Identity.IdentityService
import AgentKernel.Identity.Tenants
import AgentKernel.Identity.Roles
import AgentKernel.Economics
import AgentKernel.Economics.Tenants
import AgentKernel.Registry
import AgentKernel.Capability
import AgentKernel.Models.Router
import AgentKernel.Models.Gateway
import AgentKernel.Tools.RestrictedShell
import AgentKernel.Vault
import AgentKernel.Policy
import AgentKernel.Policy.Scopes
import AgentKernel.Verification
import AgentKernel.Runner.LocalRunner
import AgentKernel.Runner.Budgets
import AgentKernel.Runner.Scopes
import AgentKernel.Runner.Observed
import AgentKernel.Runner.Trails
import AgentKernel.Runner.Passed
import AgentKernel.Runner.AuditTrail
import AgentKernel.Runner.Usage
import AgentKernel.Runner.Records
import AgentKernel.Runner.Authorized
import AgentKernel.Runner.Restarts
import AgentKernel.Runner.SmokeRunner
import AgentKernel.Apps.RunRequest
import AgentKernel.Apps.Worker
import AgentKernel.Apps.Console
import AgentKernel.Apps.Server
import AgentKernel.Lib.Asking
import AgentKernel.Tools.Exchanges
import AgentKernel.Runner.OnGitHub
import AgentKernel.Tools.GitHub
