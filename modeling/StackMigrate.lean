import StackMigrate.Api.Decisions
import StackMigrate.Api.Lifecycle
import StackMigrate.Api.Locks
import StackMigrate.Api.Requests
import StackMigrate.Api.Service
import StackMigrate.Api.Status
import StackMigrate.Api.Turns
import StackMigrate.Api.Verdicts
import StackMigrate.Core.Python
import StackMigrate.Core.Slugs
import StackMigrate.Core.Text
import StackMigrate.Graph.Build
import StackMigrate.Graph.Collaborators
import StackMigrate.Graph.Diffs
import StackMigrate.Graph.Drafts
import StackMigrate.Graph.Ledger
import StackMigrate.Graph.Loop
import StackMigrate.Graph.Records
import StackMigrate.Graph.Replay
import StackMigrate.Graph.Routing
import StackMigrate.Graph.Shadows
import StackMigrate.Graph.Supersteps
import StackMigrate.Graph.TaskMoves
import StackMigrate.Graph.Traces
import StackMigrate.Graph.Waves
import StackMigrate.Library.Blocking
import StackMigrate.Library.DrivenSystem
import StackMigrate.Library.KeyedList
import StackMigrate.Library.KeyedLocks
import StackMigrate.Library.Lines
import StackMigrate.Library.ObjectStore
import StackMigrate.Library.PathTree
import StackMigrate.Library.SharedClients
import StackMigrate.Nodes.Comprehension
import StackMigrate.Nodes.Extraction
import StackMigrate.Nodes.Migration
import StackMigrate.Nodes.Passes
import StackMigrate.Nodes.Plan
import StackMigrate.Nodes.Publication
import StackMigrate.Nodes.SourceDiscovery
import StackMigrate.Nodes.Synthesis
import StackMigrate.Nodes.UnitIds
import StackMigrate.Properties.Acyclicity
import StackMigrate.Properties.AllOrNothing
import StackMigrate.Properties.Answers
import StackMigrate.Properties.BadResponses
import StackMigrate.Properties.BudgetAbort
import StackMigrate.Properties.CallCap
import StackMigrate.Properties.Completeness
import StackMigrate.Properties.Containers
import StackMigrate.Properties.Containment
import StackMigrate.Properties.CostCeiling
import StackMigrate.Properties.Decisions
import StackMigrate.Properties.DispatchGate
import StackMigrate.Properties.FailingTests
import StackMigrate.Properties.HardStop
import StackMigrate.Properties.Isolation
import StackMigrate.Properties.LastWriter
import StackMigrate.Properties.NewestCode
import StackMigrate.Properties.PartialExtraction
import StackMigrate.Properties.PlanQuotient
import StackMigrate.Properties.Preparation
import StackMigrate.Properties.Publication
import StackMigrate.Properties.PublishablePaths
import StackMigrate.Properties.PullRequests
import StackMigrate.Properties.References
import StackMigrate.Properties.RoundCap
import StackMigrate.Properties.Scheduling
import StackMigrate.Properties.ScopeGuardrail
import StackMigrate.Properties.Service
import StackMigrate.Properties.SpendLedger
import StackMigrate.Properties.StableIds
import StackMigrate.Properties.StagedFiles
import StackMigrate.Properties.StaleRemoval
import StackMigrate.Properties.Status
import StackMigrate.Properties.TaskReducer
import StackMigrate.Properties.TerminalPhase
import StackMigrate.Properties.Termination
import StackMigrate.Properties.WaveOrder
import StackMigrate.Sandbox.Batches
import StackMigrate.Sandbox.Containers
import StackMigrate.Sandbox.DockerRunner
import StackMigrate.Sandbox.FileSystem
import StackMigrate.Sandbox.Paths
import StackMigrate.Sandbox.Resolution
import StackMigrate.Sandbox.Trees
import StackMigrate.Sandbox.Workspace
import StackMigrate.Services.RepoPrep
import StackMigrate.State.Budget
import StackMigrate.State.GraphState
import StackMigrate.State.Tasks
import StackMigrate.Vcs.GithubPublisher
import StackMigrate.Vcs.Repository
