import Ucser.Security.PsDaemon
import Ucser.Security.DaemonReply
import Ucser.Core.Trust
import Ucser.Core.Authority
import Ucser.Core.Wakeup
import Ucser.Core.Schedule
import Ucser.Core.Terminal
import Ucser.Core.Telemetry
import Ucser.Core.Coherence
import Ucser.Core.Replay
import Ucser.Core.Tamper
import Ucser.Core.ReplayTrust
import Ucser.Core.Parity
import Ucser.Lib.Inodes
import Ucser.Engine.StateManager
import Ucser.Lib.Lines
import Ucser.Core.Sandbox
import Ucser.Core.Checkpoint
import Ucser.Core.Recovery
import Ucser.Core.Isolation
import Ucser.Semantic.LlmClient
import Ucser.Semantic.Parser
import Ucser.Semantic.Planner
import Ucser.Core.FailStop
import Ucser.Security.Contract
import Ucser.Core.Refusal
import Ucser.Core.Cancellation
import Ucser.Utils.Compliance
import Ucser.Core.SandboxRun
import Ucser.Lib.JsonLoads
import Ucser.Core.Scheduler
import Ucser.Core.Worker
import Ucser.Lib.PosixPath
import Ucser.Lib.ShellWords
import Ucser.Core.Bridge
import Ucser.Engine.Manager
import Ucser.Engine.Schema
import Ucser.Security.Sentinel
import Ucser.Security.MutationController
import Ucser.Semantic.Deletion
import Ucser.Core.Db
import Ucser.Core.Normalize
import Ucser.Api.RestServer
import Ucser.Core.SessionTable
import Ucser.Core.NetworkMode
import Ucser.Lib.JsonPrefix
import Ucser.Lib.FileTree
import Ucser.Lib.Regex
import Ucser.Core.SecureExecutor
import Ucser.Lib.Marks
import Ucser.Security.PowerShellAuditor
import Ucser.Core.DbMigration
import Ucser.Core.RbacSystem
import Ucser.Core.SecretsManagement
import Ucser.Core.SecretStore
import Ucser.Core.SideEffects
import Ucser.Adapters.PowerShell
import Ucser.Core.KeyValue
import Ucser.Core.GraphStore
import Ucser.Harness.ReplayEngine
import Ucser.Harness.GoldenValidator
import Ucser.Lib.Retry
import Ucser.Lib.History
import Ucser.Semantic.Compiler
import Ucser.Api.McpServer
import Ucser.Api.Dashboard
import Ucser.Api.Canvas
import Ucser.Lib.Window
import Ucser.Utils.Metrics
import Ucser.Core.DataBus
import Ucser.Core.UcerStore
import Ucser.Utils.Logging
import Ucser.Core.MicroVm
