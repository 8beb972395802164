import OneHarness.Agent.Proofs.Loop
import OneHarness.Agent.Proofs.Queues
import OneHarness.Children.Proofs.Run
import OneHarness.Children.Proofs.Usage
import OneHarness.Session.Proofs.Branch
import OneHarness.Session.Proofs.Crash
import OneHarness.Session.Proofs.Faults
import OneHarness.Session.Proofs.Fork
import OneHarness.Session.Proofs.Lease
import OneHarness.Session.Proofs.Replay
import OneHarness.Wire.Proofs.PrivateFraming
import OneHarness.Daemon.Proofs.CommandJournal
import OneHarness.Tools.Proofs.OutputAccumulator
import OneHarness.Ai.Proofs.TransformMessages
import OneHarness.Daemon.Proofs.CompactSessionStream
import OneHarness.Daemon.Proofs.RlmLedger
import OneHarness.Daemon.Proofs.WorkerRecoveryJournal
import OneHarness.Cron.Proofs.Claim
import OneHarness.Utils.Proofs.DirLock
import OneHarness.Wire.Proofs.Jsonl
import OneHarness.Tui.Proofs.Editor
import OneHarness.Tui.Proofs.StdinBuffer
import OneHarness.Mcp.Proofs.Settlement
import OneHarness.Mcp.Proofs.Ownership
import OneHarness.Settings.Proofs.SettingsManager
import OneHarness.Settings.Proofs.Effective
import OneHarness.Ai.Proofs.JsonParse
import OneHarness.Ai.Proofs.ResponsesStream
import OneHarness.Daemon.Proofs.AgentRoster
import OneHarness.Session.Proofs.ActionOrder
import OneHarness.Session.Proofs.Admission
import OneHarness.Session.Proofs.RetryBudget
import OneHarness.Session.Proofs.CutPoint
import OneHarness.Session.Proofs.Compaction
import OneHarness.Cron.Proofs.Heartbeats
import OneHarness.Cron.Proofs.NextRun
import OneHarness.Daemon.Proofs.RlmFamily
import OneHarness.Daemon.Proofs.TornAppends
import OneHarness.Session.Proofs.OwnSpend
import OneHarness.Session.Proofs.Walks
import OneHarness.Session.Proofs.Migration
import OneHarness.Refinement.Proofs.Merge
import OneHarness.Refinement.Proofs.Rollback
import OneHarness.Daemon.Proofs.SnapshotTranscript
import OneHarness.Tools.Proofs.FileMutationQueue
import OneHarness.Tui.Proofs.WordWrap
import OneHarness.Cron.Proofs.CrashedMoves
import OneHarness.Tools.Proofs.EditDiff
import OneHarness.Daemon.AgentFamily
import OneHarness.Daemon.Proofs.AgentFamily
import OneHarness.Refinement.Proofs.Digest
import OneHarness.Refinement.Proofs.History
import OneHarness.Daemon.Proofs.OrphanProcessJournal
import OneHarness.Refinement.Proofs.Request
import OneHarness.Utils.Proofs.Semaphore
import OneHarness.Session.Proofs.BranchSummary
import OneHarness.Kernel.Proofs.Startup
import OneHarness.Session.Proofs.CommitFence
import OneHarness.Agent.Proofs.MessageRateLimiter
import OneHarness.Tui.Proofs.AnsiScan
import OneHarness.Cli.Proofs.ModelResolver
import OneHarness.Rlm.Proofs.Pump
import OneHarness.Rlm.Proofs.Snapshot
import OneHarness.Tui.Proofs.Undo
