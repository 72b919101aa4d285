import DataAgentSystem.Text.Escaping
import DataAgentSystem.Text.Lines
import DataAgentSystem.Concurrency.Serializability
import DataAgentSystem.Interaction.CrashLogic
import DataAgentSystem.AgentTxn.FallbackStates
import DataAgentSystem.AgentTxn.ForwardRecovery
import DataAgentSystem.AgentTxn.RollbackRecovery
import DataAgentSystem.AgentTxn.LostRace
import DataAgentSystem.Storage.SnapshotText
import DataAgentSystem.Storage.FileKVStore
import DataAgentSystem.Storage.CrashAtomicity
import DataAgentSystem.Storage.PersistenceRoundTrip
import DataAgentSystem.Runtime.TaskRuntime
import DataAgentSystem.AgentTxn.CommitOutcome
import DataAgentSystem.AgentTxn.CommitWithoutBatch
import DataAgentSystem.Branch.LiveIntents
import DataAgentSystem.AgentTxn.ReachedTransaction
import DataAgentSystem.AgentTxn.FallbackAgreement
import DataAgentSystem.AgentTxn.RecoveryOutcomes
import DataAgentSystem.AgentTxn.FallbackReads
import DataAgentSystem.AgentTxn.EmptyCommit
import DataAgentSystem.Runtime.CommitFinality
import DataAgentSystem.AgentTxn.CommitEffect
import DataAgentSystem.Runtime.TaskContinuation
import DataAgentSystem.Runtime.RecoveredCommit
import DataAgentSystem.AgentTxn.RebasedWrites
import DataAgentSystem.Concurrency.OpenRuns
import DataAgentSystem.Branch.Replay
import DataAgentSystem.Concurrency.RebasedCommits
import DataAgentSystem.Concurrency.CrashingCommits
import DataAgentSystem.Concurrency.CompareAndSwap
import DataAgentSystem.Interaction.Environment
import DataAgentSystem.AgentTxn.ArtifactCalls
import DataAgentSystem.Storage.Unreliable
import DataAgentSystem.AgentTxn.AbortedCommit
import DataAgentSystem.AgentTxn.UnreliableCommit
import DataAgentSystem.Runtime.AbortedTask
import DataAgentSystem.Runtime.ArtifactFinalization
import DataAgentSystem.Runtime.StartupMaintenance
import DataAgentSystem.AgentTxn.CommitFootprint
import DataAgentSystem.Runtime.PendingArtifact
import DataAgentSystem.AgentTxn.BranchHistory
import DataAgentSystem.AgentTxn.CommittedReads
import DataAgentSystem.AgentTxn.CommittableBranch
import DataAgentSystem.AgentTxn.ForgottenIntents
import DataAgentSystem.Runtime.TaskEventLog
import DataAgentSystem.AgentTxn.MirroredBranch
import DataAgentSystem.Interaction.Journal
import DataAgentSystem.Runtime.TaskWork
import DataAgentSystem.Runtime.RecoveredSession
import DataAgentSystem.Storage.Evolution
import DataAgentSystem.Runtime.RecoveredChecks
import DataAgentSystem.Runtime.ResumedTask
import DataAgentSystem.Containers.ThinnedLists
import DataAgentSystem.Runtime.SecondCrash
import DataAgentSystem.Runtime.RecoveredScores
import DataAgentSystem.AgentTxn.CommitLogRecovery
import DataAgentSystem.AgentTxn.RedoLog
import DataAgentSystem.Containers.KeyedLog
import DataAgentSystem.AgentTxn.RepeatedRecovery
import DataAgentSystem.AgentTxn.CommitLogReplay
import DataAgentSystem.Storage.ConditionalOperations
import DataAgentSystem.Storage.VersionIdentity
import DataAgentSystem.Containers.SortedLists
import DataAgentSystem.AgentTxn.DirectoryRecovery
import DataAgentSystem.Runtime.RestoredContext
import DataAgentSystem.Runtime.PerformedOperations
import DataAgentSystem.Runtime.OutcomeRecords
import DataAgentSystem.Runtime.CarriedMetadata
import DataAgentSystem.Workloads.ScriptedKvTask
import DataAgentSystem.Text.PythonText
import DataAgentSystem.Experiments.TaskEventRecovery
import DataAgentSystem.Experiments.TaskLogReaders
import DataAgentSystem.AgentTxn.PartialUndo
import DataAgentSystem.AgentTxn.TornCommitLog
import DataAgentSystem.Storage.FailedPersist
import DataAgentSystem.AgentTxn.SummedDeltas
import DataAgentSystem.AgentTxn.DeltaOverflow
import DataAgentSystem.AgentTxn.InsertedIntents
import DataAgentSystem.AgentTxn.ReadIntents
import DataAgentSystem.AgentTxn.BranchContest
import DataAgentSystem.Runtime.StagedWinner
import DataAgentSystem.AgentTxn.UndisturbedBranch
import DataAgentSystem.Runtime.UndisturbedCommit
import DataAgentSystem.Cache.SurvivingWrites
import DataAgentSystem.Containers.MarkedLog
import DataAgentSystem.AgentTxn.BranchOps
import DataAgentSystem.AgentTxn.RestoredSavepoints
import DataAgentSystem.AgentTxn.AlignedBranch
import DataAgentSystem.Runtime.WorkHistory
import DataAgentSystem.Runtime.LatestSavepoint
import DataAgentSystem.Runtime.RecoveredReads
import DataAgentSystem.Runtime.RecoveredOutcome
import DataAgentSystem.Runtime.AcceptedLogs
import DataAgentSystem.Runtime.RecoveredDirectory
import DataAgentSystem.Interaction.Simulation
import DataAgentSystem.Storage.RedisAdapter
import DataAgentSystem.Storage.StoreFactory
import DataAgentSystem.Storage.StoreChoice
import DataAgentSystem.Containers.KeyedUpdates
import DataAgentSystem.Interaction.Coupling
import DataAgentSystem.Runtime.BranchOrder
import DataAgentSystem.Containers.SnapshotLog
import DataAgentSystem.AgentTxn.CommittedIntents
import DataAgentSystem.Runtime.PlannedWork
import DataAgentSystem.Workloads.ScriptedRun
import DataAgentSystem.Runtime.TwinSessions
import DataAgentSystem.Runtime.ContinuationRegistry
import DataAgentSystem.Runtime.CrashTransparency
import DataAgentSystem.Runtime.CrashPoints
import DataAgentSystem.Workloads.RecoveryHandlers
import DataAgentSystem.Workloads.MinimalCandidateTask
import DataAgentSystem.AgentTxn.CommitVerdict
import DataAgentSystem.Workloads.SyntheticDriver
import DataAgentSystem.Workloads.SyntheticCrash
import DataAgentSystem.Text.Csv
import DataAgentSystem.Experiments.VerifyTaskEventLogs
import DataAgentSystem.Experiments.VerifyCommitLogs
import DataAgentSystem.Interaction.Contract
import DataAgentSystem.Experiments.Alphabet
import DataAgentSystem.Experiments.LoggedAlphabet
import DataAgentSystem.Experiments.VerifyArtifacts
