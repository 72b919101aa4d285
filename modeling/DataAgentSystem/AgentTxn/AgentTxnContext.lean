import DataAgentSystem.Branch.BranchManager
import DataAgentSystem.AgentTxn.FallbackCommitLog

/-! The context of an agent transaction, and what rolling back does to it. A
rollback of a branch empties its buffer, its intents and its savepoints; what the
branch has read stays recorded. -/

namespace DataAgentSystem.AgentTxn

open Text Cache Branch Storage

inductive TxnStatus where
  | running | committed | aborted
  deriving DecidableEq

structure ValidationResult where
  success : Bool := false
  reason : Bytes := []
  deriving DecidableEq

structure CommitLogEntry where
  key : Bytes
  value : Bytes
  expectedVersion : UInt64 := 0
  deriving DecidableEq

structure CommitLog where
  entries : List CommitLogEntry := []
  deriving DecidableEq

structure TxnMetrics where
  branchCount : ℕ := 0
  plannedLoserCount : ℕ := 0
  winnerCommitCount : ℕ := 0
  realAbortCount : ℕ := 0
  conflictAbortCount : ℕ := 0
  validationFailCount : ℕ := 0
  retryCount : ℕ := 0
  deriving DecidableEq

structure FallbackCommitConfig where
  artifactPath : Bytes := []
  simulateCrashAfterApplyCount : ℕ := 0
  deriving DecidableEq

structure AgentTxnContext where
  txnId : Bytes := []
  taskId : Bytes := []
  status : TxnStatus := .running
  branches : List BranchContext := []
  winnerBranchId : Bytes := []
  commitLog : CommitLog := {}
  validationResult : ValidationResult := {}
  metrics : TxnMetrics := {}
  fallbackCommit : FallbackCommitConfig := {}

namespace RollbackManager

def discardBranch (branch : BranchContext) : BranchContext :=
  { branch with writeBuffer := branch.writeBuffer.truncate 0
                intentLog := branch.intentLog.truncate 0
                savepoints := []
                status := .discarded }

/-- Later savepoints of the branch are dropped; the one rolled back to stays. -/
def rollbackToSavepoint (branch : BranchContext) (savepointId : Bytes) : Bool × BranchContext :=
  match branch.savepoints.find? fun savepoint => savepoint.savepointId = savepointId with
  | none => (false, branch)
  | some savepoint =>
    (true, { branch with
      writeBuffer := branch.writeBuffer.truncate savepoint.writeLogPosition
      intentLog := branch.intentLog.truncate savepoint.intentLogPosition
      savepoints := branch.savepoints.takeWhile (fun s => s.savepointId ≠ savepointId) ++
        [savepoint] })

def abortTransaction (txn : AgentTxnContext) : AgentTxnContext :=
  { txn with status := .aborted, branches := txn.branches.map discardBranch }

/-- A discarded branch holds nothing that could still be written. -/
structure Discarded (branch : BranchContext) : Prop where
  status : branch.status = .discarded
  writeBuffer : branch.writeBuffer = .empty
  intentLog : branch.intentLog = {}
  savepoints : branch.savepoints = []

theorem discarded_discardBranch (branch : BranchContext) : Discarded (discardBranch branch) := by
  refine ⟨rfl, ?_, ?_, rfl⟩
  · exact WriteBuffer.truncate_zero _
  · simp [discardBranch, Intent.IntentLog.truncate]

@[simp] theorem branchId_discardBranch (branch : BranchContext) :
    (discardBranch branch).branchId = branch.branchId := rfl

theorem discarded_abortTransaction {txn : AgentTxnContext} {b : BranchContext}
    (hb : b ∈ (abortTransaction txn).branches) : Discarded b := by
  obtain ⟨branch, _, rfl⟩ := List.mem_map.1 hb
  exact discarded_discardBranch branch

theorem rollbackToSavepoint_branchId (branch : BranchContext) (savepointId : Bytes) :
    (rollbackToSavepoint branch savepointId).2.branchId = branch.branchId := by
  unfold rollbackToSavepoint
  split <;> rfl

end RollbackManager

end DataAgentSystem.AgentTxn
