import DataAgentSystem.AgentTxn.CommitManager

/-! Winner selection and commit of a whole transaction. -/

namespace DataAgentSystem.AgentTxn

open Text Intent Cache Branch Storage Interaction

namespace AgentTxnManager

def begin_ (txnId taskId : Bytes) : AgentTxnContext := { txnId, taskId, status := .running }

def createBranch (txn : AgentTxnContext) (branchId : Bytes) : AgentTxnContext :=
  { txn with branches := BranchManager.createBranch txn.branches branchId }

/-- The end of a transaction that does not commit. -/
def refuse (txn : AgentTxnContext) (reason : Bytes) : AgentTxnContext :=
  RollbackManager.abortTransaction { txn with validationResult := { success := false, reason } }

/-- The end of a transaction that has written its commit log. -/
def finish (txn : AgentTxnContext) (winner : BranchContext) (commitLog : CommitLog) :
    AgentTxnContext :=
  { txn with
    status := .committed
    commitLog
    branches :=
      (BranchManager.replaceBranch txn.branches { winner with status := .committed }).map
        fun branch =>
          if branch.branchId ≠ txn.winnerBranchId then RollbackManager.discardBranch branch
          else branch }

/-- The transaction once a winner is selected. -/
def mark (txn : AgentTxnContext) (winnerBranchId : Bytes) : AgentTxnContext :=
  { txn with winnerBranchId, branches := BranchManager.markWinnerAndLosers txn.branches winnerBranchId }

/-- Validation and commit of the winner that selection has marked. -/
def commitMarked (txn : AgentTxnContext) : Prog (Bool × AgentTxnContext) :=
  match BranchManager.findBranch txn.branches txn.winnerBranchId with
  | none => return (false, refuse txn (ascii "winner branch not found"))
  | some winner => do
    let validation ← ValidationManager.validateWinner winner
    let txn := { txn with validationResult := validation }
    if !validation.success then return (false, RollbackManager.abortTransaction txn)
    match ← CommitManager.commitWinner txn winner with
    | .error reason => return (false, refuse txn reason)
    | .ok commitLog => return (true, finish txn winner commitLog)

/-- An empty branch list makes the selection throw, and nothing has changed yet. -/
def selectWinnerAndCommit (txn : AgentTxnContext) : Prog (Except Bytes Bool × AgentTxnContext) :=
  match BranchManager.selectWinner txn.branches with
  | .error what => return (.error what, txn)
  | .ok winnerBranchId => do
    let (committed, txn) ← commitMarked (mark txn winnerBranchId)
    return (.ok committed, txn)

end AgentTxnManager

end DataAgentSystem.AgentTxn
