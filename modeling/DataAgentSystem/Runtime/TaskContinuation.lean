import DataAgentSystem.Runtime.TaskRecovery

/-! Carrying on with a recovered task: the command that a recovery decision asks for,
its execution on the rebuilt session, and the continuation, in which a callback
works on a branch that is then staged and committed. Only the outcome of the command
decides whether the continuation goes on to its commit, not which command it was. -/

namespace DataAgentSystem.Runtime

open Text Intent Cache Branch Storage Interaction AgentTxn

inductive TaskRecoveryCommandType where
  | noop | submitFreshTask | resumeBranch | resumeFromSavepoint | revalidateCommit
  deriving DecidableEq

structure TaskRecoveryExecution where
  recoveryPlan : TaskRecoveryPlan := {}
  session : TaskSession := {}
  commandType : TaskRecoveryCommandType := .noop
  targetBranchId : Bytes := []
  targetSavepointId : Bytes := []
  summary : Bytes := []

def taskRecoveryCommandTypeName : TaskRecoveryCommandType → Bytes
  | .noop => ascii "NOOP"
  | .submitFreshTask => ascii "SUBMIT_FRESH_TASK"
  | .resumeBranch => ascii "RESUME_BRANCH"
  | .resumeFromSavepoint => ascii "RESUME_FROM_SAVEPOINT"
  | .revalidateCommit => ascii "REVALIDATE_COMMIT"

/-- The command an action asks for, and its summary. -/
def commandOf : TaskRecoveryAction → TaskRecoveryCommandType × Bytes
  | .skipCommitted => (.noop, ascii "task already committed; no recovery work required")
  | .retryFromScratch => (.submitFreshTask, ascii "restart task from a fresh submission")
  | .resumeBranch => (.resumeBranch, ascii "resume execution from the latest branch state")
  | .resumeFromSavepoint =>
    (.resumeFromSavepoint, ascii "resume execution from the latest recorded savepoint")
  | .revalidateCommit => (.revalidateCommit, ascii "re-run validation and conditional commit")

def buildTaskRecoveryExecution (recovered : RecoveredTaskSession) : TaskRecoveryExecution :=
  let decision := recovered.recoveryPlan.decision
  let (commandType, summary) := commandOf decision.action
  { recoveryPlan := recovered.recoveryPlan
    session := recovered.session.setMetadata (ascii "recovery_command")
      (taskRecoveryCommandTypeName commandType)
      |>.setMetadata (ascii "recovery_summary") summary
    commandType
    targetBranchId := decision.resumeBranchId
    targetSavepointId := decision.resumeSavepointId
    summary }

def buildRecoveryExecutionFromLog (config : FallbackCommitRuntimeConfig) (taskLogPath : Bytes) :
    Prog (Except Bytes TaskRecoveryExecution) := do
  match ← recoverSessionFromLog config taskLogPath with
  | .error what => return .error what
  | .ok recovered => return .ok (buildTaskRecoveryExecution recovered)

/-! ### Execution -/

namespace TaskRecoveryExecution

def setStatus (execution : TaskRecoveryExecution) (status : Bytes) : TaskRecoveryExecution :=
  { execution with session := execution.session.setMetadata (ascii "recovery_execution_status") status }

/-- The execution with its target branch running again. -/
def resume (execution : TaskRecoveryExecution) (branch : BranchContext)
    (txn : AgentTxnContext) (status : Bytes) :
    TaskRecoveryExecution :=
  { execution with session :=
      { execution.session with txn := txn.setBranch { branch with status := .running } }.markRunning
        }.setStatus status

/-- The task of the recovery plan, to be submitted once more. -/
def freshTask (execution : TaskRecoveryExecution) : TaskContext :=
  { execution.recoveryPlan.task with phase := .created }.setMetadata
    (ascii "recovery_execution_status")
    (ascii "fresh_submit")

end TaskRecoveryExecution

def executeRecoveryExecution (config : FallbackCommitRuntimeConfig)
    (execution : TaskRecoveryExecution) :
    Prog (Except Bytes Bool × TaskRecoveryExecution) :=
  match execution.commandType with
  | .noop => return (.ok true, execution.setStatus (ascii "noop"))
  | .submitFreshTask => do
    match ← submitTask config execution.freshTask execution.recoveryPlan.plan with
    | .error what => return (.error what, execution)
    | .ok session =>
      let retryCount := execution.session.txn.metrics.retryCount + 1
      let txn := { session.txn with metrics := { session.txn.metrics with retryCount } }
      return (.ok true, { execution with session := { session with txn } })
  | .resumeBranch =>
    match execution.session.txn.findBranch execution.targetBranchId with
    | none => return (.ok false, execution)
    | some branch =>
      return (.ok true, execution.resume branch execution.session.txn (ascii "branch_resumed"))
  | .resumeFromSavepoint =>
    match execution.session.txn.findBranch execution.targetBranchId with
    | none => return (.ok false, execution)
    | some _ =>
      let (rolledBack, txn) :=
        execution.session.txn.rollbackToSavepoint execution.targetBranchId
          execution.targetSavepointId
      if !rolledBack then return (.ok false, execution)
      else match txn.findBranch execution.targetBranchId with
        | none => return (.ok false, execution)
        | some branch => return (.ok true, execution.resume branch txn (ascii "savepoint_resumed"))
  | .revalidateCommit => do
    let execution := execution.setStatus (ascii "revalidate_commit")
    let (result, session) ← execution.session.commitTask config
    return (result, { execution with session })

/-- What it takes for a property of sessions to hold after an execution, whichever command it is
of. -/
structure KeptByExecution (config : FallbackCommitRuntimeConfig) (execution : TaskRecoveryExecution)
    (P : TaskSession → Prop) : Prop where
  kept : P execution.session
  noted : ∀ status, P (execution.setStatus status).session
  submitted : (submitTask config execution.freshTask execution.recoveryPlan.plan).Returns fun r =>
    ∀ session, r = .ok session → ∀ metrics, P { session with txn := { session.txn with metrics } }
  resumed : execution.commandType = .resumeBranch ∨ execution.commandType = .resumeFromSavepoint →
    ∀ branch txn status,
    txn = execution.session.txn ∨
      txn = (execution.session.txn.rollbackToSavepoint execution.targetBranchId
        execution.targetSavepointId).2 →
    txn.findBranch execution.targetBranchId = some branch →
      P (execution.resume branch txn status).session
  committed : ((execution.setStatus (ascii "revalidate_commit")).session.commitTask config).Returns
    fun out => P out.2

theorem KeptByExecution.returns {config : FallbackCommitRuntimeConfig}
    {execution : TaskRecoveryExecution} {P : TaskSession → Prop}
    (h : KeptByExecution config execution P) :
    (executeRecoveryExecution config execution).Returns fun out => P out.2.session := by
  unfold executeRecoveryExecution
  cases hcommand : execution.commandType with
  | noop => exact h.noted _
  | submitFreshTask =>
    refine h.submitted.bind fun r hsubmitted => ?_
    cases r with
    | error what => exact h.kept
    | ok session => exact hsubmitted session rfl _
  | resumeBranch =>
    simp only
    cases hfind : execution.session.txn.findBranch execution.targetBranchId with
    | none => exact h.kept
    | some branch => exact h.resumed (.inl hcommand) branch _ _ (.inl rfl) hfind
  | resumeFromSavepoint =>
    simp only
    cases execution.session.txn.findBranch execution.targetBranchId with
    | none => exact h.kept
    | some _ =>
      simp only
      split
      · exact h.kept
      · split
        · exact h.kept
        next branch hfind => exact h.resumed (.inr hcommand) branch _ _ (.inr rfl) hfind
  | revalidateCommit => exact h.committed.bind fun out hout => hout

/-! ### Continuation -/

/-- The calls on the session that a callback makes. -/
inductive SessionCall where
  | read (branchId objectId : Bytes)
  | write (branchId objectId : Bytes) (objectType : ObjectType) (intent : WriteIntent)
  | savepoint (branchId savepointId : Bytes)
  | rollbackToSavepoint (branchId savepointId : Bytes)

/-- What the caller learns from a call, beside the session it leaves. -/
def SessionCall.Result : SessionCall → Type
  | .read _ _ => ReadResult
  | .write _ _ _ _ | .savepoint _ _ => Unit
  | .rollbackToSavepoint _ _ => Bool

/-- What a callback can look at after a call. -/
def SessionCall.Resp (call : SessionCall) : Type := call.Result × TaskSession

def SessionCall.perform (session : TaskSession) : (call : SessionCall) → Prog call.Resp
  | .read branchId objectId => session.read branchId objectId
  | .write branchId objectId objectType intent => do
    return ((), ← session.write branchId objectId objectType intent)
  | .savepoint branchId savepointId => return ((), session.savepoint branchId savepointId)
  | .rollbackToSavepoint branchId savepointId =>
    return session.rollbackToSavepoint branchId savepointId

/-- Work on a session, made of calls on it. -/
abbrev SessionWork (α : Type) := Program SessionCall SessionCall.Resp α

def SessionWork.perform {α : Type} : SessionWork α → TaskSession → Prog (α × TaskSession)
  | .ret a, session => return (a, session)
  | .call op next, session => do
    let response ← op.perform session
    SessionWork.perform (next response) response.2

structure TaskContinuationSpec where
  preferredBranchId : Bytes := []
  score : Double := .finite 0
  summary : Bytes := []

/-- A callback gets the execution and the branch it is to work on. -/
abbrev TaskContinuationCallback := TaskRecoveryExecution → Bytes → SessionWork Bool

/-- The branch to go on with; empty if there is none. -/
def continuationBranch (execution : TaskRecoveryExecution) (spec : TaskContinuationSpec) : Bytes :=
  if spec.preferredBranchId ≠ [] then spec.preferredBranchId
  else if execution.targetBranchId ≠ [] then execution.targetBranchId
  else (execution.session.plan.branchPlans.head?.map (·.branchId)).getD []

/-- The part of the continuation after the command has been executed. -/
def continueExecuted (config : FallbackCommitRuntimeConfig) (execution : TaskRecoveryExecution)
    (spec : TaskContinuationSpec) (callback : TaskContinuationCallback) :
    Prog (Except Bytes Bool × TaskRecoveryExecution) :=
  let branchId := continuationBranch execution spec
  if branchId = [] then return (.ok false, execution)
  else do
    let (goOn, session) ← (callback execution branchId).perform execution.session
    if !goOn then return (.ok false, { execution with session })
    else
      let (result, session) ← (session.stageBranch branchId spec.score spec.summary).commitTask
        config
      return (result, { execution with session })

def continueRecoveredTask (config : FallbackCommitRuntimeConfig) (execution : TaskRecoveryExecution)
    (spec : TaskContinuationSpec) (callback : TaskContinuationCallback) :
    Prog (Except Bytes Bool × TaskRecoveryExecution) := do
  let (result, execution) ← executeRecoveryExecution config execution
  match result with
  | .ok true => continueExecuted config execution spec callback
  | result => return (result, execution)

end DataAgentSystem.Runtime
