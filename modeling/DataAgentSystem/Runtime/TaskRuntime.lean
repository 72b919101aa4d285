import DataAgentSystem.Runtime.TaskSession
import DataAgentSystem.Runtime.TxnOperations

/-! The operations of `TaskRuntime` on a session. Each does its work on the
transaction of the session and records an event; none of them asks whether the
transaction has already ended. An exception is the error of an `Except`. -/

namespace DataAgentSystem.Runtime

open Text Intent Cache Branch Storage Interaction AgentTxn

inductive FallbackTerminalArtifactPolicy where
  | keep | delete | archive
  deriving DecidableEq

structure FallbackCommitRuntimeConfig where
  artifactDir : Bytes := []
  archiveDir : Bytes := []
  autoRecoverOnStartup : Bool := false
  committedArtifactPolicy : FallbackTerminalArtifactPolicy := .archive
  rolledBackArtifactPolicy : FallbackTerminalArtifactPolicy := .archive
  deriving DecidableEq

/-! ### Fallback artifacts of a commit that has ended -/

/-- The message of the system error is left out. -/
def ensureDirectory (path : Bytes) : Prog (Except Bytes Unit) :=
  if path = [] then return .ok ()
  else do
    if ← Files.createDirectories path then return .ok ()
    else return .error (ascii "failed to create directory " ++ path)

/-- The part of a path after its last slash. -/
def filename (path : Bytes) : Bytes := (path.reverse.takeWhile (· ≠ 47)).reverse

def joinPath (directory name : Bytes) : Bytes :=
  if directory.getLast? = some 47 then directory ++ name else directory ++ 47 :: name

def isTerminalFallbackPhase (phase : FallbackCommitPhase) : Bool :=
  phase = .committed ∨ phase = .rolledBack

def applyTerminalFallbackArtifactPolicy (config : FallbackCommitRuntimeConfig)
    (artifactPath : Bytes) :
    FallbackTerminalArtifactPolicy → Prog (Except Bytes Bool)
  | .keep => return .ok true
  | .delete => do return .ok (← Files.remove artifactPath)
  | .archive =>
    if config.archiveDir = [] then return .ok false
    else do
      match ← ensureDirectory config.archiveDir with
      | .error what => return .error what
      | .ok _ =>
        let targetPath := joinPath config.archiveDir (filename artifactPath)
        let _ ← Files.remove targetPath
        return .ok (← Files.rename artifactPath targetPath)

/-- The artifact at a path, if there is one and it can be read. -/
def tryParseFallbackArtifact (artifactPath : Bytes) : Prog (Option FallbackCommitArtifact) := do
  if !(← Files.exists_ artifactPath) then return none
  let (parsed, artifact) := parseFallbackCommitArtifact (← Files.read artifactPath) {}
  return if parsed then some artifact else none

def finalizeFallbackCommitArtifact (config : FallbackCommitRuntimeConfig) (txn : AgentTxnContext) :
    Prog (Except Bytes Bool) :=
  if txn.fallbackCommit.artifactPath = [] then return .ok true
  else do
    match ← tryParseFallbackArtifact txn.fallbackCommit.artifactPath with
    | none => return .ok true
    | some artifact =>
      let policy := if artifact.phase = .committed then config.committedArtifactPolicy
        else config.rolledBackArtifactPolicy
      if isTerminalFallbackPhase artifact.phase then
        applyTerminalFallbackArtifactPolicy config txn.fallbackCommit.artifactPath policy
      else return .ok true

/-! ### Operations on a session -/

def configureFallbackCommit (config : FallbackCommitRuntimeConfig) (txn : AgentTxnContext) :
    Prog AgentTxnContext :=
  if config.artifactDir = [] then return txn
  else do
    if ← Store.supportsAtomicBatchConditionalWrite then return txn
    else return { txn with fallbackCommit := { txn.fallbackCommit with
      artifactPath := config.artifactDir ++ ascii "/" ++ txn.txnId ++ ascii ".fallback.log" } }

namespace TaskSession

/-- One round of the loop over the branch plans of a new task. -/
def createBranch (session : TaskSession) (branchPlan : BranchPlan) : TaskSession :=
  { session with txn := AgentTxnManager.createBranch session.txn branchPlan.branchId }.recordEvent
    .createBranch branchPlan.branchId [] branchPlan.candidateId branchPlan.initialPriority.toInt64

end TaskSession

def submitTask (config : FallbackCommitRuntimeConfig) (task : TaskContext) (plan : ExecutionPlan) :
    Prog (Except Bytes TaskSession) :=
  match task.validate, plan.validate with
  | .error what, _ => return .error what
  | .ok _, .error what => return .error what
  | .ok _, .ok _ => do
    let txn ← configureFallbackCommit config
      (AgentTxnManager.begin_ (ascii "txn:" ++ task.taskId) task.taskId)
    let session := TaskSession.recordEvent { task, plan, txn } .submitTask [] [] task.objective 0
    return .ok (plan.branchPlans.foldl TaskSession.createBranch session).markRunning

/-- The number of an intent type in the event log. -/
def intentTypeValue : IntentType → Int64
  | .read => 0
  | .overwrite => 1
  | .append => 2
  | .delta => 3
  | .cas => 4

namespace TaskSession

def read (session : TaskSession) (branchId objectId : Bytes) : Prog (ReadResult × TaskSession) := do
  let (result, txn) ← session.txn.read branchId objectId
  return (result, { session with txn }.recordEvent .read branchId objectId
    result.value result.version.toInt64)

def write (session : TaskSession) (branchId objectId : Bytes) (objectType : ObjectType)
    (intent : WriteIntent) :
    Prog TaskSession := do
  let txn ← session.txn.write branchId objectId objectType intent
  return { session with txn }.recordEvent .write branchId objectId intent.payload
    (intentTypeValue intent.intentType)

def savepoint (session : TaskSession) (branchId savepointId : Bytes) : TaskSession :=
  { session with txn := session.txn.savepoint branchId savepointId }.recordEvent
    .savepoint branchId []
    savepointId 0

def rollbackToSavepoint (session : TaskSession) (branchId savepointId : Bytes) :
    Bool × TaskSession :=
  let (rolledBack, txn) := session.txn.rollbackToSavepoint branchId savepointId
  let session := { session with txn }
  (rolledBack,
    if rolledBack then session.recordEvent .rollbackToSavepoint branchId [] savepointId 0
    else session)

/-- A rollback either misses its savepoint and is no event, or is recorded. -/
theorem rollbackToSavepoint_cases (session : TaskSession) (branchId savepointId : Bytes) :
    ((session.txn.rollbackToSavepoint branchId savepointId).1 = false ∧
        (session.rollbackToSavepoint branchId savepointId).2 = session) ∨
      ((session.txn.rollbackToSavepoint branchId savepointId).1 = true ∧
        (session.rollbackToSavepoint branchId savepointId).2 =
          { session with txn := (session.txn.rollbackToSavepoint branchId savepointId).2 }.recordEvent
            .rollbackToSavepoint branchId [] savepointId 0) := by
  unfold rollbackToSavepoint
  cases hrolled : (session.txn.rollbackToSavepoint branchId savepointId).1 with
  | false =>
    refine .inl ⟨rfl, ?_⟩
    simp only [hrolled, Bool.false_eq_true, ↓reduceIte,
      AgentTxnContext.rollbackToSavepoint_failed hrolled]
  | true =>
    refine .inr ⟨rfl, ?_⟩
    simp only [hrolled, ↓reduceIte]

theorem txn_rollbackToSavepoint (session : TaskSession) (branchId savepointId : Bytes) :
    (session.rollbackToSavepoint branchId savepointId).2.txn =
      (session.txn.rollbackToSavepoint branchId savepointId).2 := by
  rcases session.rollbackToSavepoint_cases branchId
    savepointId with ⟨hrolled, hsession⟩ | ⟨-, hsession⟩
  · rw [hsession, AgentTxnContext.rollbackToSavepoint_failed hrolled]
  · rw [hsession, txn_recordEvent]

def stageBranch (session : TaskSession) (branchId : Bytes) (score : Double) (summary : Bytes) :
    TaskSession :=
  { session with txn := session.txn.stageBranch branchId score summary }.recordEvent
    .stageBranch branchId []
    summary score.toInt64

/-- The session at the start of a commit attempt. -/
def attempt (session : TaskSession) : TaskSession :=
  { session with commitAttempts := session.commitAttempts + 1 }.recordEvent .commitAttempt [] []
    (ascii "commit_attempt") (session.commitAttempts + 1).toInt64

/-- The session once its transaction has committed or not. -/
def conclude (session : TaskSession) (committed : Bool) : TaskSession :=
  let type := if committed then TaskEventType.commitTask else .abortTask
  (if committed then session.markCommitted else session.markAborted).recordEvent type
    session.txn.winnerBranchId [] session.txn.validationResult.reason 0

/-- What a commit does with the artifact of its transaction at the end. -/
def finalize (config : FallbackCommitRuntimeConfig) (session : TaskSession) :
    Prog (Except Bytes TaskSession) := do
  match ← finalizeFallbackCommitArtifact config session.txn with
  | .error what => return .error what
  | .ok finalized =>
    if session.txn.fallbackCommit.artifactPath = [] then return .ok session
    else return .ok ((session.setMetadata (ascii "fallback_artifact_path")
      session.txn.fallbackCommit.artifactPath)
      |>.setMetadata (ascii "fallback_artifact_maintenance")
        (if finalized then ascii "finalized_or_pending" else ascii "finalize_failed"))

def commitTask (config : FallbackCommitRuntimeConfig) (session : TaskSession) :
    Prog (Except Bytes Bool × TaskSession) := do
  let (result, txn) ← AgentTxnManager.selectWinnerAndCommit session.attempt.txn
  let session := { session.attempt with txn }
  match result with
  | .error what => return (.error what, session)
  | .ok committed =>
    let session := session.conclude committed
    match ← session.finalize config with
    | .error what => return (.error what, session)
    | .ok session => return (.ok committed, session)

def abortTask (session : TaskSession) : TaskSession :=
  { session with txn := session.txn.abortTask }.markAborted.recordEvent .abortTask [] []
    (ascii "abort_requested") 0

end TaskSession

/-! ### Results of an operation -/

/-- An exception returns nothing. -/
theorem forall_ok_error {α : Type} {P : α → Prop} (what : Bytes) :
    ∀ a, (.error what : Except Bytes α) = .ok a → P a :=
  nofun

/-- Configuring the fallback sets the path of its artifact at most. -/
theorem returns_configureFallbackCommit (config : FallbackCommitRuntimeConfig)
    (txn : AgentTxnContext) :
    (configureFallbackCommit config txn).Returns fun txn' => ∃ artifactPath,
      txn' = { txn with fallbackCommit := { txn.fallbackCommit with artifactPath } } := by
  unfold configureFallbackCommit
  split
  · exact ⟨_, rfl⟩
  · refine (Program.returns_true _).bind fun supported _ => ?_
    split <;> exact ⟨_, rfl⟩

end DataAgentSystem.Runtime
