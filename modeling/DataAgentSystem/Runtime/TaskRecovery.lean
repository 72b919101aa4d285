import DataAgentSystem.Runtime.TaskRuntime

/-! Recovery of a task from its event log: reading the log, deciding what is to be
done about the task, and rebuilding a session by playing the logged operations
again on a transaction that has been submitted anew. -/

namespace DataAgentSystem.Runtime

open Text Intent Cache Branch Storage Interaction Containers AgentTxn

/-! ### The log -/

structure ParsedTaskEvent where
  sequenceNumber : UInt64 := 0
  eventType : Bytes := []
  branchId : Bytes := []
  objectId : Bytes := []
  numericValue : Int64 := 0
  detail : Bytes := []
  deriving DecidableEq

structure ParsedTaskEventLogArtifact where
  metadata : UnorderedMap Bytes := ∅
  events : List ParsedTaskEvent := []

def kTaskEventLogHeader : Bytes := ascii "DAS_TASK_EVENT_LOG_V1"

def eventsMarker : Bytes := ascii "[events]"

def unescapeTaskEventLogText (input : Bytes) : Bytes := backslashEscaping.unescape input

namespace ParsedTaskEventLogArtifact

/-- An event line, which must have six fields. -/
def readEvent (line : Bytes) : Option ParsedTaskEvent :=
  match line.splitOn tab with
  | [sequenceNumber, eventType, branchId, objectId, numericValue, detail] =>
    some { sequenceNumber := strtoull sequenceNumber, eventType,
           branchId := unescapeTaskEventLogText branchId,
           objectId := unescapeTaskEventLogText objectId,
           numericValue := strtoll numericValue, detail := unescapeTaskEventLogText detail }
  | _ => none

/-- The loop over the lines after the header. -/
def readLines : Bool → List Bytes → ParsedTaskEventLogArtifact → Option ParsedTaskEventLogArtifact
  | _, [], artifact => some artifact
  | inEvents, line :: rest, artifact =>
    if line = eventsMarker then readLines true rest artifact
    else if line = [] then readLines inEvents rest artifact
    else if !inEvents then
      match splitOnce 61 line with
      | none => none
      | some (key, value) =>
        readLines inEvents rest { artifact with
          metadata := artifact.metadata.insert key (unescapeTaskEventLogText value) }
    else
      match readEvent line with
      | none => none
      | some event => readLines inEvents rest { artifact with events := artifact.events ++ [event] }

/-- The `metadata_value` of the recovery functions: empty when there is none. -/
def metadataValue (artifact : ParsedTaskEventLogArtifact) (key : Bytes) : Bytes :=
  (artifact.metadata.lookup key).getD []

end ParsedTaskEventLogArtifact

/-- `ParseTaskEventLogArtifact` on the contents of a file, none if it does not open. -/
def parseTaskEventLogArtifact (contents : Option Bytes) : Option ParsedTaskEventLogArtifact :=
  match contents.bind (getline newline) with
  | none => none
  | some (line, rest) =>
    if line ≠ kTaskEventLogHeader then none
    else ParsedTaskEventLogArtifact.readLines false (lines newline rest) {}

/-! ### The decision -/

inductive TaskRecoveryAction where
  | skipCommitted | retryFromScratch | resumeBranch | resumeFromSavepoint | revalidateCommit
  deriving DecidableEq

structure TaskRecoveryDecision where
  taskId : Bytes := []
  txnId : Bytes := []
  action : TaskRecoveryAction := .retryFromScratch
  resumeBranchId : Bytes := []
  resumeSavepointId : Bytes := []
  reason : Bytes := []
  sourceLogPath : Bytes := []
  deriving DecidableEq

structure TaskRecoveryPlan where
  decision : TaskRecoveryDecision := {}
  task : TaskContext := {}
  plan : ExecutionPlan := {}

structure RecoveredTaskSession where
  recoveryPlan : TaskRecoveryPlan := {}
  session : TaskSession := {}

def taskRecoveryActionName : TaskRecoveryAction → Bytes
  | .skipCommitted => ascii "SKIP_COMMITTED"
  | .retryFromScratch => ascii "RETRY_FROM_SCRATCH"
  | .resumeBranch => ascii "RESUME_BRANCH"
  | .resumeFromSavepoint => ascii "RESUME_FROM_SAVEPOINT"
  | .revalidateCommit => ascii "REVALIDATE_COMMIT"

def taskPhaseFromPersistedValue (persistedValue : Bytes) : TaskPhase :=
  if persistedValue = ascii "1" then .running
  else if persistedValue = ascii "2" then .committed
  else if persistedValue = ascii "3" then .aborted
  else .created

def taskEventTypeFromName (name : Bytes) : TaskEventType :=
  if name = ascii "SUBMIT_TASK" then .submitTask
  else if name = ascii "CREATE_BRANCH" then .createBranch
  else if name = ascii "READ" then .read
  else if name = ascii "WRITE" then .write
  else if name = ascii "SAVEPOINT" then .savepoint
  else if name = ascii "ROLLBACK_TO_SAVEPOINT" then .rollbackToSavepoint
  else if name = ascii "STAGE_BRANCH" then .stageBranch
  else if name = ascii "COMMIT_ATTEMPT" then .commitAttempt
  else if name = ascii "COMMIT_TASK" then .commitTask
  else if name = ascii "ABORT_TASK" then .abortTask
  else .submitTask

/-- The detail of the last savepoint of a branch. -/
def findLatestSavepoint (events : List ParsedTaskEvent) (branchId : Bytes) : Bytes :=
  ((events.reverse.find? fun event => event.branchId = branchId ∧
    event.eventType = ascii "SAVEPOINT").map
    (·.detail)).getD []

def findLatestBranch (events : List ParsedTaskEvent) : Bytes :=
  ((events.reverse.find? fun event => event.branchId ≠ []).map (·.branchId)).getD []

/-- The type of the last event, if there is one. -/
def finalEventType (artifact : ParsedTaskEventLogArtifact) : Option Bytes :=
  artifact.events.getLast?.map (·.eventType)

def recoverTaskSessionDecision (path : Bytes) (artifact : ParsedTaskEventLogArtifact) :
    TaskRecoveryDecision :=
  let decision : TaskRecoveryDecision := { taskId := artifact.metadataValue (ascii "task_id")
                                           txnId := artifact.metadataValue (ascii "txn_id")
                                           sourceLogPath := path }
  let finalBranchId := (artifact.events.getLast?.map (·.branchId)).getD []
  let finalDetail := (artifact.events.getLast?.map (·.detail)).getD []
  let taskPhase := artifact.metadataValue (ascii "task_phase")
  if artifact.metadataValue (ascii "committed") = ascii "1" ∨ taskPhase = ascii "2" ∨
      finalEventType artifact = some (ascii "COMMIT_TASK") then
    { decision with action := .skipCommitted, resumeBranchId := finalBranchId
                    reason := ascii "task already committed" }
  else if finalEventType artifact = some (ascii "ABORT_TASK") then
    { decision with action := .retryFromScratch, resumeBranchId := finalBranchId
                    reason := if finalDetail = [] then ascii "task aborted" else finalDetail }
  else if taskPhase = ascii "3" then
    { decision with action := .retryFromScratch, reason := ascii "task phase is aborted" }
  else if finalEventType artifact = some (ascii "COMMIT_ATTEMPT") then
    { decision with action := .revalidateCommit
                    reason := ascii "commit attempt recorded without terminal outcome" }
  else
    let resumeBranchId := findLatestBranch artifact.events
    let resumeSavepointId := findLatestSavepoint artifact.events resumeBranchId
    if resumeSavepointId ≠ [] then
      { decision with action := .resumeFromSavepoint, resumeBranchId, resumeSavepointId
                      reason := ascii "resume from latest savepoint " ++ resumeSavepointId }
    else
      { decision with action := .resumeBranch, resumeBranchId
                      reason := if resumeBranchId = [] then ascii "resume task execution"
                        else ascii "resume branch execution" }

/-! ### The plan -/

/-- The objects listed in the metadata of the log under a prefix. -/
def restoreObjects (artifact : ParsedTaskEventLogArtifact) (label : Bytes) : List ObjectReference :=
  (List.range (strtoull (artifact.metadataValue (label ++ ascii "_object_count"))).toNat).filterMap
      fun i =>
    let objectId := artifact.metadataValue (label ++ ascii "_object_" ++ decimal i ++ ascii "_id")
    if objectId = [] then none
    else some {
      objectId
      objectRole := artifact.metadataValue (label ++ ascii "_object_" ++ decimal i ++ ascii "_role") }

def restoreMetadata (artifact : ParsedTaskEventLogArtifact) : UnorderedMap Bytes :=
  (List.range (strtoull (artifact.metadataValue (ascii "task_metadata_count"))).toNat).foldl
      (fun metadata i =>
        let key := artifact.metadataValue (ascii "task_metadata_" ++ decimal i ++ ascii "_key")
        if key = [] then metadata
        else metadata.insert key (artifact.metadataValue
          (ascii "task_metadata_" ++ decimal i ++ ascii "_value"))) ∅

def restoreTaskContextFromArtifactMetadata (artifact : ParsedTaskEventLogArtifact)
    (task : TaskContext) :
    TaskContext :=
  { task with inputObjects := restoreObjects artifact (ascii "input")
              outputObjects := restoreObjects artifact (ascii "output")
              metadata := restoreMetadata artifact }

/-- What an event of the log adds to the plan. -/
def planEvent (recoveryPlan : TaskRecoveryPlan) (event : ParsedTaskEvent) : TaskRecoveryPlan :=
  let task := recoveryPlan.task
  if event.eventType = ascii "SUBMIT_TASK" ∧ event.detail ≠ [] then
    { recoveryPlan with task := { task with objective := event.detail } }
  else if event.eventType = ascii "READ" ∧ task.inputObjects = [] then
    { recoveryPlan with task := task.addInputObject event.objectId (ascii "recovered_input") }
  else if event.eventType = ascii "WRITE" ∧ task.outputObjects = [] then
    { recoveryPlan with task := task.addOutputObject event.objectId (ascii "recovered_output") }
  else if event.eventType = ascii "CREATE_BRANCH" then
    let plan := recoveryPlan.plan.addBranchPlan event.branchId event.detail
      (ascii "recovered branch")
      (.ofInt64 event.numericValue)
    { recoveryPlan with plan }
  else recoveryPlan

/-- The task as the metadata of the log describe it. -/
def recoveredTask (path : Bytes) (artifact : ParsedTaskEventLogArtifact)
    (decision : TaskRecoveryDecision) :
    TaskContext :=
  let workloadName := artifact.metadataValue (ascii "workload_name")
  let plannerId := artifact.metadataValue (ascii "planner_id")
  let task := restoreTaskContextFromArtifactMetadata artifact {
    taskId := artifact.metadataValue (ascii "task_id")
    objective := ascii "recovered task session"
    workloadName := if workloadName = [] then ascii "runtime.recovered_from_task_log"
      else workloadName
    plannerId := if plannerId = [] then ascii "task_recovery_manager" else plannerId }
  { task with phase := taskPhaseFromPersistedValue (artifact.metadataValue (ascii "task_phase")) }
    |>.setMetadata (ascii "source_log") path
    |>.setMetadata (ascii "recovery_action") (taskRecoveryActionName decision.action)
    |>.setMetadata (ascii "recovery_reason") decision.reason
    |>.setMetadata (ascii "resume_branch_id") decision.resumeBranchId
    |>.setMetadata (ascii "resume_savepoint_id") decision.resumeSavepointId

def buildTaskRecoveryPlan (path : Bytes) (artifact : ParsedTaskEventLogArtifact) :
    TaskRecoveryPlan :=
  let decision := recoverTaskSessionDecision path artifact
  let recoveryPlan :=
      artifact.events.foldl planEvent { decision, task := recoveredTask path artifact decision }
  if recoveryPlan.plan.branchPlans = [] ∧ decision.resumeBranchId ≠ [] then
    let plan := recoveryPlan.plan.addBranchPlan decision.resumeBranchId
      (decision.resumeBranchId ++ ascii "_candidate")
      (ascii "recovered fallback branch") (.finite 0)
    { recoveryPlan with plan }
  else recoveryPlan

/-! ### The session -/

/-- What `unordered_map::at` throws. -/
def outOfRange : Bytes := ascii "unordered_map::at"

def restoreEvent (event : ParsedTaskEvent) : TaskEvent where
  sequenceNumber := event.sequenceNumber
  type := taskEventTypeFromName event.eventType
  branchId := event.branchId
  objectId := event.objectId
  detail := event.detail
  numericValue := event.numericValue

def recoverTaskSessionFromArtifact (path : Bytes) (artifact : ParsedTaskEventLogArtifact) :
    Except Bytes RecoveredTaskSession :=
  let recoveryPlan := buildTaskRecoveryPlan path artifact
  let decision := recoveryPlan.decision
  match artifact.metadata.lookup (ascii "commit_attempts"),
      artifact.metadata.lookup (ascii "committed") with
  | some commitAttempts, some committed =>
    let committed := decide (committed = ascii "1")
    let branches := recoveryPlan.plan.branchPlans.map fun branchPlan =>
      { branchId := branchPlan.branchId
        status := if decision.resumeBranchId ≠ [] ∧
          branchPlan.branchId = decision.resumeBranchId then .running
          else .created : BranchContext }
    let status := if committed then TxnStatus.committed
      else if decision.action = .retryFromScratch then .aborted else .running
    let winnerBranchId := if committed ∨
      decision.action = .retryFromScratch then decision.resumeBranchId else []
    .ok { recoveryPlan, session := {
      task := recoveryPlan.task
      plan := recoveryPlan.plan
      txn := { txnId := decision.txnId, taskId := decision.taskId, status, branches, winnerBranchId }
      commitAttempts := strtoull commitAttempts
      committed
      events := artifact.events.map restoreEvent } }
  | _, _ => .error outOfRange

def intentTypeFromPersistedValue (value : Int64) : IntentType :=
  if value = 0 then .read
  else if value = 1 then .overwrite
  else if value = 2 then .append
  else if value = 3 then .delta
  else if value = 4 then .cas
  else .overwrite

/-- A logged read, which is recorded without asking the store. -/
def replayRead (txn : AgentTxnContext) (event : ParsedTaskEvent) : AgentTxnContext :=
  match txn.findBranch event.branchId with
  | none => txn
  | some branch => txn.setBranch { branch with
      status := .running
      readSet := branch.readSet.record event.objectId event.numericValue.toUInt64 }

/-- The write intent of a logged write, which has lost its condition. -/
def replayedIntent (event : ParsedTaskEvent) : WriteIntent where
  objectId := event.objectId
  intentType := intentTypeFromPersistedValue event.numericValue
  payload := event.detail

def replayEvent (txn : AgentTxnContext) (event : ParsedTaskEvent) : Prog AgentTxnContext :=
  match taskEventTypeFromName event.eventType with
  | .submitTask | .createBranch => return txn
  | .read => return replayRead txn event
  | .write => txn.write event.branchId event.objectId .generic (replayedIntent event)
  | .savepoint => return txn.savepoint event.branchId event.detail
  | .rollbackToSavepoint => return (txn.rollbackToSavepoint event.branchId event.detail).2
  | .stageBranch => return txn.stageBranch event.branchId (.ofInt64 event.numericValue) event.detail
  | .commitAttempt | .commitTask | .abortTask => return txn

def replayEvents : List ParsedTaskEvent → AgentTxnContext → Prog AgentTxnContext
  | [], txn => return txn
  | event :: events, txn => do replayEvents events (← replayEvent txn event)

def rebuildRecoveredSessionState (config : FallbackCommitRuntimeConfig) (session : TaskSession)
    (artifact : ParsedTaskEventLogArtifact) : Prog (Except Bytes TaskSession) := do
  match ← submitTask config session.task session.plan with
  | .error what => return .error what
  | .ok rebuilt =>
    let txn ← replayEvents artifact.events rebuilt.txn
    match artifact.metadata.lookup (ascii "commit_attempts"),
        artifact.metadata.lookup (ascii "committed") with
    | some commitAttempts, some committed =>
      return .ok { rebuilt with
        txn
        commitAttempts := strtoull commitAttempts
        committed := committed = ascii "1"
        events := artifact.events.map restoreEvent }
    | _, _ => return .error outOfRange

/-- The session with its status and that of every branch set anew. -/
def withStatuses (session : TaskSession) (status : TxnStatus) (phase : TaskPhase)
    (branchStatus : BranchContext → BranchStatus) : TaskSession :=
  { session with
    task := { session.task with phase }
    txn := { session.txn with
      status, branches := session.txn.branches.map fun branch =>
        { branch with status := branchStatus branch } } }

def applyRecoveredTerminalState (recovered : RecoveredTaskSession) : RecoveredTaskSession :=
  let decision := recovered.recoveryPlan.decision
  { recovered with session :=
      if recovered.session.committed then
        withStatuses recovered.session .committed .committed fun branch =>
          if branch.branchId = decision.resumeBranchId then .committed else .discarded
      else if decision.action = .retryFromScratch then
        withStatuses recovered.session .aborted .aborted fun branch =>
          if branch.branchId = decision.resumeBranchId then .aborted else .discarded
      else
        withStatuses recovered.session .running .running fun branch =>
          if branch.branchId = decision.resumeBranchId then .running else branch.status }

/-- Besides the statuses and the phase the session is left as it was rebuilt. -/
theorem exists_withStatuses (recovered : RecoveredTaskSession) : ∃ status phase branchStatus,
    applyRecoveredTerminalState recovered =
      { recovered with session := withStatuses recovered.session status phase branchStatus } := by
  rw [applyRecoveredTerminalState]
  split
  · exact ⟨_, _, _, rfl⟩
  · split <;> exact ⟨_, _, _, rfl⟩

def recoverSessionFromLog (config : FallbackCommitRuntimeConfig) (taskLogPath : Bytes) :
    Prog (Except Bytes RecoveredTaskSession) := do
  match parseTaskEventLogArtifact (← Files.read taskLogPath) with
  | none => return .error (ascii "failed to parse task event log: " ++ taskLogPath)
  | some artifact =>
    match recoverTaskSessionFromArtifact taskLogPath artifact with
    | .error what => return .error what
    | .ok recovered =>
      match ← rebuildRecoveredSessionState config recovered.session artifact with
      | .error what => return .error what
      | .ok session => return .ok (applyRecoveredTerminalState { recovered with session })

end DataAgentSystem.Runtime
