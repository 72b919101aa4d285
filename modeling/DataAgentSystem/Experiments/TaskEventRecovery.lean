import DataAgentSystem.Runtime.RecoveredSession
import DataAgentSystem.Text.PythonText

/-! The script `task_event_recovery.py`, which reads the event logs of a directory and
decides about each task as the runtime does when it recovers it. A string of the script
is modelled by the bytes that it is read from, and an exit of the script by `none`.
The decision differs from that of the runtime in one case only, a task whose phase
says that it has been aborted while its last event does not. -/

namespace DataAgentSystem.Experiments

open Text Containers Storage DataAgentSystem.Runtime

structure LoggedEvent where
  sequenceNumber : ℤ := 0
  eventType : Bytes := []
  branchId : Bytes := []
  objectId : Bytes := []
  numericValue : ℤ := 0
  detail : Bytes := []
  deriving DecidableEq

/-- The dictionary of a log: its events are the value of the key `events`. -/
structure TaskLog where
  metadata : UnorderedMap Bytes := ∅
  events : List LoggedEvent := []

/-! ### Reading a log -/

def unescape (text : Bytes) : Bytes := backslashEscaping.unescape text

/-- The loop over the lines between the header and the marker. -/
def parseMetadata : List Bytes → UnorderedMap Bytes → Option (UnorderedMap Bytes)
  | [], metadata => some metadata
  | line :: lines, metadata =>
    match splitOnce 61 line with
    | none => none
    | some (key, value) => parseMetadata lines (metadata.insert key (unescape value))

def parseEvent (line : Bytes) : Option LoggedEvent :=
  match line.splitOn tab with
  | [sequenceNumber, eventType, branchId, objectId, numericValue, detail] => do
    let sequenceNumber ← pythonInt sequenceNumber
    let numericValue ← pythonInt numericValue
    return {
      sequenceNumber, eventType, branchId := unescape branchId, objectId := unescape objectId,
      numericValue, detail := unescape detail }
  | _ => none

/-- The loop over the lines after the marker. -/
def parseEvents : List Bytes → Option (List LoggedEvent)
  | [] => some []
  | line :: lines =>
    if line = [] then parseEvents lines
    else do
      let event ← parseEvent line
      let events ← parseEvents lines
      return event :: events

/-- `parse_task_log` on the contents of a file. -/
def parseTaskLog (contents : Option Bytes) : Option TaskLog := do
  let text ← contents.bind readText
  let lines := splitlines text
  if lines.head? ≠ some kTaskEventLogHeader then none
  else if eventsMarker ∉ lines then none
  else
    let splitIndex := lines.idxOf eventsMarker
    let metadata ← parseMetadata ((lines.take splitIndex).drop 1) ∅
    let events ← parseEvents (lines.drop (splitIndex + 1))
    return { metadata := metadata.erase (ascii "events"), events }

/-! ### The decision -/

structure RecoveryRow where
  taskId : Bytes
  txnId : Bytes
  recoveryAction : Bytes
  resumeBranchId : Bytes
  resumeSavepointId : Bytes
  reason : Bytes
  sourceLog : Bytes
  deriving DecidableEq

def latestBranch : List LoggedEvent → Bytes
  | [] => []
  | event :: reversed => if event.branchId ≠ [] then event.branchId else latestBranch reversed

def latestSavepoint (branchId : Bytes) : List LoggedEvent → Bytes
  | [] => []
  | event :: reversed =>
    if event.branchId = branchId ∧ event.eventType = ascii "SAVEPOINT" then event.detail
    else latestSavepoint branchId reversed

/-- One round of the loop of `recover_task_logs`: the row for the log of a file. -/
def recoverTaskLog (name : Bytes) (log : TaskLog) : RecoveryRow :=
  let finalEvent := log.events.getLast?.getD {}
  let committed := (log.metadata.lookup (ascii "committed")).getD (ascii "0") = ascii "1"
  let taskPhase := (log.metadata.lookup (ascii "task_phase")).getD []
  let branchId := latestBranch log.events.reverse
  let savepointId := latestSavepoint branchId log.events.reverse
  let row : RecoveryRow := {
    taskId := (log.metadata.lookup (ascii "task_id")).getD []
    txnId := (log.metadata.lookup (ascii "txn_id")).getD []
    recoveryAction := ascii "RETRY_FROM_SCRATCH", resumeBranchId := branchId,
      resumeSavepointId := savepointId
    reason := ascii "task recovery required", sourceLog := name }
  if committed ∨ taskPhase = ascii "2" ∨ finalEvent.eventType = ascii "COMMIT_TASK" then
    { row with recoveryAction := ascii "SKIP_COMMITTED", resumeBranchId := finalEvent.branchId
               resumeSavepointId := [], reason := ascii "task already committed" }
  else if finalEvent.eventType = ascii "ABORT_TASK" ∨ taskPhase = ascii "3" then
    { row with recoveryAction := ascii "RETRY_FROM_SCRATCH", resumeBranchId := finalEvent.branchId
               resumeSavepointId := []
               reason := if finalEvent.detail ≠ [] then finalEvent.detail
                 else ascii "task aborted" }
  else if finalEvent.eventType = ascii "COMMIT_ATTEMPT" then
    { row with recoveryAction := ascii "REVALIDATE_COMMIT", resumeBranchId := [], resumeSavepointId := []
               reason := ascii "commit attempt recorded without terminal outcome" }
  else if savepointId ≠ [] then
    { row with recoveryAction := ascii "RESUME_FROM_SAVEPOINT"
               reason := ascii "resume from latest savepoint " ++ savepointId }
  else
    { row with recoveryAction := ascii "RESUME_BRANCH"
               reason := if branchId ≠ [] then ascii "resume branch execution"
                 else ascii "resume task execution" }

/-! ### The same log in the runtime -/

def LoggedEvent.of (event : ParsedTaskEvent) : LoggedEvent where
  sequenceNumber := event.sequenceNumber.toNat
  eventType := event.eventType
  branchId := event.branchId
  objectId := event.objectId
  numericValue := event.numericValue.toInt
  detail := event.detail

/-- The log as the script holds what the runtime has read. -/
def TaskLog.of (artifact : ParsedTaskEventLogArtifact) : TaskLog where
  metadata := artifact.metadata.erase (ascii "events")
  events := artifact.events.map LoggedEvent.of

/-- The row says the same as the decision of the runtime. -/
structure RecoveryRow.SameDecision (row : RecoveryRow)
    (decision : TaskRecoveryDecision) : Prop where
  action : row.recoveryAction = taskRecoveryActionName decision.action
  branch : row.resumeBranchId = decision.resumeBranchId
  savepoint : row.resumeSavepointId = decision.resumeSavepointId
  reason : row.reason = decision.reason

/-- Only the phase of the log says that the task has been aborted. -/
structure AbortedByPhase (artifact : ParsedTaskEventLogArtifact) : Prop where
  phase : artifact.metadataValue (ascii "task_phase") = ascii "3"
  committed : artifact.metadataValue (ascii "committed") ≠ ascii "1"
  commitTask : finalEventType artifact ≠ some (ascii "COMMIT_TASK")
  abortTask : finalEventType artifact ≠ some (ascii "ABORT_TASK")

variable (artifact : ParsedTaskEventLogArtifact)

theorem lookup_of {key : Bytes} (hkey : key ≠ ascii "events") :
    (TaskLog.of artifact).metadata.lookup key = artifact.metadata.lookup key :=
  AList.lookup_erase_ne hkey

theorem latestBranch_of (events : List ParsedTaskEvent) :
    latestBranch (events.map LoggedEvent.of).reverse = findLatestBranch events := by
  rw [← List.map_reverse, findLatestBranch]
  induction events.reverse with
  | nil => rfl
  | cons event rest ih =>
    rw [List.map_cons, latestBranch, ih, List.find?_cons]
    by_cases hbranch : event.branchId = [] <;> simp [hbranch, LoggedEvent.of]

theorem latestSavepoint_of (branchId : Bytes) (events : List ParsedTaskEvent) :
    latestSavepoint branchId (events.map LoggedEvent.of).reverse =
      findLatestSavepoint events branchId := by
  rw [← List.map_reverse, findLatestSavepoint]
  induction events.reverse with
  | nil => rfl
  | cons event rest ih =>
    rw [List.map_cons, latestSavepoint, ih, List.find?_cons]
    by_cases hevent : event.branchId = branchId ∧ event.eventType = ascii "SAVEPOINT" <;>
      simp [hevent, LoggedEvent.of]

/-- The last event of the log, one with nothing in it if there is none. -/
def finalEvent : ParsedTaskEvent := artifact.events.getLast?.getD {}

theorem finalEvent_of : (artifact.events.map LoggedEvent.of).getLast?.getD {} =
    LoggedEvent.of (finalEvent artifact) := by
  rw [List.getLast?_map, finalEvent]
  cases artifact.events.getLast? <;> rfl

theorem finalEventType_eq_iff {name : Bytes} (hname : name ≠ []) :
    finalEventType artifact = some name ↔ (finalEvent artifact).eventType = name := by
  rw [finalEventType, finalEvent]
  cases artifact.events.getLast? with
  | none => simp [Ne.symm hname]
  | some event => simp

theorem getD_map_finalEvent (field : ParsedTaskEvent → Bytes) (hfield : field {} = []) :
    (artifact.events.getLast?.map field).getD [] = field (finalEvent artifact) := by
  rw [finalEvent]
  cases artifact.events.getLast? with
  | none => exact hfield.symm
  | some event => rfl

theorem committed_of_iff :
    ((TaskLog.of artifact).metadata.lookup (ascii "committed")).getD (ascii "0") = ascii "1" ↔
    artifact.metadataValue (ascii "committed") = ascii "1" := by
  rw [lookup_of artifact (by decide), ParsedTaskEventLogArtifact.metadataValue]
  cases artifact.metadata.lookup (ascii "committed") with
  | none => exact iff_of_false (by decide) (by decide)
  | some value => rfl

theorem taskPhase_of : ((TaskLog.of artifact).metadata.lookup (ascii "task_phase")).getD [] =
    artifact.metadataValue (ascii "task_phase") := by
  rw [lookup_of artifact (by decide), ParsedTaskEventLogArtifact.metadataValue]

/-- The script decides as the runtime does exactly if the phase does not have to tell that the task
has been aborted, or the last event happens to name no branch and to say what the runtime says
then. -/
theorem recoverTaskLog_sameDecision_iff (name path : Bytes) :
    (recoverTaskLog name (.of artifact)).SameDecision (recoverTaskSessionDecision path artifact) ↔
      (AbortedByPhase artifact → (finalEvent artifact).branchId = [] ∧
        (finalEvent artifact).detail = ascii "task phase is aborted") := by
  have hevents : (TaskLog.of artifact).events = artifact.events.map LoggedEvent.of := rfl
  have hcommitTask := finalEventType_eq_iff artifact (show ascii "COMMIT_TASK" ≠ [] by decide)
  have habortTask := finalEventType_eq_iff artifact (show ascii "ABORT_TASK" ≠ [] by decide)
  have hcommitAttempt := finalEventType_eq_iff artifact (show ascii "COMMIT_ATTEMPT" ≠ [] by decide)
  simp only [recoverTaskLog, recoverTaskSessionDecision, committed_of_iff,
    taskPhase_of, hevents, finalEvent_of, latestBranch_of, latestSavepoint_of, hcommitTask,
    habortTask, hcommitAttempt,
    getD_map_finalEvent artifact (·.branchId) rfl, getD_map_finalEvent artifact (·.detail) rfl]
  simp only [LoggedEvent.of]
  by_cases hcommitted : artifact.metadataValue (ascii "committed") = ascii "1" ∨
      artifact.metadataValue (ascii "task_phase") = ascii "2" ∨
        (finalEvent artifact).eventType = ascii "COMMIT_TASK"
  · simp only [hcommitted, ↓reduceIte]
    refine iff_of_true ⟨rfl, rfl, rfl, rfl⟩ fun haborted => ?_
    rcases hcommitted with hflag | hphase | htype
    · exact absurd hflag haborted.committed
    · exact absurd (hphase.symm.trans haborted.phase) (by decide)
    · exact absurd (hcommitTask.2 htype) haborted.commitTask
  simp only [hcommitted, ↓reduceIte]
  by_cases habort : (finalEvent artifact).eventType = ascii "ABORT_TASK"
  · simp only [habort, true_or, ↓reduceIte]
    refine iff_of_true ⟨rfl, rfl, rfl, ?_⟩ fun haborted =>
      absurd (habortTask.2 habort) haborted.abortTask
    by_cases hdetail : (finalEvent artifact).detail = [] <;> simp [hdetail]
  simp only [habort, false_or, ↓reduceIte]
  by_cases hphase : artifact.metadataValue (ascii "task_phase") = ascii "3"
  · have haborted : AbortedByPhase artifact :=
      ⟨hphase, fun h => hcommitted (.inl h), fun h => hcommitted (.inr (.inr (hcommitTask.1 h))),
        fun h => habort (habortTask.1 h)⟩
    simp only [hphase, ↓reduceIte]
    constructor
    · rintro ⟨-, hbranch, -, hreason⟩ -
      refine ⟨hbranch, ?_⟩
      by_cases hdetail : (finalEvent artifact).detail = []
      · simp only [hdetail, ne_eq, not_true_eq_false, ↓reduceIte] at hreason
        exact absurd hreason (by decide)
      · simpa [hdetail] using hreason
    · intro h
      obtain ⟨hbranch, hdetail⟩ := h haborted
      have hne : (finalEvent artifact).detail ≠ [] := by rw [hdetail]; decide
      exact ⟨rfl, hbranch, rfl, (if_pos hne).trans hdetail⟩
  simp only [hphase, ↓reduceIte]
  refine iff_of_true ?_ fun haborted => absurd haborted.phase hphase
  by_cases hattempt : (finalEvent artifact).eventType = ascii "COMMIT_ATTEMPT"
  · simp only [hattempt, ↓reduceIte]
    exact ⟨rfl, rfl, rfl, rfl⟩
  simp only [hattempt, ↓reduceIte]
  by_cases hsavepoint : findLatestSavepoint artifact.events (findLatestBranch artifact.events) ≠ []
  · rw [if_pos hsavepoint, if_pos hsavepoint]
    exact ⟨rfl, rfl, rfl, rfl⟩
  · rw [if_neg hsavepoint, if_neg hsavepoint]
    refine ⟨rfl, rfl, not_not.1 hsavepoint, ?_⟩
    by_cases hbranch : findLatestBranch artifact.events = [] <;> simp [hbranch]

/-- A task that has been aborted and read from afterwards. -/
def abortedThenRead : TaskSession :=
  ((noted.abortTask.read (ascii "b") (ascii "k")).run (handle .memory) {}).1.2

/-- The script takes the read for the abort and names its branch. -/
theorem recoverTaskLog_not_sameDecision :
    ∃ artifact, parseTaskEventLogArtifact (some (taskEventLogText abortedThenRead [])) =
      some artifact ∧
      recoverTaskSessionDecision (ascii "log") artifact =
        { taskId := ascii "1", txnId := ascii "txn:1", action := .retryFromScratch,
          reason := ascii "task phase is aborted", sourceLogPath := ascii "log" } ∧
      (recoverTaskLog (ascii "log") (.of artifact)).resumeBranchId = ascii "b" ∧
      ¬(recoverTaskLog (ascii "log") (.of artifact)).SameDecision
          (recoverTaskSessionDecision (ascii "log") artifact) := by
  refine ⟨_, parseTaskEventLogArtifact_text abortedThenRead [], by decide, by decide, fun h => ?_⟩
  exact absurd h.branch (by decide)

end DataAgentSystem.Experiments
