import DataAgentSystem.AgentTxn.AgentTxnContext
import DataAgentSystem.AgentTxn.FallbackCommitRecovery

/-! Validation and commit of a winner branch. The commit collects one version check
a key, resolves every buffered write against the current store, and then makes all
writes as one conditional batch, or one by one where the store has no batches. -/

namespace DataAgentSystem.AgentTxn

open Text Intent Cache Branch Storage Interaction Containers

namespace ValidationManager

/-- The loop over the reads of the winner. -/
def validateReads (latestIntents : UnorderedMap IntentType) :
    List ReadRecord → Prog ValidationResult
  | [] => return { success := true }
  | read :: reads =>
    if (latestIntents.lookup read.objectId).any usesSemanticRebase then
      validateReads latestIntents reads
    else do
      if (← Store.getVersion read.objectId) ≠ read.observedVersion then
        return { success := false, reason := ascii "strict validation failed for " ++ read.objectId }
      validateReads latestIntents reads

def validateWinner (winner : BranchContext) : Prog ValidationResult :=
  validateReads
    (UnorderedMap.assignAll WriteIntent.objectId WriteIntent.intentType winner.intentLog.entries ∅)
    winner.readSet.entries

end ValidationManager

namespace CommitManager

/-- The version checks of the reads; two reads of one key must have seen one version. -/
def readChecks : List ReadRecord → UnorderedMap UInt64 → Except Bytes (UnorderedMap UInt64)
  | [], seenChecks => .ok seenChecks
  | read :: reads, seenChecks =>
    let (inserted, seenChecks) := seenChecks.emplace read.objectId read.observedVersion
    if !inserted ∧ seenChecks.lookup read.objectId ≠ some read.observedVersion then
      .error (ascii "inconsistent read versions for " ++ read.objectId)
    else readChecks reads seenChecks

def addOrVerifyCheck (objectId : Bytes) (version : UInt64) (seenChecks : UnorderedMap UInt64) :
    Except Bytes (UnorderedMap UInt64) :=
  let (inserted, seenChecks) := seenChecks.emplace objectId version
  if !inserted ∧ seenChecks.lookup objectId ≠ some version then
    .error (ascii "conflicting expected versions for " ++ objectId)
  else .ok seenChecks

/-- The version a write of the entry expects. -/
def expectVersion (entry : ObjectCacheEntry) (intent : WriteIntent) (current : VersionedValue)
    (seenChecks : UnorderedMap UInt64) : Except Bytes (UnorderedMap UInt64) :=
  if usesSemanticRebase intent.intentType then
    .ok (seenChecks.insert entry.objectId current.version)
  else addOrVerifyCheck entry.objectId entry.baseVersion seenChecks

/-- The loop over the buffered entries. -/
def resolveEntries (latestIntents : UnorderedMap WriteIntent) :
    List ObjectCacheEntry → UnorderedMap UInt64 →
    List WriteOp → Prog (Except Bytes (UnorderedMap UInt64 × List WriteOp))
  | [], seenChecks, writes => return .ok (seenChecks, writes)
  | entry :: entries, seenChecks, writes =>
    match latestIntents.lookup entry.objectId with
    | none => return .error (ascii "missing latest intent for " ++ entry.objectId)
    | some intent => do
      let current ← Store.get entry.objectId
      let resolved := resolveWrite entry intent current.value
      if !resolved.success then
        return .error
          (if resolved.reason = [] then
              ascii "failed to resolve write intent for " ++ entry.objectId
            else resolved.reason ++ ascii " for " ++ entry.objectId)
      else if !resolved.shouldWrite then resolveEntries latestIntents entries seenChecks writes
      else match expectVersion entry intent current seenChecks with
        | .error reason => return .error reason
        | .ok seenChecks =>
          resolveEntries latestIntents entries seenChecks
            (writes ++ [{ key := entry.objectId, value := resolved.value }])

structure AppliedWrite where
  key : Bytes
  previousValue : Bytes
  previousVersion : UInt64 := 0
  previousExists : Bool := false
  deriving DecidableEq

/-- Undo the applied writes, newest first; the reason why not, if one cannot be undone. -/
def rollbackAppliedWrites : List AppliedWrite → Prog (Option Bytes)
  | [] => return none
  | applied :: older => do
    let rolledBack ←
      if applied.previousExists then
        Store.putIfVersion applied.key (applied.previousVersion + 1) applied.previousValue
      else Store.deleteIfVersion applied.key (applied.previousVersion + 1)
    if rolledBack then rollbackAppliedWrites older
    else return some (ascii "fallback rollback failed for " ++ applied.key)

/-- The loop of `CommitWinnerWithoutBatch`; the applied writes come newest first. -/
def applyWithoutBatch (expectedVersions : UnorderedMap UInt64) : List WriteOp → List AppliedWrite →
    Prog (Except Bytes Unit)
  | [], _ => return .ok ()
  | write :: writes, appliedWrites =>
    match expectedVersions.lookup write.key with
    | none => return .error (ascii "missing expected version for " ++ write.key)
    | some expectedVersion => do
      let current ← Store.get write.key
      if current.version ≠ expectedVersion then
        let reason ← rollbackAppliedWrites appliedWrites
        return .error (reason.getD (ascii "fallback write version changed for " ++ write.key))
      else if !(← Store.putIfVersion write.key expectedVersion write.value) then
        let reason ← rollbackAppliedWrites appliedWrites
        return .error (reason.getD (ascii "fallback conditional write failed for " ++ write.key))
      else
        applyWithoutBatch expectedVersions writes
          ({ key := write.key, previousValue := current.value, previousVersion := current.version,
             previousExists := current.exists_ } :: appliedWrites)

/-- The loop that records the previous state of every key to be written. -/
def prepareEntries (expectedVersions : UnorderedMap UInt64) :
    List WriteOp → List FallbackCommitEntry →
    Prog (Except Bytes (List FallbackCommitEntry))
  | [], entries => return .ok entries
  | write :: writes, entries =>
    match expectedVersions.lookup write.key with
    | none => return .error (ascii "missing expected version for " ++ write.key)
    | some expectedVersion => do
      let current ← Store.get write.key
      if current.version ≠ expectedVersion then
        return .error (ascii "fallback write version changed for " ++ write.key)
      else
        prepareEntries expectedVersions writes (entries ++ [{
          key := write.key
          expectedVersion := expectedVersion
          targetValue := write.value
          previousValue := current.value
          previousVersion := current.version
          previousExists := current.exists_ }])

/-- A losing commit takes its writes back; the reason it then reports. -/
def rollbackCrashSafeArtifact (artifact : FallbackCommitArtifact)
    (artifactPath : Bytes) (reason : Bytes) :
    Prog Bytes := do
  let (rolledBack, _, recovery) ← resumeRollbackFallbackCommit artifact artifactPath {}
  if !rolledBack && reason = [] then
    return if recovery.reason = [] then ascii "fallback rollback failed" else recovery.reason
  return reason

/-- The apply loop of `CommitWinnerWithoutBatchCrashSafe`. -/
def applyEntries (config : FallbackCommitConfig) :
    List FallbackCommitEntry → FallbackCommitArtifact →
    Prog (Except Bytes FallbackCommitArtifact)
  | [], artifact => return .ok artifact
  | entry :: entries, artifact => do
    let current ← Store.get entry.key
    if current.version ≠ entry.expectedVersion ∨ !current.exists_ then
      let reason := ascii "fallback write version changed for " ++ entry.key
      return .error (← rollbackCrashSafeArtifact artifact config.artifactPath reason)
    else if !(← Store.putIfVersion entry.key entry.expectedVersion entry.targetValue) then
      let reason := ascii "fallback conditional write failed for " ++ entry.key
      return .error (← rollbackCrashSafeArtifact artifact config.artifactPath reason)
    else
      let artifact :=
          { artifact with appliedCount := artifact.appliedCount + 1, phase := .applying }
      if !(← writeFallbackCommitArtifact artifact config.artifactPath) then
        return .error (ascii "failed to persist fallback apply progress")
      else if config.simulateCrashAfterApplyCount > 0 ∧
          artifact.appliedCount = config.simulateCrashAfterApplyCount then
        return .error (ascii "simulated crash during fallback commit")
      else applyEntries config entries artifact

def expectedVersions (checks : List VersionCheck) : UnorderedMap UInt64 :=
  UnorderedMap.assignAll VersionCheck.key VersionCheck.expectedVersion checks ∅

/-- What happens from the prepared artifact on. -/
def commitPrepared (config : FallbackCommitConfig) (artifact : FallbackCommitArtifact) :
    Prog (Except Bytes Unit) := do
  if !(← writeFallbackCommitArtifact artifact config.artifactPath) then
    return .error (ascii "failed to persist fallback prepare artifact")
  match ← applyEntries config artifact.entries artifact with
  | .error reason => return .error reason
  | .ok artifact =>
    if !(← writeFallbackCommitArtifact { artifact with phase := .committed }
      config.artifactPath) then
      return .error (ascii "failed to persist fallback commit state")
    return .ok ()

def commitWinnerWithoutBatchCrashSafe (txn : AgentTxnContext) (checks : List VersionCheck)
    (writes : List WriteOp) : Prog (Except Bytes Unit) := do
  match ← prepareEntries (expectedVersions checks) writes [] with
  | .error reason => return .error reason
  | .ok entries =>
    commitPrepared txn.fallbackCommit
      { txnId := txn.txnId, taskId := txn.taskId, phase := .prepared, entries }

def commitWinnerWithoutBatch (txn : AgentTxnContext) (checks : List VersionCheck)
    (writes : List WriteOp) :
    Prog (Except Bytes Unit) :=
  if txn.fallbackCommit.artifactPath ≠ [] then commitWinnerWithoutBatchCrashSafe txn checks writes
  else applyWithoutBatch (expectedVersions checks) writes []

def checksOf (seenChecks : UnorderedMap UInt64) : List VersionCheck :=
  seenChecks.entries.map fun check => { key := check.1, expectedVersion := check.2 }

def latestIntents (log : IntentLog) : UnorderedMap WriteIntent :=
  UnorderedMap.assignAll WriteIntent.objectId id log.entries ∅

def commitLogOf (seenChecks : UnorderedMap UInt64) (writes : List WriteOp) : CommitLog where
  entries := writes.map fun write =>
    { key := write.key, value := write.value,
      expectedVersion := (seenChecks.lookup write.key).getD 0 }

/-- The new commit log, or the reason why nothing was committed. -/
def commitWinner (txn : AgentTxnContext) (winner : BranchContext) : Prog (Except Bytes CommitLog) :=
  match readChecks winner.readSet.entries ∅ with
  | .error reason => return .error reason
  | .ok seenChecks => do
    match ← resolveEntries (latestIntents winner.intentLog) winner.writeBuffer.orderedEntries
        seenChecks [] with
    | .error reason => return .error reason
    | .ok (seenChecks, writes) =>
      if ← Store.supportsAtomicBatchConditionalWrite then
        if ← Store.batchPutIfVersion (checksOf seenChecks) writes then
          return .ok (commitLogOf seenChecks writes)
        else if ← Store.supportsAtomicBatchConditionalWrite then
          return .error (ascii "batch conditional write failed")
        else return .error (ascii "fallback conditional write failed")
      else match ← commitWinnerWithoutBatch txn (checksOf seenChecks) writes with
        | .error reason => return .error reason
        | .ok _ => return .ok (commitLogOf seenChecks writes)

end CommitManager

end DataAgentSystem.AgentTxn
