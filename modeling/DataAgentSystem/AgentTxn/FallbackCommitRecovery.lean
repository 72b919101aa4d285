import DataAgentSystem.AgentTxn.FallbackCommitLog

/-! Recovery of fallback commit artifacts. The store tells how far a commit got:
the entries at their target form a prefix, and all others must still be as they
were. Recovery then goes forward or, once the artifact is rolling back, backward,
and persists the artifact after each step. -/

namespace DataAgentSystem.AgentTxn

open Text Storage Interaction

structure FallbackRecoveryResult where
  recoveredArtifactCount : ℕ := 0
  skippedTerminalArtifactCount : ℕ := 0
  rolledForwardWriteCount : ℕ := 0
  rolledBackWriteCount : ℕ := 0
  parseFailureCount : ℕ := 0
  conflictCount : ℕ := 0
  success : Bool := true
  reason : Bytes := []
  deriving DecidableEq

namespace FallbackRecoveryResult

def fail (result : FallbackRecoveryResult) (reason : Bytes) : FallbackRecoveryResult :=
  { result with success := false, reason }

def conflict (result : FallbackRecoveryResult) (reason : Bytes) : FallbackRecoveryResult :=
  { result with success := false, conflictCount := result.conflictCount + 1, reason }

end FallbackRecoveryResult

namespace FallbackCommitEntry

/-- `FallbackEntryMatchesTarget`. -/
def matchesTarget (entry : FallbackCommitEntry) (current : VersionedValue) : Bool :=
  current.exists_ && current.version = entry.expectedVersion + 1 &&
    current.value = entry.targetValue

/-- `FallbackEntryMatchesPrevious`. -/
def matchesPrevious (entry : FallbackCommitEntry) (current : VersionedValue) : Bool :=
  if !entry.previousExists then !current.exists_ && current.version = 0
  else current.exists_ && current.version = entry.previousVersion && current.value = entry.previousValue

end FallbackCommitEntry

/-- The first loop of `DetectCommittedPrefix`. -/
def countTargets : List FallbackCommitEntry → Prog ℕ
  | [] => return 0
  | entry :: entries => do
    let current ← Store.get entry.key
    if entry.matchesTarget current then
      let n ← countTargets entries
      return n + 1
    else return 0

/-- The second loop of `DetectCommittedPrefix`: the first key in a non-prefix state. -/
def findNonPrefix : List FallbackCommitEntry → Prog (Option Bytes)
  | [] => return none
  | entry :: entries => do
    let current ← Store.get entry.key
    if entry.matchesPrevious current then findNonPrefix entries else return some entry.key

def detectCommittedPrefix (artifact : FallbackCommitArtifact) (result : FallbackRecoveryResult) :
    Prog (ℕ × FallbackRecoveryResult) := do
  let committedPrefix ← countTargets artifact.entries
  match ← findNonPrefix (artifact.entries.drop committedPrefix) with
  | some key =>
    return (artifact.entries.length + 1,
      result.conflict (ascii "fallback recovery encountered non-prefix state at key: " ++ key))
  | none => return (committedPrefix, result)

/-- The loop of `ResumeForwardFallbackCommit` from entry `i` on. -/
def applyForward (artifactPath : Bytes) : List FallbackCommitEntry → ℕ → FallbackCommitArtifact →
    FallbackRecoveryResult → Prog (Bool × FallbackCommitArtifact × FallbackRecoveryResult)
  | [], _, artifact, result => return (true, artifact, result)
  | entry :: entries, i, artifact, result => do
    if !(← Store.putIfVersion entry.key entry.expectedVersion entry.targetValue) then
      return (false, artifact,
        result.conflict (ascii "fallback recovery forward apply failed for key: " ++ entry.key))
    let artifact := { artifact with appliedCount := i + 1, phase := .applying }
    if !(← writeFallbackCommitArtifact artifact artifactPath) then
      return (false, artifact,
        result.fail (ascii "failed to persist fallback forward progress: " ++ artifactPath))
    applyForward artifactPath entries (i + 1) artifact
      { result with rolledForwardWriteCount := result.rolledForwardWriteCount + 1 }

def resumeForwardFallbackCommit (artifact : FallbackCommitArtifact) (artifactPath : Bytes)
    (result : FallbackRecoveryResult) :
    Prog (Bool × FallbackCommitArtifact × FallbackRecoveryResult) := do
  let (committedPrefix, result) ← detectCommittedPrefix artifact result
  if committedPrefix > artifact.entries.length then return (false, artifact, result)
  let artifact := { artifact with
    appliedCount := committedPrefix
    phase := if committedPrefix = artifact.entries.length then .committed else .applying }
  if !(← writeFallbackCommitArtifact artifact artifactPath) then
    return (false, artifact,
      result.fail (ascii "failed to persist fallback forward state: " ++ artifactPath))
  let (applied, artifact, result) ←
    applyForward artifactPath (artifact.entries.drop committedPrefix)
      committedPrefix artifact result
  if !applied then return (false, artifact, result)
  let artifact := { artifact with phase := .committed }
  if !(← writeFallbackCommitArtifact artifact artifactPath) then
    return (false, artifact,
      result.fail (ascii "failed to persist fallback committed state: " ++ artifactPath))
  return (true, artifact, result)

/-- Take one applied write back. -/
def undoEntry (entry : FallbackCommitEntry) : Prog Bool :=
  if entry.previousExists then
    Store.putIfVersion entry.key (entry.previousVersion + 1) entry.previousValue
  else Store.deleteIfVersion entry.key (entry.expectedVersion + 1)

/-- The loop of `ResumeRollbackFallbackCommit`; the applied entries come newest first. -/
def undoBackward (artifactPath : Bytes) : List FallbackCommitEntry → FallbackCommitArtifact →
    FallbackRecoveryResult → Prog (Bool × FallbackCommitArtifact × FallbackRecoveryResult)
  | [], artifact, result => return (true, artifact, result)
  | entry :: entries, artifact, result => do
    let progress := { artifact with appliedCount := artifact.appliedCount - 1 }
    let failed :=
      result.fail (ascii "failed to persist fallback rollback progress: " ++ artifactPath)
    let current ← Store.get entry.key
    if entry.matchesPrevious current then
      if !(← writeFallbackCommitArtifact progress artifactPath) then
        return (false, progress, failed)
      undoBackward artifactPath entries progress result
    else if !entry.matchesTarget current then
      return (false, artifact,
        result.conflict (ascii "fallback recovery conflict for key: " ++ entry.key))
    else
      if !(← undoEntry entry) then
        return (false, artifact,
          result.conflict (ascii "fallback recovery rollback failed for key: " ++ entry.key))
      if !(← writeFallbackCommitArtifact progress artifactPath) then
        return (false, progress, failed)
      undoBackward artifactPath entries progress
        { result with rolledBackWriteCount := result.rolledBackWriteCount + 1 }

def resumeRollbackFallbackCommit (artifact : FallbackCommitArtifact) (artifactPath : Bytes)
    (result : FallbackRecoveryResult) :
    Prog (Bool × FallbackCommitArtifact × FallbackRecoveryResult) := do
  let (committedPrefix, result) ← detectCommittedPrefix artifact result
  if committedPrefix > artifact.entries.length then return (false, artifact, result)
  let artifact := { artifact with appliedCount := committedPrefix, phase := .rollingBack }
  if !(← writeFallbackCommitArtifact artifact artifactPath) then
    return (false, artifact,
      result.fail (ascii "failed to persist fallback rollback state: " ++ artifactPath))
  let (undone, artifact, result) ←
    undoBackward artifactPath (artifact.entries.take committedPrefix).reverse artifact result
  if !undone then return (false, artifact, result)
  let artifact := { artifact with phase := .rolledBack }
  if !(← writeFallbackCommitArtifact artifact artifactPath) then
    return (false, artifact,
      result.fail (ascii "failed to persist fallback terminal state: " ++ artifactPath))
  return (true, artifact, result)

/-- The body of the loop over artifacts; false ends the loop. -/
def recoverFallbackCommitArtifact (artifactPath : Bytes) (result : FallbackRecoveryResult) :
    Prog (Bool × FallbackRecoveryResult) := do
  let contents ← Files.read artifactPath
  match parseFallbackCommitArtifact contents {} with
  | (false, _) =>
    return (false, { result.fail (ascii "failed to parse fallback artifact: " ++ artifactPath) with
      parseFailureCount := result.parseFailureCount + 1 })
  | (true, artifact) =>
    if artifact.phase = .committed ∨ artifact.phase = .rolledBack then
      return (true,
        { result with skippedTerminalArtifactCount := result.skippedTerminalArtifactCount + 1 })
    let (recovered, _, result) ←
      if artifact.phase = .rollingBack then
        resumeRollbackFallbackCommit artifact artifactPath result
      else resumeForwardFallbackCommit artifact artifactPath result
    if !recovered then return (false, result)
    return (true, { result with recoveredArtifactCount := result.recoveredArtifactCount + 1 })

def recoverArtifactsFrom : List Bytes → FallbackRecoveryResult → Prog FallbackRecoveryResult
  | [], result => return result
  | artifactPath :: artifactPaths, result => do
    let (continue_, result) ← recoverFallbackCommitArtifact artifactPath result
    if continue_ then recoverArtifactsFrom artifactPaths result else return result

def recoverFallbackCommitArtifacts (artifactPaths : List Bytes) : Prog FallbackRecoveryResult :=
  recoverArtifactsFrom artifactPaths {}

end DataAgentSystem.AgentTxn
