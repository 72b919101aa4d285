import DataAgentSystem.AgentTxn.FallbackCommitRecovery
import DataAgentSystem.Runtime.ArtifactFinalization
import Mathlib.Data.List.Sort
import Mathlib.Data.UInt

/-! What a runtime does with the artifacts it finds: at its construction it recovers
all of them, or only takes away the terminal ones. What the directory lists is given,
the regular files for the sweep and all names for the recovery. -/

namespace DataAgentSystem.Runtime

open Text Storage Interaction AgentTxn

structure FallbackArtifactMaintenanceResult where
  recoveredArtifactCount : ℕ := 0
  archivedArtifactCount : ℕ := 0
  deletedArtifactCount : ℕ := 0
  keptTerminalArtifactCount : ℕ := 0
  skippedNonTerminalArtifactCount : ℕ := 0
  parseFailureCount : ℕ := 0
  conflictCount : ℕ := 0
  success : Bool := true
  reason : Bytes := []
  deriving DecidableEq

def fallbackSuffix : Bytes := ascii ".fallback.log"

/-- The artifacts among the names of a directory, in the order in which they are recovered. -/
def listFallbackCommitArtifacts (artifactDir : Bytes) (names : List Bytes) : List Bytes :=
  ((names.filter fun name => fallbackSuffix.isSuffixOf name).map fun name => artifactDir ++
    ascii "/" ++ name).insertionSort
    (· ≤ ·)

/-- The loop over the regular files of the artifact directory. -/
def sweepFrom (config : FallbackCommitRuntimeConfig) :
    List Bytes → FallbackArtifactMaintenanceResult →
    Prog (Except Bytes FallbackArtifactMaintenanceResult)
  | [], result => return .ok result
  | name :: names, result =>
    if !fallbackSuffix.isSuffixOf name then sweepFrom config names result
    else do
      let artifactPath := joinPath config.artifactDir name
      match parseFallbackCommitArtifact (← Files.read artifactPath) {} with
      | (false, _) =>
        return .ok { result with parseFailureCount := result.parseFailureCount + 1, success := false
                                 reason := ascii "failed to parse fallback artifact: " ++
                                   artifactPath }
      | (true, artifact) =>
        let policy := if artifact.phase = .committed then config.committedArtifactPolicy
          else config.rolledBackArtifactPolicy
        if !isTerminalFallbackPhase artifact.phase then
          sweepFrom config names
            { result with
              skippedNonTerminalArtifactCount := result.skippedNonTerminalArtifactCount + 1 }
        else if policy = .keep then
          sweepFrom config names
            { result with keptTerminalArtifactCount := result.keptTerminalArtifactCount + 1 }
        else match ← applyTerminalFallbackArtifactPolicy config artifactPath policy with
          | .error what => return .error what
          | .ok false =>
            return .ok { result with success := false
                                     reason := ascii "failed to finalize fallback artifact: " ++
                                       artifactPath }
          | .ok true =>
            sweepFrom config names
              (if policy = .archive then
                { result with archivedArtifactCount := result.archivedArtifactCount + 1 }
              else { result with deletedArtifactCount := result.deletedArtifactCount + 1 })

/-- There is nothing to list if the directory does not exist. -/
def sweepTerminalFallbackArtifacts (config : FallbackCommitRuntimeConfig)
    (listing : Option (List Bytes)) :
    Prog (Except Bytes FallbackArtifactMaintenanceResult) :=
  if config.artifactDir = [] then return .ok {}
  else match listing with
    | none => return .ok {}
    | some names => sweepFrom config names {}

def recoverPendingFallbackCommits (config : FallbackCommitRuntimeConfig) (names : List Bytes)
    (listing : Option (List Bytes)) : Prog (Except Bytes FallbackArtifactMaintenanceResult) :=
  if config.artifactDir = [] then return .ok {}
  else do
    let recovery ← recoverFallbackCommitArtifacts
      (listFallbackCommitArtifacts config.artifactDir names)
    let result : FallbackArtifactMaintenanceResult := {
      recoveredArtifactCount := recovery.recoveredArtifactCount
      parseFailureCount := recovery.parseFailureCount
      conflictCount := recovery.conflictCount
      success := recovery.success
      reason := recovery.reason }
    if !result.success then return .ok result
    else match ← sweepTerminalFallbackArtifacts config listing with
      | .error what => return .error what
      | .ok maintenance => return .ok { result with
          archivedArtifactCount := maintenance.archivedArtifactCount
          deletedArtifactCount := maintenance.deletedArtifactCount
          keptTerminalArtifactCount := maintenance.keptTerminalArtifactCount
          skippedNonTerminalArtifactCount := maintenance.skippedNonTerminalArtifactCount
          parseFailureCount := result.parseFailureCount + maintenance.parseFailureCount
          success := maintenance.success
          reason := if maintenance.success then result.reason else maintenance.reason }

/-- The directories for artifacts that are in use. -/
def ensureFallbackDirectories (config : FallbackCommitRuntimeConfig) :
    Prog (Except Bytes Unit) := do
  match ← ensureDirectory config.artifactDir with
  | .error what => return .error what
  | .ok _ =>
    if config.usesArchivePolicy ∧ config.archiveDir ≠ [] then ensureDirectory config.archiveDir
    else return .ok ()

/-- What the constructor of a runtime does; the result is that of the startup maintenance. -/
def initializeFallbackCommitRuntime (config : FallbackCommitRuntimeConfig) (names : List Bytes)
    (listing : Option (List Bytes)) :
    Prog (Except Bytes (Option FallbackArtifactMaintenanceResult)) :=
  if config.artifactDir = [] then return .ok none
  else do
    match ← ensureFallbackDirectories config with
    | .error what => return .error what
    | .ok _ =>
      if config.autoRecoverOnStartup then
        match ← recoverPendingFallbackCommits config names listing with
        | .error what => return .error what
        | .ok result =>
          if !result.success then
            return .error (ascii "failed to recover fallback commit artifacts: " ++ result.reason)
          else return .ok (some result)
      else
        match ← sweepTerminalFallbackArtifacts config listing with
        | .error what => return .error what
        | .ok maintenance =>
          if !maintenance.success then
            return .error
              (ascii "failed to maintain fallback commit artifacts: " ++ maintenance.reason)
          else return .ok (some maintenance)

end DataAgentSystem.Runtime
