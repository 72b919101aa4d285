import DataAgentSystem.AgentTxn.CommitLogFile
import DataAgentSystem.AgentTxn.FallbackStates

/-! Recovery of committed writes from commit logs. Each entry of a committed log is
written anew under the version it expects, unless the store holds it already; the
first conflict ends the recovery, and so does a log that cannot be read. -/

namespace DataAgentSystem.AgentTxn

open Text Storage Interaction

structure RecoveryResult where
  appliedEntryCount : ℕ := 0
  skippedCommittedEntryCount : ℕ := 0
  skippedNonCommittedLogCount : ℕ := 0
  parseFailureCount : ℕ := 0
  conflictCount : ℕ := 0
  success : Bool := true
  reason : Bytes := []
  deriving DecidableEq

/-- The loop over the entries of one log. -/
def recoverEntries : List ParsedCommitLogEntry → RecoveryResult → Prog RecoveryResult
  | [], result => return result
  | entry :: entries, result => do
    let current ← Store.get entry.key
    if current.exists_ ∧ current.version = entry.expectedVersion + 1 ∧
      current.value = entry.value then
      recoverEntries entries
        { result with skippedCommittedEntryCount := result.skippedCommittedEntryCount + 1 }
    else if !(← Store.putIfVersion entry.key entry.expectedVersion entry.value) then
      return { result with
        conflictCount := result.conflictCount + 1
        success := false
        reason := ascii "recovery version conflict for key: " ++ entry.key }
    else recoverEntries entries { result with appliedEntryCount := result.appliedEntryCount + 1 }

/-- The loop over the logs, each with the entries read from it; a conflict ends it. -/
def recoverLogs : List (List ParsedCommitLogEntry) → RecoveryResult → Prog RecoveryResult
  | [], result => return result
  | entries :: logs, result => do
    let result ← recoverEntries entries result
    if !result.success then return result
    recoverLogs logs result

/-- The loop over the paths. -/
def recoverPaths : List Bytes → RecoveryResult → Prog RecoveryResult
  | [], result => return result
  | path :: paths, result => do
    match parseCommitLogArtifact (← Files.read path) with
    | none =>
      return { result with
        parseFailureCount := result.parseFailureCount + 1
        success := false
        reason := ascii "failed to parse commit log: " ++ path }
    | some artifact =>
      if artifact.metadata.lookup (ascii "status") ≠ some (ascii "COMMITTED") then
        recoverPaths paths
          { result with skippedNonCommittedLogCount := result.skippedNonCommittedLogCount + 1 }
      else do
        let result ← recoverEntries artifact.entries result
        if !result.success then return result
        recoverPaths paths result

def recoverCommittedWrites (commitLogPaths : List Bytes) : Prog RecoveryResult :=
  recoverPaths commitLogPaths {}

/-- The write that an entry asks for. -/
def ParsedCommitLogEntry.writeOp (entry : ParsedCommitLogEntry) : WriteOp where
  key := entry.key
  value := entry.value

variable {kind : StoreKind}

/-- An entry at its expected version is written. -/
theorem run_recoverEntries_cons {entry : ParsedCommitLogEntry} {w : World}
    (hversion : w.store.getVersion entry.key = entry.expectedVersion)
    (entries : List ParsedCommitLogEntry) (result : RecoveryResult) :
    (recoverEntries (entry :: entries) result).run (handle kind) w =
      (recoverEntries entries { result with appliedEntryCount := result.appliedEntryCount + 1 }).run
        (handle kind)
        (withStore w (w.store.write entry.key entry.value)) := by
  have hahead : ¬((w.store.get entry.key).exists_ = true ∧ (w.store.get entry.key).version =
    entry.expectedVersion + 1 ∧
      (w.store.get entry.key).value = entry.value) := by
    rintro ⟨-, hnext, -⟩
    exact version_add_one_ne entry.expectedVersion (hnext.symm.trans hversion)
  have hput : handle kind (.putIfVersion entry.key entry.expectedVersion entry.value) w =
      (true, withStore w (w.store.write entry.key entry.value)) := by
    simp only [handle, MemoryKVStore.putIfVersion_of_eq entry.value hversion]
    rfl
  rw [recoverEntries, Store.get_bind, Program.run_call, handle_get,
    if_neg hahead, Store.putIfVersion_bind, Program.run_call, hput]
  rfl

/-- A log whose keys differ is written entry by entry. -/
theorem run_recoverEntries {entries : List ParsedCommitLogEntry}
    (hnodup : (entries.map (·.key)).Nodup) {w : World}
    (hversions : ∀ entry ∈ entries, w.store.getVersion entry.key = entry.expectedVersion)
    (result : RecoveryResult) :
    (recoverEntries entries result).run (handle kind) w =
      ({ result with appliedEntryCount := result.appliedEntryCount + entries.length },
        withStore w (w.store.applyWrites (entries.map ParsedCommitLogEntry.writeOp))) := by
  induction entries generalizing w result with
  | nil => rfl
  | cons entry entries ih =>
    rw [List.map_cons, List.nodup_cons] at hnodup
    rw [List.forall_mem_cons] at hversions
    have hrest : ∀ e ∈ entries, (w.store.write entry.key entry.value).getVersion e.key =
        e.expectedVersion := by
      intro e he
      have hne : e.key ≠ entry.key := fun heq => hnodup.1 (heq ▸ List.mem_map_of_mem he)
      rw [MemoryKVStore.getVersion, MemoryKVStore.get_write_of_ne _ _ hne]
      exact hversions.2 e he
    rw [run_recoverEntries_cons hversions.1, ih hnodup.2 hrest, List.length_cons,
      Nat.add_assoc, Nat.add_comm 1]
    rfl

end DataAgentSystem.AgentTxn
