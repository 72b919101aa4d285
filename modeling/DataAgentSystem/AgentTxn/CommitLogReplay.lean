import DataAgentSystem.AgentTxn.RepeatedRecovery

/-! Replay of commit logs into a map, where the last entry of a key wins. Recovery takes
the same entries in the same order and ends with what the last one writes, so where it
succeeds the store holds what the map says. -/

namespace DataAgentSystem.AgentTxn

open Text Containers Storage Interaction

structure ReplayedObjectState where
  value : Bytes
  expectedVersion : UInt64 := 0
  sourceLogPath : Bytes
  deriving DecidableEq

/-- What an entry of the log at a path says about its key. -/
def ParsedCommitLogEntry.replayed (path : Bytes) (entry : ParsedCommitLogEntry) :
    ReplayedObjectState where
  value := entry.value
  expectedVersion := entry.expectedVersion
  sourceLogPath := path

/-- The loop over the paths; a log that cannot be read is passed over. -/
def replayPaths : List Bytes → UnorderedMap ReplayedObjectState →
    Prog (UnorderedMap ReplayedObjectState)
  | [], state => return state
  | path :: paths, state => do
    match parseCommitLogArtifact (← Files.read path) with
    | none => replayPaths paths state
    | some artifact =>
      if artifact.metadata.lookup (ascii "status") ≠ some (ascii "COMMITTED") then
        replayPaths paths state
      else
        let replayed := ParsedCommitLogEntry.replayed path
        replayPaths paths
          (UnorderedMap.assignAll ParsedCommitLogEntry.key replayed artifact.entries state)

def replayCommitLogArtifacts (commitLogPaths : List Bytes) :
    Prog (UnorderedMap ReplayedObjectState) :=
  replayPaths commitLogPaths ∅

/-- What recovery of the same entry leaves. -/
def ReplayedObjectState.written (replayed : ReplayedObjectState) : VersionedValue where
  value := replayed.value
  version := replayed.expectedVersion + 1
  exists_ := true

variable {kind : StoreKind} {w : World} {paths : List Bytes} {entries : List ParsedCommitLogEntry}

/-- The last entry of a key is the first one from the end. -/
theorem find?_reverse_eq_getLast? (entries : List ParsedCommitLogEntry) (k : Bytes) :
    entries.reverse.find? (fun entry => entry.key = k) = (redo.entriesOf k entries).getLast? := by
  rw [← List.head?_filter, List.filter_reverse, List.head?_reverse]
  rfl

/-- The map holds what the entries leave, and of the other keys what it held before. -/
theorem run_replayPaths (hentries : committedEntries w.files paths = some entries)
    (state : UnorderedMap ReplayedObjectState) (k : Bytes) :
    (((replayPaths paths state).run (handle kind) w).1.lookup k).map ReplayedObjectState.written =
      ((redo.entriesOf k entries).getLast?.map redo.after).or
        ((state.lookup k).map ReplayedObjectState.written) := by
  induction paths generalizing state entries with
  | nil =>
    obtain rfl : [] = entries := Option.some.inj hentries
    rfl
  | cons path paths ih =>
    obtain ⟨artifact, hparse, hrest⟩ := Option.bind_eq_some_iff.1 hentries
    obtain ⟨entries', hentries', heq⟩ := Option.bind_eq_some_iff.1 hrest
    obtain rfl : artifact.committedEntries ++ entries' = entries := Option.some.inj heq
    rw [replayPaths, Files.read_bind, Program.run_call, handle_readFile, hparse]
    by_cases hstatus : artifact.metadata.lookup (ascii "status") = some (ascii "COMMITTED")
    · simp only [hstatus, ne_eq, not_true_eq_false, ↓reduceIte]
      rw [ih hentries', UnorderedMap.lookup_assignAll, find?_reverse_eq_getLast?,
        ParsedCommitLogArtifact.committedEntries, if_pos hstatus, KeyedLog.entriesOf_append,
        List.getLast?_append]
      cases (redo.entriesOf k entries').getLast? with
      | some entry => rfl
      | none => cases (redo.entriesOf k artifact.entries).getLast? <;> rfl
    · simp only [ne_eq, hstatus, not_false_eq_true, ↓reduceIte]
      rw [ih hentries', ParsedCommitLogArtifact.committedEntries, if_neg hstatus, List.nil_append]

/-- Where recovery succeeds, the store holds what replay says, and is otherwise unchanged. -/
theorem replayCommitLogArtifacts_agrees (kind : StoreKind) (paths : List Bytes) (w : World)
    (h : ((recoverCommittedWrites paths).run (handle kind) w).1.success = true) :
    let recovered := (recoverCommittedWrites paths).run (handle kind) w
    let state := ((replayCommitLogArtifacts paths).run (handle kind) w).1
    (∀ k replayed, state.lookup k = some replayed → recovered.2.store.get k =
      { value := replayed.value, version := replayed.expectedVersion + 1, exists_ := true }) ∧
    ∀ k, state.lookup k = none → recovered.2.store.get k = w.store.get k := by
  intro recovered state
  obtain ⟨entries, hentries, -, hredoes⟩ := redoes_of_success h
  have hstore : ∀ k, recovered.2.store.get k =
      ((state.lookup k).map ReplayedObjectState.written).getD (w.store.get k) := by
    intro k
    have hstate := @run_replayPaths kind w paths entries hentries ∅ k
    rw [AList.lookup_empty, Option.map_none, Option.or_none] at hstate
    rw [hredoes.store h, KeyedLog.outcome_eq, ← hstate]
    rfl
  constructor
  · intro k replayed hlookup
    rw [hstore, hlookup]
    rfl
  · intro k hlookup
    rw [hstore, hlookup]
    rfl

/-- A key that is written twice. -/
theorem replayCommitLogArtifacts_agrees_twiceLogged :
    let recovered := (recoverCommittedWrites [ascii "1", ascii "2"]).run
      (handle .memory) twiceLogged
    let state :=
      ((replayCommitLogArtifacts [ascii "1", ascii "2"]).run (handle .memory) twiceLogged).1
    (∀ k replayed, state.lookup k = some replayed → recovered.2.store.get k =
      { value := replayed.value, version := replayed.expectedVersion + 1, exists_ := true }) ∧
    ∀ k, state.lookup k = none → recovered.2.store.get k = twiceLogged.store.get k :=
  replayCommitLogArtifacts_agrees .memory [ascii "1", ascii "2"] twiceLogged (by decide)

end DataAgentSystem.AgentTxn
