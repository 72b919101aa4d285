import DataAgentSystem.AgentTxn.CommitEffect
import DataAgentSystem.AgentTxn.CommitLogRecovery

/-! The commit log as a redo log. What a commit logs are its writes, each with the
version the store had of its key just before; so as long as nobody else writes,
the logs of all commits, played in order on the store of the beginning, make every
write again and meet no conflict. -/

namespace DataAgentSystem.AgentTxn

open Text Intent Cache Branch Storage Interaction Containers CommitManager AgentTxnManager

variable {kind kind' : StoreKind} {txn txn' : AgentTxnContext}
  {w w' : World} {logs : List CommitLog}

/-- The log has the writes, each under the version of its key in the store. -/
structure Logs (s : MemoryKVStore) (writes : List WriteOp) (log : CommitLog) : Prop where
  entries : log.entries = writes.map fun write =>
    { key := write.key, value := write.value, expectedVersion := s.getVersion write.key }
  nodup : (writes.map WriteOp.key).Nodup

/-- The versions that a commit has checked are those of the store. -/
theorem logs_commitLogOf {winner : BranchContext} {seenChecks : UnorderedMap UInt64}
    (h : Checks winner w.store seenChecks) (hcurrent : WritesCurrent winner w.store) :
    Logs w.store (plannedWrites winner w.store)
      (commitLogOf seenChecks (plannedWrites winner w.store)) := by
  refine ⟨List.map_congr_left fun write hwrite => ?_, nodup_plannedWrites winner w.store⟩
  obtain ⟨entry, hentry, rfl⟩ := List.mem_map.1 hwrite
  have hlookup : seenChecks.lookup
    (plannedWrite (latestIntents winner.intentLog) w.store entry).key =
      some (w.store.getVersion entry.objectId) := by
    rw [(plannedVersion_eq_iff hentry).2 (hcurrent entry hentry)]
    exact h.lookup hentry
  rw [hlookup]
  rfl

/-- A commit that gets through, with a batch or write by write, makes the writes it logs. -/
theorem logs_of_committed (hplain : kind = .nonBatchMemory → txn.fallbackCommit.artifactPath = [])
    (h : (selectWinnerAndCommit txn).run (handle kind) w = ((.ok true, txn'), w')) :
    ∃ writes, Logs w.store writes txn'.commitLog ∧ w'.store = w.store.applyWrites writes := by
  have hne : txn.branches ≠ [] := by
    intro hnil
    rw [run_selectWinnerAndCommit_nil hnil] at h
    cases h
  obtain ⟨winner, hs⟩ := exists_selects hne
  by_cases hready : Ready winner w.store
  · obtain ⟨v, seen, hchecks, hrun⟩ := run_selectWinnerAndCommit_of_ready kind hs hready
    -- only a commit whose writes get through returns true
    obtain ⟨hcurrent, hpublish⟩ : WritesCurrent winner w.store ∧
        (publish txn seen (plannedWrites winner w.store)).run (handle kind) w =
          (.ok (commitLogOf seen (plannedWrites winner w.store)),
            withStore w (w.store.applyWrites (plannedWrites winner w.store))) := by
      cases kind with
      | memory =>
        obtain ⟨-, hcurrent, -⟩ := run_selectWinnerAndCommit_memory_true hs h
        exact ⟨hcurrent.1, run_publish_memory txn hchecks hcurrent _⟩
      | nonBatchMemory =>
        rcases exists_first_failure (Current winner w.store) (writtenEntries winner) with hall |
          ⟨front, entry, rest, hsplit, hfront, hentry⟩
        · exact ⟨hall, run_publish_plain (hplain rfl) hchecks hall⟩
        · obtain ⟨reason, store, hstale, -⟩ :=
            run_publish_plain_stale (hplain rfl) hchecks hsplit hfront hentry
          rw [hrun, hstale] at h
          cases h
    rw [hrun, hpublish] at h
    cases h
    exact ⟨plannedWrites winner w.store, logs_commitLogOf hchecks hcurrent, rfl⟩
  · obtain ⟨v, hrun⟩ := run_selectWinnerAndCommit_of_not_ready kind hs hready
    rw [hrun] at h
    cases h

/-- A commit that does not get through on a store with batches leaves the world alone. -/
theorem world_of_refused {r : Except Bytes Bool} (hr : r ≠ .ok true)
    (h : (selectWinnerAndCommit txn).run (handle .memory) w = ((r, txn'), w')) : w' = w := by
  by_cases hne : txn.branches = []
  · rw [run_selectWinnerAndCommit_nil hne] at h
    cases h
    rfl
  · obtain ⟨winner, hs⟩ := exists_selects hne
    by_cases hcommittable : Ready winner w.store ∧ AllCurrent winner w.store
    · obtain ⟨ended, hrun⟩ := run_selectWinnerAndCommit_memory hs hcommittable.1 hcommittable.2
      rw [hrun] at h
      cases h
      exact absurd rfl hr
    · obtain ⟨ended, hrun⟩ := run_selectWinnerAndCommit_memory_refused hs hcommittable
      rw [hrun] at h
      cases h
      rfl

/-- From the first world to the second one transactions commit and leave these logs, in
this order, and nobody else writes. Without batches none has an artifact, and none is
refused. -/
inductive CommitsInTurn (kind : StoreKind) : World → List CommitLog → World → Prop
  | done {w : World} : CommitsInTurn kind w [] w
  | otherwise {w w' w'' : World} {logs : List CommitLog} : w'.store = w.store →
      CommitsInTurn kind w' logs w'' →
      CommitsInTurn kind w logs w''
  | refused {w w' w'' : World} {txn txn' : AgentTxnContext} {r : Except Bytes Bool}
      {logs : List CommitLog} :
      kind = .memory → r ≠ .ok true →
        (selectWinnerAndCommit txn).run (handle kind) w = ((r, txn'), w') →
      CommitsInTurn kind w' logs w'' → CommitsInTurn kind w logs w''
  | committed {w w' w'' : World} {txn txn' : AgentTxnContext} {logs : List CommitLog} :
      (kind = .nonBatchMemory → txn.fallbackCommit.artifactPath = []) →
      (selectWinnerAndCommit txn).run (handle kind) w = ((.ok true, txn'), w') →
      CommitsInTurn kind w' logs w'' → CommitsInTurn kind w (txn'.commitLog :: logs) w''

/-- Recovery of one log makes the writes of its commit. -/
theorem Logs.run_recoverEntries {s : MemoryKVStore} {writes : List WriteOp}
    {log : CommitLog} (h : Logs s writes log) {v : World} (hv : v.store = s)
    (result : RecoveryResult) :
    (recoverEntries (log.entries.map CommitLogEntry.parsed) result).run (handle kind) v =
      ({ result with appliedEntryCount := result.appliedEntryCount + writes.length },
        withStore v (s.applyWrites writes)) := by
  have hparsed : log.entries.map CommitLogEntry.parsed = writes.map fun write =>
      { key := write.key, expectedVersion := s.getVersion write.key, value := write.value } := by
    rw [h.entries, List.map_map]
    rfl
  have hnodup : ((log.entries.map CommitLogEntry.parsed).map (·.key)).Nodup := by
    rw [hparsed, List.map_map]
    exact h.nodup
  have hversions : ∀ entry ∈ log.entries.map CommitLogEntry.parsed, v.store.getVersion entry.key =
      entry.expectedVersion := by
    rw [hparsed, hv]
    exact List.forall_mem_map.2 fun write _ => rfl
  have hwrites : (log.entries.map CommitLogEntry.parsed).map ParsedCommitLogEntry.writeOp =
      writes := by
    rw [hparsed, List.map_map]
    exact List.map_id writes
  rw [AgentTxn.run_recoverEntries hnodup hversions, hwrites, hv, hparsed, List.length_map]

/-- Recovery of the logs of all commits, in order, meets no conflict and rebuilds the
store that the commits have left. -/
theorem CommitsInTurn.run_recoverLogs (h : CommitsInTurn kind w logs w')
    {v : World} (hv : v.store = w.store) (result : RecoveryResult)
    (hresult : result.success = true) :
    ∃ n, (recoverLogs (logs.map fun log => log.entries.map CommitLogEntry.parsed) result).run
      (handle kind') v =
      ({ result with appliedEntryCount := result.appliedEntryCount + n },
        withStore v w'.store) := by
  induction h generalizing v result with
  | done =>
    refine ⟨0, ?_⟩
    rw [← hv]
    rfl
  | otherwise hsame _ ih => exact ih (hv.trans hsame.symm) result hresult
  | refused hkind hr hrun _ ih =>
    subst hkind
    apply ih _ result hresult
    rw [world_of_refused hr hrun, hv]
  | committed hplain hrun _ ih =>
    obtain ⟨writes, hlogs, hstore⟩ := logs_of_committed hplain hrun
    obtain ⟨n, hrest⟩ := @ih (withStore v _) hstore.symm
      { result with appliedEntryCount := result.appliedEntryCount + writes.length } hresult
    refine ⟨writes.length + n, ?_⟩
    have hsuccess : ¬(!result.success) = true := by simp [hresult]
    rw [List.map_cons, recoverLogs, Program.run_bind, hlogs.run_recoverEntries hv, ← Nat.add_assoc]
    show (if (!result.success) = true then _ else _ : Prog RecoveryResult).run (handle kind') _ = _
    rw [if_neg hsuccess]
    exact hrest

/-- The commit log is a redo log: from the store of the beginning the logs of the
commits, in their order, give the final store, key by key, without any conflict. -/
theorem recoverLogs_redoes (h : CommitsInTurn kind w logs w') (v : World) (hv : v.store = w.store) :
    let out := (recoverLogs (logs.map fun log => log.entries.map CommitLogEntry.parsed) {}).run
      (handle kind) v
    out.1.success = true ∧ out.1.conflictCount = 0 ∧ ∀ k, out.2.store.get k = w'.store.get k := by
  obtain ⟨n, hrun⟩ := @CommitsInTurn.run_recoverLogs kind kind _ _ _ h v hv {} rfl
  rw [hrun]
  exact ⟨rfl, rfl, fun k => rfl⟩

/-- One branch that overwrites one object. -/
def singleWriteTxn (objectId payload : Bytes) : AgentTxnContext :=
  { begin_ (ascii "txn:1") (ascii "1") with
    branches := [BranchManager.recordWrite { branchId := ascii "b" }
      (BranchManager.newEntry objectId .generic {}) .generic
      { objectId, intentType := .overwrite, payload }] }

/-- One branch that appends to one object. -/
def singleAppendTxn (objectId payload : Bytes) : AgentTxnContext :=
  { begin_ (ascii "txn:2") (ascii "2") with
    branches := [BranchManager.recordWrite { branchId := ascii "b" }
      (BranchManager.newEntry objectId .generic {}) .generic
      { objectId, intentType := .append, payload }] }

/-- Two commits of one object, one after the other. -/
theorem recoverLogs_redoes_twice :
    let first :=
  (selectWinnerAndCommit (singleWriteTxn (ascii "k") (ascii "v"))).run (handle .memory) {}
    let second :=
      (selectWinnerAndCommit (singleAppendTxn (ascii "k") (ascii "x"))).run (handle .memory) first.2
    let out := (recoverLogs ([first.1.2.commitLog, second.1.2.commitLog].map fun log =>
      log.entries.map CommitLogEntry.parsed) {}).run (handle .memory) {}
    out.1.success = true ∧ out.1.conflictCount = 0 ∧ ∀ k,
        out.2.store.get k = second.2.store.get k := by
  intro first second
  have hfirst : (selectWinnerAndCommit (singleWriteTxn (ascii "k") (ascii "v"))).run
    (handle .memory) {} =
      ((.ok true, first.1.2), first.2) := rfl
  have hsecond : (selectWinnerAndCommit (singleAppendTxn (ascii "k") (ascii "x"))).run
    (handle .memory) first.2 =
      ((.ok true, second.1.2), second.2) := rfl
  exact recoverLogs_redoes
    (.committed (fun h => by cases h) hfirst (.committed (fun h => by cases h) hsecond .done)) {}
    rfl

end DataAgentSystem.AgentTxn
