import DataAgentSystem.AgentTxn.CommitOutcome

/-! What a batch commit writes in terms of the store the batch meets. A rebased
write is resolved against a value the commit got earlier, and checked at the version
that value had; while versions tell values apart, it is resolved against the value
the batch meets. -/

namespace DataAgentSystem.AgentTxn

open Text Intent Cache Branch Storage Interaction Containers

variable {kind : StoreKind}

namespace CommitManager

/-- What is known of the version at which a key is checked. -/
abbrev VersionSpec := Bytes → UInt64 → Prop

/-- A write is what its entry resolves to against a value the commit got, and where
the intent rebases, the version of that value is one the key is checked at. -/
structure ResolvedAt (checked : VersionSpec) (latest : UnorderedMap WriteIntent)
    (tr : List (Event Call World)) (entry : ObjectCacheEntry) (write : WriteOp) : Prop where
  key : write.key = entry.objectId
  value : ∃ intent w, latest.lookup entry.objectId = some intent ∧ ⟨.get entry.objectId, w⟩ ∈ tr ∧
    (resolveWrite entry intent (w.store.get entry.objectId).value).success = true ∧
    write.value = (resolveWrite entry intent (w.store.get entry.objectId).value).value ∧
    (usesSemanticRebase intent.intentType = true →
      checked entry.objectId (w.store.getVersion entry.objectId))

variable {latest : UnorderedMap WriteIntent} {checked checked' : VersionSpec}
  {entry : ObjectCacheEntry} {entries : List ObjectCacheEntry} {write : WriteOp}
  {tr tr' : List (Event Call World)}

theorem ResolvedAt.mono (h : ResolvedAt checked latest tr entry write) (htr : tr ⊆ tr')
    (hchecked : ∀ k v, checked k v → checked' k v) :
    ResolvedAt checked' latest tr' entry write := by
  obtain ⟨hkey, intent, w, hintent, hget, hsuccess, hvalue, hrebase⟩ := h
  exact ⟨hkey, intent, w, hintent, htr hget, hsuccess, hvalue, fun hsemantic =>
    hchecked _ _ (hrebase hsemantic)⟩

/-- A key that no entry is about keeps its check. -/
theorem resolveEntries_lookup_of_notMem {seenChecks seenChecks' : UnorderedMap UInt64}
    {writes writes' : List WriteOp}
    (h : (resolveEntries latest entries seenChecks writes).Interfered (handle kind) tr
      (.ok (seenChecks', writes')))
    {k : Bytes} (hk : k ∉ entries.map (·.objectId)) :
    seenChecks'.lookup k = seenChecks.lookup k := by
  induction entries generalizing seenChecks writes tr with
  | nil =>
    obtain ⟨-, heq⟩ := Program.interfered_ret.1 h
    cases heq
    rfl
  | cons entry entries ih =>
    rw [List.map_cons, List.mem_cons, not_or] at hk
    obtain ⟨intent, w, rest, -, rfl, -, ⟨-, hrest⟩ | ⟨-, seen, hseen, hrest⟩⟩ :=
      resolveEntries_cons_ok h
    · exact ih hrest hk.2
    · rw [ih hrest hk.2, (expectVersion_ok hseen).2, if_neg hk.1]

/-- The writes of a commit, and the versions they are checked at. -/
theorem resolveEntries_resolvedAt {seenChecks seenChecks' : UnorderedMap UInt64}
    {writes writes' : List WriteOp}
    (h : (resolveEntries latest entries seenChecks writes).Interfered (handle kind) tr
      (.ok (seenChecks', writes')))
    (hnodup : (entries.map (·.objectId)).Nodup) :
    ∃ new, writes' = writes ++ new ∧
      List.Forall₂ (ResolvedAt (fun k v => seenChecks'.lookup k = some v) latest tr)
        (entries.filter (written latest)) new := by
  induction entries generalizing seenChecks writes tr with
  | nil =>
    obtain ⟨rfl, heq⟩ := Program.interfered_ret.1 h
    cases heq
    exact ⟨[], (List.append_nil _).symm, .nil⟩
  | cons entry entries ih =>
    rw [List.map_cons, List.nodup_cons] at hnodup
    obtain ⟨intent, w, rest, hintent, rfl, hs, ⟨hread, hrest⟩ | ⟨hread, seen, hseen, hrest⟩⟩ :=
      resolveEntries_cons_ok h
    · obtain ⟨new, hnew, hall⟩ := ih hrest hnodup.2
      have hskip : written latest entry = false := by simp [written, hintent, hread]
      refine ⟨new, hnew, ?_⟩
      rw [List.filter_cons_of_neg (by simp [hskip])]
      exact hall.imp fun _ _ hr => hr.mono (List.subset_cons_self _ _) fun _ _ hv => hv
    · obtain ⟨new, hnew, hall⟩ := ih hrest hnodup.2
      have htake : written latest entry = true := by simp [written, hintent, hread]
      refine ⟨_ :: new, by rw [hnew, List.append_assoc]; rfl, ?_⟩
      rw [List.filter_cons_of_pos htake]
      refine .cons ⟨rfl, intent, w, hintent, List.mem_cons_self, hs, rfl, fun hsemantic => ?_⟩ ?_
      · -- the later entries are about other keys
        rw [resolveEntries_lookup_of_notMem hrest hnodup.1, (expectVersion_ok hseen).2,
          if_pos rfl, commitVersion, if_pos hsemantic]
        rfl
      · exact hall.imp fun _ _ hr => hr.mono (List.subset_cons_self _ _) fun _ _ hv => hv

/-- The calls `tr` of a commit that wrote `writes` as one batch in the world `before`. -/
structure BatchWritten (winner : BranchContext) (tr : List (Event Call World))
    (writes : List WriteOp) (before : World) : Prop where
  trace : ∃ checks looks, ReadOnly looks ∧
    tr = looks ++ [⟨.batchPutIfVersion checks writes, before⟩] ∧
    before.store.batchPutIfVersion checks writes = (true, before.store.applyWrites writes)
  resolved : List.Forall₂
    (ResolvedAt (fun k v => before.store.getVersion k = v) (latestIntents winner.intentLog) tr)
    (writtenEntries winner) writes

variable {winner : BranchContext} {writes : List WriteOp} {before : World}

theorem keys_of_resolvedAt {writes : List WriteOp}
    (h : List.Forall₂ (ResolvedAt checked latest tr) entries writes) :
    writes.map WriteOp.key = entries.map (·.objectId) :=
  (map_eq_of_forall₂ h fun _ _ hresolved => hresolved.key.symm).symm

/-- The batch of a commit leaves alone what the winner does not write. -/
theorem BatchWritten.get_of_notMem (h : BatchWritten winner tr writes before) {k : Bytes}
    (hk : ∀ entry ∈ writtenEntries winner, entry.objectId ≠ k) :
    (before.store.applyWrites writes).get k = before.store.get k := by
  apply MemoryKVStore.get_applyWrites_of_notMem
  rw [keys_of_resolvedAt h.resolved, List.mem_map]
  rintro ⟨entry, hentry, hid⟩
  exact hk entry hentry hid

/-- What the batch of a commit leaves of a written entry. -/
theorem BatchWritten.get_of_mem (h : BatchWritten winner tr writes before)
    {entry : ObjectCacheEntry} (hentry : entry ∈ writtenEntries winner) :
    ∃ write, ResolvedAt (fun k v => before.store.getVersion k = v) (latestIntents winner.intentLog)
      tr entry write ∧
      ((before.store.applyWrites writes).get entry.objectId).value = write.value := by
  have hnodup : (writes.map WriteOp.key).Nodup := by
    rw [keys_of_resolvedAt h.resolved]
    exact (List.filter_sublist.map _).nodup winner.writeBuffer.nodup_objectId_orderedEntries
  obtain ⟨write, hwrite, hresolved⟩ := exists_mem_of_forall₂ h.resolved hentry
  refine ⟨write, hresolved, ?_⟩
  rw [← hresolved.key, MemoryKVStore.get_applyWrites_of_mem hnodup hwrite]

/-- What a commit that goes through on a store with batches has done. -/
theorem commitWinner_memory_ok {txn : AgentTxnContext} {log : CommitLog}
    (h : (commitWinner txn winner).Interfered (handle .memory) tr (.ok log)) :
    ∃ seen looks seenChecks writes w before,
      (resolveEntries (latestIntents winner.intentLog) winner.writeBuffer.orderedEntries seen
        []).Interfered
        (handle .memory) looks (.ok (seenChecks, writes)) ∧
      tr = looks ++ [⟨.supportsAtomicBatchConditionalWrite, w⟩,
        ⟨.batchPutIfVersion (checksOf seenChecks) writes, before⟩] ∧
      (before.store.batchPutIfVersion (checksOf seenChecks) writes).1 = true := by
  rw [commitWinner] at h
  split at h
  next => simp at h
  next seen _ =>
    obtain ⟨looks, r, tr₂, rfl, hresolve, hbatch⟩ := Program.interfered_bind.1 h
    clear h
    cases r with
    | error reason => simp at hbatch
    | ok r =>
      obtain ⟨seenChecks, writes⟩ := r
      simp only [Store.supportsAtomicBatchConditionalWrite_bind, Program.interfered_call] at hbatch
      obtain ⟨w, tr₃, rfl, hbatch⟩ := hbatch
      simp only [handle, decide_true, ↓reduceIte, Store.batchPutIfVersion_bind,
        Program.interfered_call, World.withStore, StoreKind.batchPutIfVersion] at hbatch
      obtain ⟨before, tr₄, rfl, hbatch⟩ := hbatch
      cases htrue : (before.store.batchPutIfVersion (checksOf seenChecks) writes).1 with
      | false => simp [htrue, Program.interfered_call, handle] at hbatch
      | true =>
        simp only [htrue, ↓reduceIte, Program.pure_eq_ret, Program.interfered_ret] at hbatch
        obtain ⟨rfl, -⟩ := hbatch
        exact ⟨seen, looks, seenChecks, writes, w, before, hresolve, rfl, htrue⟩

theorem commitWinner_batchWritten {txn : AgentTxnContext} {log : CommitLog}
    (h : (commitWinner txn winner).Interfered (handle .memory) tr (.ok log)) :
    ∃ writes before, BatchWritten winner tr writes before := by
  obtain ⟨seen, looks, seenChecks, writes, w, before, hresolve, rfl, htrue⟩ :=
    commitWinner_memory_ok h
  obtain ⟨hchecks, hstore⟩ := MemoryKVStore.batchPutIfVersion_true htrue
  obtain ⟨new, hnew, hall⟩ :=
    resolveEntries_resolvedAt hresolve winner.writeBuffer.nodup_objectId_orderedEntries
  rw [List.nil_append] at hnew
  subst hnew
  refine ⟨writes, before,
    ⟨checksOf seenChecks, looks ++ [⟨.supportsAtomicBatchConditionalWrite, w⟩], ?_, ?_, ?_⟩, ?_⟩
  · rw [readOnly_append]
    exact ⟨readOnly_resolveEntries hresolve, by simp [Call.reads]⟩
  · rw [List.append_assoc]
    rfl
  · exact Prod.ext htrue hstore
  · exact hall.imp fun _ _ hr => hr.mono (List.subset_append_left _ _) fun k v hv =>
      hchecks _ (mem_checksOf hv)

end CommitManager

namespace AgentTxnManager

open CommitManager

/-- A transaction that commits on a store with batches makes one, and its winner says what is in
it. -/
theorem selectWinnerAndCommit_batchWritten {txn txn' : AgentTxnContext}
    {tr : List (Event Call World)}
    (h : (selectWinnerAndCommit txn).Interfered (handle .memory) tr (.ok true, txn')) :
    ∃ winner writes before, Selects txn winner ∧ BatchWritten winner tr writes before := by
  have hne : txn.branches ≠ [] := by
    intro hnil
    rw [selectWinnerAndCommit, hnil] at h
    cases (Program.interfered_ret.1 h).2
  obtain ⟨winner, hs⟩ := exists_selects hne
  obtain ⟨v, looks, hvalidate, ⟨-, -, hfalse, -⟩ | ⟨-, committing, result, rfl, hcommit, hr, -⟩⟩ :=
    selectWinnerAndCommit_steps hs h
  · cases hfalse
  · cases result with
    | error reason => cases hr
    | ok log =>
      obtain ⟨writes, before, ⟨checks, looks', hlooks', rfl, hbatch⟩, hresolved⟩ :=
        commitWinner_batchWritten hcommit
      refine ⟨winner, writes, before, hs,
        ⟨checks, looks ++ looks', ?_, (List.append_assoc ..).symm, hbatch⟩, ?_⟩
      · exact readOnly_append.2 ⟨ValidationManager.readOnly_validateReads hvalidate, hlooks'⟩
      · exact hresolved.imp fun _ _ hr => hr.mono (List.subset_append_right _ _) fun _ _ hv => hv

end AgentTxnManager

end DataAgentSystem.AgentTxn
