import DataAgentSystem.AgentTxn.RestoredSavepoints
import DataAgentSystem.AgentTxn.UndisturbedBranch
import DataAgentSystem.Containers.SnapshotLog

/-! The intents of a branch say all there is to say about its commit. They are a log that
savepoints copy and rollbacks restore, whatever the branch reads meanwhile; and as long
as nobody disturbs the branch, whether the commit succeeds and what it leaves in the
store can be told from the intents that are left and from what the store holds. -/

namespace DataAgentSystem.AgentTxn

open Text Intent Cache Branch Storage Interaction Containers BranchManager
  CommitManager AgentTxnManager

variable {kind : StoreKind} {branch winner : BranchContext} {txn : AgentTxnContext}
  {s : MemoryKVStore} {w : World} {ops : List (BranchOp × World)} {k : Bytes}

/-! ### The intents of a branch -/

/-- What an operation does to the intents. -/
def BranchOp.edit : BranchOp → Edit WriteIntent Bytes
  | .write _ _ intent => .append intent
  | .savepoint savepointId => .save savepointId
  | .rollbackToSavepoint savepointId => .restore savepointId
  | .read _ | .stage _ _ => .keep

/-- The savepoints of the branch stand for copies of its intents. -/
def Tracks (branch : BranchContext) (log : SnapshotLog WriteIntent Bytes) : Prop :=
  log.Copies Savepoint.savepointId Savepoint.intentLogPosition
    ⟨branch.intentLog.entries, branch.savepoints⟩

theorem Tracks.congr {log : SnapshotLog WriteIntent Bytes} (h : Tracks branch log)
    {branch' : BranchContext} (hlog : branch'.intentLog = branch.intentLog)
    (hsavepoints : branch'.savepoints = branch.savepoints) :
    Tracks branch' log := by
  rw [Tracks, hlog, hsavepoints]
  exact h

theorem tracks_perform {log : SnapshotLog WriteIntent Bytes} (h : Tracks branch log)
    (op : BranchOp × World) :
    Tracks (BranchOp.perform kind branch op) (log.edit op.1.edit) := by
  obtain ⟨op, w⟩ := op
  cases op with
  | read objectId =>
    show Tracks ((readObject branch objectId).run (handle kind) w).1.2 log
    unfold readObject
    cases branch.writeBuffer.find objectId <;> exact h.congr rfl rfl
  | write objectId objectType intent =>
    show Tracks ((bufferWrite branch objectId objectType intent).run (handle kind) w).1
      (log.edit (.append intent))
    unfold bufferWrite
    cases branch.writeBuffer.find objectId <;> exact SnapshotLog.Copies.append h intent
  | savepoint savepointId => exact SnapshotLog.Copies.save h rfl
  | rollbackToSavepoint savepointId =>
    show Tracks (RollbackManager.rollbackToSavepoint branch savepointId).2
      (log.edit (.restore savepointId))
    rcases exists_split branch.savepoints
      savepointId with hnone | ⟨front, savepoint, rest, hsplit, rfl, hfront⟩
    · rw [rollbackToSavepoint_of_none hnone, SnapshotLog.Copies.restore_of_ne h hnone]
      exact h
    · have hfind : branch.savepoints.find? (fun s => s.savepointId = savepoint.savepointId) =
          some savepoint := by
        rw [List.find?_eq_some_iff_append]
        exact ⟨by simp, front, rest, hsplit, by simpa using hfront⟩
      have hcut : branch.savepoints.takeWhile (fun s => s.savepointId ≠ savepoint.savepointId) =
          front := by
        rw [hsplit, List.takeWhile_append_of_pos (by simpa using hfront),
          List.takeWhile_cons_of_neg (by simp), List.append_nil]
      rw [RollbackManager.rollbackToSavepoint, hfind]
      simp only [Tracks, hcut]
      exact SnapshotLog.Copies.restore h hsplit hfront
  | stage score summary => exact h.congr rfl rfl

/-- A branch is tracked by the edits of its operations, in whatever worlds they are performed. -/
theorem tracks_worked (kind : StoreKind) (branchId : Bytes) (ops : List (BranchOp × World)) :
    Tracks (worked kind branchId ops)
      ((ops.map fun op => op.1.edit).foldl SnapshotLog.edit {}) := by
  induction ops using List.reverseRecOn with
  | nil => exact SnapshotLog.copies_empty _ _
  | append_singleton ops op ih =>
    rw [worked_snoc, List.map_append, List.map_singleton, List.foldl_concat]
    exact tracks_perform ih op

/-- The intents of a branch are what the edits of its operations leave in a log. -/
theorem intents_worked (kind : StoreKind) (branchId : Bytes) (ops : List (BranchOp × World)) :
    (worked kind branchId ops).intentLog.entries =
      SnapshotLog.written (ops.map fun op => op.1.edit) :=
  (tracks_worked kind branchId ops).log.symm

/-! ### What the intents come to -/

/-- What the intents on an object resolve to where the store holds a value of it, if there are
any. -/
def resolutionOf (intents : List WriteIntent) (k held : Bytes) : Option ResolveResult :=
  (live intents k).getLast?.map fun latest =>
    resolveWrite
      { objectId := k, baseValue := held, currentValue := bufferedFrom held (live intents k) }
      latest held

/-- The intents on each object resolve. -/
def allResolve (intents : List WriteIntent) (s : MemoryKVStore) : Bool :=
  intents.all fun intent =>
    (resolutionOf intents intent.objectId (s.get intent.objectId).value).all (·.success)

/-- What a commit of the intents leaves of an object. -/
def valueAfter (intents : List WriteIntent) (s : MemoryKVStore) (k : Bytes) : VersionedValue :=
  match resolutionOf intents k (s.get k).value with
  | none => s.get k
  | some result =>
    if result.shouldWrite then
      { value := result.value, version := (s.get k).version + 1, exists_ := true }
    else s.get k

/-- Intents on one object, of which the last overwrites it, resolve to what that one writes. -/
theorem ends_overwritten {front : List WriteIntent} {last : WriteIntent}
    (hfront : ∀ intent ∈ front, intent.objectId = last.objectId)
    (htype : last.intentType = .overwrite) (s : MemoryKVStore) :
    allResolve (front ++ [last]) s = true ∧ ∀ k, valueAfter (front ++ [last]) s k =
      if k = last.objectId then
        { value := last.payload, version := (s.get k).version + 1, exists_ := true }
      else s.get k := by
  have hall : ∀ intent ∈ front ++ [last], intent.objectId = last.objectId := by
    rw [List.forall_mem_append, List.forall_mem_singleton]
    exact ⟨hfront, rfl⟩
  have hlive : live (front ++ [last]) last.objectId = front ++ [last] :=
    List.filter_eq_self.2 fun intent hintent => decide_eq_true (hall intent hintent)
  have hresolution : ∀ held, resolutionOf (front ++ [last]) last.objectId held =
      some { shouldWrite := true, value := last.payload } := by
    intro held
    rw [resolutionOf, hlive, List.getLast?_concat, Option.map_some, resolveWrite,
      htype, bufferedFrom_snoc]
    simp only [bufferedValue, htype]
  constructor
  · rw [allResolve, List.all_eq_true]
    intro intent hintent
    rw [hall intent hintent, hresolution]
    rfl
  · intro k
    split
    next heq => rw [heq, valueAfter, hresolution]; rfl
    next hne =>
      have hnone : live (front ++ [last]) k = [] := by
        refine List.filter_eq_nil_iff.2 fun intent hintent => ?_
        rw [hall intent hintent]
        simpa using Ne.symm hne
      rw [valueAfter, resolutionOf, hnone]
      rfl

/-- Of an entry only the base and the current value count. -/
theorem resolveWrite_congr {entry entry' : ObjectCacheEntry}
    (hbase : entry.baseValue = entry'.baseValue)
    (hcurrent : entry.currentValue = entry'.currentValue) (intent : WriteIntent) (current : Bytes) :
    resolveWrite entry intent current = resolveWrite entry' intent current := by
  unfold resolveWrite
  rw [hbase, hcurrent]

/-- An undisturbed entry resolves to what its intents do. -/
theorem UpToDate.resolutionOf_eq (h : UpToDate s branch) {entry : ObjectCacheEntry}
    (hentry : entry ∈ branch.writeBuffer.orderedEntries) {intent : WriteIntent}
    (hintent : (latestIntents branch.intentLog).lookup entry.objectId = some intent) :
    resolutionOf branch.intentLog.entries entry.objectId (s.get entry.objectId).value =
      some (resolveWrite entry intent (s.get entry.objectId).value) := by
  obtain ⟨base, rfl, hbuffers⟩ := h.synced.buffers (WriteBuffer.mem_orderedEntries.1 hentry)
  rw [resolutionOf, ← lookup_latestIntents_live, hintent, Option.map_some]
  exact congrArg some
    (resolveWrite_congr hbuffers.baseValue.symm hbuffers.currentValue.symm intent _)

theorem UpToDate.resolves_iff (h : UpToDate s branch) :
    Resolves s branch ↔ allResolve branch.intentLog.entries s = true := by
  rw [allResolve, List.all_eq_true]
  constructor
  · intro hresolves intent hintent
    have hlive : live branch.intentLog.entries intent.objectId ≠ [] :=
      List.ne_nil_of_mem (mem_live.2 ⟨hintent, rfl⟩)
    obtain ⟨entry, hfind⟩ := Option.ne_none_iff_exists'.1 fun hnone =>
      hlive ((h.synced.find_eq_none_iff _).1 hnone)
    have hid : entry.objectId = intent.objectId := branch.writeBuffer.consistent.objectId_eq hfind
    have hentry : entry ∈ branch.writeBuffer.orderedEntries :=
      WriteBuffer.mem_orderedEntries.2 (hid ▸ hfind)
    obtain ⟨latest, hlatest⟩ := h.exists_latest hentry
    rw [← hid, h.resolutionOf_eq hentry hlatest]
    exact hresolves entry hentry latest hlatest
  · intro hall entry hentry latest hlatest
    have hmem : latest ∈ live branch.intentLog.entries entry.objectId :=
      List.mem_of_getLast? ((lookup_latestIntents_live _ _).symm.trans hlatest)
    obtain ⟨hlog, hid⟩ := mem_live.1 hmem
    have hsuccess := hall latest hlog
    rw [hid, h.resolutionOf_eq hentry hlatest] at hsuccess
    exact hsuccess

/-- The planned writes of an undisturbed branch leave what its intents come to. -/
theorem UpToDate.get_applyWrites (h : UpToDate s winner) (hresolves : Resolves s winner)
    (k : Bytes) :
    (s.applyWrites (plannedWrites winner s)).get k = valueAfter winner.intentLog.entries s k := by
  by_cases hwritten : ∃ entry ∈ writtenEntries winner, entry.objectId = k
  · obtain ⟨entry, hentry, rfl⟩ := hwritten
    obtain ⟨hmem, intent, hintent, hwrites⟩ := mem_writtenEntries.1 hentry
    have hwrite : plannedWrite (latestIntents winner.intentLog) s entry ∈ plannedWrites winner s :=
      List.mem_map_of_mem hentry
    have happlied :=
        MemoryKVStore.get_applyWrites_of_mem (s := s) (nodup_plannedWrites winner s) hwrite
    rw [plannedWrite, hintent] at happlied
    have hshould := (shouldWrite_iff (hresolves entry hmem intent hintent)).2 hwrites
    simp only [valueAfter, h.resolutionOf_eq hmem hintent, hshould, ↓reduceIte]
    exact happlied
  · have hkey : k ∉ (plannedWrites winner s).map WriteOp.key := by
      rw [keys_plannedWrites]
      exact fun hk => hwritten (List.mem_map.1 hk)
    rw [MemoryKVStore.get_applyWrites_of_notMem hkey, valueAfter,
      resolutionOf, ← lookup_latestIntents_live]
    cases hlatest : (latestIntents winner.intentLog).lookup k with
    | none => rfl
    | some intent =>
      -- the latest intent only reads
      have hread : intent.intentType = .read := by
        by_contra hwrites
        exact hwritten ((exists_writtenEntry_iff h.synced k).2 ⟨intent, hlatest, hwrites⟩)
      simp [resolveWrite, hread]

/-- A commit that nobody has disturbed does what the intents of the winner say. -/
theorem run_selectWinnerAndCommit_upToDate (h : UpToDate w.store winner) (hs : Selects txn winner) :
    ((selectWinnerAndCommit txn).run (handle .memory) w).1.1 =
      .ok (allResolve winner.intentLog.entries w.store) ∧
      ∀ k, ((selectWinnerAndCommit txn).run (handle .memory) w).2.store.get k =
        if allResolve winner.intentLog.entries w.store then
          valueAfter winner.intentLog.entries w.store k
        else w.store.get k := by
  by_cases hresolves : Resolves w.store winner
  · obtain ⟨txn', hrun⟩ :=
      run_selectWinnerAndCommit_memory hs (h.ready_iff.2 hresolves) h.allCurrent
    rw [hrun, h.resolves_iff.1 hresolves]
    exact ⟨rfl, fun k => (h.get_applyWrites hresolves k).trans (if_pos rfl).symm⟩
  · have hnot : allResolve winner.intentLog.entries w.store = false :=
      Bool.eq_false_iff.2 fun hall => hresolves (h.resolves_iff.2 hall)
    obtain ⟨v, hrun⟩ := run_selectWinnerAndCommit_of_not_ready .memory hs fun hready =>
      hresolves (h.ready_iff.1 hready)
    rw [hrun, hnot]
    exact ⟨rfl, fun k => (if_neg Bool.false_ne_true).symm⟩

end DataAgentSystem.AgentTxn
