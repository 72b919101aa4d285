import DataAgentSystem.AgentTxn.ReachedTransaction
import DataAgentSystem.Branch.Replay

/-! Branches that nobody disturbs. While the store stays as it is, every base and every
read of a branch is what the store holds, however often the branch reads, writes and
goes back; so all the versions that its commit checks are met, and the commit can only
fail where a latest intent does not apply to the store. -/

namespace DataAgentSystem.AgentTxn

open Text Intent Cache Branch Storage Interaction Containers AgentTxnManager CommitManager

variable {kind : StoreKind} {s : MemoryKVStore} {branch winner : BranchContext} {w : World}

/-- The branch has seen nothing but this store. -/
structure UpToDate (s : MemoryKVStore) (branch : BranchContext) : Prop where
  synced : Synced (fun k base => base = s.get k) branch
  reads : ∀ read ∈ branch.readSet.entries, s.getVersion read.objectId = read.observedVersion

theorem UpToDate.congr (h : UpToDate s branch) {branch' : BranchContext}
    (hreads : branch'.readSet = branch.readSet) (hbuffer : branch'.writeBuffer = branch.writeBuffer)
    (hlog : branch'.intentLog = branch.intentLog)
    (hsavepoints : branch'.savepoints = branch.savepoints) : UpToDate s branch' := by
  refine ⟨h.synced.congr hbuffer hlog hsavepoints, ?_⟩
  rw [hreads]
  exact h.reads

theorem kept_upToDate (s : MemoryKVStore) : Kept (UpToDate s) where
  new branchId := ⟨synced_new _ branchId, fun _ h => absurd h List.not_mem_nil⟩
  setStatus h _ := h.congr rfl rfl rfl rfl
  createSavepoint h savepointId := ⟨h.synced.createSavepoint savepointId, h.reads⟩
  rollbackToSavepoint h savepointId := by
    refine ⟨synced_rollbackToSavepoint h.synced savepointId, ?_⟩
    unfold RollbackManager.rollbackToSavepoint
    split
    · exact h.reads
    · exact h.reads
  discardBranch h := ⟨synced_discardBranch h.synced, h.reads⟩

/-! ### Operations -/

/-- A read that is recorded records the version in the store. -/
theorem UpToDate.readObject (h : UpToDate s branch) (objectId : Bytes) (hstore : w.store = s) :
    UpToDate s ((BranchManager.readObject branch objectId).run (handle kind) w).1.2 := by
  refine ⟨h.synced.readObject objectId w, ?_⟩
  unfold BranchManager.readObject
  cases branch.writeBuffer.find objectId with
  | some buffered => exact h.reads
  | none =>
    intro read hread
    rcases List.mem_append.1 hread with hold | hnew
    · exact h.reads read hold
    · rw [List.mem_singleton.1 hnew, ← hstore]
      rfl

/-- A first write of an object starts from what the store holds. -/
theorem UpToDate.bufferWrite (h : UpToDate s branch) {objectId : Bytes} (objectType : ObjectType)
    {intent : WriteIntent} (hid : intent.objectId = objectId) (hstore : w.store = s) :
    UpToDate s ((BranchManager.bufferWrite branch objectId objectType intent).run
      (handle kind) w).1 := by
  refine ⟨h.synced.bufferWrite objectType hid (congrArg (·.get objectId) hstore), ?_⟩
  unfold BranchManager.bufferWrite
  cases branch.writeBuffer.find objectId with
  | some existing => exact h.reads
  | none => exact h.reads

/-! ### Commits -/

theorem UpToDate.baseVersion (h : UpToDate s branch) {entry : ObjectCacheEntry}
    (hentry : entry ∈ branch.writeBuffer.orderedEntries) :
    s.getVersion entry.objectId = entry.baseVersion := by
  obtain ⟨base, hbase, hbuffers⟩ := h.synced.buffers (WriteBuffer.mem_orderedEntries.1 hentry)
  rw [hbuffers.baseVersion, hbase]
  rfl

/-- A buffered object has a latest intent. -/
theorem UpToDate.exists_latest (h : UpToDate s branch) {entry : ObjectCacheEntry}
    (hentry : entry ∈ branch.writeBuffer.orderedEntries) :
    ∃ intent, (latestIntents branch.intentLog).lookup entry.objectId = some intent := by
  rw [lookup_latestIntents_live]
  apply Option.ne_none_iff_exists'.1
  rw [Ne, List.getLast?_eq_none_iff, ← h.synced.find_eq_none_iff,
    WriteBuffer.mem_orderedEntries.1 hentry]
  exact nofun

/-- The latest intent on each buffered object can be applied to what the store holds. -/
def Resolves (s : MemoryKVStore) (branch : BranchContext) : Prop :=
  ∀ entry ∈ branch.writeBuffer.orderedEntries, ∀ intent,
    (latestIntents branch.intentLog).lookup entry.objectId = some intent →
    (resolveWrite entry intent (s.get entry.objectId).value).success = true

/-- All the checks of a commit are met, whatever its writes come to. -/
theorem UpToDate.allCurrent (h : UpToDate s winner) : AllCurrent winner s :=
  ⟨fun _ hentry => .inr (h.baseVersion (mem_writtenEntries.1 hentry).1), fun read hread =>
    .inl (h.reads read hread)⟩

theorem UpToDate.ready_iff (h : UpToDate s winner) : Ready winner s ↔ Resolves s winner := by
  constructor
  · intro hready entry hentry intent hintent
    obtain ⟨intent', hintent', hsuccess⟩ := hready.resolves entry hentry
    rw [hintent] at hintent'
    rwa [Option.some.inj hintent']
  · intro hresolves
    refine ⟨⟨fun read hread read' hread' hid => ?_, fun entry hentry => ?_,
      fun entry hentry _ read hread hid => ?_⟩, fun read hread => .inr (h.reads read hread)⟩
    · rw [← h.reads read hread, ← h.reads read' hread', hid]
    · obtain ⟨intent, hintent⟩ := h.exists_latest hentry
      exact ⟨intent, hintent, hresolves entry hentry intent hintent⟩
    · rw [← h.reads read hread, hid]
      exact h.baseVersion (mem_writtenEntries.1 hentry).1

/-- No swap expects another value than the store holds, and deltas apply to integers. -/
structure Applies (s : MemoryKVStore) (branch : BranchContext) (k : Bytes)
    (latest : WriteIntent) : Prop where
  swap : latest.intentType = .cas →
    ¬(latest.condition.type = .valueEquals ∧ (s.get k).value ≠ latest.condition.expectedValue)
  delta : latest.intentType = .delta →
    IsInteger (s.get k).value ∧ ∀ intent ∈ live branch.intentLog.entries k, IsInteger intent.payload

theorem resolveWrite_of_applies {entry : ObjectCacheEntry} {latest : WriteIntent}
    (hlatest : (latestIntents branch.intentLog).lookup entry.objectId = some latest)
    (h : Applies s branch entry.objectId latest) :
    (resolveWrite entry latest (s.get entry.objectId).value).success = true := by
  rw [lookup_latestIntents_live] at hlatest
  unfold resolveWrite
  cases htype : latest.intentType with
  | read => rfl
  | overwrite => rfl
  | append =>
    simp only
    split <;> rfl
  | delta =>
    obtain ⟨hheld, hpayloads⟩ := h.delta htype
    have hpayload := hpayloads latest (List.mem_of_getLast? hlatest)
    simp only [parseInt_of_isInteger hheld, parseInt_of_isInteger hpayload]
    split <;> rfl
  | cas => simp only [if_neg (h.swap htype)]

/-- The latest intents on the buffered objects all apply. -/
def AllApply (s : MemoryKVStore) (branch : BranchContext) : Prop :=
  ∀ entry ∈ branch.writeBuffer.orderedEntries, ∀ latest,
    (live branch.intentLog.entries entry.objectId).getLast? = some latest →
    Applies s branch entry.objectId latest

theorem AllApply.resolves (h : AllApply s branch) : Resolves s branch := by
  intro entry hentry latest hlatest
  exact resolveWrite_of_applies hlatest
    (h entry hentry latest ((lookup_latestIntents_live _ _).symm.trans hlatest))

end DataAgentSystem.AgentTxn
