import DataAgentSystem.AgentTxn.AgentTxnContext
import Mathlib.Data.List.Find

/-! The writes of a branch as one list. A write is recorded twice, as an entry of the
buffer and as an intent, and a rollback cuts both records at one place; so buffer and
intents are read off a single list of records, and a rollback keeps a prefix of it.
A property that each new record has, given the ones before, is a property of all. -/

namespace DataAgentSystem.AgentTxn

open Text Intent Cache Branch Storage Interaction BranchManager

/-- A buffered write: the entry it left in the buffer, and its intent. -/
structure WriteRecord where
  entry : ObjectCacheEntry
  intent : WriteIntent

/-- These are the writes of the branch that have not been undone, in order. -/
structure HasWritten (branch : BranchContext) (records : List WriteRecord) : Prop where
  buffer : branch.writeBuffer.toWriteBufferData = .replay (records.map (·.entry))
  intents : branch.intentLog.entries = records.map (·.intent)
  positions : ∀ savepoint ∈ branch.savepoints, savepoint.writeLogPosition =
    savepoint.intentLogPosition

/-- The entry a write of the object starts from; the base counts if there is none yet. -/
def startEntry (branch : BranchContext) (objectId : Bytes) (objectType : ObjectType)
    (base : VersionedValue) :
    ObjectCacheEntry :=
  (branch.writeBuffer.find objectId).getD (newEntry objectId objectType base)

variable {branch : BranchContext} {records : List WriteRecord}

theorem hasWritten_new (branchId : Bytes) : HasWritten { branchId := branchId } [] :=
  ⟨rfl, rfl, fun _ h => absurd h List.not_mem_nil⟩

/-- The writes and the savepoints of a branch are all that counts. -/
theorem HasWritten.congr (h : HasWritten branch records) {branch' : BranchContext}
    (hbuffer : branch'.writeBuffer = branch.writeBuffer)
    (hlog : branch'.intentLog = branch.intentLog)
    (hsavepoints : branch'.savepoints = branch.savepoints) :
    HasWritten branch' records := by
  constructor
  · rw [hbuffer]
    exact h.buffer
  · rw [hlog]
    exact h.intents
  · rw [hsavepoints]
    exact h.positions

theorem HasWritten.find (h : HasWritten branch records) (k : Bytes) :
    branch.writeBuffer.find k = (records.reverse.find? fun r => r.entry.objectId = k).map
      (·.entry) := by
  rw [WriteBuffer.find, h.buffer, WriteBufferData.entries_replay, ← List.map_reverse,
    List.find?_map]
  rfl

theorem HasWritten.size (h : HasWritten branch records) :
    branch.writeBuffer.size = records.length := by
  rw [WriteBuffer.size, h.buffer, WriteBufferData.length_changes_replay, List.length_map]

/-- Branches with the same writes have the same buffer and the same intents. -/
theorem HasWritten.same (h : HasWritten branch records) {branch' : BranchContext}
    (h' : HasWritten branch' records) :
    branch'.writeBuffer = branch.writeBuffer ∧ branch'.intentLog = branch.intentLog := by
  refine ⟨WriteBuffer.ext (h'.buffer.trans h.buffer.symm), ?_⟩
  show IntentLog.mk branch'.intentLog.entries = IntentLog.mk branch.intentLog.entries
  rw [h'.intents, h.intents]

theorem HasWritten.recordWrite (h : HasWritten branch records) (entry : ObjectCacheEntry)
    (objectType : ObjectType) (intent : WriteIntent) :
    HasWritten (BranchManager.recordWrite branch entry objectType intent)
      (records ++ [⟨updateEntry entry objectType intent, intent⟩]) := by
  constructor
  · rw [List.map_append, List.map_singleton, WriteBufferData.replay_snoc, ← h.buffer]
    rfl
  · rw [List.map_append, List.map_singleton, ← h.intents]
    rfl
  · exact h.positions

/-- A write makes one record more, whatever the store answers. -/
theorem HasWritten.bufferWrite (h : HasWritten branch records) (kind : StoreKind) (objectId : Bytes)
    (objectType : ObjectType) (intent : WriteIntent) (w : World) :
    HasWritten ((BranchManager.bufferWrite branch objectId objectType intent).run (handle kind) w).1
      (records ++ [⟨updateEntry (startEntry branch objectId objectType (w.store.get objectId))
        objectType intent, intent⟩]) := by
  unfold BranchManager.bufferWrite startEntry
  cases branch.writeBuffer.find objectId with
  | some existing => exact h.recordWrite existing objectType intent
  | none => exact h.recordWrite _ objectType intent

theorem HasWritten.readObject (h : HasWritten branch records) (kind : StoreKind)
    (objectId : Bytes) (w : World) :
    HasWritten ((BranchManager.readObject branch objectId).run (handle kind) w).1.2 records := by
  unfold BranchManager.readObject
  cases branch.writeBuffer.find objectId with
  | some buffered => exact h.congr rfl rfl rfl
  | none => exact h.congr rfl rfl rfl

theorem HasWritten.createSavepoint (h : HasWritten branch records) (savepointId : Bytes) :
    HasWritten (BranchManager.createSavepoint branch savepointId) records := by
  refine ⟨h.buffer, h.intents, fun savepoint hmem => ?_⟩
  rcases List.mem_append.1 hmem with hold | hnew
  · exact h.positions savepoint hold
  · rw [List.mem_singleton.1 hnew]
    change branch.writeBuffer.size = branch.intentLog.entries.length
    rw [h.size, h.intents, List.length_map]

theorem HasWritten.stageBranch (h : HasWritten branch records) (score : Double) (summary : Bytes) :
    HasWritten (BranchManager.stageBranch branch score summary) records := h.congr rfl rfl rfl

/-- A rollback to a savepoint keeps the writes before it. -/
theorem HasWritten.restored (h : HasWritten branch records)
    {savepointId : Bytes} {savepoint : Savepoint}
    (hfind : branch.savepoints.find? (fun savepoint => savepoint.savepointId = savepointId) =
      some savepoint) :
    HasWritten (RollbackManager.rollbackToSavepoint branch savepointId).2
      (records.take savepoint.writeLogPosition) := by
  unfold RollbackManager.rollbackToSavepoint
  rw [hfind]
  have hmem := List.mem_of_find?_eq_some hfind
  refine ⟨?_, ?_, fun s hs => ?_⟩
  · change branch.writeBuffer.toWriteBufferData.truncate savepoint.writeLogPosition = _
    rw [h.buffer, WriteBufferData.truncate_replay, List.map_take]
  · change branch.intentLog.entries.take savepoint.intentLogPosition = _
    rw [h.intents, h.positions savepoint hmem, List.map_take]
  · rcases List.mem_append.1 hs with hbefore | hself
    · exact h.positions s ((List.takeWhile_sublist _).subset hbefore)
    · rw [List.mem_singleton.1 hself]
      exact h.positions savepoint hmem

/-- A rollback keeps the writes up to some place. -/
theorem HasWritten.rollbackToSavepoint (h : HasWritten branch records) (savepointId : Bytes) :
    ∃ n, HasWritten (RollbackManager.rollbackToSavepoint branch savepointId).2
      (records.take n) := by
  cases hfind : branch.savepoints.find? fun savepoint => savepoint.savepointId = savepointId with
  | none =>
    refine ⟨records.length, ?_⟩
    rw [List.take_length, RollbackManager.rollbackToSavepoint, hfind]
    exact h
  | some savepoint => exact ⟨_, h.restored hfind⟩

/-- What is buffered of an object has a record, the last one of the object. -/
theorem HasWritten.exists_record (h : HasWritten branch records) {k : Bytes}
    {entry : ObjectCacheEntry} (hentry : branch.writeBuffer.find k = some entry) :
    ∃ record ∈ records, record.entry = entry ∧
      records.reverse.find? (fun r => r.entry.objectId = k) = some record := by
  rw [h.find, Option.map_eq_some_iff] at hentry
  obtain ⟨record, hrecord, heq⟩ := hentry
  exact ⟨record, List.mem_reverse.1 (List.mem_of_find?_eq_some hrecord), heq, hrecord⟩

/-- If every write says which object it means, the last intent on a buffered object is that
of the write that left the entry. -/
theorem HasWritten.exists_last (h : HasWritten branch records)
    (hnamed : ∀ r ∈ records, r.intent.objectId = r.entry.objectId) {k : Bytes}
    {entry : ObjectCacheEntry} (hentry : branch.writeBuffer.find k = some entry) :
    ∃ record ∈ records, record.entry = entry ∧
      branch.intentLog.entries.reverse.find? (fun intent => intent.objectId = k) =
        some record.intent := by
  obtain ⟨record, hrecord, heq, hlast⟩ := h.exists_record hentry
  refine ⟨record, hrecord, heq, ?_⟩
  have hsame : ∀ r ∈ records.reverse, decide (r.entry.objectId = k) =
      decide (r.intent.objectId = k) :=
    fun r hr => by rw [hnamed r (List.mem_reverse.1 hr)]
  rw [h.intents, ← List.map_reverse, List.find?_map, Option.map_eq_some_iff]
  refine ⟨record, ?_, rfl⟩
  rw [← hlast]
  exact (List.find?_congr hsame).symm

/-! ### The writes of one object -/

/-- The intents with which an object has been written, of the writes that are not undone. -/
def intentsOn (branch : BranchContext) (k : Bytes) : List WriteIntent :=
  ((branch.writeBuffer.changes.reverse.zip branch.intentLog.entries).filter fun write =>
    write.1.objectId = k).map
    Prod.snd

theorem map_objectId_changes_replay (es : List ObjectCacheEntry) :
    (WriteBufferData.replay es).changes.reverse.map (·.objectId) = es.map (·.objectId) := by
  induction es using List.reverseRecOn with
  | nil => rfl
  | append_singleton es e ih =>
    have hstep : ∃ change, ((WriteBufferData.replay es).upsert e).changes = change ::
      (WriteBufferData.replay es).changes ∧
        change.objectId = e.objectId := by
      unfold WriteBufferData.upsert
      split <;> exact ⟨_, rfl, rfl⟩
    obtain ⟨change, hchanges, hid⟩ := hstep
    rw [WriteBufferData.replay_snoc, hchanges, List.reverse_cons,
      List.map_append, ih, List.map_append, List.map_singleton, List.map_singleton, hid]

theorem HasWritten.intentsOn_eq (h : HasWritten branch records) (k : Bytes) :
    intentsOn branch k = (records.filter fun r => r.entry.objectId = k).map (·.intent) := by
  have hpairs : (branch.writeBuffer.changes.reverse.map (·.objectId)).zip branch.intentLog.entries =
      records.map fun r => (r.entry.objectId, r.intent) := by
    rw [h.buffer, map_objectId_changes_replay, h.intents, List.map_map, List.zip_map']
    rfl
  have hfilter : intentsOn branch k =
      (((branch.writeBuffer.changes.reverse.map (·.objectId)).zip branch.intentLog.entries).filter
        fun write => write.1 = k).map Prod.snd := by
    rw [List.zip_map_left, List.filter_map, List.map_map]
    rfl
  rw [hfilter, hpairs, List.filter_map, List.map_map]
  rfl

end DataAgentSystem.AgentTxn
