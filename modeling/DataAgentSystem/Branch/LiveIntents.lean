import DataAgentSystem.Branch.BranchManager

/-! What a branch has buffered, told by its intents. Each intent is recorded together
with the entry it leaves in the buffer, and both records are cut at the same place,
so at any time the entry of an object is its base with the live intents on the
object applied in order. What is known of the bases is a parameter. -/

namespace DataAgentSystem.Branch

open Text Intent Cache Storage Interaction BranchManager

/-- What is known of the base on which an object was first buffered. -/
abbrev BaseSpec := Bytes → VersionedValue → Prop

/-- The intents on one object. -/
def live (intents : List WriteIntent) (k : Bytes) : List WriteIntent :=
  intents.filter fun intent => intent.objectId = k

@[simp] theorem live_nil (k : Bytes) : live [] k = [] := rfl

theorem live_snoc (intents : List WriteIntent) (intent : WriteIntent) (k : Bytes) :
    live (intents ++ [intent]) k = if k = intent.objectId then live intents k ++ [intent]
      else live intents k := by
  by_cases hk : k = intent.objectId
  · simp [live, hk]
  · simp [live, hk, Ne.symm hk]

theorem mem_live {intents : List WriteIntent} {k : Bytes} {intent : WriteIntent} :
    intent ∈ live intents k ↔ intent ∈ intents ∧ intent.objectId = k := by
  simp [live]

/-- The value some intents leave in the buffer of an object with this base value. -/
def bufferedFrom (base : Bytes) (intents : List WriteIntent) : Bytes :=
  intents.foldl (fun current intent =>
    bufferedValue { objectId := intent.objectId, baseValue := base, currentValue := current }
      intent) base

theorem bufferedFrom_snoc (base : Bytes) (intents : List WriteIntent) (intent : WriteIntent) :
    bufferedFrom base (intents ++ [intent]) = bufferedValue
      { objectId := intent.objectId, baseValue := base, currentValue := bufferedFrom base intents }
        intent :=
  List.foldl_concat ..

/-- The entry holds the intents on top of the base. -/
structure Buffers (base : VersionedValue) (intents : List WriteIntent)
    (entry : ObjectCacheEntry) : Prop where
  baseValue : entry.baseValue = base.value
  baseVersion : entry.baseVersion = base.version
  currentValue : entry.currentValue = bufferedFrom base.value intents

theorem buffers_newEntry (k : Bytes) (objectType : ObjectType) (base : VersionedValue) :
    Buffers base [] (newEntry k objectType base) := ⟨rfl, rfl, rfl⟩

theorem Buffers.snoc {base : VersionedValue} {intents : List WriteIntent} {entry : ObjectCacheEntry}
    (h : Buffers base intents entry) (objectType : ObjectType) (intent : WriteIntent) :
    Buffers base (intents ++ [intent]) (updateEntry entry objectType intent) := by
  refine ⟨h.baseValue, h.baseVersion, ?_⟩
  -- the value depends on the base and the current value only
  have hsame : ∀ e : ObjectCacheEntry, e.baseValue = entry.baseValue →
    e.currentValue = entry.currentValue →
      bufferedValue e intent = bufferedValue entry intent := by
    intro e hbase hcurrent
    unfold bufferedValue
    rw [hbase, hcurrent]
  rw [bufferedFrom_snoc, hsame _ h.baseValue.symm h.currentValue.symm]
  rfl

/-- The entry an intent updates: the buffered one, or a new one. -/
inductive Updates (B : BaseSpec) (b : WriteBufferData) (k : Bytes) : ObjectCacheEntry → Prop
  | buffered {entry : ObjectCacheEntry} : b.entries k = some entry → Updates B b k entry
  | first {base : VersionedValue} (objectType : ObjectType) :
      b.entries k = none → B k base → Updates B b k (newEntry k objectType base)

/-- The upserts and the intents of a branch, recorded together. -/
inductive Recorded (B : BaseSpec) : List ObjectCacheEntry → List WriteIntent → Prop
  | nil : Recorded B [] []
  | snoc {upserts : List ObjectCacheEntry} {intents : List WriteIntent} {entry : ObjectCacheEntry}
      {intent : WriteIntent} (objectType : ObjectType) : Recorded B upserts intents →
      Updates B (.replay upserts) intent.objectId entry →
      Recorded B (upserts ++ [updateEntry entry objectType intent]) (intents ++ [intent])

variable {B : BaseSpec} {upserts : List ObjectCacheEntry} {intents : List WriteIntent}

theorem Recorded.length_eq (h : Recorded B upserts intents) : upserts.length = intents.length := by
  induction h with
  | nil => rfl
  | snoc objectType _ _ ih => simp only [List.length_append, List.length_singleton, ih]

/-- Both records may be cut at the same place. -/
theorem Recorded.take (h : Recorded B upserts intents) (n : ℕ) :
    Recorded B (upserts.take n) (intents.take n) := by
  induction h with
  | nil =>
    rw [List.take_nil, List.take_nil]
    exact .nil
  | @snoc upserts intents entry intent objectType hrest hentry ih =>
    by_cases hn : n ≤ upserts.length
    · rw [List.take_append_of_le_length hn,
        List.take_append_of_le_length (by rw [← hrest.length_eq]; omega)]
      exact ih
    · have hlen := hrest.length_eq
      rw [List.take_of_length_le (by rw [List.length_append, List.length_singleton]; omega),
        List.take_of_length_le (by rw [List.length_append, List.length_singleton]; omega)]
      exact .snoc objectType hrest hentry

theorem Updates.objectId {k : Bytes} {entry : ObjectCacheEntry}
    (h : Updates B (.replay upserts) k entry) : entry.objectId = k := by
  cases h with
  | buffered hentry => exact (WriteBufferData.consistent_replay upserts).objectId_eq hentry
  | first => rfl

/-- An object is buffered exactly if there are intents on it. -/
theorem Recorded.entries_eq_none_iff (h : Recorded B upserts intents) (k : Bytes) :
    (WriteBufferData.replay upserts).entries k = none ↔ live intents k = [] := by
  induction h with
  | nil => exact ⟨fun _ => rfl, fun _ => rfl⟩
  | @snoc upserts intents entry intent objectType _ hentry ih =>
    have hid : (updateEntry entry objectType intent).objectId = intent.objectId := hentry.objectId
    rw [WriteBufferData.replay_snoc, WriteBufferData.entries_upsert, live_snoc, hid]
    by_cases hk : k = intent.objectId
    · rw [if_pos hk, if_pos hk]
      simp
    · rw [if_neg hk, if_neg hk]
      exact ih

/-- A buffered object holds the live intents on it. -/
theorem Recorded.buffers (h : Recorded B upserts intents) {k : Bytes} {entry : ObjectCacheEntry}
    (hentry : (WriteBufferData.replay upserts).entries k = some entry) :
    ∃ base, B k base ∧ Buffers base (live intents k) entry := by
  induction h generalizing entry with
  | nil => cases hentry
  | @snoc upserts intents old intent objectType hrest hupdates ih =>
    rw [WriteBufferData.replay_snoc, WriteBufferData.entries_upsert] at hentry
    rw [live_snoc]
    have hid : (updateEntry old objectType intent).objectId = intent.objectId := hupdates.objectId
    rw [hid] at hentry
    by_cases hk : k = intent.objectId
    · rw [if_pos hk] at hentry ⊢
      cases hentry
      cases hupdates with
      | buffered hold =>
        obtain ⟨base, hbase, hbuffers⟩ := ih (hk ▸ hold)
        exact ⟨base, hbase, hbuffers.snoc objectType intent⟩
      | @first base t hnone hbase =>
        rw [(hrest.entries_eq_none_iff k).1 (hk ▸ hnone), List.nil_append]
        exact ⟨base, hk ▸ hbase, (buffers_newEntry _ t base).snoc objectType intent⟩
    · rw [if_neg hk] at hentry ⊢
      exact ih hentry

/-! ### Branches -/

/-- The buffer of the branch and its intents tell the same story, now and at every savepoint. -/
structure Synced (B : BaseSpec) (branch : BranchContext) : Prop where
  recorded : ∃ upserts, branch.writeBuffer.toWriteBufferData = .replay upserts ∧
    Recorded B upserts branch.intentLog.entries
  positions : ∀ savepoint ∈ branch.savepoints, savepoint.writeLogPosition =
    savepoint.intentLogPosition

variable {branch : BranchContext}

theorem synced_new (B : BaseSpec) (branchId : Bytes) : Synced B { branchId := branchId } :=
  ⟨⟨[], rfl, .nil⟩, fun _ h => absurd h List.not_mem_nil⟩

/-- The buffer and the intents of a branch are all that counts. -/
theorem Synced.congr (h : Synced B branch) {branch' : BranchContext}
    (hbuffer : branch'.writeBuffer = branch.writeBuffer)
    (hlog : branch'.intentLog = branch.intentLog)
    (hsavepoints : branch'.savepoints = branch.savepoints) :
    Synced B branch' := by
  constructor
  · rw [hbuffer, hlog]
    exact h.recorded
  · rw [hsavepoints]
    exact h.positions

theorem Synced.recordWrite (h : Synced B branch) {entry : ObjectCacheEntry} {intent : WriteIntent}
    (hentry : Updates B branch.writeBuffer.toWriteBufferData intent.objectId entry)
    (objectType : ObjectType) :
    Synced B (BranchManager.recordWrite branch entry objectType intent) := by
  obtain ⟨upserts, hbuffer, hrecorded⟩ := h.recorded
  refine ⟨⟨upserts ++ [updateEntry entry objectType intent], ?_,
    .snoc objectType hrecorded (hbuffer ▸ hentry)⟩, h.positions⟩
  rw [WriteBufferData.replay_snoc, ← hbuffer]
  rfl

theorem Synced.readObject {kind : StoreKind} (h : Synced B branch) (objectId : Bytes) (w : World) :
    Synced B ((BranchManager.readObject branch objectId).run (handle kind) w).1.2 := by
  unfold BranchManager.readObject
  cases branch.writeBuffer.find objectId with
  | some buffered => exact h.congr rfl rfl rfl
  | none => exact h.congr rfl rfl rfl

/-- A write may start from what the store holds. -/
theorem Synced.bufferWrite {kind : StoreKind} (h : Synced B branch) {objectId : Bytes}
    (objectType : ObjectType) {intent : WriteIntent} (hid : intent.objectId = objectId) {w : World}
    (hbase : B objectId (w.store.get objectId)) :
    Synced B ((BranchManager.bufferWrite branch objectId objectType intent).run
      (handle kind) w).1 := by
  subst hid
  unfold BranchManager.bufferWrite
  cases hfind : branch.writeBuffer.find intent.objectId with
  | some existing => exact h.recordWrite (.buffered hfind) objectType
  | none => exact h.recordWrite (.first objectType hfind hbase) objectType

theorem Synced.createSavepoint (h : Synced B branch) (savepointId : Bytes) :
    Synced B (BranchManager.createSavepoint branch savepointId) := by
  refine ⟨h.recorded, fun savepoint hmem => ?_⟩
  rcases List.mem_append.1 hmem with hold | hnew
  · exact h.positions savepoint hold
  · obtain ⟨upserts, hbuffer, hrecorded⟩ := h.recorded
    rw [List.mem_singleton.1 hnew]
    change branch.writeBuffer.size = branch.intentLog.size
    rw [WriteBuffer.size, hbuffer, WriteBufferData.length_changes_replay, hrecorded.length_eq]
    rfl

/-- Both records cut at one place, with savepoints that were there before. -/
theorem Synced.truncate (h : Synced B branch) (n : ℕ) {branch' : BranchContext}
    (hbuffer : branch'.writeBuffer = branch.writeBuffer.truncate n)
    (hlog : branch'.intentLog = branch.intentLog.truncate n)
    (hsavepoints : ∀ savepoint ∈ branch'.savepoints, savepoint ∈ branch.savepoints) :
    Synced B branch' := by
  obtain ⟨upserts, hreplay, hrecorded⟩ := h.recorded
  refine ⟨⟨upserts.take n, ?_, ?_⟩, fun savepoint hmem =>
    h.positions savepoint (hsavepoints savepoint hmem)⟩
  · rw [hbuffer]
    change branch.writeBuffer.toWriteBufferData.truncate n = _
    rw [hreplay]
    exact WriteBufferData.truncate_replay upserts n
  · rw [hlog]
    exact hrecorded.take n

/-- A buffered object holds the live intents on it. -/
theorem Synced.buffers (h : Synced B branch) {k : Bytes} {entry : ObjectCacheEntry}
    (hentry : branch.writeBuffer.find k = some entry) :
    ∃ base, B k base ∧ Buffers base (live branch.intentLog.entries k) entry := by
  obtain ⟨upserts, hbuffer, hrecorded⟩ := h.recorded
  rw [WriteBuffer.find, hbuffer] at hentry
  exact hrecorded.buffers hentry

theorem Synced.find_eq_none_iff (h : Synced B branch) (k : Bytes) :
    branch.writeBuffer.find k = none ↔ live branch.intentLog.entries k = [] := by
  obtain ⟨upserts, hbuffer, hrecorded⟩ := h.recorded
  rw [WriteBuffer.find, hbuffer]
  exact hrecorded.entries_eq_none_iff k

end DataAgentSystem.Branch
