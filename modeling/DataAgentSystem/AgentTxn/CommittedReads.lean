import DataAgentSystem.AgentTxn.BranchHistory
import DataAgentSystem.AgentTxn.CommitOutcome
import DataAgentSystem.Branch.Replay

/-! Reading one's own writes, before and after the commit. A branch folds each intent
into the value it buffers, but its commit resolves that value once more from the
latest intent alone. While nobody else writes the store, the two agree on every
object except in two cases: text appended to a value that no longer starts with the
base, and an object that did not exist and is left empty. -/

namespace DataAgentSystem.AgentTxn

open Text Intent Cache Branch Storage Interaction Containers BranchManager
  CommitManager AgentTxnManager

variable {s : MemoryKVStore} {branch : BranchContext} {k : Bytes} {w : World}

/-- What the branch would read of an object of this store. -/
def readIn (branch : BranchContext) (s : MemoryKVStore) (objectId : Bytes) : ReadResult :=
  ((readObject branch objectId).run (handle .memory) { store := s }).1.1

theorem run_readObject_fst (kind : StoreKind) (branch : BranchContext)
    (objectId : Bytes) (w : World) :
    ((readObject branch objectId).run (handle kind) w).1.1 = readIn branch w.store objectId := by
  unfold readIn readObject
  cases branch.writeBuffer.find objectId <;> rfl

theorem readIn_of_find {entry : ObjectCacheEntry}
    (hentry : branch.writeBuffer.find k = some entry) :
    readIn branch s k = {
      value := entry.currentValue
      version := entry.baseVersion
      exists_ := entry.undoRecord.existed || entry.baseValue ≠ [] || entry.currentValue ≠ [] } := by
  rw [readIn, readObject, hentry]
  rfl

theorem currentValue_startEntry (branch : BranchContext) (objectId : Bytes)
    (objectType : ObjectType) :
    (startEntry branch objectId objectType (s.get objectId)).currentValue =
      (readIn branch s objectId).value := by
  unfold readIn readObject startEntry
  cases branch.writeBuffer.find objectId <;> rfl

/-! ### Branches that work alone -/

/-- An intent to write the object: an overwrite, an append, an unconditional swap, or
an integer delta of a value that is an integer. -/
structure Meaningful (s : MemoryKVStore) (branch : BranchContext) (objectId : Bytes)
    (intent : WriteIntent) : Prop where
  named : intent.objectId = objectId
  writes : intent.intentType ≠ .read
  unconditional : intent.intentType = .cas → intent.condition.type = .none
  integers : intent.intentType = .delta → IsInteger intent.payload ∧
    IsInteger (readIn branch s objectId).value

/-- The branches that reads, writes, savepoints and rollbacks make of a fresh one while the
store is `s`. -/
inductive WorksOn (s : MemoryKVStore) : BranchContext → Prop
  | new (branchId : Bytes) : WorksOn s { branchId := branchId }
  | read {branch : BranchContext} {w : World} (objectId : Bytes) : w.store = s → WorksOn s branch →
      WorksOn s ((readObject branch objectId).run (handle .memory) w).1.2
  | write {branch : BranchContext} {w : World} (objectId : Bytes) (objectType : ObjectType)
      (intent : WriteIntent) :
      w.store = s → Meaningful s branch objectId intent → WorksOn s branch →
      WorksOn s ((bufferWrite branch objectId objectType intent).run (handle .memory) w).1
  | savepoint {branch : BranchContext} (savepointId : Bytes) : WorksOn s branch →
      WorksOn s (createSavepoint branch savepointId)
  | rollbackToSavepoint {branch : BranchContext} (savepointId : Bytes) : WorksOn s branch →
      WorksOn s (RollbackManager.rollbackToSavepoint branch savepointId).2
  | stage {branch : BranchContext} (score : Double) (summary : Bytes) : WorksOn s branch →
      WorksOn s (stageBranch branch score summary)

/-- What is known of a recorded write while the store is `s`. -/
structure Sound (s : MemoryKVStore) (record : WriteRecord) : Prop where
  named : record.intent.objectId = record.entry.objectId
  baseValue : record.entry.baseValue = (s.get record.entry.objectId).value
  baseVersion : record.entry.baseVersion = s.getVersion record.entry.objectId
  existed : record.entry.undoRecord.existed = (s.get record.entry.objectId).exists_
  writes : record.intent.intentType ≠ .read
  replaced : record.intent.intentType = .cas → record.intent.condition.type = .none
  summed : record.intent.intentType = .delta → ∃ i, record.entry.currentValue = Intent.toString i

theorem sound_updateEntry {entry : ObjectCacheEntry} {intent : WriteIntent}
    (objectType : ObjectType) (hid : intent.objectId = entry.objectId)
    (hbase : entry.baseValue = (s.get entry.objectId).value)
    (hversion : entry.baseVersion = s.getVersion entry.objectId)
    (hexisted : entry.undoRecord.existed = (s.get entry.objectId).exists_)
    (hwrites : intent.intentType ≠ .read)
    (hcas : intent.intentType = .cas → intent.condition.type = .none)
    (hdelta : intent.intentType = .delta → IsInteger intent.payload ∧
      IsInteger entry.currentValue) :
    Sound s ⟨updateEntry entry objectType intent, intent⟩ := by
  refine ⟨hid, hbase, hversion, hexisted, hwrites, hcas, fun htype => ?_⟩
  obtain ⟨hpayload, hcurrent⟩ := hdelta htype
  change ∃ i, bufferedValue entry intent = Intent.toString i
  rw [bufferedValue, htype]
  simp only [parseInt_of_isInteger hpayload, parseInt_of_isInteger hcurrent]
  exact ⟨_, rfl⟩

/-- Every write that is left of a branch that works alone is sound. -/
theorem WorksOn.sound (h : WorksOn s branch) : ∃ records, HasWritten branch records ∧
    ∀ r ∈ records, Sound s r := by
  induction h with
  | new branchId => exact ⟨[], hasWritten_new branchId, fun _ hr => absurd hr List.not_mem_nil⟩
  | @read branch w objectId _ _ ih =>
    obtain ⟨records, hwritten, hsound⟩ := ih
    exact ⟨records, hwritten.readObject .memory objectId w, hsound⟩
  | @write branch w objectId objectType intent hstore hmeans _ ih =>
    obtain ⟨records, hwritten, hsound⟩ := ih
    refine ⟨_, hwritten.bufferWrite .memory objectId objectType intent w, ?_⟩
    rw [List.forall_mem_append, List.forall_mem_singleton]
    refine ⟨hsound, ?_⟩
    have hcurrent := currentValue_startEntry (s := s) branch objectId objectType
    rw [hstore]
    cases hfind : branch.writeBuffer.find objectId with
    | none =>
      have hstart : startEntry branch objectId objectType (s.get objectId) =
          newEntry objectId objectType (s.get objectId) := by
        rw [startEntry, hfind, Option.getD_none]
      rw [hstart] at hcurrent ⊢
      apply sound_updateEntry objectType hmeans.named rfl rfl rfl hmeans.writes hmeans.unconditional
      intro htype
      rw [hcurrent]
      exact hmeans.integers htype
    | some existing =>
      have hstart : startEntry branch objectId objectType (s.get objectId) = existing := by
        rw [startEntry, hfind, Option.getD_some]
      obtain ⟨record, hrecord, rfl, -⟩ := hwritten.exists_record hfind
      have hid : record.entry.objectId = objectId := branch.writeBuffer.consistent.objectId_eq hfind
      have hold := hsound record hrecord
      rw [hstart] at hcurrent ⊢
      apply sound_updateEntry objectType (hmeans.named.trans hid.symm) hold.baseValue
        hold.baseVersion hold.existed
        hmeans.writes hmeans.unconditional
      intro htype
      rw [hcurrent]
      exact hmeans.integers htype
  | savepoint savepointId _ ih =>
    obtain ⟨records, hwritten, hsound⟩ := ih
    exact ⟨records, hwritten.createSavepoint savepointId, hsound⟩
  | rollbackToSavepoint savepointId _ ih =>
    obtain ⟨records, hwritten, hsound⟩ := ih
    obtain ⟨n, hkept⟩ := hwritten.rollbackToSavepoint savepointId
    exact ⟨_, hkept, fun r hr => hsound r (List.mem_of_mem_take hr)⟩
  | stage score summary _ ih =>
    obtain ⟨records, hwritten, hsound⟩ := ih
    exact ⟨records, hwritten.stageBranch score summary, hsound⟩

/-- The latest intent on a buffered object is the one its entry was recorded with. -/
theorem WorksOn.latest (h : WorksOn s branch) {entry : ObjectCacheEntry}
    (hentry : branch.writeBuffer.find k = some entry) :
    ∃ intent, (latestIntents branch.intentLog).lookup k = some intent ∧
      Sound s ⟨entry, intent⟩ := by
  obtain ⟨records, hwritten, hsound⟩ := h.sound
  obtain ⟨record, hrecord, rfl, hlast⟩ :=
    hwritten.exists_last (fun r hr => (hsound r hr).named) hentry
  refine ⟨record.intent, ?_, hsound record hrecord⟩
  rw [lookup_latestIntents, hlast]

/-! ### The commit -/

/-- The branch reads of the object what the store holds of it. -/
structure ReadsAs (result : ReadResult) (held : VersionedValue) : Prop where
  value : result.value = held.value
  exists_ : result.exists_ = held.exists_

/-- Text that is appended last stands after the base, and the object exists or is left with a
value. -/
structure CommitsAsRead (branch : BranchContext) (s : MemoryKVStore) (k : Bytes) : Prop where
  appended : ∀ intent, (live branch.intentLog.entries k).getLast? = some intent →
    intent.intentType = .append →
    (s.get k).value <+: (readIn branch s k).value
  present : (s.get k).exists_ = true ∨ (readIn branch s k).value ≠ []

/-- What a sound write resolves to against the store it was made on. -/
theorem resolveWrite_sound {record : WriteRecord} (h : Sound s record)
    (hsuccess : (resolveWrite record.entry record.intent
      (s.get record.entry.objectId).value).success = true) :
    (resolveWrite record.entry record.intent (s.get record.entry.objectId).value).value =
      record.entry.currentValue ↔
      (record.intent.intentType = .append → (s.get record.entry.objectId).value <+:
        record.entry.currentValue) := by
  cases htype : record.intent.intentType with
  | read => exact absurd htype h.writes
  | overwrite => simp [resolveWrite, htype]
  | append =>
    simp only [resolveWrite, htype, forall_const, ← h.baseValue]
    by_cases hstarts : record.entry.baseValue <+: record.entry.currentValue
    · have hdrop := List.prefix_iff_eq_append.1 hstarts
      rw [if_pos (List.isPrefixOf_iff_prefix.2 hstarts)]
      simp only [hstarts, iff_true]
      exact hdrop
    · rw [if_neg fun hp => hstarts (List.isPrefixOf_iff_prefix.1 hp)]
      simp only [hstarts, iff_false]
      intro heq
      exact hstarts (heq ▸ List.prefix_append _ _)
  | delta =>
    simp only [reduceCtorEq, false_implies, iff_true]
    obtain ⟨i, hi⟩ := h.summed htype
    simp only [resolveWrite, htype, h.baseValue, hi, parseInt_toString] at hsuccess ⊢
    cases hbase : parseInt (s.get record.entry.objectId).value with
    | none => simp [hbase] at hsuccess
    | some base =>
      simp only
      congr 1
      grind
  | cas =>
    simp only [reduceCtorEq, false_implies, iff_true]
    simp [resolveWrite, htype, h.replaced htype]

/-- A buffered object exists for the branch if it existed or has a value. -/
theorem exists_readIn_iff {record : WriteRecord} (h : Sound s record)
    (hentry : branch.writeBuffer.find k = some record.entry) (hid : record.entry.objectId = k) :
    (readIn branch s k).exists_ = true ↔ (s.get k).exists_ = true ∨
      (readIn branch s k).value ≠ [] := by
  have hvalue : (s.get k).value ≠ [] → (s.get k).exists_ = true := by
    intro hne
    by_contra hmissing
    rw [MemoryKVStore.version_of_not_exists (by simpa using hmissing)] at hne
    exact hne rfl
  have hbase := h.baseValue
  have hexisted := h.existed
  rw [hid] at hbase hexisted
  rw [readIn_of_find hentry]
  simp only [hbase, hexisted, Bool.or_eq_true, decide_eq_true_eq]
  constructor
  · rintro ((hexists | hne) | hne)
    · exact .inl hexists
    · exact .inl (hvalue hne)
    · exact .inr hne
  · rintro (hexists | hne)
    · exact .inl (.inl hexists)
    · exact .inr hne

/-- A commit leaves of a written object what the branch read of it exactly if the
object is committed as read. -/
theorem selectWinnerAndCommit_readsBack_iff {txn txn' : AgentTxnContext}
    {winner : BranchContext} {w w' : World} (hwork : WorksOn w.store winner)
    (hs : Selects txn winner)
    (hrun : (selectWinnerAndCommit txn).run (handle .memory) w = ((.ok true, txn'), w')) (k : Bytes)
    (hk : (winner.writeBuffer.find k).isSome = true) :
    ReadsAs ((readObject winner k).run (handle .memory) w).1.1 (w'.store.get k) ↔
      CommitsAsRead winner w.store k := by
  obtain ⟨hready, -, rfl⟩ := run_selectWinnerAndCommit_memory_true hs hrun
  obtain ⟨entry, hentry⟩ := Option.isSome_iff_exists.1 hk
  obtain ⟨intent, hintent, hsound⟩ := hwork.latest hentry
  have hid : entry.objectId = k := winner.writeBuffer.consistent.objectId_eq hentry
  subst hid
  have hmem : entry ∈ winner.writeBuffer.orderedEntries := WriteBuffer.mem_orderedEntries.2 hentry
  have hwritten : entry ∈ writtenEntries winner :=
    mem_writtenEntries.2 ⟨hmem, intent, hintent, hsound.writes⟩
  have hsuccess : (resolveWrite entry intent (w.store.get entry.objectId).value).success =
      true := by
    obtain ⟨intent', hintent', hsuccess⟩ := hready.resolves entry hmem
    rw [hintent] at hintent'
    cases hintent'
    exact hsuccess
  have hget : (w.store.applyWrites (plannedWrites winner w.store)).get entry.objectId = {
      value := (resolveWrite entry intent (w.store.get entry.objectId).value).value
      version := w.store.getVersion entry.objectId + 1
      exists_ := true } := by
    have hwrite : plannedWrite (latestIntents winner.intentLog) w.store
        entry ∈ plannedWrites winner w.store :=
      List.mem_map_of_mem hwritten
    have happlied := MemoryKVStore.get_applyWrites_of_mem (s := w.store)
      (nodup_plannedWrites winner w.store) hwrite
    rw [plannedWrite, hintent] at happlied
    exact happlied
  have hvalue := resolveWrite_sound hsound hsuccess
  have hexists := exists_readIn_iff hsound hentry rfl
  have hread : (readIn winner w.store entry.objectId).value = entry.currentValue := by
    rw [readIn_of_find hentry]
  have hlast : (live winner.intentLog.entries entry.objectId).getLast? = some intent := by
    rw [← hintent, lookup_latestIntents, live, List.getLast?_filter]
  rw [run_readObject_fst]
  constructor
  · intro h
    have hsame := h.value
    rw [hread, hget] at hsame
    constructor
    · intro intent' hintent' htype
      obtain rfl : intent = intent' := Option.some.inj (hlast.symm.trans hintent')
      rw [hread]
      exact hvalue.1 hsame.symm htype
    · apply hexists.1
      rw [h.exists_, hget]
  · intro h
    constructor
    · rw [hread, hget]
      refine (hvalue.2 fun htype => ?_).symm
      have happended := h.appended intent hlast htype
      rw [hread] at happended
      exact happended
    · rw [hget]
      exact hexists.2 h.present

def holdsText : World where
  store := MemoryKVStore.write {} (ascii "k") (ascii "abc")

/-- The branch after one more write of `k`. -/
def writeK (branch : BranchContext) (intentType : IntentType) (payload : Bytes) : BranchContext :=
  ((bufferWrite branch (ascii "k") .generic { objectId := ascii "k", intentType, payload }).run
    (handle .memory)
    holdsText).1

theorem worksOn_writeK {branch : BranchContext} (h : WorksOn holdsText.store branch)
    {intentType : IntentType} (payload : Bytes)
    (htype : intentType = .overwrite ∨ intentType = .append) :
    WorksOn holdsText.store (writeK branch intentType payload) := by
  refine .write _ _ _ rfl ?_ h
  rcases htype with rfl | rfl
  · exact ⟨rfl, nofun, nofun, nofun⟩
  · exact ⟨rfl, nofun, nofun, nofun⟩

def appendsTwice : BranchContext :=
  writeK (writeK { branchId := ascii "b" } .append (ascii "d")) .append (ascii "e")

theorem selectWinnerAndCommit_readsBack_appendsTwice :
    ReadsAs ((readObject appendsTwice (ascii "k")).run (handle .memory) holdsText).1.1
        (((selectWinnerAndCommit { branches := [appendsTwice] }).run
          (handle .memory) holdsText).2.store.get
          (ascii "k")) ↔
      CommitsAsRead appendsTwice holdsText.store (ascii "k") := by
  have hwork : WorksOn holdsText.store appendsTwice :=
    worksOn_writeK (worksOn_writeK (.new _) _ (.inr rfl)) _ (.inr rfl)
  have hs : Selects { branches := [appendsTwice] } appendsTwice := ⟨rfl, rfl⟩
  exact selectWinnerAndCommit_readsBack_iff hwork hs rfl (ascii "k") rfl

def overwritesAndAppends : BranchContext :=
  writeK (writeK { branchId := ascii "b" } .overwrite (ascii "x")) .append (ascii "y")

/-- The overwritten value is lost: the branch reads `xy`, and the commit leaves `abcy`. -/
theorem selectWinnerAndCommit_not_readsBack :
    WorksOn holdsText.store overwritesAndAppends ∧
      ∃ txn' w', (selectWinnerAndCommit { branches := [overwritesAndAppends] }).run
        (handle .memory) holdsText =
          ((.ok true, txn'), w') ∧
        ((readObject overwritesAndAppends (ascii "k")).run (handle .memory) holdsText).1.1.value =
          ascii "xy" ∧
        (w'.store.get (ascii "k")).value = ascii "abcy" ∧
        ¬ReadsAs ((readObject overwritesAndAppends (ascii "k")).run (handle .memory) holdsText).1.1
          (w'.store.get (ascii "k")) := by
  refine ⟨worksOn_writeK (worksOn_writeK (.new _) _ (.inl rfl)) _ (.inr rfl), _, _,
    rfl, rfl, rfl, fun h => ?_⟩
  have hvalue : ascii "xy" = ascii "abcy" := h.value
  exact absurd hvalue (by decide)

end DataAgentSystem.AgentTxn
