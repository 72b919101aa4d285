import DataAgentSystem.AgentTxn.BranchOps

/-! One intent more. The same operations, performed on a branch and on the branch with
one more intent on an object that is buffered already, leave either the same branch,
when the intent has been rolled back, or two branches whose intents differ by that
one and which have buffered the object on the same base. -/

namespace DataAgentSystem.AgentTxn

open Text Intent Cache Branch Storage Interaction BranchManager BranchOp

variable {kind : StoreKind} {branch : BranchContext} {k : Bytes} {w : World}
  {ops : List (BranchOp × World)} {records : List WriteRecord}

/-! ### With and without the intent -/

/-- In these records the object is buffered, last over this base. -/
def BasedOn (k base : Bytes) (records : List WriteRecord) : Prop :=
  ∃ record, records.reverse.find? (fun r => r.entry.objectId = k) = some record ∧
    record.entry.baseValue = base

/-- What these records do to the object, they do over this base. -/
def OnBase (k base : Bytes) (records : List WriteRecord) : Prop :=
  ∀ record ∈ records, record.entry.objectId = k → record.entry.baseValue = base

/-- The savepoint as it is with one write more before it. -/
def shifted (savepoint : Savepoint) : Savepoint :=
  { savepoint with
    writeLogPosition := savepoint.writeLogPosition + 1
    intentLogPosition := savepoint.intentLogPosition + 1 }

/-- The second branch has one record more after the intents in front, on an object that
both have buffered over one base, and savepoints from before and after it. -/
structure Apart (k base : Bytes) (front : List WriteIntent) (inserted : WriteIntent)
    (branch branch' : BranchContext) (before after after' : List WriteRecord) (record : WriteRecord)
    (old new : List Savepoint) : Prop where
  written : HasWritten branch (before ++ after)
  written' : HasWritten branch' (before ++ record :: after')
  front : before.map (·.intent) = front
  intent : record.intent = inserted
  intents : after'.map (·.intent) = after.map (·.intent)
  based : BasedOn k base before
  onBase : OnBase k base after
  onBase' : OnBase k base (record :: after')
  savepoints : branch.savepoints = old ++ new
  savepoints' : branch'.savepoints = old ++ new.map shifted
  old : ∀ savepoint ∈ old, savepoint.writeLogPosition ≤ before.length
  new : ∀ savepoint ∈ new, before.length ≤ savepoint.writeLogPosition

/-- The second branch is the first one, or has one intent more. -/
inductive Parallel (k base : Bytes) (front : List WriteIntent) (inserted : WriteIntent)
    (branch branch' : BranchContext) : Prop
  | same : branch'.writeBuffer = branch.writeBuffer → branch'.intentLog = branch.intentLog →
      branch'.savepoints = branch.savepoints → Parallel k base front inserted branch branch'
  | apart {before after after' : List WriteRecord} {record : WriteRecord}
      {old new : List Savepoint} :
      Apart k base front inserted branch branch' before after after' record old new →
        Parallel k base front inserted branch branch'

variable {base : Bytes} {front : List WriteIntent} {inserted : WriteIntent}
  {branch' : BranchContext} {before after after' : List WriteRecord} {record : WriteRecord}
  {old new : List Savepoint}

theorem find_of_basedOn (hwritten : HasWritten branch (before ++ after))
    (hbased : BasedOn k base before) (honBase : OnBase k base after) :
    ∃ entry, branch.writeBuffer.find k = some entry ∧ entry.baseValue = base := by
  rw [hwritten.find, List.reverse_append, List.find?_append]
  cases hfind : after.reverse.find? fun r => r.entry.objectId = k with
  | none =>
    obtain ⟨record, hrecord, hbase⟩ := hbased
    exact ⟨record.entry, by rw [Option.none_or, hrecord, Option.map_some], hbase⟩
  | some record =>
    have hid : record.entry.objectId = k := by simpa using List.find?_some hfind
    exact ⟨record.entry, by rw [Option.some_or, Option.map_some],
      honBase record (List.mem_reverse.1 (List.mem_of_find?_eq_some hfind)) hid⟩

/-- A buffered object keeps its base. -/
theorem onBase_write (hentry : ∃ entry, branch.writeBuffer.find k = some entry ∧
    entry.baseValue = base) (objectId : Bytes)
    (objectType : ObjectType) (value : VersionedValue) (intent : WriteIntent) :
    OnBase k base
      [⟨updateEntry (startEntry branch objectId objectType value) objectType intent, intent⟩] := by
  obtain ⟨entry, hentry, hbase⟩ := hentry
  intro record hrecord hid
  rw [List.mem_singleton.1 hrecord] at hid ⊢
  change (startEntry branch objectId objectType value).objectId = k at hid
  show (startEntry branch objectId objectType value).baseValue = base
  have hobject : objectId = k := by
    rw [← hid]
    unfold startEntry
    cases hfind : branch.writeBuffer.find objectId with
    | none => rfl
    | some existing => exact (branch.writeBuffer.consistent.objectId_eq hfind).symm
  rw [startEntry, hobject, hentry, Option.getD_some, hbase]

theorem OnBase.append {records records' : List WriteRecord} (h : OnBase k base records)
    (h' : OnBase k base records') :
    OnBase k base (records ++ records') :=
  fun record hrecord => (List.mem_append.1 hrecord).elim (h record) (h' record)

theorem OnBase.take {records : List WriteRecord} (h : OnBase k base records) (n : ℕ) :
    OnBase k base (records.take n) :=
  fun record hrecord => h record (List.mem_of_mem_take hrecord)

theorem Apart.write
    (h : Apart k base front inserted branch branch' before after after' record old new)
    (objectId : Bytes) (objectType : ObjectType) (intent : WriteIntent) (w : World) :
    Parallel k base front inserted
      ((bufferWrite branch objectId objectType intent).run (handle kind) w).1
      ((bufferWrite branch' objectId objectType intent).run (handle kind) w).1 := by
  have hwritten := h.written.bufferWrite kind objectId objectType intent w
  have hwritten' := h.written'.bufferWrite kind objectId objectType intent w
  rw [List.append_assoc] at hwritten
  rw [List.append_assoc, List.cons_append] at hwritten'
  have hnew := onBase_write (find_of_basedOn h.written h.based h.onBase) objectId objectType
    (w.store.get objectId) intent
  have hnew' := onBase_write (find_of_basedOn h.written' h.based h.onBase') objectId objectType
    (w.store.get objectId) intent
  refine .apart ⟨hwritten, hwritten', h.front, h.intent, ?_, h.based, h.onBase.append hnew,
    ?_, ?_, ?_, h.old, h.new⟩
  · rw [List.map_append, List.map_append, h.intents]
    rfl
  · rw [← List.cons_append]
    exact h.onBase'.append hnew'
  · rw [savepoints_bufferWrite]
    exact h.savepoints
  · rw [savepoints_bufferWrite]
    exact h.savepoints'

theorem Apart.savepoint
    (h : Apart k base front inserted branch branch' before after after' record old new)
    (savepointId : Bytes) :
    Parallel k base front inserted (createSavepoint branch savepointId)
      (createSavepoint branch' savepointId) := by
  have hlength : after'.length = after.length := by
    have hmap := congrArg List.length h.intents
    rwa [List.length_map, List.length_map] at hmap
  have hsize : branch.writeBuffer.size = before.length + after.length := by
    rw [h.written.size, List.length_append]
  have hsize' : branch'.writeBuffer.size = branch.writeBuffer.size + 1 := by
    rw [h.written'.size, List.length_append, List.length_cons, hlength, hsize]
    omega
  have hlog : branch.intentLog.size = branch.writeBuffer.size := by
    show branch.intentLog.entries.length = _
    rw [h.written.intents, List.length_map, h.written.size]
  have hlog' : branch'.intentLog.size = branch'.writeBuffer.size := by
    show branch'.intentLog.entries.length = _
    rw [h.written'.intents, List.length_map, h.written'.size]
  refine @Parallel.apart k base front inserted _ _ before after after' record old (new ++ [{
    savepointId
    writeLogPosition := branch.writeBuffer.size
    intentLogPosition := branch.writeBuffer.size }]) ⟨h.written.createSavepoint savepointId,
      h.written'.createSavepoint savepointId, h.front, h.intent, h.intents, h.based, h.onBase,
      h.onBase', ?_, ?_, h.old, ?_⟩
  · rw [createSavepoint, h.savepoints, hlog, List.append_assoc]
  · rw [createSavepoint, h.savepoints', hlog', hsize', List.append_assoc, List.map_append]
    rfl
  · refine List.forall_mem_append.2 ⟨h.new, List.forall_mem_singleton.2 ?_⟩
    rw [hsize]
    exact Nat.le_add_right _ _

/-- A rollback to a savepoint from before the intent leaves the same branch. -/
theorem same_of_cut {records : List WriteRecord} (h : HasWritten branch records)
    (h' : HasWritten branch' records) (hsavepoints : branch'.savepoints = branch.savepoints) :
    Parallel k base front inserted branch branch' :=
  .same (h.same h').1 (h.same h').2 hsavepoints

theorem Apart.rollbackToSavepoint
    (h : Apart k base front inserted branch branch' before after after' record old new)
    (savepointId : Bytes) :
    Parallel k base front inserted (RollbackManager.rollbackToSavepoint branch savepointId).2
      (RollbackManager.rollbackToSavepoint branch' savepointId).2 := by
  rcases exists_split old savepointId with hold | ⟨kept, s, rest, rfl, rfl, hfirst⟩
  · rcases exists_split new savepointId with hnew | ⟨kept, s, rest, rfl, rfl, hfirst⟩
    · rw [rollbackToSavepoint_of_none
        (by rw [h.savepoints]; exact List.forall_mem_append.2 ⟨hold, hnew⟩),
        rollbackToSavepoint_of_none (by
          rw [h.savepoints']
          refine List.forall_mem_append.2 ⟨hold, fun t ht => ?_⟩
          obtain ⟨s, hs, rfl⟩ := List.mem_map.1 ht
          exact hnew s hs)]
      exact .apart h
    · -- the savepoint is from after the intent
      have hfirst' : ∀ t ∈ old ++ kept.map shifted, t.savepointId ≠ (shifted s).savepointId := by
        refine List.forall_mem_append.2 ⟨hold, fun t ht => ?_⟩
        obtain ⟨u, hu, rfl⟩ := List.mem_map.1 ht
        exact hfirst u hu
      obtain ⟨hcut, hsavepoints⟩ := rollbackToSavepoint_of_split h.written
        (h.savepoints.trans (List.append_assoc old kept (s :: rest)).symm)
          (List.forall_mem_append.2 ⟨hold, hfirst⟩)
      have hsplit' : branch'.savepoints = (old ++ kept.map shifted) ++
          shifted s :: rest.map shifted := by
        rw [h.savepoints', List.map_append, List.map_cons, List.append_assoc]
      obtain ⟨hcut', hsavepoints'⟩ := rollbackToSavepoint_of_split h.written' hsplit' hfirst'
      have hbeyond : before.length ≤ s.writeLogPosition := h.new s (by simp)
      have htake : (before ++ after).take s.writeLogPosition = before ++
          after.take (s.writeLogPosition - before.length) := by
        rw [List.take_append, List.take_of_length_le hbeyond]
      have htake' : (before ++ record :: after').take (shifted s).writeLogPosition =
          before ++ record :: after'.take (s.writeLogPosition - before.length) := by
        have hone : (shifted s).writeLogPosition - before.length =
            (s.writeLogPosition - before.length) + 1 := by
          show s.writeLogPosition + 1 - before.length = _
          omega
        rw [List.take_append, hone, List.take_succ_cons,
          List.take_of_length_le (by show _ ≤ s.writeLogPosition + 1; omega)]
      rw [htake] at hcut
      rw [htake'] at hcut'
      refine @Parallel.apart k base front inserted _ _ before _ _ record old (kept ++ [s])
        ⟨hcut, hcut', h.front, h.intent, ?_, h.based, h.onBase.take _, ?_, ?_, ?_, h.old, ?_⟩
      · rw [List.map_take, List.map_take, h.intents]
      · have hrecord := h.onBase'.take (s.writeLogPosition - before.length + 1)
        rwa [List.take_succ_cons] at hrecord
      · rw [hsavepoints, List.append_assoc]
      · show (RollbackManager.rollbackToSavepoint branch' (shifted s).savepointId).2.savepoints = _
        rw [hsavepoints', List.map_append, List.append_assoc]
        rfl
      · intro t ht
        refine h.new t ?_
        rw [← List.singleton_append, ← List.append_assoc]
        exact List.mem_append_left _ ht
  · -- the savepoint is from before it
    have hsplit : branch.savepoints = kept ++ s :: (rest ++ new) := by
      rw [h.savepoints, List.append_assoc, List.cons_append]
    have hsplit' : branch'.savepoints = kept ++ s :: (rest ++ new.map shifted) := by
      rw [h.savepoints', List.append_assoc, List.cons_append]
    obtain ⟨hcut, hsavepoints⟩ := rollbackToSavepoint_of_split h.written hsplit hfirst
    obtain ⟨hcut', hsavepoints'⟩ := rollbackToSavepoint_of_split h.written' hsplit' hfirst
    have hbound : s.writeLogPosition ≤ before.length := h.old s (by simp)
    rw [List.take_append_of_le_length hbound] at hcut hcut'
    exact same_of_cut hcut hcut' (hsavepoints'.trans hsavepoints.symm)

/-- Whatever is done to both, they stay parallel. -/
theorem Parallel.perform (h : Parallel k base front inserted branch branch')
    (op : BranchOp × World) :
    Parallel k base front inserted (perform kind branch op) (perform kind branch' op) := by
  obtain ⟨op, w⟩ := op
  have hread : ∀ (branch : BranchContext) (objectId : Bytes),
      ∃ status readSet, ((readObject branch objectId).run (handle kind) w).1.2 =
          { branch with status, readSet } := by
    intro branch objectId
    unfold readObject
    cases branch.writeBuffer.find objectId with
    | some buffered => exact ⟨_, branch.readSet, rfl⟩
    | none => exact ⟨_, _, rfl⟩
  cases h with
  | same hbuffer hlog hsavepoints =>
    cases op with
    | read objectId =>
      obtain ⟨status, readSet, hafter⟩ := hread branch objectId
      obtain ⟨status', readSet', hafter'⟩ := hread branch' objectId
      show Parallel k base front inserted ((readObject branch objectId).run (handle kind) w).1.2
        ((readObject branch' objectId).run (handle kind) w).1.2
      rw [hafter, hafter']
      exact .same hbuffer hlog hsavepoints
    | write objectId objectType intent =>
      show Parallel k base front inserted
        ((bufferWrite branch objectId objectType intent).run (handle kind) w).1
        ((bufferWrite branch' objectId objectType intent).run (handle kind) w).1
      unfold bufferWrite
      rw [hbuffer]
      cases branch.writeBuffer.find objectId with
      | some existing =>
        exact .same (by simp only [recordWrite, hbuffer]; rfl)
          (by simp only [recordWrite, hlog]; rfl) hsavepoints
      | none =>
        exact .same (by simp only [recordWrite, hbuffer]; rfl)
          (by simp only [recordWrite, hlog]; rfl) hsavepoints
    | savepoint savepointId =>
      refine .same hbuffer hlog ?_
      show (createSavepoint branch' savepointId).savepoints =
        (createSavepoint branch savepointId).savepoints
      simp only [createSavepoint, hbuffer, hlog, hsavepoints]
    | rollbackToSavepoint savepointId =>
      show Parallel k base front inserted (RollbackManager.rollbackToSavepoint branch savepointId).2
        (RollbackManager.rollbackToSavepoint branch' savepointId).2
      unfold RollbackManager.rollbackToSavepoint
      rw [hsavepoints]
      cases branch.savepoints.find? fun s => s.savepointId = savepointId with
      | none => exact .same hbuffer hlog hsavepoints
      | some s => exact .same (by simp only [hbuffer]) (by simp only [hlog]) rfl
    | stage score summary => exact .same hbuffer hlog hsavepoints
  | apart h =>
    cases op with
    | read objectId =>
      obtain ⟨status, readSet, hafter⟩ := hread branch objectId
      obtain ⟨status', readSet', hafter'⟩ := hread branch' objectId
      show Parallel k base front inserted ((readObject branch objectId).run (handle kind) w).1.2
        ((readObject branch' objectId).run (handle kind) w).1.2
      rw [hafter, hafter']
      exact .apart ⟨h.written.congr rfl rfl rfl, h.written'.congr rfl rfl rfl, h.front, h.intent,
        h.intents, h.based, h.onBase, h.onBase', h.savepoints, h.savepoints', h.old, h.new⟩
    | write objectId objectType intent => exact h.write objectId objectType intent w
    | savepoint savepointId => exact h.savepoint savepointId
    | rollbackToSavepoint savepointId => exact h.rollbackToSavepoint savepointId
    | stage score summary =>
      exact .apart ⟨h.written.congr rfl rfl rfl, h.written'.congr rfl rfl rfl, h.front, h.intent,
        h.intents, h.based, h.onBase, h.onBase', h.savepoints, h.savepoints', h.old, h.new⟩

theorem Parallel.performAll (h : Parallel k base front inserted branch branch')
    (ops : List (BranchOp × World)) :
    Parallel k base front inserted (performAll kind branch ops) (performAll kind branch' ops) := by
  induction ops using List.reverseRecOn with
  | nil => exact h
  | append_singleton ops op ih =>
    rw [performAll_snoc, performAll_snoc]
    exact ih.perform op

/-- An object that is buffered is given one intent more. -/
theorem parallel_write (h : InOrder branch records) {entry : ObjectCacheEntry}
    (hentry : branch.writeBuffer.find k = some entry) (objectType : ObjectType)
    (intent : WriteIntent) (w : World) :
    Parallel k entry.baseValue branch.intentLog.entries intent branch
      ((bufferWrite branch k objectType intent).run (handle kind) w).1 := by
  have hwritten := h.written.bufferWrite kind k objectType intent w
  have hbased : BasedOn k entry.baseValue records := by
    rw [h.written.find, Option.map_eq_some_iff] at hentry
    obtain ⟨record, hrecord, rfl⟩ := hentry
    exact ⟨record, hrecord, rfl⟩
  refine @Parallel.apart k entry.baseValue _ intent _ _ records [] []
    _ branch.savepoints [] ⟨?_, hwritten, h.written.intents.symm, rfl, rfl, hbased, ?_, ?_,
      ?_, ?_, h.bounded, ?_⟩
  · rw [List.append_nil]
    exact h.written
  · exact fun record hrecord => absurd hrecord List.not_mem_nil
  · exact onBase_write ⟨entry, hentry, rfl⟩ k objectType _ intent
  · rw [List.append_nil]
  · rw [savepoints_bufferWrite, List.map_nil, List.append_nil]
  · exact fun s hs => absurd hs List.not_mem_nil

/-- What parallel branches have buffered of the object, and which intents they have. -/
theorem Parallel.buffered (h : Parallel k base front inserted branch branch') :
    (branch'.writeBuffer = branch.writeBuffer ∧ branch'.intentLog = branch.intentLog) ∨
      ∃ entry entry' back, branch.writeBuffer.find k = some entry ∧
        branch'.writeBuffer.find k = some entry' ∧
        entry'.baseValue = entry.baseValue ∧ branch.intentLog.entries = front ++ back ∧
        branch'.intentLog.entries = front ++ inserted :: back := by
  cases h with
  | same hbuffer hlog _ => exact .inl ⟨hbuffer, hlog⟩
  | @apart before after after' record old new h =>
    obtain ⟨entry, hentry, hbase⟩ := find_of_basedOn h.written h.based h.onBase
    obtain ⟨entry', hentry', hbase'⟩ := find_of_basedOn h.written' h.based h.onBase'
    refine .inr ⟨entry, entry', after.map (·.intent), hentry, hentry',
      hbase'.trans hbase.symm, ?_, ?_⟩
    · rw [h.written.intents, List.map_append, h.front]
    · rw [h.written'.intents, List.map_append, List.map_cons, h.front, h.intent, h.intents]

end DataAgentSystem.AgentTxn
