import DataAgentSystem.AgentTxn.BranchHistory
import DataAgentSystem.Branch.LiveIntents
import DataAgentSystem.Containers.RelatedLists
import DataAgentSystem.Runtime.TxnOperations

/-! Branches that mirror each other. The same operations on two branches, perhaps with
different stores and with intents that have lost something, leave the same objects
written in the same order by intents of the same types and payloads; where the
stores gave the same base, the buffered values agree as well. What else is to agree
is a parameter, so that one simulation serves all that is asked of a replay. -/

namespace DataAgentSystem.AgentTxn

open Text Intent Cache Branch Storage Interaction Containers

/-- In what a branch is mirrored by another one, beside the types and payloads of its intents. -/
structure Mirroring where
  /-- The objects for which both met the same base. -/
  sameBase : Bytes → Prop
  /-- Whether the intents of the branch name the objects they were written to. -/
  named : Prop
  scores : Double → Double → Prop
  savepoints : Bytes → List Savepoint → List Savepoint → Prop
  /-- The savepoints to which rollbacks of a branch may go. -/
  restorable : Bytes → Bytes → Prop
  unstaged : scores (.finite 0) (.finite 0)
  nil : ∀ b, savepoints b [] []
  append : ∀ {b l l'} (s : Savepoint), savepoints b l l' → savepoints b (l ++ [s]) (l' ++ [s])
  find : ∀ {b l l' id s}, savepoints b l l' → restorable b id →
    l.find? (fun s => s.savepointId = id) = some s →
    l'.find? (fun s => s.savepointId = id) = some s
  cut : ∀ {b l l' id s}, savepoints b l l' → restorable b id →
    l.find? (fun s => s.savepointId = id) = some s →
    savepoints b (l.takeWhile (fun s => s.savepointId ≠ id) ++ [s])
      (l'.takeWhile (fun s => s.savepointId ≠ id) ++ [s])

/-- With the very same savepoints. -/
def Mirroring.following (sameBase : Bytes → Prop) (named : Prop) (scores : Double → Double → Prop)
    (unstaged : scores (.finite 0) (.finite 0)) : Mirroring where
  sameBase
  named
  scores
  savepoints _ := Eq
  restorable _ _ := True
  unstaged
  nil _ := rfl
  append s h := congrArg (· ++ [s]) h
  find h _ hfind := h ▸ hfind
  cut h _ _ := by rw [h]

/-- Two entries of one object, with the same value if the base was the same. -/
structure SameEntry (P : Bytes → Prop) (entry entry' : ObjectCacheEntry) : Prop where
  objectId : entry.objectId = entry'.objectId
  dirty : entry.dirty = entry'.dirty
  intentType : entry.intentType = entry'.intentType
  baseValue : P entry.objectId → entry.baseValue = entry'.baseValue
  baseVersion : P entry.objectId → entry.baseVersion = entry'.baseVersion
  currentValue : P entry.objectId → entry.currentValue = entry'.currentValue

variable {M : Mirroring} {P : Bytes → Prop} {kind : StoreKind} {branch branch' : BranchContext}
  {w w' : World}

structure WriteRecord.Mirrors (M : Mirroring) (record record' : WriteRecord) : Prop where
  entry : SameEntry M.sameBase record.entry record'.entry
  intentType : record.intent.intentType = record'.intent.intentType
  payload : record.intent.payload = record'.intent.payload
  objectId : record'.intent.objectId = record'.entry.objectId
  condition : record'.intent.condition = {}
  named : M.named → record.intent.objectId = record.entry.objectId

/-- The second branch mirrors the first one. -/
structure Mirrors (M : Mirroring) (branch branch' : BranchContext) : Prop where
  branchId : branch.branchId = branch'.branchId
  score : M.scores branch.candidateResult.score branch'.candidateResult.score
  savepoints : M.savepoints branch.branchId branch.savepoints branch'.savepoints
  records : ∃ records records', HasWritten branch records ∧ HasWritten branch' records' ∧
    List.Forall₂ (WriteRecord.Mirrors M) records records'

/-- The branches differ at most in their status and in what they have read. -/
structure SameWork (branch branch' : BranchContext) : Prop where
  branchId : branch'.branchId = branch.branchId
  candidateResult : branch'.candidateResult = branch.candidateResult
  savepoints : branch'.savepoints = branch.savepoints
  writeBuffer : branch'.writeBuffer = branch.writeBuffer
  intentLog : branch'.intentLog = branch.intentLog

theorem SameWork.refl (branch : BranchContext) : SameWork branch branch := ⟨rfl, rfl, rfl, rfl, rfl⟩

theorem mirrors_new (M : Mirroring) (branchId : Bytes) :
    Mirrors M { branchId := branchId } { branchId := branchId } :=
  ⟨rfl, M.unstaged, M.nil branchId, [], [], hasWritten_new branchId, hasWritten_new branchId, .nil⟩

theorem Mirrors.congr (h : Mirrors M branch branch') {b b' : BranchContext} (hb : SameWork branch b)
    (hb' : SameWork branch' b') : Mirrors M b b' := by
  obtain ⟨records, records', hwritten, hwritten', hrecords⟩ := h.records
  refine ⟨?_, ?_, ?_, records, records', ?_, ?_, hrecords⟩
  · rw [hb.branchId, hb'.branchId, h.branchId]
  · rw [hb.candidateResult, hb'.candidateResult]
    exact h.score
  · rw [hb.branchId, hb.savepoints, hb'.savepoints]
    exact h.savepoints
  · exact hwritten.congr hb.writeBuffer hb.intentLog hb.savepoints
  · exact hwritten'.congr hb'.writeBuffer hb'.intentLog hb'.savepoints

/-- A mirroring that asks for less. -/
theorem Mirrors.mono {M' : Mirroring} (h : Mirrors M branch branch')
    (hbase : ∀ k, M'.sameBase k → M.sameBase k) (hnamed : M'.named → M.named)
    (hscores : ∀ x x', M.scores x x' → M'.scores x x')
    (hsavepoints : M'.savepoints branch.branchId branch.savepoints branch'.savepoints) :
    Mirrors M' branch branch' := by
  obtain ⟨records, records', hwritten, hwritten', hrecords⟩ := h.records
  refine ⟨h.branchId, hscores _ _ h.score, hsavepoints, records, records', hwritten, hwritten',
    hrecords.imp fun r r' hr => ?_⟩
  refine ⟨⟨hr.entry.objectId, hr.entry.dirty, hr.entry.intentType, ?_, ?_, ?_⟩,
    hr.intentType, hr.payload, hr.objectId, hr.condition, fun h => hr.named (hnamed h)⟩
  · exact fun h => hr.entry.baseValue (hbase _ h)
  · exact fun h => hr.entry.baseVersion (hbase _ h)
  · exact fun h => hr.entry.currentValue (hbase _ h)

/-! ### Operations -/

theorem sameWork_readObject (branch : BranchContext) (objectId : Bytes) (w : World) :
    SameWork branch ((BranchManager.readObject branch objectId).run (handle kind) w).1.2 := by
  unfold BranchManager.readObject
  cases branch.writeBuffer.find objectId <;> exact ⟨rfl, rfl, rfl, rfl, rfl⟩

/-- One intent buffered over two entries of an object. -/
theorem SameEntry.update {entry entry' : ObjectCacheEntry} (h : SameEntry P entry entry')
    {intent intent' : WriteIntent} (htype : intent.intentType = intent'.intentType)
    (hpayload : intent.payload = intent'.payload) (objectType objectType' : ObjectType) :
    SameEntry P (BranchManager.updateEntry entry objectType intent)
      (BranchManager.updateEntry entry' objectType' intent') := by
  refine ⟨h.objectId, ?_, htype, h.baseValue, h.baseVersion, fun hbase => ?_⟩
  · show decide (intent.intentType ≠ .read) = decide (intent'.intentType ≠ .read)
    rw [htype]
  · show BranchManager.bufferedValue entry intent = BranchManager.bufferedValue entry' intent'
    unfold BranchManager.bufferedValue
    rw [htype, hpayload, h.baseValue hbase, h.currentValue hbase]

theorem find_mirrors {records records' : List WriteRecord} (hwritten : HasWritten branch records)
    (hwritten' : HasWritten branch' records')
    (hrecords : List.Forall₂ (WriteRecord.Mirrors M) records records') (k : Bytes) :
    Option.Rel (SameEntry M.sameBase) (branch.writeBuffer.find k) (branch'.writeBuffer.find k) := by
  have hfound := @rel_find?_reverse _ _ _ _ _ (fun r : WriteRecord => decide (r.entry.objectId = k))
    (fun r : WriteRecord => decide (r.entry.objectId = k)) hrecords fun r r' h => by
      rw [h.entry.objectId]
  rw [hwritten.find, hwritten'.find]
  cases hfind : records.reverse.find? fun r => r.entry.objectId = k with
  | none =>
    rw [hfind] at hfound
    cases hfind' : records'.reverse.find? fun r => r.entry.objectId = k with
    | none => exact .none
    | some r' => rw [hfind'] at hfound; cases hfound
  | some r =>
    rw [hfind] at hfound
    cases hfind' : records'.reverse.find? fun r => r.entry.objectId = k with
    | none => rw [hfind'] at hfound; cases hfound
    | some r' =>
      rw [hfind'] at hfound
      cases hfound with
      | some hmirrors => exact .some hmirrors.entry

theorem startEntry_mirrors {objectId : Bytes}
    (h : Option.Rel (SameEntry P) (branch.writeBuffer.find objectId)
      (branch'.writeBuffer.find objectId)) {base base' : VersionedValue}
      (hbase : P objectId → base = base')
    (objectType objectType' : ObjectType) :
    SameEntry P (startEntry branch objectId objectType base)
      (startEntry branch' objectId objectType' base') := by
  unfold startEntry
  cases hfind : branch.writeBuffer.find objectId with
  | none =>
    rw [hfind] at h
    cases hfind' : branch'.writeBuffer.find objectId with
    | none =>
      exact ⟨rfl, rfl, rfl, fun hP => congrArg VersionedValue.value (hbase hP),
        fun hP => congrArg VersionedValue.version (hbase hP), fun hP =>
        congrArg VersionedValue.value (hbase hP)⟩
    | some entry' => rw [hfind'] at h; cases h
  | some entry =>
    rw [hfind] at h
    cases hfind' : branch'.writeBuffer.find objectId with
    | none => rw [hfind'] at h; cases h
    | some entry' =>
      rw [hfind'] at h
      cases h with
      | some hsame => exact hsame

/-- Two intents of one write; the second one names the object and has no condition. -/
structure SameIntent (M : Mirroring) (k : Bytes) (intent intent' : WriteIntent) : Prop where
  intentType : intent.intentType = intent'.intentType
  payload : intent.payload = intent'.payload
  objectId : intent'.objectId = k
  condition : intent'.condition = {}
  named : M.named → intent.objectId = k

theorem Mirrors.bufferWrite (h : Mirrors M branch branch') {objectId : Bytes}
    {intent intent' : WriteIntent} (hintent : SameIntent M objectId intent intent')
    (objectType objectType' : ObjectType)
    (hbase : M.sameBase objectId → w.store.get objectId = w'.store.get objectId) :
    Mirrors M ((BranchManager.bufferWrite branch objectId objectType intent).run (handle kind) w).1
      ((BranchManager.bufferWrite branch' objectId objectType' intent').run
        (handle kind) w').1 := by
  obtain ⟨records, records', hwritten, hwritten', hrecords⟩ := h.records
  have hkeep : ∀ (b : BranchContext) (ty : ObjectType) (i : WriteIntent) (v : World),
      ((BranchManager.bufferWrite b objectId ty i).run (handle kind) v).1.branchId = b.branchId ∧
      ((BranchManager.bufferWrite b objectId ty i).run (handle kind) v).1.candidateResult =
        b.candidateResult ∧
      ((BranchManager.bufferWrite b objectId ty i).run (handle kind) v).1.savepoints =
          b.savepoints := by
    intro b ty i v
    unfold BranchManager.bufferWrite
    cases b.writeBuffer.find objectId <;> exact ⟨rfl, rfl, rfl⟩
  have hstart := startEntry_mirrors (find_mirrors hwritten hwritten' hrecords objectId)
    hbase objectType objectType'
  have hid : ∀ (b : BranchContext) (ty : ObjectType) (base : VersionedValue),
      (startEntry b objectId ty base).objectId = objectId := by
    intro b ty base
    unfold startEntry
    cases hfind : b.writeBuffer.find objectId with
    | none => rfl
    | some entry => exact b.writeBuffer.consistent.objectId_eq hfind
  refine ⟨?_, ?_, ?_, _, _, hwritten.bufferWrite kind objectId objectType intent w,
    hwritten'.bufferWrite kind objectId objectType' intent' w', forall₂_snoc hrecords ?_⟩
  · rw [(hkeep _ _ _ _).1, (hkeep _ _ _ _).1, h.branchId]
  · rw [(hkeep _ _ _ _).2.1, (hkeep _ _ _ _).2.1]
    exact h.score
  · rw [(hkeep _ _ _ _).1, (hkeep _ _ _ _).2.2, (hkeep _ _ _ _).2.2]
    exact h.savepoints
  · refine ⟨hstart.update hintent.intentType hintent.payload objectType objectType',
      hintent.intentType, hintent.payload, hintent.objectId.trans (hid _ _ _).symm,
      hintent.condition, fun hn => (hintent.named hn).trans (hid _ _ _).symm⟩

theorem Mirrors.createSavepoint (h : Mirrors M branch branch') (savepointId : Bytes) :
    Mirrors M (BranchManager.createSavepoint branch savepointId)
      (BranchManager.createSavepoint branch' savepointId) := by
  obtain ⟨records, records', hwritten, hwritten', hrecords⟩ := h.records
  refine ⟨h.branchId, h.score, ?_, records, records', hwritten.createSavepoint savepointId,
    hwritten'.createSavepoint savepointId, hrecords⟩
  have hbuffer : branch.writeBuffer.size = branch'.writeBuffer.size := by
    rw [hwritten.size, hwritten'.size, hrecords.length_eq]
  have hlog : branch.intentLog.size = branch'.intentLog.size := by
    rw [IntentLog.size, IntentLog.size, hwritten.intents, hwritten'.intents,
      List.length_map, List.length_map, hrecords.length_eq]
  simp only [BranchManager.createSavepoint, hbuffer, hlog]
  exact M.append _ h.savepoints

theorem Mirrors.stageBranch (h : Mirrors M branch branch') {score score' : Double}
    (hscore : M.scores score score') (summary summary' : Bytes) :
    Mirrors M (BranchManager.stageBranch branch score summary)
      (BranchManager.stageBranch branch' score' summary') := by
  obtain ⟨records, records', hwritten, hwritten', hrecords⟩ := h.records
  exact ⟨h.branchId, hscore, h.savepoints, records, records', hwritten.stageBranch score summary,
    hwritten'.stageBranch score' summary', hrecords⟩

/-- A rollback of the first branch is followed by the second one. -/
theorem Mirrors.rollbackToSavepoint (h : Mirrors M branch branch') {savepointId : Bytes}
    (hid : M.restorable branch.branchId savepointId)
    (hrolled : (RollbackManager.rollbackToSavepoint branch savepointId).1 = true) :
    Mirrors M (RollbackManager.rollbackToSavepoint branch savepointId).2
      (RollbackManager.rollbackToSavepoint branch' savepointId).2 := by
  obtain ⟨records, records', hwritten, hwritten', hrecords⟩ := h.records
  cases hfind : branch.savepoints.find? fun s => s.savepointId = savepointId with
  | none =>
    rw [RollbackManager.rollbackToSavepoint, hfind] at hrolled
    cases hrolled
  | some savepoint =>
    have hfind' := M.find h.savepoints hid hfind
    have hcut := M.cut h.savepoints hid hfind
    refine ⟨?_, ?_, ?_, _, _, hwritten.restored hfind, hwritten'.restored hfind',
      List.forall₂_take savepoint.writeLogPosition hrecords⟩
    · rw [RollbackManager.rollbackToSavepoint_branchId,
        RollbackManager.rollbackToSavepoint_branchId, h.branchId]
    · simp only [RollbackManager.rollbackToSavepoint, hfind, hfind']
      exact h.score
    · simp only [RollbackManager.rollbackToSavepoint, hfind, hfind']
      exact hcut

/-- The entries of a mirrored branch, in order. -/
theorem Mirrors.orderedEntries {branch branch' : BranchContext} (h : Mirrors M branch branch') :
    List.Forall₂ (SameEntry M.sameBase) branch.writeBuffer.orderedEntries
      branch'.writeBuffer.orderedEntries := by
  obtain ⟨records, records', hwritten, hwritten', hrecords⟩ := h.records
  have hentries : List.Forall₂ (SameEntry M.sameBase) (records.map (·.entry))
      (records'.map (·.entry)) :=
    List.forall₂_map_left_iff.2
      (List.forall₂_map_right_iff.2 (hrecords.imp fun r r' hr => hr.entry))
  have horder : branch.writeBuffer.order = branch'.writeBuffer.order := by
    rw [hwritten.buffer, hwritten'.buffer]
    exact WriteBufferData.order_replay_congr hentries fun e e' he => he.objectId
  rw [WriteBuffer.orderedEntries, WriteBuffer.orderedEntries, horder]
  exact forall₂_filterMap (find_mirrors hwritten hwritten' hrecords) _

/-- The live writes of an object are mirrored by live intents on it. -/
theorem Mirrors.forall₂_live (h : Mirrors M branch branch') (k : Bytes) :
    List.Forall₂ (fun intent intent' : WriteIntent => intent.intentType = intent'.intentType ∧
      intent.payload = intent'.payload ∧ intent'.condition = {})
      (intentsOn branch k) (live branch'.intentLog.entries k) := by
  obtain ⟨records, records', hwritten, hwritten', hrecords⟩ := h.records
  have hlive : live branch'.intentLog.entries k =
      (records'.filter fun r => r.intent.objectId = k).map (·.intent) := by
    rw [live, hwritten'.intents, List.filter_map]
    rfl
  rw [hwritten.intentsOn_eq, hlive]
  refine List.forall₂_map_left_iff.2 (List.forall₂_map_right_iff.2 ?_)
  have hkeys : ∀ r r', WriteRecord.Mirrors M r r' → (decide (r.entry.objectId = k) = true ↔
      decide (r'.intent.objectId = k) = true) := by
    intro r r' hr
    rw [hr.objectId, hr.entry.objectId]
  have hfilter := List.rel_filter (fun r r' hr => hkeys r r' hr) hrecords
  exact hfilter.imp fun r r' hr => ⟨hr.intentType, hr.payload, hr.condition⟩

/-! ### Transactions -/

/-- Branch by branch, the second transaction mirrors the first one. -/
def MirrorsTxn (M : Mirroring) (txn txn' : AgentTxnContext) : Prop :=
  List.Forall₂ (Mirrors M) txn.branches txn'.branches

namespace MirrorsTxn

variable {txn txn' : AgentTxnContext}

theorem findBranch (h : MirrorsTxn M txn txn') (branchId : Bytes) :
    Option.Rel (Mirrors M) (txn.findBranch branchId) (txn'.findBranch branchId) :=
  rel_find? h fun b b' hb => by rw [hb.branchId]

/-- The branches of one name mirror each other. -/
theorem exists_mirror (h : MirrorsTxn M txn txn') {branchId : Bytes}
    (hbranch : txn.findBranch branchId = some branch) :
    ∃ branch', txn'.findBranch branchId = some branch' ∧ Mirrors M branch branch' := by
  have hfound := h.findBranch branchId
  rw [hbranch] at hfound
  cases hfind' : txn'.findBranch branchId with
  | none => rw [hfind'] at hfound; cases hfound
  | some branch' =>
    rw [hfind'] at hfound
    cases hfound with
    | some hmirrors => exact ⟨branch', rfl, hmirrors⟩

theorem exists_mirrored (h : MirrorsTxn M txn txn') {branchId : Bytes}
    (hbranch' : txn'.findBranch branchId = some branch') :
    ∃ branch, txn.findBranch branchId = some branch ∧ Mirrors M branch branch' := by
  have hfound := h.findBranch branchId
  rw [hbranch'] at hfound
  cases hfind : txn.findBranch branchId with
  | none => rw [hfind] at hfound; cases hfound
  | some branch =>
    rw [hfind] at hfound
    cases hfound with
    | some hmirrors => exact ⟨branch, rfl, hmirrors⟩

theorem mirrors (h : MirrorsTxn M txn txn') {branchId : Bytes}
    (hbranch : txn.findBranch branchId = some branch)
    (hbranch' : txn'.findBranch branchId = some branch') : Mirrors M branch branch' := by
  obtain ⟨found, hfound, hmirrors⟩ := h.exists_mirror hbranch
  obtain rfl := Option.some.inj (hfound.symm.trans hbranch')
  exact hmirrors

theorem setBranch (h : MirrorsTxn M txn txn') (hb : Mirrors M branch branch') :
    MirrorsTxn M (txn.setBranch branch) (txn'.setBranch branch') := by
  have hreplace : ∀ {bs bs' : List BranchContext}, List.Forall₂ (Mirrors M) bs bs' →
      List.Forall₂ (Mirrors M) (BranchManager.replaceBranch bs branch)
          (BranchManager.replaceBranch bs' branch') := by
    intro bs bs' hbs
    induction hbs with
    | nil => exact .nil
    | @cons b b' bs bs' hhead htail ih =>
      rw [BranchManager.replaceBranch, BranchManager.replaceBranch, hhead.branchId, hb.branchId]
      split
      · exact .cons hb htail
      · exact .cons hhead ih
  exact hreplace h

/-- What is done to one branch, if it is there, is done to its mirror. -/
theorem onBranch (h : MirrorsTxn M txn txn') (branchId : Bytes)
    {f : BranchContext → AgentTxnContext} {f' : BranchContext → AgentTxnContext}
    (hf : ∀ b b', Mirrors M b b' → txn.findBranch branchId = some b → MirrorsTxn M (f b) (f' b')) :
    MirrorsTxn M ((txn.findBranch branchId).elim txn f)
      ((txn'.findBranch branchId).elim txn' f') := by
  have hfound := h.findBranch branchId
  cases hfind : txn.findBranch branchId with
  | none =>
    rw [hfind] at hfound
    cases hfind' : txn'.findBranch branchId with
    | none => exact h
    | some b' => rw [hfind'] at hfound; cases hfound
  | some b =>
    rw [hfind] at hfound
    cases hfind' : txn'.findBranch branchId with
    | none => rw [hfind'] at hfound; cases hfound
    | some b' =>
      rw [hfind'] at hfound
      cases hfound with
      | some hb => exact hf b b' hb hfind

theorem run_read_eq (txn : AgentTxnContext) (branchId objectId : Bytes) (w : World) :
    ((txn.read branchId objectId).run (handle kind) w).1.2 =
      (txn.findBranch branchId).elim txn fun b =>
      txn.setBranch ((BranchManager.readObject b objectId).run (handle kind) w).1.2 := by
  unfold AgentTxnContext.read
  cases txn.findBranch branchId with
  | none => rfl
  | some b => rw [Program.run_bind]; rfl

theorem run_write_eq (txn : AgentTxnContext) (branchId objectId : Bytes) (objectType : ObjectType)
    (intent : WriteIntent) (w : World) :
    ((txn.write branchId objectId objectType intent).run (handle kind) w).1 =
      (txn.findBranch branchId).elim txn fun b =>
        txn.setBranch
            ((BranchManager.bufferWrite b objectId objectType intent).run (handle kind) w).1 := by
  unfold AgentTxnContext.write
  cases txn.findBranch branchId with
  | none => rfl
  | some b => rw [Program.run_bind]; rfl

theorem savepoint_eq (txn : AgentTxnContext) (branchId savepointId : Bytes) :
    txn.savepoint branchId savepointId = (txn.findBranch branchId).elim txn fun b =>
      txn.setBranch (BranchManager.createSavepoint b savepointId) := by
  unfold AgentTxnContext.savepoint
  cases txn.findBranch branchId <;> rfl

theorem rollbackToSavepoint_eq (txn : AgentTxnContext) (branchId savepointId : Bytes) :
    (txn.rollbackToSavepoint branchId savepointId).2 = (txn.findBranch branchId).elim txn fun b =>
      txn.setBranch (RollbackManager.rollbackToSavepoint b savepointId).2 := by
  unfold AgentTxnContext.rollbackToSavepoint
  cases txn.findBranch branchId <;> rfl

theorem stageBranch_eq (txn : AgentTxnContext) (branchId : Bytes)
    (score : Double) (summary : Bytes) :
    txn.stageBranch branchId score summary = (txn.findBranch branchId).elim txn fun b =>
      txn.setBranch (BranchManager.stageBranch b score summary) := by
  unfold AgentTxnContext.stageBranch
  cases txn.findBranch branchId <;> rfl

/-- Reading changes no work; so the mirror may record the read in its own way. -/
theorem read (h : MirrorsTxn M txn txn') (branchId objectId : Bytes)
    {record : BranchContext → BranchContext} (hrecord : ∀ b, SameWork b (record b)) :
    MirrorsTxn M ((txn.read branchId objectId).run (handle kind) w).1.2
      ((txn'.findBranch branchId).elim txn' fun b => txn'.setBranch (record b)) := by
  rw [run_read_eq]
  exact h.onBranch branchId fun b b' hb _ =>
    h.setBranch (hb.congr (sameWork_readObject b objectId w) (hrecord b'))

theorem write (h : MirrorsTxn M txn txn') (branchId : Bytes) {objectId : Bytes}
    {intent intent' : WriteIntent} (hintent : SameIntent M objectId intent intent')
    (objectType objectType' : ObjectType)
    (hbase : M.sameBase objectId → w.store.get objectId = w'.store.get objectId) :
    MirrorsTxn M ((txn.write branchId objectId objectType intent).run (handle kind) w).1
      ((txn'.write branchId objectId objectType' intent').run (handle kind) w').1 := by
  rw [run_write_eq, run_write_eq]
  exact h.onBranch branchId fun b b' hb _ =>
    h.setBranch (hb.bufferWrite hintent objectType objectType' hbase)

theorem savepoint (h : MirrorsTxn M txn txn') (branchId savepointId : Bytes) :
    MirrorsTxn M (txn.savepoint branchId savepointId) (txn'.savepoint branchId savepointId) := by
  rw [savepoint_eq, savepoint_eq]
  exact h.onBranch branchId fun b b' hb _ => h.setBranch (hb.createSavepoint savepointId)

theorem stageBranch (h : MirrorsTxn M txn txn') (branchId : Bytes) {score score' : Double}
    (hscore : M.scores score score') (summary summary' : Bytes) :
    MirrorsTxn M (txn.stageBranch branchId score summary)
      (txn'.stageBranch branchId score' summary') := by
  rw [stageBranch_eq, stageBranch_eq]
  exact h.onBranch branchId fun b b' hb _ => h.setBranch (hb.stageBranch hscore summary summary')

theorem rollbackToSavepoint (h : MirrorsTxn M txn txn') {branchId savepointId : Bytes}
    (hid : M.restorable branchId savepointId)
    (hrolled : (txn.rollbackToSavepoint branchId savepointId).1 = true) :
    MirrorsTxn M (txn.rollbackToSavepoint branchId savepointId).2
      (txn'.rollbackToSavepoint branchId savepointId).2 := by
  rw [rollbackToSavepoint_eq, rollbackToSavepoint_eq]
  refine h.onBranch branchId fun b b' hb hfind => h.setBranch (hb.rollbackToSavepoint ?_ ?_)
  · rw [BranchManager.branchId_of_findBranch hfind]
    exact hid
  · rw [AgentTxnContext.rollbackToSavepoint, hfind] at hrolled
    exact hrolled

/-- The other side may have its statuses set and may have read something. -/
theorem map_right (h : MirrorsTxn M txn txn') {f : BranchContext → BranchContext}
    (hf : ∀ b, SameWork b (f b)) :
    MirrorsTxn M txn { txn' with branches := txn'.branches.map f } :=
  forall₂_map_right h fun b b' hb => hb.congr (SameWork.refl b) (hf b')

theorem map_left (h : MirrorsTxn M txn txn') {f : BranchContext → BranchContext}
    (hf : ∀ b, SameWork b (f b)) {t : AgentTxnContext} (ht : t.branches = txn.branches.map f) :
    MirrorsTxn M t txn' := by
  show List.Forall₂ (Mirrors M) t.branches txn'.branches
  rw [ht]
  exact List.forall₂_map_left_iff.2 (h.imp fun b b' hb => hb.congr (hf b) (SameWork.refl b'))

end MirrorsTxn

end DataAgentSystem.AgentTxn
