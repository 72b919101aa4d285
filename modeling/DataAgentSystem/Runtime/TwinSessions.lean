import DataAgentSystem.Containers.RelatedLists
import DataAgentSystem.Runtime.PlannedWork
import DataAgentSystem.Runtime.RecoveredChecks
import DataAgentSystem.Runtime.RecoveredReads

/-! Twin sessions: their branches have the same intents, savepoints and scores, and both
are up to date with one store. Twins that go on alike stay twins, and their commits do the
same to that store. A session in work and what recovery makes of its log are twins, if
the store is still as it was and nothing was done that the log does not keep. -/

namespace DataAgentSystem.Runtime

open Text Intent Cache Branch Storage Interaction Containers AgentTxn AgentTxnManager

variable {kind : StoreKind} {config config' : FallbackCommitRuntimeConfig} {s : MemoryKVStore}
  {w : World} {path : Bytes} {b b' : BranchContext} {txn txn' : AgentTxnContext}
  {session session' : TaskSession}

/-- The branches differ in nothing that counts for a commit in the store `s`. -/
structure Twins (s : MemoryKVStore) (b b' : BranchContext) : Prop where
  branchId : b'.branchId = b.branchId
  score : b'.candidateResult.score = b.candidateResult.score
  intentLog : b'.intentLog = b.intentLog
  savepoints : b'.savepoints = b.savepoints
  upToDate : UpToDate s b
  upToDate' : UpToDate s b'

/-! ### Operations -/

theorem Synced.size {B : BaseSpec} (h : Synced B b) : b.writeBuffer.size = b.intentLog.size := by
  obtain ⟨upserts, hbuffer, hrecorded⟩ := h.recorded
  rw [WriteBuffer.size, hbuffer, WriteBufferData.length_changes_replay, hrecorded.length_eq]
  rfl

theorem Twins.readObject (h : Twins s b b') (objectId : Bytes) (hstore : w.store = s) :
    Twins s ((BranchManager.readObject b objectId).run (handle kind) w).1.2
      ((BranchManager.readObject b' objectId).run (handle kind) w).1.2 := by
  have hwork := @sameWork_readObject kind b objectId w
  have hwork' := @sameWork_readObject kind b' objectId w
  exact ⟨by rw [hwork'.branchId, hwork.branchId, h.branchId],
    by rw [hwork'.candidateResult, hwork.candidateResult, h.score],
    by rw [hwork'.intentLog, hwork.intentLog, h.intentLog],
    by rw [hwork'.savepoints, hwork.savepoints, h.savepoints],
    h.upToDate.readObject objectId hstore, h.upToDate'.readObject objectId hstore⟩

theorem Twins.bufferWrite (h : Twins s b b') {objectId : Bytes} (objectType : ObjectType)
    {intent : WriteIntent} (hid : intent.objectId = objectId) (hstore : w.store = s) :
    Twins s ((BranchManager.bufferWrite b objectId objectType intent).run (handle kind) w).1
      ((BranchManager.bufferWrite b' objectId objectType intent).run (handle kind) w).1 := by
  have hrest : ∀ branch : BranchContext,
      let written := ((BranchManager.bufferWrite branch objectId objectType intent).run
        (handle kind) w).1
      written.branchId = branch.branchId ∧ written.candidateResult = branch.candidateResult ∧
        written.intentLog = branch.intentLog.append intent ∧
            written.savepoints = branch.savepoints := by
    intro branch
    unfold BranchManager.bufferWrite
    cases branch.writeBuffer.find objectId <;> exact ⟨rfl, rfl, rfl, rfl⟩
  obtain ⟨hbranchId, hresult, hlog, hsavepoints⟩ := hrest b
  obtain ⟨hbranchId', hresult', hlog', hsavepoints'⟩ := hrest b'
  exact ⟨by rw [hbranchId', hbranchId, h.branchId], by rw [hresult', hresult, h.score],
    by rw [hlog', hlog, h.intentLog], by rw [hsavepoints', hsavepoints, h.savepoints],
    h.upToDate.bufferWrite objectType hid hstore, h.upToDate'.bufferWrite objectType hid hstore⟩

theorem Twins.createSavepoint (h : Twins s b b') (savepointId : Bytes) :
    Twins s (BranchManager.createSavepoint b savepointId)
      (BranchManager.createSavepoint b' savepointId) := by
  refine ⟨h.branchId, h.score, h.intentLog, ?_,
    (kept_upToDate s).createSavepoint h.upToDate savepointId,
    (kept_upToDate s).createSavepoint h.upToDate' savepointId⟩
  rw [BranchManager.createSavepoint, BranchManager.createSavepoint, Synced.size h.upToDate.synced,
    Synced.size h.upToDate'.synced, h.intentLog, h.savepoints]

theorem Twins.rollbackToSavepoint (h : Twins s b b') (savepointId : Bytes) :
    Twins s (RollbackManager.rollbackToSavepoint b savepointId).2
      (RollbackManager.rollbackToSavepoint b' savepointId).2 := by
  have hkept := (kept_upToDate s).rollbackToSavepoint h.upToDate savepointId
  have hkept' := (kept_upToDate s).rollbackToSavepoint h.upToDate' savepointId
  unfold RollbackManager.rollbackToSavepoint at hkept hkept' ⊢
  rw [h.savepoints] at hkept' ⊢
  cases hfind : b.savepoints.find? fun savepoint => savepoint.savepointId = savepointId with
  | none => exact h
  | some savepoint =>
    rw [hfind] at hkept hkept'
    exact ⟨h.branchId, h.score, by rw [h.intentLog], rfl, hkept, hkept'⟩

theorem Twins.stageBranch (h : Twins s b b') (score : Double) (summary : Bytes) :
    Twins s (BranchManager.stageBranch b score summary)
      (BranchManager.stageBranch b' score summary) :=
  ⟨h.branchId, rfl, h.intentLog, h.savepoints, h.upToDate.congr rfl rfl rfl rfl,
    h.upToDate'.congr rfl rfl rfl rfl⟩

theorem Twins.onBranch (h : Twins s b b') {op : SessionOp} (hnames : op.NamesObject)
    (hstore : w.store = s) :
    Twins s (op.onBranch kind w b) (op.onBranch kind w b') := by
  cases op with
  | read branchId objectId => exact h.readObject objectId hstore
  | write branchId objectId objectType intent => exact h.bufferWrite objectType hnames hstore
  | savepoint branchId savepointId => exact h.createSavepoint savepointId
  | rollbackToSavepoint branchId savepointId => exact h.rollbackToSavepoint savepointId
  | stageBranch branchId score summary => exact h.stageBranch score summary
  | commitTask => exact h
  | abortTask => exact h

/-! ### Transactions -/

/-- The branches of the transactions are twins, one by one. -/
def TwinTxns (s : MemoryKVStore) (txn txn' : AgentTxnContext) : Prop :=
  List.Forall₂ (Twins s) txn.branches txn'.branches

theorem TwinTxns.findBranch (h : TwinTxns s txn txn') (branchId : Bytes) :
    Option.Rel (Twins s) (txn.findBranch branchId) (txn'.findBranch branchId) :=
  rel_find? h fun b b' hb => by rw [hb.branchId]

theorem TwinTxns.setBranch (h : TwinTxns s txn txn') (hb : Twins s b b') :
    TwinTxns s (txn.setBranch b) (txn'.setBranch b') := by
  have hreplace : ∀ {bs bs' : List BranchContext}, List.Forall₂ (Twins s) bs bs' →
      List.Forall₂ (Twins s) (BranchManager.replaceBranch bs b)
          (BranchManager.replaceBranch bs' b') := by
    intro bs bs' hbs
    induction hbs with
    | nil => exact .nil
    | @cons first first' bs bs' hfirst hrest ih =>
      rw [BranchManager.replaceBranch, BranchManager.replaceBranch, hfirst.branchId, hb.branchId]
      split
      · exact .cons hb hrest
      · exact .cons hfirst ih
  exact hreplace h

/-- Twins on which the same is done stay twins. -/
theorem TwinTxns.perform (h : TwinTxns s session.txn session'.txn) {op : SessionOp}
    (hworks : op.works = true) (hnames : op.NamesObject) (hstore : w.store = s) :
    TwinTxns s ((op.perform config session).run (handle kind) w).1.txn
      ((op.perform config' session').run (handle kind) w).1.txn := by
  rw [txn_perform hworks, txn_perform hworks]
  have hfound := h.findBranch op.branchId
  cases hfind : session.txn.findBranch op.branchId with
  | none =>
    rw [hfind] at hfound
    cases hfind' : session'.txn.findBranch op.branchId with
    | none => exact h
    | some b' => rw [hfind'] at hfound; cases hfound
  | some b =>
    rw [hfind] at hfound
    cases hfind' : session'.txn.findBranch op.branchId with
    | none => rw [hfind'] at hfound; cases hfound
    | some b' =>
      rw [hfind'] at hfound
      cases hfound with
      | some htwins => exact h.setBranch (htwins.onBranch hnames hstore)

theorem TwinTxns.performedOn (h : TwinTxns s session.txn session'.txn) {ops : List SessionOp}
    (hworks : ∀ op ∈ ops, op.works = true) (hnames : ∀ op ∈ ops, op.NamesObject)
    (hstore : w.store = s) :
    TwinTxns s (performedOn kind config session (ops.map (·, w))).txn
      (performedOn kind config' session' (ops.map (·, w))).txn := by
  induction ops generalizing session session' with
  | nil => exact h
  | cons op ops ih =>
    rw [List.forall_mem_cons] at hworks hnames
    exact ih (h.perform hworks.1 hnames.1 hstore) hworks.2 hnames.2

theorem maxElement_of_twins {bs bs' : List BranchContext} (hb : Twins s b b')
    (h : List.Forall₂ (Twins s) bs bs') :
    Twins s (BranchManager.maxElement b bs) (BranchManager.maxElement b' bs') := by
  induction h generalizing b b' with
  | nil => exact hb
  | cons hfirst _ ih =>
    rw [BranchManager.maxElement, BranchManager.maxElement, hb.score, hfirst.score]
    split
    · exact ih hfirst
    · exact ih hb

theorem selectWinner_of_twins {bs bs' : List BranchContext} (h : List.Forall₂ (Twins s) bs bs') :
    BranchManager.selectWinner bs' = BranchManager.selectWinner bs := by
  cases h with
  | nil => rfl
  | cons hfirst hrest =>
    rw [BranchManager.selectWinner, BranchManager.selectWinner,
      (maxElement_of_twins hfirst hrest).branchId]

/-- The commits of twins have the same result, and leave the same in the store. -/
theorem TwinTxns.commitTask (h : TwinTxns w.store session.txn session'.txn) :
    ((session'.commitTask config').run (handle .memory) w).1.1 =
      ((session.commitTask config).run (handle .memory) w).1.1 ∧
      ∀ k, ((session'.commitTask config').run (handle .memory) w).2.store.get k =
        ((session.commitTask config).run (handle .memory) w).2.store.get k := by
  have hlike := run_commitTask .memory config session w
  have hlike' := run_commitTask .memory config' session' w
  by_cases hnone : session.txn.branches = []
  · have hnone' : session'.txn.branches = [] := by
      rw [TwinTxns, hnone] at h
      exact List.forall₂_nil_left_iff.1 h
    rw [hlike.result, hlike'.result, hlike.store, hlike'.store, run_selectWinnerAndCommit_nil hnone,
      run_selectWinnerAndCommit_nil hnone']
    exact ⟨rfl, fun k => rfl⟩
  obtain ⟨winner, hs⟩ := exists_selects hnone
  have hfound := h.findBranch winner.branchId
  rw [show session.txn.findBranch winner.branchId = some winner from hs.2] at hfound
  obtain ⟨winner', hfind', htwins⟩ : ∃ winner',
    session'.txn.findBranch winner.branchId = some winner' ∧
      Twins w.store winner winner' := by
    cases hfind' : session'.txn.findBranch winner.branchId with
    | none => rw [hfind'] at hfound; cases hfound
    | some winner' =>
      rw [hfind'] at hfound
      cases hfound with
      | some htwins => exact ⟨winner', rfl, htwins⟩
  have hs' : Selects session'.txn winner' := by
    refine ⟨?_, by rw [htwins.branchId]; exact hfind'⟩
    rw [selectWinner_of_twins h, htwins.branchId]
    exact hs.1
  obtain ⟨hresult, hstore⟩ := run_selectWinnerAndCommit_upToDate htwins.upToDate hs
  obtain ⟨hresult', hstore'⟩ := run_selectWinnerAndCommit_upToDate htwins.upToDate' hs'
  rw [htwins.intentLog] at hresult' hstore'
  constructor
  · rw [hlike.result, hlike'.result, hresult, hresult']
  · intro k
    rw [hlike.store, hlike'.store, hstore, hstore']

/-! ### Recovery -/

/-- Work in the store `s` of which the log keeps all that counts: a write names its object
and has no condition, and a score is a number that the log can hold. -/
def SessionOp.LogsAll (s : MemoryKVStore) (op : SessionOp) (w : World) : Prop :=
  w.store = s ∧ match op with
    | .write _ objectId _ intent => intent.objectId = objectId ∧ intent.condition = {}
    | .stageBranch _ score _ => score = .ofInt64 score.toInt64
    | _ => True

theorem SessionOp.LogsAll.namesObject {op : SessionOp} (h : op.LogsAll s w) : op.NamesObject := by
  cases op with
  | write branchId objectId objectType intent => exact h.2.1
  | _ => trivial

/-- What is known of a session while its log keeps all that counts. -/
structure LogsAll (s : MemoryKVStore) (session : TaskSession) : Prop where
  upToDate : AllBranches (UpToDate s) session.txn
  unconditional :
    AllBranches (fun b => ∀ intent ∈ b.intentLog.entries, intent.condition = {}) session.txn
  reads : ∀ branchId, (session.txn.findBranch branchId).isSome →
    ∀ read ∈ loggedReads branchId session.events,
    s.getVersion read.objectId = read.observedVersion

theorem unconditional_onBranch {op : SessionOp} (hop : op.LogsAll s w)
    (h : ∀ intent ∈ b.intentLog.entries, intent.condition = {}) :
    ∀ intent ∈ (op.onBranch kind w b).intentLog.entries, intent.condition = {} := by
  cases op with
  | read branchId objectId =>
    show ∀ intent ∈
      ((BranchManager.readObject b objectId).run (handle kind) w).1.2.intentLog.entries, _
    rw [(sameWork_readObject b objectId w).intentLog]
    exact h
  | write branchId objectId objectType intent =>
    have hlog : ((BranchManager.bufferWrite b objectId objectType intent).run
      (handle kind) w).1.intentLog =
        b.intentLog.append intent := by
      unfold BranchManager.bufferWrite
      cases b.writeBuffer.find objectId <;> rfl
    show ∀ intent' ∈ ((BranchManager.bufferWrite b objectId objectType intent).run (handle kind)
      w).1.intentLog.entries, _
    rw [hlog, IntentLog.append, List.forall_mem_append, List.forall_mem_singleton]
    exact ⟨h, hop.2.2⟩
  | rollbackToSavepoint branchId savepointId =>
    show ∀ intent ∈ (RollbackManager.rollbackToSavepoint b savepointId).2.intentLog.entries, _
    unfold RollbackManager.rollbackToSavepoint
    split
    · exact h
    · exact fun intent hintent => h intent (List.mem_of_mem_take hintent)
  | _ => exact h

/-- A branch that is up to date reads the version in the store. -/
theorem UpToDate.version_readObject (h : UpToDate s b) (objectId : Bytes) (hstore : w.store = s) :
    ((BranchManager.readObject b objectId).run (handle kind) w).1.1.version =
      s.getVersion objectId := by
  unfold BranchManager.readObject
  cases hfind : b.writeBuffer.find objectId with
  | some buffered =>
    have hid : buffered.objectId = objectId := b.writeBuffer.consistent.objectId_eq hfind
    have hversion := h.baseVersion (WriteBuffer.mem_orderedEntries.2 (hid ▸ hfind))
    rw [hid] at hversion
    exact hversion.symm
  | none =>
    subst hstore
    rfl

theorem LogsAll.perform (h : LogsAll s session) {op : SessionOp} (hworks : op.works = true)
    (hop : op.LogsAll s w) :
    LogsAll s ((op.perform config session).run (handle .memory) w).1 := by
  have hbranches : ∀ {P : BranchContext → Prop}, (∀ b, P b → P (op.onBranch .memory w b)) →
    AllBranches P session.txn →
      AllBranches P ((op.perform config session).run (handle .memory) w).1.txn := by
    intro P hP hall
    rw [txn_perform hworks]
    cases hfind : session.txn.findBranch op.branchId with
    | none => exact hall
    | some b => exact hall.setBranch (hP b (hall.findBranch hfind))
  refine ⟨hbranches (fun b => upToDate_onBranch hop.namesObject hop.1) h.upToDate,
    hbranches (fun b => unconditional_onBranch hop) h.unconditional,
    fun branchId hfound read hread => ?_⟩
  have hthere : (session.txn.findBranch branchId).isSome := by
    rw [findBranch_perform hworks] at hfound
    split at hfound
    · simpa using hfound
    · exact hfound
  obtain ⟨recorded, hevents, hrecorded⟩ :=
    @exists_recorded_perform .memory config op hworks session w
  rw [hevents, loggedReads_append] at hread
  rcases List.mem_append.1 hread with hold | hnew
  · exact h.reads branchId hthere read hold
  · obtain ⟨event, hevent, hreadOf⟩ := List.mem_filterMap.1 hnew
    rw [readOf, Option.ite_none_right_eq_some, Option.some.injEq] at hreadOf
    obtain ⟨⟨htype, hbranchId⟩, rfl⟩ := hreadOf
    obtain ⟨htype', hbranchId'⟩ := hrecorded event hevent
    cases op with
    | read readId objectId =>
      obtain rfl : readId = branchId := hbranchId'.symm.trans hbranchId
      obtain ⟨b, hfind⟩ := Option.isSome_iff_exists.1 hthere
      rw [run_perform_read, run_read_fst hfind] at hevents
      have hsame := List.append_cancel_left hevents
      rw [← hsame, List.mem_singleton] at hevent
      have hversion :=
        @UpToDate.version_readObject .memory _ _ _ (h.upToDate.findBranch hfind) objectId hop.1
      rw [hevent]
      exact hversion.symm.trans (UInt64.toUInt64_toInt64 _).symm
    | _ =>
      rw [htype] at htype'
      cases htype'

theorem logsAll_of_workedOn (h : WorkedOn .memory config (SessionOp.LogsAll s) session) :
    LogsAll s session := by
  obtain ⟨task, plan, v, submitted, hsubmit, hrun⟩ := h
  have hfirst : LogsAll s submitted := by
    have hnew : ∀ b ∈ submitted.txn.branches, ∃ branchId, b = { branchId := branchId } := by
      intro b hb
      rw [(isSubmitted_of_submitTask hsubmit).2.2.branches] at hb
      obtain ⟨branchPlan, -, rfl⟩ := List.mem_map.1 hb
      exact ⟨_, rfl⟩
    refine ⟨fun b hb => ?_, fun b hb => ?_, fun branchId _ => ?_⟩
    · obtain ⟨branchId, rfl⟩ := hnew b hb
      exact (kept_upToDate s).new branchId
    · obtain ⟨branchId, rfl⟩ := hnew b hb
      exact fun intent hintent => absurd hintent List.not_mem_nil
    · rw [loggedReads_eq_nil fun event hevent hread => by
        rcases types_of_submitTask hsubmit event hevent with htype | htype <;>
          rw [htype] at hread <;> cases hread.1]
      exact fun read hread => absurd hread List.not_mem_nil
  induction hrun with
  | refl => exact hfirst
  | tail _ hlast ih =>
    obtain ⟨hworks, hop⟩ := hlast
    exact ih.perform hworks hop

/-- Everything that counts is mirrored. -/
def everything : Mirroring := .following (fun _ => True) True Eq rfl

theorem twins_of_mirrors (h : Mirrors everything b b') (hupToDate : UpToDate s b)
    (hupToDate' : UpToDate s b')
    (hunconditional : ∀ intent ∈ b.intentLog.entries, intent.condition = {}) : Twins s b b' := by
  obtain ⟨records, records', hwritten, hwritten', hrecords⟩ := h.records
  have hintents : b'.intentLog.entries = b.intentLog.entries := by
    rw [hwritten.intents] at hunconditional
    rw [hwritten.intents, hwritten'.intents]
    clear hwritten hwritten'
    induction hrecords with
    | nil => rfl
    | @cons r r' records records' hr _ ih =>
      rw [List.map_cons, List.forall_mem_cons] at hunconditional
      have hid : r'.intent.objectId = r.intent.objectId := by
        rw [hr.objectId, hr.named trivial, hr.entry.objectId]
      have hcondition : r'.intent.condition = r.intent.condition := by
        rw [hr.condition, hunconditional.1]
      have hsame : r'.intent = r.intent := by
        have htype := hr.intentType
        have hpayload := hr.payload
        cases hintent : r.intent
        cases hintent' : r'.intent
        simp_all
      rw [List.map_cons, List.map_cons, hsame, ih hunconditional.2]
  refine ⟨h.branchId.symm, h.score.symm, ?_, h.savepoints.symm, hupToDate, hupToDate'⟩
  show IntentLog.mk b'.intentLog.entries = IntentLog.mk b.intentLog.entries
  rw [hintents]

/-- A session of which the log keeps all that counts, and what is recovered from that log, are
twins. -/
theorem twins_recovered (hwork : WorkedOn .memory config (SessionOp.LogsAll w.store) session)
    {metadata : List (Bytes × Bytes)} {recovered : RecoveredTaskSession}
    (hrecovers : Recovers .memory w path (writtenArtifact session metadata) recovered) :
    TwinTxns w.store session.txn recovered.session.txn := by
  have hlogs := logsAll_of_workedOn hwork
  have hmirrors : MirrorsTxn everything session.txn recovered.session.txn := by
    refine hwork.mirrors_recovered (fun op v hop => ?_) hrecovers
    cases op with
    | write branchId objectId objectType intent =>
      exact ⟨fun _ => hop.2.1, fun _ => congrArg (·.get objectId) hop.1⟩
    | stageBranch branchId score summary => exact hop.2
    | _ => trivial
  have hupToDate' : AllBranches (UpToDate w.store) recovered.session.txn := by
    intro b' hb'
    refine ⟨hrecovers.allSynced b' hb', ?_⟩
    have hids : recovered.session.txn.branches.map (·.branchId) =
        session.txn.branches.map (·.branchId) :=
      (map_eq_of_forall₂ hmirrors fun b b' hb => hb.branchId).symm
    have hnodup : (recovered.session.txn.branches.map (·.branchId)).Nodup := by
      rw [hids, hwork.inWork.branchIds]
      exact (ExecutionPlan.validate_ok hwork.inWork.valid).nodup
    have hreads := reads_recovered hwork.inWork hrecovers b'.branchId
    rw [show recovered.session.txn.findBranch b'.branchId = some b' from findBranch_of_mem hnodup
      hb', Option.map_some] at hreads
    obtain ⟨b, hb, hlogged⟩ := Option.map_eq_some_iff.1 hreads.symm
    rw [← hlogged]
    exact hlogs.reads b'.branchId (Option.isSome_of_mem hb)
  refine List.forall₂_iff_get.2 ⟨hmirrors.length_eq, fun i hi hi' => ?_⟩
  exact twins_of_mirrors (hmirrors.get hi hi') (hlogs.upToDate _ (List.get_mem ..))
    (hupToDate' _ (List.get_mem ..))
    (hlogs.unconditional _ (List.get_mem ..))

end DataAgentSystem.Runtime
