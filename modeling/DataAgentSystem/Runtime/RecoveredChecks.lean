import DataAgentSystem.AgentTxn.ForgottenIntents
import DataAgentSystem.Runtime.RecoveredCommit
import DataAgentSystem.Runtime.RecoveredSession
import DataAgentSystem.Storage.Evolution

/-! What the commit of a recovered session still checks. Of a write the log keeps the
type and the payload. Its base is read anew from the store that recovery meets, so a
version that has changed before goes unnoticed; and of a swap the condition is lost. -/

namespace DataAgentSystem.Runtime

open Text Intent Cache Branch Storage Interaction Containers AgentTxn AgentTxnManager CommitManager

variable {kind : StoreKind} {config config' : FallbackCommitRuntimeConfig} {session : TaskSession}
  {Allowed : SessionOp → World → Prop} {txn : AgentTxnContext} {winner : BranchContext} {k : Bytes}
    {w : World} {path : Bytes}

/-! ### Commits in stores to come -/

/-- Any store may become one in which the branch commits, with what suits an object there. -/
theorem exists_committable (hcan : CanCommit winner) {held : Entry} (hk : Suits winner k held)
    (kind : StoreKind) (txn : AgentTxnContext) (s : MemoryKVStore) : ∃ s', Evolves kind s s' ∧
      s'.get k = { value := held.value, version := held.version, exists_ := true } ∧
        Committable kind txn winner s' := by
  obtain ⟨pick, hself, hall⟩ := hcan.exists_suits_update hk
  obtain ⟨s', hevolves, hget⟩ := exists_evolves_holding kind s pick (k :: objectsOf winner)
  have hsuits : ∀ j ∈ objectsOf winner,
      Suits winner j { value := (s'.get j).value, version := s'.getVersion j } := by
    intro j hj
    rw [MemoryKVStore.getVersion, hget j (List.mem_cons_of_mem _ hj)]
    exact hall j
  obtain ⟨hready, hcurrent⟩ := hcan.ready hsuits
  refine ⟨s', hevolves, ?_, hready, ?_⟩
  · rw [hget k List.mem_cons_self, hself]
  · cases kind with
    | memory => exact hcurrent
    | nonBatchMemory =>
      refine ⟨hcurrent.1, fun _ entry hentry => ?_⟩
      have hmem : entry.objectId ∈ objectsOf winner :=
        List.mem_append_left _ (List.mem_map_of_mem (mem_writtenEntries.1 hentry).1)
      rw [hget _ (List.mem_cons_of_mem _ hmem)]

theorem writesCurrent_of_committable {s : MemoryKVStore} (h : Committable kind txn winner s) :
    WritesCurrent winner s := by
  cases kind with
  | memory => exact h.2.1
  | nonBatchMemory => exact h.2.1

/-- With a branch to select a commit returns true or false. -/
theorem run_commitTask_false_iff (hs : Selects session.txn winner)
    (hsimulate : session.txn.fallbackCommit.simulateCrashAfterApplyCount = 0) :
    ((session.commitTask config).run (handle kind) w).1.1 = .ok false ↔
      ¬Committable kind session.txn winner w.store := by
  rw [(run_commitTask kind config session w).result,
    ← run_selectWinnerAndCommit_true_iff kind hs hsimulate]
  have hrun := Program.interfered_run (h := handle kind) (selectWinnerAndCommit session.txn) w
  obtain ⟨v, looks, -, ⟨-, -, hresult, -⟩ | ⟨-, -, result, -, -, hresult, -⟩⟩ :=
    selectWinnerAndCommit_steps hs hrun
  · rw [hresult]
    exact iff_of_true rfl nofun
  · rw [hresult]
    cases result.isOk <;> simp

theorem run_commitTask_true_iff_committable (hs : Selects session.txn winner)
    (hsimulate : session.txn.fallbackCommit.simulateCrashAfterApplyCount = 0) :
    ((session.commitTask config).run (handle kind) w).1.1 = .ok true ↔
      Committable kind session.txn winner w.store := by
  rw [(run_commitTask kind config session w).result,
    run_selectWinnerAndCommit_true_iff kind hs hsimulate]

theorem simulate_of_recovered {recovered : RecoveredTaskSession}
    (h : ((recoverSessionFromLog config path).run (handle kind) w).1 = .ok recovered) :
    recovered.session.txn.fallbackCommit.simulateCrashAfterApplyCount = 0 :=
  ((keptByRecovery_simulate config).recovered path).interfered
    (Program.interfered_run _ w) recovered h

/-! ### Overwrites -/

/-- The bases of a replay are what the store holds. -/
theorem allSynced_replayEvent {B : BaseSpec} (h : AllSynced B txn) (hB : ∀ k, B k (w.store.get k))
    (event : ParsedTaskEvent) :
    AllSynced B ((replayEvent txn event).run (handle kind) w).1 := by
  unfold replayEvent
  cases taskEventTypeFromName event.eventType with
  | read =>
    show AllSynced B (replayRead txn event)
    rw [replayRead_eq]
    cases hb : txn.findBranch event.branchId with
    | none => exact h
    | some branch => exact AllBranches.setBranch h ((AllBranches.findBranch h hb).congr rfl rfl rfl)
  | write =>
    have hid : (replayedIntent event).objectId = event.objectId := rfl
    exact h.write event.branchId .generic hid (hB event.objectId)
  | savepoint => exact h.savepoint event.branchId event.detail
  | rollbackToSavepoint => exact h.rollbackToSavepoint event.branchId event.detail
  | stageBranch => exact h.stageBranch event.branchId _ event.detail
  | _ => exact h

theorem Recovers.allSynced {artifact : ParsedTaskEventLogArtifact}
    {recovered : RecoveredTaskSession} (h : Recovers kind w path artifact recovered) :
    AllSynced (fun k base => base = w.store.get k) recovered.session.txn := by
  obtain ⟨begun, status, hbegun, hbranches⟩ := h.branches
  have hreplayed : ∀ (events : List ParsedTaskEvent) (txn : AgentTxnContext),
    AllSynced (fun k base => base = w.store.get k) txn →
      AllSynced (fun k base => base = w.store.get k)
        (events.foldl (fun txn event => ((replayEvent txn event).run (handle kind) w).1) txn) := by
    intro events
    induction events with
    | nil => exact fun txn htxn => htxn
    | cons event events ih =>
      exact fun txn htxn => ih _ (allSynced_replayEvent htxn (fun k => rfl) event)
  have hfresh : AllSynced (fun k base => base = w.store.get k) begun := by
    intro b hb
    rw [hbegun] at hb
    obtain ⟨branchPlan, -, rfl⟩ := List.mem_map.1 hb
    exact synced_new _ _
  refine AllBranches.map (hreplayed artifact.events begun hfresh) (fun branch hb => ?_) hbranches
  exact hb.congr rfl rfl rfl

theorem WorkedOn.synced_recovered (h : WorkedOn kind config Allowed session)
    (hlog : HoldsLog w path session) {recovered : RecoveredTaskSession}
    (hrecovered : ((recoverSessionFromLog config' path).run (handle kind) w).1 = .ok recovered) :
    AllSynced (fun k base => base = w.store.get k) recovered.session.txn ∧
      MirrorsTxn writesAlone session.txn recovered.session.txn := by
  obtain ⟨metadata, recovered', hrun, hrecovers⟩ :=
    @InWork.recovers kind _ _ _ h.inWork config' hlog
  rw [hrun] at hrecovered
  obtain rfl := Except.ok.inj hrecovered
  exact ⟨hrecovers.allSynced, h.mirrors_writesAlone hrecovers⟩

/-- A buffered object has been written. -/
theorem intentsOn_ne_nil {branch : BranchContext} {records : List WriteRecord}
    (h : HasWritten branch records) {entry : ObjectCacheEntry}
    (hentry : branch.writeBuffer.find k = some entry) : intentsOn branch k ≠ [] := by
  obtain ⟨record, hrecord, rfl, -⟩ := h.exists_record hentry
  have hid : record.entry.objectId = k := branch.writeBuffer.consistent.objectId_eq hentry
  rw [h.intentsOn_eq, Ne, List.map_eq_nil_iff, List.filter_eq_nil_iff]
  push Not
  exact ⟨record, hrecord, by simpa using hid⟩

/-- An object that was overwritten only is overwritten last in the mirror. -/
theorem latest_overwrite_of_mirrors {M : Mirroring} {branch branch' : BranchContext}
    (h : Mirrors M branch branch') {entry : ObjectCacheEntry}
    (hentry : branch.writeBuffer.find k = some entry)
    (hall : ∀ intent ∈ intentsOn branch k, intent.intentType = .overwrite) :
    ∃ last, IsLatest branch' k last ∧ last.intentType = .overwrite := by
  obtain ⟨records, -, hwritten, -, -⟩ := h.records
  have hlive := h.forall₂_live k
  have hne : live branch'.intentLog.entries k ≠ [] := by
    intro hnil
    rw [hnil] at hlive
    exact intentsOn_ne_nil hwritten hentry (List.forall₂_nil_right_iff.1 hlive)
  refine ⟨_, List.getLast?_eq_getLast_of_ne_nil hne, ?_⟩
  obtain ⟨intent, hintent, htype, -⟩ := exists_mem_of_forall₂ hlive.flip (List.getLast_mem hne)
  exact htype.symm.trans (hall intent hintent)

/-- The commit of a recovered session fails in every store with another version than the
branch has overwritten exactly if recovery met that version, or the branch can commit nowhere. -/
theorem commitTask_recovered_strict_iff (hwork : WorkedOn kind config Allowed session)
    (hlog : HoldsLog w path session) {recovered : RecoveredTaskSession}
    (hrecovered : ((recoverSessionFromLog config' path).run (handle kind) w).1 = .ok recovered)
    (hs : Selects recovered.session.txn winner) {branch : BranchContext}
    (hbranch : session.txn.findBranch winner.branchId = some branch) {entry : ObjectCacheEntry}
    (hentry : branch.writeBuffer.find k = some entry)
    (hall : ∀ intent ∈ intentsOn branch k, intent.intentType = .overwrite) :
    (∀ w', Evolves kind w.store w'.store → w'.store.getVersion k ≠ entry.baseVersion →
        ((recovered.session.commitTask config').run (handle kind) w').1.1 = .ok false) ↔
      w.store.getVersion k = entry.baseVersion ∨ ¬CanCommit winner := by
  obtain ⟨hsynced, hmirrors⟩ := hwork.synced_recovered hlog hrecovered
  have hsimulate := simulate_of_recovered hrecovered
  have hmirrored : Mirrors writesAlone branch winner := hmirrors.mirrors hbranch hs.2
  obtain ⟨last, hlast, htype⟩ := latest_overwrite_of_mirrors hmirrored hentry hall
  -- what is buffered anew is based on what recovery met
  obtain ⟨rebuilt, hrebuilt, hbase⟩ : ∃ rebuilt, winner.writeBuffer.find k = some rebuilt ∧
      rebuilt.baseVersion = w.store.getVersion k := by
    have hwinner := AllBranches.findBranch hsynced hs.2
    have hlive : live winner.intentLog.entries k ≠ [] := by
      intro hnil
      rw [IsLatest, hnil] at hlast
      cases hlast
    obtain ⟨rebuilt, hrebuilt⟩ := Option.ne_none_iff_exists'.1 fun hnone =>
      hlive ((hwinner.find_eq_none_iff k).1 hnone)
    obtain ⟨base, rfl, hbuffers⟩ := hwinner.buffers hrebuilt
    exact ⟨rebuilt, hrebuilt, hbuffers.baseVersion⟩
  obtain ⟨hwritten, hid⟩ := mem_writtenEntries_of_isLatest hrebuilt hlast (by rw [htype]; decide)
  constructor
  · intro hfails
    by_contra hno
    push Not at hno
    obtain ⟨hmoved, hcan⟩ := hno
    obtain ⟨s', hevolves, hget, hcommittable⟩ :=
      exists_committable hcan (suits_of_overwrite hcan hrebuilt hlast htype) kind
        recovered.session.txn w.store
    have hversion : s'.getVersion k = rebuilt.baseVersion := by rw [MemoryKVStore.getVersion, hget]
    have hfalse := hfails { w with store := s' } hevolves (by rw [hversion, hbase]; exact hmoved)
    exact (run_commitTask_false_iff hs hsimulate).1 hfalse hcommittable
  · rintro hor w' - hmoved
    apply (run_commitTask_false_iff hs hsimulate).2
    intro hcommittable
    rcases hor with hmet | hcannot
    · rcases writesCurrent_of_committable hcommittable rebuilt hwritten with hrebased | hcurrent
      · rw [hid, rebased_of_isLatest hlast, htype] at hrebased
        cases hrebased
      · rw [hid, hbase, hmet] at hcurrent
        exact hmoved hcurrent
    · exact hcannot (canCommit_of_ready hcommittable.1)

/-- The task after it has written `k` once, in the world where `k` holds `abc`. -/
def notedWrite (intent : WriteIntent) : TaskSession :=
  (((SessionOp.write (ascii "b") (ascii "k") .generic intent).perform {} noted).run
    (handle .memory) holdsText).1

theorem workedOn_notedWrite (intent : WriteIntent) :
    WorkedOn .memory {} (fun _ _ => True) (notedWrite intent) :=
  ⟨noteTask, notePlan, {}, noted, rfl, Relation.ReflTransGen.single (.perform rfl trivial)⟩

theorem holdsLog_loggedIn (w : World) (intent : WriteIntent) :
    HoldsLog (loggedIn w (notedWrite intent)) (ascii "log") (notedWrite intent) :=
  holdsLog_writeTaskEventLogArtifact (List.Perm.refl _) .memory (ascii "log") w

/-- What is recovered from that log. -/
def recoveredIn (w : World) (session : TaskSession) : RecoveredTaskSession :=
  match ((recoverSessionFromLog {} (ascii "log")).run (handle .memory) (loggedIn w session)).1 with
  | .ok recovered => recovered
  | .error _ => {}

/-- The branch of a session that has only one. -/
def onlyBranch (session : TaskSession) : BranchContext :=
  session.txn.branches.headD { branchId := [] }

/-- The intent to overwrite `k`. -/
def overwriteK : WriteIntent where
  objectId := ascii "k"
  intentType := .overwrite
  payload := ascii "x"

theorem commitTask_recovered_strict_undisturbed :
    (∀ w', Evolves .memory (loggedIn holdsText (notedWrite overwriteK)).store w'.store →
        w'.store.getVersion (ascii "k") ≠ overwriteEntry.baseVersion →
        (((recoveredIn holdsText (notedWrite overwriteK)).session.commitTask {}).run
          (handle .memory) w').1.1 = .ok false) ↔
      (loggedIn holdsText (notedWrite overwriteK)).store.getVersion (ascii "k") =
        overwriteEntry.baseVersion ∨
        ¬CanCommit (onlyBranch (recoveredIn holdsText (notedWrite overwriteK)).session) :=
  commitTask_recovered_strict_iff (workedOn_notedWrite overwriteK)
    (holdsLog_loggedIn holdsText overwriteK) rfl ⟨rfl, rfl⟩
    (show (notedWrite overwriteK).txn.findBranch _ =
      some (onlyBranch (notedWrite overwriteK)) from rfl) rfl
    (fun _ h => by rw [List.mem_singleton.1 h]; rfl)

/-- Somebody else writes `k` before the log is read, and the recovered task commits over it. -/
theorem commitTask_recovered_not_strict :
    ∃ recovered winner, WorkedOn .memory {} (fun _ _ => True) (notedWrite overwriteK) ∧
      HoldsLog (loggedIn AgentTxn.movedOn (notedWrite overwriteK)) (ascii "log")
        (notedWrite overwriteK) ∧
      ((recoverSessionFromLog {} (ascii "log")).run (handle .memory)
        (loggedIn AgentTxn.movedOn (notedWrite overwriteK))).1 =
        .ok recovered ∧
      Selects recovered.session.txn winner ∧
      (notedWrite overwriteK).txn.findBranch winner.branchId =
        some (onlyBranch (notedWrite overwriteK)) ∧
      intentsOn (onlyBranch (notedWrite overwriteK)) (ascii "k") = [overwriteK] ∧
      (onlyBranch (notedWrite overwriteK)).writeBuffer.find (ascii "k") = some overwriteEntry ∧
      (loggedIn AgentTxn.movedOn (notedWrite overwriteK)).store.getVersion (ascii "k") ≠
        overwriteEntry.baseVersion ∧
      ((recovered.session.commitTask {}).run (handle .memory)
        (loggedIn AgentTxn.movedOn (notedWrite overwriteK))).1.1 =
        .ok true ∧
      (((notedWrite overwriteK).commitTask {}).run (handle .memory)
        (loggedIn AgentTxn.movedOn (notedWrite overwriteK))).1.1 =
        .ok false :=
  ⟨recoveredIn AgentTxn.movedOn (notedWrite overwriteK),
    onlyBranch (recoveredIn AgentTxn.movedOn (notedWrite overwriteK)).session,
    workedOn_notedWrite overwriteK,
    holdsLog_loggedIn AgentTxn.movedOn overwriteK, rfl, ⟨rfl, rfl⟩, rfl, rfl,
    rfl, by decide, rfl, rfl⟩

/-! ### Swaps -/

/-- All writes of the branch that concern the object swap it, under no condition. -/
def SwapsFreely (k : Bytes) (branch : BranchContext) : Prop :=
  ∃ records, HasWritten branch records ∧ ∀ record ∈ records, record.entry.objectId = k ∨
    record.intent.objectId = k →
    record.intent.objectId = k ∧ record.intent.intentType = .cas ∧
      record.intent.condition.type = .none

/-- The operation does not write the object on the branch. -/
def SessionOp.Spares (branchId k : Bytes) : SessionOp → World → Prop
  | .write b objectId _ intent, _ => b = branchId → objectId ≠ k ∧ intent.objectId ≠ k
  | _, _ => True

theorem SwapsFreely.onBranch {branch : BranchContext} (h : SwapsFreely k branch) {op : SessionOp}
    (hspares : op.Spares op.branchId k w) : SwapsFreely k (op.onBranch kind w branch) := by
  obtain ⟨records, hwritten, hswaps⟩ := h
  cases op with
  | read branchId objectId => exact ⟨records, hwritten.readObject kind objectId w, hswaps⟩
  | write branchId objectId objectType intent =>
    obtain ⟨hobject, hnamed⟩ := hspares rfl
    refine ⟨_, hwritten.bufferWrite kind objectId objectType intent w, ?_⟩
    rw [List.forall_mem_append, List.forall_mem_singleton]
    refine ⟨hswaps, fun hconcerns => ?_⟩
    have hid : (startEntry branch objectId objectType (w.store.get objectId)).objectId =
        objectId := by
      unfold startEntry
      cases hfind : branch.writeBuffer.find objectId with
      | none => rfl
      | some entry => exact branch.writeBuffer.consistent.objectId_eq hfind
    rcases hconcerns with hentry | hintent
    · exact absurd (hid.symm.trans hentry) hobject
    · exact absurd hintent hnamed
  | savepoint branchId savepointId => exact ⟨records, hwritten.createSavepoint savepointId, hswaps⟩
  | rollbackToSavepoint branchId savepointId =>
    obtain ⟨n, hkept⟩ := hwritten.rollbackToSavepoint savepointId
    exact ⟨_, hkept, fun record hrecord => hswaps record (List.mem_of_mem_take hrecord)⟩
  | stageBranch branchId score summary =>
    exact ⟨records, hwritten.stageBranch score summary, hswaps⟩
  | commitTask => exact ⟨records, hwritten, hswaps⟩
  | abortTask => exact ⟨records, hwritten, hswaps⟩

/-- Work that does not write the object keeps the branch as it is in this respect. -/
theorem swapsFreely_of_work {branchId : Bytes} {continued : TaskSession}
    (hrun : Relation.ReflTransGen (WorkStep kind config (SessionOp.Spares branchId k))
      session continued)
    (h : ∀ branch, session.txn.findBranch branchId = some branch → SwapsFreely k branch) :
    ∀ branch, continued.txn.findBranch branchId = some branch → SwapsFreely k branch := by
  induction hrun with
  | refl => exact h
  | tail _ hstep ih =>
    obtain ⟨hworks, hspares⟩ := hstep
    intro branch hbranch
    rw [findBranch_perform hworks] at hbranch
    split at hbranch
    next heq =>
      subst heq
      obtain ⟨before, hbefore, rfl⟩ := Option.map_eq_some_iff.1 hbranch
      exact (ih before hbefore).onBranch hspares
    next => exact ih branch hbranch

theorem fallbackCommit_of_work {continued : TaskSession}
    (hrun : Relation.ReflTransGen (WorkStep kind config Allowed) session continued) :
    continued.txn.fallbackCommit = session.txn.fallbackCommit := by
  induction hrun with
  | refl => rfl
  | @tail session' _ _ hstep ih =>
    obtain ⟨hworks, -⟩ := hstep
    rw [txn_perform hworks, ← ih]
    cases session'.txn.findBranch _ <;> rfl

/-- Of a swap that is replayed the condition is gone. -/
theorem swapsFreely_of_mirrors {M : Mirroring} {branch branch' : BranchContext}
    (h : Mirrors M branch branch')
    (hall : ∀ intent ∈ intentsOn branch k, intent.intentType = .cas) : SwapsFreely k branch' := by
  obtain ⟨records, records', hwritten, hwritten', hrecords⟩ := h.records
  refine ⟨records', hwritten', fun record' hrecord' hconcerns => ?_⟩
  obtain ⟨record, hrecord, hmirrors⟩ := exists_mem_of_forall₂ hrecords.flip hrecord'
  have hmirrors : WriteRecord.Mirrors M record record' := hmirrors
  have hid : record'.entry.objectId = k := by
    rcases hconcerns with hentry | hintent
    · exact hentry
    · rw [← hmirrors.objectId]
      exact hintent
  refine ⟨hmirrors.objectId.trans hid, ?_, by rw [hmirrors.condition]⟩
  rw [← hmirrors.intentType]
  apply hall
  rw [hwritten.intentsOn_eq, List.mem_map]
  exact ⟨record, List.mem_filter.2 ⟨hrecord, by simp [hmirrors.entry.objectId, hid]⟩, rfl⟩

/-- A branch that swaps freely or not at all commits over any value. -/
theorem SwapsFreely.exists_suits_ne (h : SwapsFreely k winner) (hcan : CanCommit winner)
    (e : Bytes) :
    ∃ held, Suits winner k held ∧ held.value ≠ e := by
  obtain ⟨value, hne⟩ := exists_bytes_ne e
  obtain ⟨records, hwritten, hswaps⟩ := h
  cases hentry : winner.writeBuffer.find k with
  | none =>
    obtain ⟨v, hbased, hread⟩ := hcan.exists_version k
    refine ⟨{ value, version := v }, ⟨fun entry hfind => ?_, hbased, hread⟩, hne⟩
    rw [hentry] at hfind
    cases hfind
  | some entry =>
    obtain ⟨record, hrecord, hrecorded, -⟩ := hwritten.exists_record hentry
    have hid : record.entry.objectId = k := by
      rw [hrecorded]
      exact winner.writeBuffer.consistent.objectId_eq hentry
    have hlive : record.intent ∈ live winner.intentLog.entries k := by
      rw [mem_live, hwritten.intents]
      exact ⟨List.mem_map_of_mem hrecord, (hswaps record hrecord (.inl hid)).1⟩
    obtain ⟨last, hlast⟩ : ∃ last, IsLatest winner k last :=
      ⟨_, List.getLast?_eq_getLast_of_ne_nil (List.ne_nil_of_mem hlive)⟩
    -- the latest intent is one of the swaps
    have hmem := List.mem_of_getLast? hlast
    rw [mem_live, hwritten.intents, List.mem_map] at hmem
    obtain ⟨⟨latest, hlatest, rfl⟩, hnamed⟩ := hmem
    obtain ⟨-, htype, hcondition⟩ := hswaps latest hlatest (.inr hnamed)
    refine ⟨{ value, version := 0 }, suits_of_rebased hentry hlast ?_ ?_ 0, hne⟩
    · rw [htype]
      rfl
    · simp [resolveWrite, htype, hcondition]

/-- A swap of the value for another one. -/
structure SwapsValue (intent : WriteIntent) (e : Bytes) : Prop where
  intentType : intent.intentType = .cas
  condition : intent.condition = { type := .valueEquals, expectedValue := e }

/-- Recovery has lost the condition of a swap: the commit of the branch tells something
about the value it meets only if the branch can commit nowhere. -/
theorem commitTask_recovered_condition_iff
    (hwork : WorkedOn .memory config Allowed session) (hlog : HoldsLog w path session)
    {recovered : RecoveredTaskSession}
    (hrecovered : ((recoverSessionFromLog config' path).run (handle .memory) w).1 = .ok recovered)
    {continued : TaskSession}
    (hrun : Relation.ReflTransGen (WorkStep .memory config' (SessionOp.Spares winner.branchId k))
      recovered.session continued) (hs : Selects continued.txn winner) {branch : BranchContext}
    (hbranch : session.txn.findBranch winner.branchId = some branch) {swap : WriteIntent}
    (honly : intentsOn branch k = [swap]) {e : Bytes} (hswap : SwapsValue swap e) :
    (∀ w', ((continued.commitTask config').run (handle .memory) w').1.1 = .ok true →
      (w'.store.get k).value = e) ↔
      ¬CanCommit winner := by
  obtain ⟨-, hmirrors⟩ := hwork.synced_recovered hlog hrecovered
  have hsimulate : continued.txn.fallbackCommit.simulateCrashAfterApplyCount = 0 := by
    rw [fallbackCommit_of_work hrun]
    exact simulate_of_recovered hrecovered
  have hswaps : SwapsFreely k winner := by
    refine swapsFreely_of_work hrun (fun rebuilt hrebuilt => ?_) winner hs.2
    apply swapsFreely_of_mirrors (hmirrors.mirrors hbranch hrebuilt)
    rw [honly]
    exact List.forall_mem_singleton.2 hswap.intentType
  constructor
  · intro htells hcan
    obtain ⟨held, hsuits, hne⟩ := hswaps.exists_suits_ne hcan e
    obtain ⟨s', -, hget, hcommittable⟩ := exists_committable hcan hsuits .memory continued.txn {}
    have hvalue :=
        htells { store := s' } ((run_commitTask_true_iff_committable hs hsimulate).2 hcommittable)
    rw [hget] at hvalue
    exact hne hvalue
  · intro hcannot w' htrue
    have hcommittable := (run_commitTask_true_iff_committable hs hsimulate).1 htrue
    exact absurd (canCommit_of_ready hcommittable.1) hcannot

/-- The intent to swap `abc` for `x`. -/
def swapK : WriteIntent where
  objectId := ascii "k"
  intentType := .cas
  payload := ascii "x"
  condition := { type := .valueEquals, expectedValue := ascii "abc" }

theorem commitTask_recovered_condition_swapK :
    (∀ w', (((recoveredIn holdsText (notedWrite swapK)).session.commitTask {}).run
      (handle .memory) w').1.1 = .ok true →
        (w'.store.get (ascii "k")).value = ascii "abc") ↔
      ¬CanCommit (onlyBranch (recoveredIn holdsText (notedWrite swapK)).session) :=
  commitTask_recovered_condition_iff (workedOn_notedWrite swapK) (holdsLog_loggedIn holdsText swapK)
    rfl .refl ⟨rfl, rfl⟩
    (show (notedWrite swapK).txn.findBranch _ = some (onlyBranch (notedWrite swapK)) from rfl)
    (show intentsOn (onlyBranch (notedWrite swapK)) (ascii "k") = [swapK] from rfl) ⟨rfl, rfl⟩

/-- The recovered task swaps although the expected value is gone. -/
theorem commitTask_recovered_not_condition :
    ∃ recovered winner, WorkedOn .memory {} (fun _ _ => True) (notedWrite swapK) ∧
      HoldsLog (loggedIn holdsText (notedWrite swapK)) (ascii "log") (notedWrite swapK) ∧
      ((recoverSessionFromLog {} (ascii "log")).run (handle .memory)
        (loggedIn holdsText (notedWrite swapK))).1 =
        .ok recovered ∧
      Selects recovered.session.txn winner ∧
      (notedWrite swapK).txn.findBranch winner.branchId = some (onlyBranch (notedWrite swapK)) ∧
      intentsOn (onlyBranch (notedWrite swapK)) (ascii "k") = [swapK] ∧
        SwapsValue swapK (ascii "abc") ∧
      ((recovered.session.commitTask {}).run (handle .memory) AgentTxn.movedOn).1.1 = .ok true ∧
      (AgentTxn.movedOn.store.get (ascii "k")).value ≠ ascii "abc" :=
  ⟨recoveredIn holdsText (notedWrite swapK),
    onlyBranch (recoveredIn holdsText (notedWrite swapK)).session, workedOn_notedWrite swapK,
    holdsLog_loggedIn holdsText swapK, rfl, ⟨rfl, rfl⟩, rfl, rfl, ⟨rfl, rfl⟩, rfl, by decide⟩

end DataAgentSystem.Runtime
