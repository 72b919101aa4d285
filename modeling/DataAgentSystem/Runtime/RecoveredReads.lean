import DataAgentSystem.Runtime.WorkHistory

/-! The read sets that recovery rebuilds. A branch records a read that goes to the store, and
none that its own buffer answers; the log tells of both alike, and playing it records them
all. So a read set is rebuilt exactly if the branch has read nothing that it had written. -/

namespace DataAgentSystem.Runtime

open Text Intent Cache Branch Storage Interaction AgentTxn

variable {kind : StoreKind} {config config' : FallbackCommitRuntimeConfig}
  {session : TaskSession} {branch : BranchContext} {branchId : Bytes}
  {ops : List (SessionOp × World)} {history : List (BranchOp × World)} {txn : AgentTxnContext}
  {w : World} {path : Bytes}

/-- What the branch of each name has read is the same. -/
def SameReads (txn txn' : AgentTxnContext) : Prop :=
  ∀ branchId, (txn'.findBranch branchId).map (·.readSet.entries) =
    (txn.findBranch branchId).map (·.readSet.entries)

/-- No object is read that is in the buffer. -/
def ReadsUnbuffered (kind : StoreKind) (branchId : Bytes)
    (history : List (BranchOp × World)) : Prop :=
  ∀ n objectId w, history[n]? = some (.read objectId, w) →
    (worked kind branchId (history.take n)).writeBuffer.find objectId = none

/-- The read that an event tells of, if it is of the branch. -/
def readOf (branchId : Bytes) (event : TaskEvent) : Option ReadRecord :=
  if event.type = .read ∧ event.branchId = branchId then
    some { objectId := event.objectId, observedVersion := event.numericValue.toUInt64 }
  else none

/-- The reads of the branch that the events tell of. -/
def loggedReads (branchId : Bytes) (events : List TaskEvent) : List ReadRecord :=
  events.filterMap (readOf branchId)

/-! ### Histories -/

theorem readsUnbuffered_nil (kind : StoreKind) (branchId : Bytes) :
    ReadsUnbuffered kind branchId [] := by
  intro n objectId w h
  simp at h

theorem readsUnbuffered_snoc {op : BranchOp × World} :
    ReadsUnbuffered kind branchId (history ++ [op]) ↔
    ReadsUnbuffered kind branchId history ∧
      ∀ objectId, op.1 = .read objectId →
        (worked kind branchId history).writeBuffer.find objectId = none := by
  constructor
  · intro h
    refine ⟨fun n objectId w hop => ?_, fun objectId hop => ?_⟩
    · have hlt := (List.getElem?_eq_some_iff.1 hop).1
      have hfind := h n objectId w (by rw [List.getElem?_append_left hlt, hop])
      rwa [List.take_append_of_le_length hlt.le] at hfind
    · have hfind := h history.length objectId op.2 (by simp [← hop])
      rwa [List.take_left] at hfind
  · rintro ⟨hold, hnew⟩ n objectId w hop
    rcases Nat.lt_or_ge n history.length with hlt | hge
    · rw [List.getElem?_append_left hlt] at hop
      rw [List.take_append_of_le_length hlt.le]
      exact hold n objectId w hop
    · rw [List.getElem?_append_right hge] at hop
      obtain hsub : n - history.length = 0 := by
        have hlt := (List.getElem?_eq_some_iff.1 hop).1
        simpa using hlt
      rw [hsub] at hop
      obtain rfl : op = (.read objectId, w) := Option.some.inj hop
      rw [show n = history.length by omega, List.take_left]
      exact hnew objectId rfl

/-- Only reading changes the read set. -/
theorem readSet_perform {op : BranchOp × World} (hop : ∀ objectId, op.1 ≠ .read objectId) :
    (BranchOp.perform kind branch op).readSet = branch.readSet := by
  obtain ⟨op, w⟩ := op
  cases op with
  | read objectId => exact absurd rfl (hop objectId)
  | write objectId objectType intent =>
    show ((BranchManager.bufferWrite branch objectId objectType intent).run (handle kind)
      w).1.readSet = branch.readSet
    unfold BranchManager.bufferWrite
    cases branch.writeBuffer.find objectId <;> rfl
  | savepoint savepointId => rfl
  | rollbackToSavepoint savepointId =>
    show (RollbackManager.rollbackToSavepoint branch savepointId).2.readSet = branch.readSet
    unfold RollbackManager.rollbackToSavepoint
    cases branch.savepoints.find? fun savepoint => savepoint.savepointId = savepointId <;> rfl
  | stage score summary => rfl

/-! ### The log -/

theorem loggedReads_append (branchId : Bytes) (events recorded : List TaskEvent) :
    loggedReads branchId (events ++ recorded) = loggedReads branchId events ++
      loggedReads branchId recorded :=
  List.filterMap_append ..

theorem loggedReads_eq_nil {events : List TaskEvent}
    (h : ∀ event ∈ events, ¬(event.type = .read ∧ event.branchId = branchId)) :
    loggedReads branchId events = [] :=
  List.filterMap_eq_nil_iff.2 fun event hevent => if_neg (h event hevent)

/-- The reads that a branch has recorded are among those the events tell of, and they are all of
these exactly if none was answered by the buffer. -/
structure RecordsReads (kind : StoreKind) (branchId : Bytes) (history : List (BranchOp × World))
    (branch : BranchContext) (logged : List ReadRecord) : Prop where
  sublist : branch.readSet.entries.Sublist logged
  all_iff : branch.readSet.entries = logged ↔ ReadsUnbuffered kind branchId history

theorem RecordsReads.read {logged : List ReadRecord}
    (h : RecordsReads kind branchId history (worked kind branchId history) logged)
    (objectId : Bytes) (w : World) :
    RecordsReads kind branchId (history ++ [(.read objectId, w)])
      ((BranchManager.readObject (worked kind branchId history) objectId).run (handle kind) w).1.2
      (logged ++ [{
        objectId
        observedVersion :=
          ((BranchManager.readObject (worked kind branchId history) objectId).run
            (handle kind) w).1.1.version }]) := by
  have hsnoc := @readsUnbuffered_snoc kind branchId history (.read objectId, w)
  unfold BranchManager.readObject
  cases hfind : (worked kind branchId history).writeBuffer.find objectId with
  | some buffered =>
    refine ⟨h.sublist.trans (List.sublist_append_left _ _),
      iff_of_false (fun heq => ?_) fun hall => ?_⟩
    · have hlt : (worked kind branchId history).readSet.entries.length = logged.length + 1 := by
        simpa using congrArg List.length heq
      have hle := h.sublist.length_le
      omega
    · have hnone := (hsnoc.1 hall).2 objectId rfl
      rw [hfind] at hnone
      cases hnone
  | none =>
    refine ⟨h.sublist.append (List.Sublist.refl _), ?_⟩
    rw [hsnoc, ← h.all_iff]
    have hnew : ∀ id, (BranchOp.read objectId, w).1 = .read id →
        (worked kind branchId history).writeBuffer.find id = none := by
      rintro id ⟨rfl⟩
      exact hfind
    exact List.append_left_inj _ |>.trans (and_iff_left hnew).symm

theorem RecordsReads.perform {logged : List ReadRecord}
    (h : RecordsReads kind branchId history branch logged) {op : BranchOp × World}
    (hop : ∀ objectId, op.1 ≠ .read objectId) :
    RecordsReads kind branchId (history ++ [op]) (BranchOp.perform kind branch op) logged := by
  have hreads := @readSet_perform kind branch op hop
  refine ⟨by rw [hreads]; exact h.sublist, ?_⟩
  rw [hreads, h.all_iff, readsUnbuffered_snoc]
  exact (and_iff_left fun objectId heq => absurd heq (hop objectId)).symm

theorem eq_read_of_toBranchOp {op : SessionOp} {objectId : Bytes}
    (h : op.toBranchOp = some (.read objectId)) :
    ∃ branchId, op = .read branchId objectId := by
  cases op with
  | read branchId objectId =>
    cases h
    exact ⟨branchId, rfl⟩
  | _ => cases h

theorem toBranchOp_of_eventType {op : SessionOp} (h : op.eventType = .read) :
    ∃ objectId, op.toBranchOp = some (.read objectId) := by
  cases op with
  | read branchId objectId => exact ⟨objectId, rfl⟩
  | _ => cases h

theorem run_read_fst (hfound : txn.findBranch branchId = some branch)
    (objectId : Bytes) (w : World) :
    ((txn.read branchId objectId).run (handle kind) w).1.1 =
      ((BranchManager.readObject branch objectId).run (handle kind) w).1.1 := by
  simp only [AgentTxnContext.read, hfound, Program.run_bind, Program.pure_eq_ret, Program.run_ret]

theorem WorkedWith.recordsReads (h : WorkedWith kind config ops session)
    (hfound : session.txn.findBranch branchId = some branch) :
    RecordsReads kind branchId (branchHistory branchId ops) branch
      (loggedReads branchId session.events) := by
  refine h.induct (P := fun ops session => ∀ branch, session.txn.findBranch branchId = some branch →
    RecordsReads kind branchId (branchHistory branchId ops) branch
      (loggedReads branchId session.events)) ?_ ?_ branch hfound
  · intro task plan w session hsubmit branch hfound
    obtain rfl := findBranch_of_submitTask hsubmit hfound
    have hnone : loggedReads branchId session.events = [] :=
        loggedReads_eq_nil fun event hevent hread => by
      rcases types_of_submitTask hsubmit event hevent with htype | htype <;>
        rw [htype] at hread <;> cases hread.1
    rw [hnone]
    exact ⟨List.Sublist.refl _, iff_of_true rfl (readsUnbuffered_nil kind branchId)⟩
  · rintro ops ⟨op, w⟩ session hworked hworks ih branch hfound
    rw [findBranch_perform hworks] at hfound
    obtain ⟨recorded, hevents, hrecorded⟩ :=
      @exists_recorded_perform kind config op hworks session w
    by_cases heq : branchId = op.branchId
    · rw [if_pos heq, Option.map_eq_some_iff] at hfound
      obtain ⟨before, hbefore, rfl⟩ := hfound
      obtain ⟨branchOp, hop, hperform⟩ := @onBranch_eq_perform kind op hworks before w
      have hhistory := @branchHistory_snoc_of_eq branchId (op, w) ops heq.symm branchOp hop
      rw [hhistory]
      by_cases hread : ∃ objectId, branchOp = .read objectId
      · obtain ⟨objectId, rfl⟩ := hread
        obtain rfl := hworked.branch_eq hbefore
        obtain ⟨b, rfl⟩ := eq_read_of_toBranchOp hop
        obtain rfl : branchId = b := heq
        have hlogged : loggedReads branchId
            (((SessionOp.read branchId objectId).perform config session).run
              (handle kind) w).1.events =
              loggedReads branchId session.events ++ [{
                objectId
                observedVersion :=
                  ((BranchManager.readObject (worked kind branchId (branchHistory branchId ops))
                    objectId).run
                    (handle kind) w).1.1.version }] := by
          rw [run_perform_read, run_read_fst hbefore]
          show loggedReads branchId (session.events ++ [_]) = _
          rw [loggedReads_append]
          congr 1
          simp [loggedReads, readOf]
        rw [hlogged]
        exact (ih _ hbefore).read objectId w
      · rw [hperform]
        have hnone : loggedReads branchId recorded = [] :=
            loggedReads_eq_nil fun event hevent hsame => by
          obtain ⟨objectId, hop'⟩ :=
            toBranchOp_of_eventType ((hrecorded event hevent).1.symm.trans hsame.1)
          exact hread ⟨objectId, Option.some.inj (hop.symm.trans hop')⟩
        rw [hevents, loggedReads_append, hnone, List.append_nil]
        exact (ih before hbefore).perform fun objectId hsame => hread ⟨objectId, hsame⟩
    · rw [if_neg heq] at hfound
      have hnone : loggedReads branchId recorded = [] :=
          loggedReads_eq_nil fun event hevent hsame =>
        heq (hsame.2.symm.trans (hrecorded event hevent).2)
      rw [branchHistory_snoc_of_ne ops (Ne.symm heq), hevents, loggedReads_append, hnone,
        List.append_nil]
      exact ih branch hfound

/-! ### Recovery -/

/-- What changes no read set does not show in the reads. -/
theorem map_reads_elim_setBranch (txn : AgentTxnContext) {op : BranchOp × World}
    (hop : ∀ objectId, op.1 ≠ .read objectId) (changedId branchId : Bytes) :
    (((txn.findBranch changedId).elim txn fun branch =>
      txn.setBranch (BranchOp.perform kind branch op)).findBranch
        branchId).map (·.readSet.entries) = (txn.findBranch branchId).map (·.readSet.entries) := by
  have hid : ∀ branch, (BranchOp.perform kind branch op).branchId = branch.branchId := by
    intro branch
    obtain ⟨op, w⟩ := op
    cases op with
    | read objectId => exact branchId_onBranch (.read [] objectId) branch w
    | write objectId objectType intent =>
      exact branchId_onBranch (.write [] objectId objectType intent) branch w
    | savepoint savepointId => rfl
    | rollbackToSavepoint savepointId =>
      exact RollbackManager.rollbackToSavepoint_branchId branch savepointId
    | stage score summary => rfl
  rw [findBranch_elim_setBranch txn hid]
  split
  · rw [Option.map_map]
    congr 1
    funext branch
    exact congrArg ReadSet.entries (readSet_perform hop)
  · rfl

/-- An event that is played adds the read that it tells of. -/
theorem map_reads_replayEvent (txn : AgentTxnContext) (event : TaskEvent)
    (w : World) (branchId : Bytes) :
    ((((replayEvent txn event.parsed).run (handle kind) w).1).findBranch branchId).map
      (·.readSet.entries) =
      (txn.findBranch branchId).map fun branch => branch.readSet.entries ++
        (readOf branchId event).toList := by
  have hother : event.type ≠ .read → (txn.findBranch branchId).map (·.readSet.entries) =
      (txn.findBranch branchId).map fun branch => branch.readSet.entries ++
          (readOf branchId event).toList := by
    intro htype
    have hnone : readOf branchId event = none := if_neg fun h => htype h.1
    simp [hnone]
  rw [replayEvent_parsed]
  cases htype : event.type with
  | read =>
    show ((replayRead txn event.parsed).findBranch branchId).map _ = _
    rw [replayRead_eq]
    have hfind := findBranch_elim_setBranch txn (f := fun b => { b with
      status := .running, readSet := b.readSet.record event.objectId event.numericValue.toUInt64 })
        (fun _ => rfl)
      event.branchId branchId
    refine (congrArg _ hfind).trans ?_
    by_cases heq : branchId = event.branchId
    · rw [if_pos heq, Option.map_map, readOf, if_pos ⟨htype, heq.symm⟩]
      rfl
    · rw [if_neg heq, readOf, if_neg fun h => heq h.2.symm]
      simp
  | write =>
    refine Eq.trans ?_ (hother (by rw [htype]; nofun))
    show (((txn.write _ _ _ _).run (handle kind) w).1.findBranch branchId).map _ = _
    rw [MirrorsTxn.run_write_eq]
    exact @map_reads_elim_setBranch kind txn
      (.write event.objectId .generic (replayedIntent event.parsed), w) nofun _ _
  | savepoint =>
    refine Eq.trans ?_ (hother (by rw [htype]; nofun))
    show ((txn.savepoint _ _).findBranch branchId).map _ = _
    rw [MirrorsTxn.savepoint_eq]
    exact @map_reads_elim_setBranch kind txn (.savepoint event.detail, w) nofun _ _
  | rollbackToSavepoint =>
    refine Eq.trans ?_ (hother (by rw [htype]; nofun))
    show ((txn.rollbackToSavepoint _ _).2.findBranch branchId).map _ = _
    rw [MirrorsTxn.rollbackToSavepoint_eq]
    exact @map_reads_elim_setBranch kind txn (.rollbackToSavepoint event.detail, w) nofun _ _
  | stageBranch =>
    refine Eq.trans ?_ (hother (by rw [htype]; nofun))
    show ((txn.stageBranch _ _ _).findBranch branchId).map _ = _
    rw [MirrorsTxn.stageBranch_eq]
    exact @map_reads_elim_setBranch kind txn
      (.stage (.ofInt64 event.numericValue) event.detail, w) nofun _ _
  | _ => exact hother (by rw [htype]; nofun)

theorem loggedReads_cons (branchId : Bytes) (event : TaskEvent) (events : List TaskEvent) :
    loggedReads branchId (event :: events) = (readOf branchId event).toList ++
      loggedReads branchId events := by
  rw [loggedReads, List.filterMap_cons]
  cases readOf branchId event <;> rfl

theorem map_reads_replay (txn : AgentTxnContext) (events : List TaskEvent)
    (w : World) (branchId : Bytes) :
    ((events.foldl (taskJournal kind w).play txn).findBranch branchId).map (·.readSet.entries) =
      (txn.findBranch branchId).map fun branch => branch.readSet.entries ++
        loggedReads branchId events := by
  induction events generalizing txn with
  | nil => simp [loggedReads]
  | cons event events ih =>
    have hevent := congrArg (Option.map (· ++ loggedReads branchId events))
      (@map_reads_replayEvent kind txn event w branchId)
    rw [Option.map_map, Option.map_map] at hevent
    rw [List.foldl_cons, ih, loggedReads_cons]
    refine hevent.trans ?_
    congr 1
    funext branch
    exact List.append_assoc ..

theorem reads_recovered (h : InWork session) {metadata : List (Bytes × Bytes)}
    {recovered : RecoveredTaskSession}
    (hrecovers : Recovers kind w path (writtenArtifact session metadata) recovered)
    (branchId : Bytes) :
    (recovered.session.txn.findBranch branchId).map (·.readSet.entries) =
      (session.txn.findBranch branchId).map fun _ => loggedReads branchId session.events := by
  obtain ⟨begun, status, hbegun, hbranches⟩ := hrecovers.branches
  have hids : begun.branches.map (·.branchId) = session.txn.branches.map (·.branchId) := by
    rw [hbegun, hrecovers.recoveryPlan, h.branchPlans, h.branchIds, List.map_map, List.map_map]
    rfl
  have hreplayed := @map_reads_replay kind begun session.events w branchId
  have hplayed : ((writtenArtifact session metadata).events.foldl (fun txn event =>
      ((replayEvent txn event).run (handle kind) w).1) begun) =
          session.events.foldl (taskJournal kind w).play begun := by
    show (session.events.map TaskEvent.parsed).foldl _ begun = _
    rw [List.foldl_map]
    rfl
  have hfound : (recovered.session.txn.findBranch branchId).map (·.readSet.entries) =
      ((session.events.foldl (taskJournal kind w).play begun).findBranch branchId).map
          (·.readSet.entries) := by
    rw [AgentTxnContext.findBranch, hbranches, hplayed,
      BranchManager.findBranch_map (by exact fun _ => rfl), Option.map_map]
    rfl
  have hsame : (begun.findBranch branchId).isSome ↔ (session.txn.findBranch branchId).isSome := by
    rw [AgentTxnContext.findBranch, AgentTxnContext.findBranch,
      BranchManager.findBranch_isSome, hids, BranchManager.findBranch_isSome]
  rw [hfound, hreplayed]
  cases hbegan : begun.findBranch branchId with
  | none =>
    rw [hbegan] at hsame
    rw [Option.not_isSome_iff_eq_none.1 (hsame.not.1 Bool.false_ne_true)]
    rfl
  | some branch =>
    rw [hbegan] at hsame
    obtain ⟨original, horiginal⟩ := Option.isSome_iff_exists.1 (hsame.1 rfl)
    have hmem : branch ∈ begun.branches := BranchManager.mem_of_findBranch hbegan
    rw [hbegun] at hmem
    obtain ⟨branchPlan, -, rfl⟩ := List.mem_map.1 hmem
    rw [horiginal]
    rfl

/-- A read set is rebuilt from the log exactly if the branch has read nothing that it had
written. -/
theorem recoverSessionFromLog_reads_iff (config' : FallbackCommitRuntimeConfig)
    (hwork : WorkedWith kind config ops session) (hlog : HoldsLog w path session) :
    ∃ recovered, (recoverSessionFromLog config' path).run (handle kind) w = (.ok recovered, w) ∧
      (SameReads session.txn recovered.session.txn ↔
        ∀ branchId, (session.txn.findBranch branchId).isSome →
          ReadsUnbuffered kind branchId (branchHistory branchId ops)) := by
  obtain ⟨metadata, recovered, hrun, hrecovers⟩ :=
    @InWork.recovers kind _ _ _ hwork.workedOn.inWork config' hlog
  refine ⟨recovered, hrun, forall_congr' fun branchId => ?_⟩
  rw [reads_recovered hwork.workedOn.inWork hrecovers]
  cases hfound : session.txn.findBranch branchId with
  | none => simp
  | some branch =>
    rw [← (hwork.recordsReads hfound).all_iff]
    simp [eq_comm]

/-- Two branches read, each of them what the other one writes. -/
def readsAcross : List (SessionOp × World) := [
  (.read (ascii "a") (ascii "k"), rivalWorld),
  (.write (ascii "b") (ascii "k") .text (appendToK (ascii "x")), rivalWorld),
  (.savepoint (ascii "b") (ascii "s"), rivalWorld),
  (.read (ascii "b") (ascii "l"), {}),
  (.rollbackToSavepoint (ascii "b") (ascii "s"), rivalWorld),
  (.read (ascii "a") (ascii "k"), {})]

theorem recoverSessionFromLog_reads_iff_readsAcross :
    let session := performedOn .memory {} rivals readsAcross
    ∃ recovered,
      (recoverSessionFromLog {} (ascii "log")).run (handle .memory) (loggedIn {} session) =
        (.ok recovered, loggedIn {} session) ∧
      (SameReads session.txn recovered.session.txn ↔ ∀ branchId,
        (session.txn.findBranch branchId).isSome →
        ReadsUnbuffered .memory branchId (branchHistory branchId readsAcross)) :=
  recoverSessionFromLog_reads_iff {}
    ⟨by simp [readsAcross, SessionOp.works], noteTask, rivalPlan, {}, rivals, rfl, rfl⟩
    (holdsLog_writeTaskEventLogArtifact (List.Perm.refl _) .memory (ascii "log") {})

/-- An object is written, and then read by the branch that has written it. -/
def readsOwnWrite : List (SessionOp × World) := [
  (.write (ascii "b") (ascii "k") .text (appendToK (ascii "x")), {}),
  (.read (ascii "b") (ascii "k"), {})]

/-- The branch has recorded no read, and the recovered one has recorded one. -/
theorem recoverSessionFromLog_not_sameReads :
    WorkedWith .memory {} readsOwnWrite (performedOn .memory {} noted readsOwnWrite) ∧
      ∃ recovered, ((recoverSessionFromLog {} (ascii "log")).run (handle .memory)
          (loggedIn {} (performedOn .memory {} noted readsOwnWrite))).1 = .ok recovered ∧
        ¬SameReads (performedOn .memory {} noted readsOwnWrite).txn recovered.session.txn := by
  refine ⟨⟨by simp [readsOwnWrite, SessionOp.works], noteTask, notePlan, {}, noted, rfl, rfl⟩, _,
    rfl, fun h => ?_⟩
  exact absurd (h (ascii "b")) (by decide)

end DataAgentSystem.Runtime
