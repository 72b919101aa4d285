import DataAgentSystem.Runtime.AcceptedLogs
import DataAgentSystem.Runtime.StagedWinner

/-! What recovery makes of a task that has ended. The status, the phase and the flag come back
from the log. The winner does not: the session that is rebuilt begins a new transaction,
which never learns it, whereas every commit that returns has named one. -/

namespace DataAgentSystem.Runtime

open Text Intent Cache Branch Storage Interaction AgentTxn

variable {kind : StoreKind} {config config' : FallbackCommitRuntimeConfig}
  {session session' : TaskSession} {txn txn' : AgentTxnContext} {committed : Bool}
  {w : World} {path : Bytes}

/-- A read of a session, in whatever world. -/
inductive ReadStep : TaskSession → TaskSession → Prop
  | read {session session' : TaskSession} {kind : StoreKind} {branchId objectId : Bytes}
      {calls : List (Event Call World)}
      {result : ReadResult} : (session.read branchId objectId).Interfered (handle kind)
        calls (result, session') →
      ReadStep session session'

/-- A session that has been reached, whose commit has returned, and which has only read since. -/
structure EndedWith (committed : Bool) (session : TaskSession) : Prop where
  ended : ∃ before after config kind, ∃ calls : List (Event Call World), SessionReached before ∧
    (before.commitTask config).Interfered (handle kind) calls (.ok committed, after) ∧
      Relation.ReflTransGen ReadStep after session

/-- The sessions tell of the same outcome, and the branches of a committed one of the winner. -/
structure SameOutcome (session recovered : TaskSession) : Prop where
  status : recovered.txn.status = session.txn.status
  phase : recovered.task.phase = session.task.phase
  committed : recovered.committed = session.committed
  winnerBranchId : recovered.txn.winnerBranchId = session.txn.winnerBranchId
  branches : session.committed = true → ∀ branch ∈ recovered.txn.branches,
    branch.status = if branch.branchId = session.txn.winnerBranchId then .committed else .discarded

/-! ### The winner of a commit -/

/-- There are branches, and all of them have names. -/
structure Identified (txn : AgentTxnContext) : Prop where
  nonempty : txn.branches ≠ []
  named : ∀ branchId ∈ txn.branches.map (·.branchId), branchId ≠ []

theorem Identified.of_branchIds (h : Identified txn)
    (hids : txn'.branches.map (·.branchId) = txn.branches.map (·.branchId)) :
    Identified txn' := by
  refine ⟨branches_ne_nil_of_branchIds hids h.nonempty, ?_⟩
  rw [hids]
  exact h.named

theorem identified_submitTask (config : FallbackCommitRuntimeConfig)
    (task : TaskContext) (plan : ExecutionPlan) :
    (submitTask config task plan).Returns fun r => ∀ session, r = .ok session →
      Identified session.txn := by
  refine (returns_isSubmitted config task plan).mono fun r hr session hsession => ?_
  obtain ⟨-, hplan, hsubmitted⟩ := hr session hsession
  have hvalid := ExecutionPlan.validate_ok hplan
  constructor
  · rw [hsubmitted.branches]
    exact fun hnil => hvalid.nonempty (List.map_eq_nil_iff.1 hnil)
  · rw [hsubmitted.branches, List.map_map]
    exact List.forall_mem_map.2 hvalid.named

theorem returns_sessionOp_branchIds (config : FallbackCommitRuntimeConfig)
    (session : TaskSession) (op : SessionOp) :
    (op.perform config session).Returns fun session' =>
      session'.txn.branches.map (·.branchId) = session.txn.branches.map (·.branchId) := by
  have hnumber : (∀ w, op.StagesNumber w) → (op.perform config session).Returns fun session' =>
      session'.txn.branches.map (·.branchId) = session.txn.branches.map (·.branchId) :=
    fun hop => (returns_sessionOp_keepsContest config session hop).mono fun _ hkeeps =>
      hkeeps.branchIds
  cases op with
  | stageBranch branchId score summary =>
    show (session.txn.stageBranch branchId score summary).branches.map (·.branchId) =
      session.txn.branches.map (·.branchId)
    rw [MirrorsTxn.stageBranch_eq]
    cases session.txn.findBranch branchId with
    | none => rfl
    | some branch => exact BranchManager.map_branchId_replaceBranch _ _
  | _ => exact hnumber fun _ => trivial

theorem identified_of_reached (h : SessionReached session) : Identified session.txn := by
  have hkeeps : ∀ {txn txn' : AgentTxnContext}, Identified txn →
      KeepsContest txn txn' → Identified txn' :=
    fun hidentified hkeeps => hidentified.of_branchIds hkeeps.branchIds
  induction h with
  | submitted hsubmit => exact (identified_submitTask _ _ _).interfered hsubmit _ rfl
  | operated _ hstep ih =>
    obtain ⟨config, kind, op, calls, hop⟩ := hstep
    exact ih.of_branchIds ((returns_sessionOp_branchIds config _ op).interfered hop)
  | recovered _ _ hbuild hexecute _ =>
    have hbuilt := ((keptByRecovery_of_keeps (identified_submitTask _) hkeeps).built _).interfered
      hbuild _ rfl
    exact (keptByExecution_of_keeps (identified_submitTask _) hkeeps hbuilt).returns.interfered
      hexecute

theorem ReadStep.winnerBranchId (h : ReadStep session session') :
    session'.txn.winnerBranchId = session.txn.winnerBranchId := by
  obtain ⟨hread⟩ := h
  rename_i branchId objectId calls result
  have hreturns : (session.read branchId objectId).Returns fun out => out.2.txn.winnerBranchId =
      session.txn.winnerBranchId :=
    (AgentTxnContext.returns_read session.txn branchId objectId).bind fun out hsame =>
      hsame.winnerBranchId
  exact hreturns.interfered hread

/-- A session that has ended knows the winner of its commit. -/
theorem EndedWith.winnerBranchId_ne (h : EndedWith committed session) :
    session.txn.winnerBranchId ≠ [] := by
  obtain ⟨before, after, config, kind, calls, hbefore, hcommit, hreads⟩ := h
  have hidentified := identified_of_reached hbefore
  obtain ⟨winnerBranchId, hselect, hmem⟩ := BranchManager.selectWinner_ok hidentified.nonempty
  have hafter : after.txn.winnerBranchId = winnerBranchId :=
    ((returns_commitTask_keepsContest config before).interfered hcommit).2 _ hselect
  have hkept : session.txn.winnerBranchId = after.txn.winnerBranchId := by
    induction hreads with
    | refl => rfl
    | tail _ hread ih => exact hread.winnerBranchId.trans ih
  rw [hkept, hafter]
  exact hidentified.named winnerBranchId hmem

theorem ReadStep.operationStep (h : ReadStep session session') :
    OperationStep session session' := by
  obtain ⟨hread⟩ := h
  rename_i kind branchId objectId calls result
  exact ⟨{}, kind, .read branchId objectId, calls,
    Program.interfered_bind.2
    ⟨calls, _, [], (List.append_nil _).symm, hread, Program.interfered_ret.2 ⟨rfl, rfl⟩⟩⟩

theorem EndedWith.reached (h : EndedWith committed session) : SessionReached session := by
  obtain ⟨before, after, config, kind, calls, hbefore, hcommit, hreads⟩ := h
  induction hreads with
  | refl =>
    exact .operated hbefore ⟨config, kind, .commitTask, calls,
      Program.interfered_bind.2
      ⟨calls, _, [], (List.append_nil _).symm, hcommit, Program.interfered_ret.2 ⟨rfl, rfl⟩⟩⟩
  | tail _ hread ih => exact .operated ih hread.operationStep

/-! ### What recovery restores -/

/-- What a commit that returns leaves of its session, and no read changes. -/
structure ConcludedAs (committed : Bool) (session : TaskSession) : Prop where
  flag : session.committed = committed
  phase : session.task.phase = if committed then .committed else .aborted
  status : session.txn.status = if committed then .committed else .aborted
  last : committed = false → ∀ event, session.events.getLast? = some event →
    event.type ≠ .commitTask

theorem returns_commitTask_concluded (config : FallbackCommitRuntimeConfig)
    (session : TaskSession) :
    (session.commitTask config).Returns fun out => ∀ committed, out.1 = .ok committed →
      ConcludedAs committed out.2 := by
  apply (AgentTxnManager.returns_selectWinnerAndCommit session.attempt.txn).bind
  rintro ⟨result, txn⟩ ⟨hstatus, -⟩
  cases result with
  | error what => exact nofun
  | ok committed =>
    have hconcluded : ConcludedAs committed
        (({ session.attempt with txn } : TaskSession).conclude committed) := by
      cases committed with
      | true => exact ⟨rfl, rfl, hstatus, nofun⟩
      | false =>
        refine ⟨rfl, rfl, hstatus, fun _ event hlast => ?_⟩
        obtain rfl := Option.some.inj (List.getLast?_concat.symm.trans hlast)
        nofun
    refine (returns_finalize_noted config _).bind fun finalized hfinalized => ?_
    cases finalized with
    | error what => exact nofun
    | ok ended =>
      rintro _ ⟨⟩
      rcases hfinalized ended rfl with rfl | ⟨artifactPath, maintenance, rfl⟩
      · exact hconcluded
      · exact ⟨hconcluded.flag, hconcluded.phase, hconcluded.status, hconcluded.last⟩

theorem ConcludedAs.read (h : ConcludedAs committed session) (hread : ReadStep session session') :
    ConcludedAs committed session' := by
  obtain ⟨hread⟩ := hread
  rename_i branchId objectId calls result
  have hreturns : (session.read branchId objectId).Returns fun out =>
      ConcludedAs committed out.2 := by
    refine (AgentTxnContext.returns_read session.txn branchId objectId).bind fun out hsame => ?_
    refine ⟨h.flag, h.phase, hsame.status.trans h.status, fun _ event hlast => ?_⟩
    obtain rfl := Option.some.inj (List.getLast?_concat.symm.trans hlast)
    nofun
  exact hreturns.interfered hread

theorem EndedWith.concluded (h : EndedWith committed session) : ConcludedAs committed session := by
  obtain ⟨before, after, config, kind, calls, -, hcommit, hreads⟩ := h
  induction hreads with
  | refl => exact (returns_commitTask_concluded config before).interfered hcommit committed rfl
  | tail _ hread ih => exact ih.read hread

theorem getLast?_writtenArtifact {metadata : List (Bytes × Bytes)} :
    (writtenArtifact session metadata).events.getLast? = session.events.getLast?.map
      TaskEvent.parsed := List.getLast?_map

/-- The log of a task that has failed to commit has it tried again. -/
theorem ConcludedAs.retries (h : ConcludedAs false session) (path : Bytes)
    (metadata : List (Bytes × Bytes)) :
    (recoverTaskSessionDecision path (writtenArtifact session metadata)).action =
      .retryFromScratch := by
  have hflag : (writtenArtifact session metadata).metadataValue (ascii "committed") ≠
      ascii "1" := by
    rw [ParsedTaskEventLogArtifact.metadataValue, lookup_committed, h.flag]
    decide
  have hphase : (writtenArtifact session metadata).metadataValue (ascii "task_phase") =
      ascii "3" := by
    rw [metadataValue_taskPhase, h.phase]
    decide
  have hfinal : finalEventType (writtenArtifact session metadata) ≠ some (ascii "COMMIT_TASK") := by
    rw [finalEventType, getLast?_writtenArtifact]
    intro hname
    obtain ⟨_, hparsed, hname⟩ := Option.map_eq_some_iff.1 hname
    obtain ⟨event, hlast, rfl⟩ := Option.map_eq_some_iff.1 hparsed
    have htype : taskEventTypeFromName (taskEventTypeName event.type) = .commitTask :=
      congrArg taskEventTypeFromName hname
    rw [taskEventTypeFromName_taskEventTypeName] at htype
    exact h.last rfl event hlast htype
  have hnot : ¬(ascii "3" = ascii "2") := by decide
  rw [recoverTaskSessionDecision]
  simp only [hflag, hphase, hfinal, hnot, or_self, ↓reduceIte]
  split <;> rfl

/-- The branch that the last event names. -/
def finalBranchId (session : TaskSession) : Bytes :=
  (session.events.getLast?.map (·.branchId)).getD []

theorem ConcludedAs.resumeBranchId (h : ConcludedAs true session) (path : Bytes)
    (metadata : List (Bytes × Bytes)) :
    (recoverTaskSessionDecision path (writtenArtifact session metadata)).resumeBranchId =
      finalBranchId session := by
  have hflag : (writtenArtifact session metadata).metadataValue (ascii "committed") =
      ascii "1" := by
    rw [ParsedTaskEventLogArtifact.metadataValue, lookup_committed, h.flag]
    rfl
  simp only [recoverTaskSessionDecision, hflag, true_or, ↓reduceIte]
  rw [getLast?_writtenArtifact, Option.map_map]
  rfl

/-- What recovery restores of an outcome. Which branch has committed is taken from the last
event. -/
structure RestoresOutcome (session recovered : TaskSession) : Prop where
  status : recovered.txn.status = session.txn.status
  phase : recovered.task.phase = session.task.phase
  committed : recovered.committed = session.committed
  branches : session.committed = true → ∀ branch ∈ recovered.txn.branches,
    branch.status = if branch.branchId = finalBranchId session then .committed else .discarded

theorem restoresOutcome_applyRecoveredTerminalState (h : ConcludedAs committed session)
    {recovered : RecoveredTaskSession} {metadata : List (Bytes × Bytes)}
    (hflag : recovered.session.committed = session.committed)
    (hdecision : recovered.recoveryPlan.decision = recoverTaskSessionDecision path
      (writtenArtifact session metadata)) :
    RestoresOutcome session (applyRecoveredTerminalState recovered).session := by
  have hstatus := h.status
  have hphase := h.phase
  have hcommitted := h.flag
  rw [hcommitted] at hflag
  rw [applyRecoveredTerminalState]
  cases committed with
  | true =>
    simp only [hflag, ↓reduceIte, hdecision, h.resumeBranchId]
    refine ⟨hstatus.symm, hphase.symm, hflag.trans hcommitted.symm, fun _ branch hbranch => ?_⟩
    obtain ⟨before, -, rfl⟩ := List.mem_map.1 hbranch
    rfl
  | false =>
    simp only [hflag, Bool.false_eq_true, ↓reduceIte, hdecision, h.retries]
    exact ⟨hstatus.symm, hphase.symm, hflag.trans hcommitted.symm, fun htrue =>
      absurd (hcommitted.symm.trans htrue) (by decide)⟩

/-- From the log of a task that has ended, recovery restores the status, the phase and the flag. -/
theorem recoverSessionFromLog_restores (h : EndedWith committed session)
    (config : FallbackCommitRuntimeConfig) (hlog : HoldsLog w path session) :
    ∃ recovered, (recoverSessionFromLog config path).run (handle kind) w = (.ok recovered, w) ∧
      RestoresOutcome session recovered.session := by
  have hreplannable := replannable_of_reached h.reached
  obtain ⟨metadata, submitted, -, -, hrun⟩ :=
    run_recoverSessionFromLog_of_holdsLog config hlog hreplannable.taskId fun metadata =>
      hreplannable.validate path metadata
  refine ⟨_, hrun, restoresOutcome_applyRecoveredTerminalState h.concluded ?_
    (isRecoveryPlan_buildTaskRecoveryPlan path (writtenArtifact session metadata)).decision⟩
  show decide ((if session.committed then ascii "1" else ascii "0") = ascii "1") = session.committed
  cases session.committed <;> rfl

/-! ### The winner of a recovered session -/

theorem keptByRecovery_noWinner (config : FallbackCommitRuntimeConfig) :
    KeptByRecovery config fun txn => txn.winnerBranchId = [] where
  submitted task plan :=
      (returns_submitTask_begun config task plan).mono fun r hbegun session hsession => by
    obtain ⟨artifactPath, hsame⟩ := hbegun session hsession
    exact hsame.winnerBranchId
  replayed h event := (returns_replayEvent event _).mono fun txn' hsame =>
    hsame.winnerBranchId.trans h
  restarted h _ _ := h

/-- Recovery of a task that has ended never restores the outcome, whatever log it reads: it
leaves the winner empty. -/
theorem recoverSessionFromLog_outcome_never (h : EndedWith committed session) (kind : StoreKind)
    (config : FallbackCommitRuntimeConfig) (path : Bytes) (w : World) :
    ¬∃ recovered, ((recoverSessionFromLog config path).run (handle kind) w).1 = .ok recovered ∧
      SameOutcome session recovered.session := by
  rintro ⟨recovered, hrun, hsame⟩
  have hnone : recovered.session.txn.winnerBranchId = [] :=
    ((keptByRecovery_noWinner config).recovered path).interfered (Program.interfered_run _ w)
      recovered hrun
  exact h.winnerBranchId_ne (hsame.winnerBranchId.symm.trans hnone)

/-- The task with one branch, committed. -/
theorem endedWith_noted : EndedWith true (committedAlone noted) :=
  ⟨noted, committedAlone noted, {}, .memory, _, reached_noted,
    Program.interfered_run (noted.commitTask {}) {}, .refl⟩

theorem recoverSessionFromLog_outcome_never_noted :
    ¬∃ recovered,
      ((recoverSessionFromLog {} (ascii "log")).run (handle .memory)
        (loggedIn {} (committedAlone noted))).1 =
        .ok recovered ∧ SameOutcome (committedAlone noted) recovered.session :=
  recoverSessionFromLog_outcome_never endedWith_noted .memory {} (ascii "log")
    (loggedIn {} (committedAlone noted))

/-- The log of a committed task is recovered as one that has committed, and that has no winner. -/
theorem recoverSessionFromLog_not_sameOutcome :
    EndedWith true (committedAlone noted) ∧
      HoldsLog (loggedIn {} (committedAlone noted)) (ascii "log") (committedAlone noted) ∧
      ∃ recovered,
        ((recoverSessionFromLog {} (ascii "log")).run (handle .memory)
          (loggedIn {} (committedAlone noted))).1 =
          .ok recovered ∧ ¬SameOutcome (committedAlone noted) recovered.session := by
  refine ⟨endedWith_noted, holdsLog_writeTaskEventLogArtifact (List.Perm.refl _) .memory
    (ascii "log") {}, _, rfl, fun h => ?_⟩
  exact absurd h.winnerBranchId (by decide)

end DataAgentSystem.Runtime
